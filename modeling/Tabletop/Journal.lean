import Tabletop.Binary.Arithmetic
import Tabletop.Command

/-!
# The journal of a run

Every command leaves entries behind: one when it is begun and one when it is
finished, or a single one when it is rejected, or a beginning and a
cancellation. An entry has the time of the simulated clock in whole
milliseconds and the number of the command, counted over all batches.

The journal can be asked how long a command took, printed line by line with
the durations, and summed up.
-/

namespace Tabletop

/-- What happened to a command. -/
inductive Phase where
  /-- It was begun. -/
  | started
  /-- It took effect. -/
  | finished
  /-- It was refused. -/
  | rejected
  /-- It was called off while its motion was being played. -/
  | cancelled
deriving DecidableEq, Repr

/-- The name of a phase. -/
def Phase.name : Phase → List Char
  | started => "Start".toList
  | finished => "Finish".toList
  | rejected => "Rejected".toList
  | cancelled => "Cancelled".toList

/-- One line of the journal. -/
structure Entry where
  /-- Simulated time, in milliseconds. -/
  time : UInt64
  /-- Number of the command, over all batches. -/
  index : Nat
  /-- The command. -/
  command : Command
  /-- What happened to it. -/
  phase : Phase
deriving DecidableEq

/-- The entries of a run, oldest first. -/
structure Journal where
  /-- The entries, oldest first. -/
  entries : Array Entry
deriving DecidableEq

namespace Journal

/-- The journal without entries. -/
def empty : Journal := ⟨#[]⟩

/-- The latest time that an entry can have. -/
def latest : Nat := UInt64.size - 1

/-- A time of the clock, in seconds, as whole milliseconds. Half a millisecond
counts as a whole one; times before zero, and those that are not numbers,
count as zero; times too late for 64 bits are cut to the latest. -/
def milliseconds (clock : Double) : UInt64 :=
  .ofNat ((clock.larger 0 * 1000).toNat latest)

/-- Adds an entry. -/
def record (j : Journal) (clock : Double) (index : Nat) (command : Command)
    (phase : Phase) : Journal :=
  ⟨j.entries.push { time := milliseconds clock, index, command, phase }⟩

variable (j : Journal)

/-- The time of the first entry that a command has of a phase. -/
def timeOf (index : Nat) (phase : Phase) : Option UInt64 :=
  (j.entries.find? fun e => e.index = index && e.phase = phase).map Entry.time

/-- The milliseconds from the beginning of a command to its end; zero if the
end is entered with an earlier time. -/
def duration? (index : Nat) : Option Nat := do
  let start ← j.timeOf index .started
  let finish ← j.timeOf index .finished
  return finish.toNat - start.toNat

/-! ## Printing -/

/-- The beginnings that wait for their end: numbers of commands with their
times, the latest in front. -/
abbrev Pending := List (Nat × UInt64)

/-- What stands before a phase on a line. -/
def lineStart (e : Entry) : String :=
  "[" ++ String.ofList (Numeral.inColumn 6 e.time.toNat) ++ "ms] #"
    ++ String.ofList (Numeral.inColumn 3 (e.index + 1)) ++ " "

/-- The line of an entry, and the beginnings that wait after it. An end is
paired with the latest beginning of the same command since that command's
last end or cancellation. -/
def line (pending : Pending) (e : Entry) : Pending × String :=
  let rest := pending.filter fun p => p.1 ≠ e.index
  let command := String.ofList e.command.text
  match e.phase with
  | .started =>
    ((e.index, e.time) :: rest, lineStart e ++ "START    " ++ command)
  | .finished =>
    match pending.find? fun p => p.1 = e.index with
    | some (_, start) =>
      (rest, lineStart e ++ "FINISH   " ++ command ++ " [duration: "
        ++ String.ofList (Numeral.ofNat (e.time - start).toNat) ++ "ms]")
    | none =>
      (pending, lineStart e ++ "FINISH   " ++ command ++ " [no matching start]")
  | .cancelled => (rest, lineStart e ++ "CANCEL   " ++ command)
  | .rejected => (pending, lineStart e ++ "REJECTED " ++ command)

/-- The lines of entries, given the beginnings that wait before them. -/
def linesFrom (pending : Pending) : List Entry → List String
  | [] => []
  | e :: rest =>
    let (pending, text) := line pending e
    text :: linesFrom pending rest

/-- The journal with a line for each entry, a heading and a closing line. -/
def print : String :=
  "\n=== Command Log with Durations ===\n"
    ++ String.join ((linesFrom [] j.entries.toList).map (· ++ "\n"))
    ++ "=== End of Log ===\n\n"

/-! ## Summing up -/

/-- The time of the last entry; zero if there is none. -/
def lastTime : UInt64 := (j.entries.back?.map Entry.time).getD 0

/-- How many commands took effect, by their kind, and how many were rejected. -/
@[ext]
structure Totals (α : Type) where
  /-- Placements that took effect. -/
  placed : α
  /-- Steps that took effect. -/
  moved : α
  /-- Turns that took effect. -/
  turned : α
  /-- Reports that were made. -/
  reported : α
  /-- Commands of any kind that were rejected. -/
  rejected : α
deriving DecidableEq

namespace Totals

variable {α β : Type}

/-- The same of each number. -/
def map (f : α → β) (t : Totals α) : Totals β :=
  { placed := f t.placed
    moved := f t.moved
    turned := f t.turned
    reported := f t.reported
    rejected := f t.rejected }

/-- The numbers, in the order of a summary. -/
def toList (t : Totals α) : List α := [t.placed, t.moved, t.turned, t.reported, t.rejected]

/-- Nothing counted yet. -/
def zero : Totals Int32 :=
  { placed := 0, moved := 0, turned := 0, reported := 0, rejected := 0 }

/-- Counts an entry, if it is one of an end or of a rejection. The numbers have
32 bits, and after the greatest comes the least. -/
def add (t : Totals Int32) (e : Entry) : Totals Int32 :=
  match e.phase with
  | .finished =>
    match e.command with
    | .place .. => { t with placed := t.placed + 1 }
    | .move => { t with moved := t.moved + 1 }
    | .left => { t with turned := t.turned + 1 }
    | .right => { t with turned := t.turned + 1 }
    | .report => { t with reported := t.reported + 1 }
  | .rejected => { t with rejected := t.rejected + 1 }
  | .started => t
  | .cancelled => t

end Totals

/-- The totals of all entries. -/
def totals : Totals Int32 := j.entries.foldl Totals.add .zero

/-- The wording of a summary: the time of the run, the number of entries, and
the totals. -/
def summaryOf (duration entries : Nat) (totals : Totals Int) : String :=
  let number (i : Int) := String.ofList (Numeral.ofInt i)
  "Simulated Duration: " ++ number duration ++ "ms\n"
    ++ "Total Events: " ++ number entries ++ "\n"
    ++ "Executed: " ++ number totals.placed ++ " placed, " ++ number totals.moved ++ " moved, "
    ++ number totals.turned ++ " turned, " ++ number totals.reported ++ " reported\n"
    ++ "Rejected: " ++ number totals.rejected

/-- The summary of a run. -/
def summary : String :=
  summaryOf j.lastTime.toNat j.entries.size (j.totals.map Int32.toInt)

end Journal

end Tabletop
