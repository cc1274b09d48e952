import Tabletop.Command.Reader
import Tabletop.Journal
import Tabletop.Robot

/-!
# Simulations

A simulation is a robot on a table under a clock. It works through one batch
of commands at a time and keeps a journal of all of them. What a batch brings
about, the reports and the faults in the order in which they came up, is its
outcome, and it can be asked to leave a copy of the outcome for a watcher.

A fault belongs to one command and stops no batch: the command is passed over
and the next one is taken up.
-/

namespace Tabletop

/-- What a simulation refuses to do. -/
inductive Fault where
  /-- The robot cannot be placed off the table. -/
  | offTable (x y : Int32)
  /-- Before it has been placed, the robot obeys no other command. -/
  | unplaced (command : Command)
  /-- One batch is worked through at a time. -/
  | batchRunning
  /-- The table refused. -/
  | table (error : TableError)
  /-- The robot refused. -/
  | robot (error : Refusal)
deriving DecidableEq

/-- The wording of a fault. -/
def Fault.message : Fault → String
  | offTable x y =>
    "tried to place robot at " ++ String.ofList (Numeral.ofInt x.toInt) ++ ","
      ++ String.ofList (Numeral.ofInt y.toInt) ++ " which is invalid"
  | unplaced command =>
    "robot cannot " ++ String.ofList command.text
      ++ " until it has been placed on the table"
  | batchRunning => "a command batch is already running"
  | table error => error.message
  | robot error => error.message

/-- What a batch brought about. -/
structure Outcome where
  /-- The reports, in order. -/
  reports : Array (List Char)
  /-- The faults, in order. -/
  faults : Array Fault
  /-- The batch was called off before its end. -/
  cancelled : Bool
deriving DecidableEq

namespace Outcome

/-- The outcome of a batch that has not done anything yet. -/
def empty : Outcome := { reports := #[], faults := #[], cancelled := false }

instance : Inhabited Outcome := ⟨empty⟩

/-- Adds a report, if there is one. -/
def addReport (o : Outcome) : Option (List Char) → Outcome
  | none => o
  | some report => { o with reports := o.reports.push report }

/-- Adds a fault. -/
def addFault (o : Outcome) (fault : Fault) : Outcome :=
  { o with faults := o.faults.push fault }

end Outcome

/-- A batch that is being worked through. -/
structure Batch where
  /-- The commands not yet taken up, in order. -/
  waiting : List Command
  /-- The command whose motion is being played, with its number. -/
  current : Option (Nat × Command)
  /-- What the batch has brought about so far. -/
  outcome : Outcome
  /-- Who gets a copy of the outcome. -/
  watcher : Option String
deriving DecidableEq

/-- A robot on a table under a clock. -/
structure Simulation where
  /-- The table. -/
  table : Table
  /-- The robot. -/
  robot : Robot
  /-- Seconds that one frame of a run takes. -/
  frame : Single
  /-- Whether runs are at the speed of the clock on the wall. -/
  realtime : Bool
  /-- Simulated seconds so far. -/
  clock : Double
  /-- The number that the next command gets. -/
  nextIndex : Nat
  /-- The batch being worked through, if any. -/
  batch : Option Batch
  /-- What happened to every command. -/
  journal : Journal
  /-- Outcomes left for watchers and not yet collected, in order. -/
  notices : Array (String × Outcome)

namespace Simulation

/-- A sixtieth of a second. -/
def defaultFrame : Single := .ofRatio false 1 60

/-- A tenth of a millisecond, the shortest frame. -/
def shortestFrame : Single := .ofRatio false 1 10000

/-- A time that a frame can take: a positive finite one, made no shorter than
the shortest, or else the default. -/
def soundFrame (seconds : Single) : Single :=
  if seconds.isFinite && decide (0 < seconds) then seconds.larger shortestFrame
  else defaultFrame

/-- A simulation with nothing to do, at time zero. -/
def new (table : Table) (robot : Robot) : Simulation :=
  { table, robot
    frame := defaultFrame
    realtime := false
    clock := 0
    nextIndex := 0
    batch := none
    journal := .empty
    notices := #[] }

variable (s : Simulation)

/-- Sets the time of a frame. -/
def setFrame (seconds : Single) : Simulation := { s with frame := soundFrame seconds }

/-- Sets the pace of runs. -/
def setRealtime (realtime : Bool) : Simulation := { s with realtime }

/-- A batch is being worked through. -/
def isRunning : Bool := s.batch.isSome

/-- Begins a batch, for a watcher if one is given. Nothing happens before
time advances. -/
def accept (commands : List Command) (watcher : Option String) :
    Except Fault Simulation :=
  if s.isRunning then
    .error .batchRunning
  else
    .ok { s with
      batch := some { waiting := commands, current := none, outcome := .empty, watcher } }

/-- The outcomes left for watchers, and the simulation without them. -/
def collectNotices : Simulation × Array (String × Outcome) :=
  ({ s with notices := #[] }, s.notices)

/-- Adds an entry to the journal. -/
def record (time : Double) (index : Nat) (command : Command) (phase : Phase) :
    Simulation :=
  { s with journal := s.journal.record time index command phase }

/-- Ends a batch: the outcome is handed over, with a copy to the watcher. -/
def conclude (b : Batch) : Simulation × Outcome :=
  let notices := match b.watcher with
    | some watcher => s.notices.push (watcher, b.outcome)
    | none => s.notices
  ({ s with batch := none, notices }, b.outcome)

end Simulation

end Tabletop
