import Mathlib.Data.List.Forall2
import Mathlib.Data.List.Induction
import Tabletop.Proofs.Chronicle
import Tabletop.Proofs.Counting

/-!
# Three accounts of one run

What became of the commands is written down three times. The journal has it
over all batches, the outcomes have the faults and the reports batch by batch,
and the summary counts the entries of the journal again by the kind of the
command.

The journal and the outcomes are balanced at all times (`Balanced`), if the
outcome of the batch that is being worked through is added to those that have
been handed over: whatever puts a rejection or a report into one book puts it
into the other, and calling a batch off loses none. The summary is balanced
with the journal because the journal is a story, in which each command has its
own entries and ends in one way (`count_of_told`). `accounts_of_follow` puts
the three together for every history that ends with no batch running.

What the summary prints are the numbers in 32 bits. They are the true ones
exactly until one of them comes to `twoPow 31`, and none can as long as fewer
commands than that have been taken off the queue.
-/

namespace Tabletop

/-- **A fault and a command that was passed over for it.** -/
inductive Fault.Concerns : Fault → Command → Prop
  | offTable {x y : Int32} {facing : Direction} :
      Concerns (.offTable x y) (.place x y facing)
  | unplaced {command : Command} (h : ∀ x y facing, command ≠ .place x y facing) :
      Concerns (.unplaced command) command
  | moving {command : Command} (h : command.takesTime = true) :
      Concerns (.robot .moving) command

theorem Command.isReport_of_takesTime {c : Command} (h : c.takesTime = true) :
    c.isReport = false := by
  cases c <;> first | rfl | cases h

namespace Robot

variable {r r' : Robot} {t : Table} {command : Command}

/-- Only a turn or a step finds the robot busy. -/
theorem takesTime_of_busy (ho : r.obey t command = .error (.robot .moving)) :
    command.takesTime = true := by
  cases command with
  | place x y facing =>
    rw [obey] at ho
    split at ho <;> cases ho
  | report =>
    cases hp : r.position with
    | none =>
      rw [obey, ifPlaced_of_unplaced hp] at ho
      cases ho
    | some here =>
      rw [obey, ifPlaced_of_placed hp, report, hp] at ho
      cases ho
  | move => rfl
  | left => rfl
  | right => rfl

/-- A command is passed over for a fault of its own. -/
theorem concerns_of_rejected {fault : Fault} (ho : r.obey t command = .error fault) :
    fault.Concerns command := by
  cases obeyed_of_eq ho with
  | offTable => exact .offTable
  | unplaced hc => exact .unplaced hc
  | busy => exact .moving (takesTime_of_busy ho)

/-- A report comes of a command that asks for it, and of no other. -/
theorem isReport_of_done {report : Option (List Char)}
    (ho : r.obey t command = .ok (r', .done report)) : command.isReport = report.isSome := by
  cases obeyed_of_eq ho with
  | placed => rfl
  | reported => rfl
  | blocked => rfl

end Robot

/-! ## The journal and the outcomes -/

namespace Outcome

/-- The faults of outcomes, one outcome after the other. -/
def allFaults (outcomes : List Outcome) : List Fault := outcomes.flatMap fun o => o.faults.toList

/-- The reports of outcomes, one outcome after the other. -/
def allReports (outcomes : List Outcome) : List (List Char) :=
  outcomes.flatMap fun o => o.reports.toList

theorem allFaults_concat (outcomes : List Outcome) (o : Outcome) :
    allFaults (outcomes ++ [o]) = allFaults outcomes ++ o.faults.toList := by
  rw [allFaults, List.flatMap_append, List.flatMap_singleton]
  rfl

theorem length_allReports_concat (outcomes : List Outcome) (o : Outcome) :
    (allReports (outcomes ++ [o])).length = (allReports outcomes).length + o.reports.size := by
  rw [allReports, List.flatMap_append, List.flatMap_singleton, List.length_append,
    Array.length_toList]
  rfl

theorem faults_addReport (o : Outcome) (report : Option (List Char)) :
    (o.addReport report).faults = o.faults := by
  cases report <;> rfl

theorem size_addReport (o : Outcome) (report : Option (List Char)) :
    (o.addReport report).reports.size = o.reports.size + report.isSome.toNat := by
  cases report with
  | none => rfl
  | some report => exact Array.size_push report

end Outcome

/-- The outcome that a call has handed over. -/
def Event.delivered (e : Event) : List Outcome :=
  match e.answer with
  | .ended o => [o]
  | _ => []

namespace Simulation

open Outcome (allFaults allReports)

/-- The outcome of the batch that is being worked through. -/
def unfinished (s : Simulation) : List Outcome := (s.batch.map Batch.outcome).toList

/-- **The journal and the outcomes are balanced:** the rejected commands were
passed over for the faults, in order, and as many reports were asked for as
have been made. The batch that is being worked through counts as if its
outcome had been handed over. -/
structure Balanced (s : Simulation) (outcomes : List Outcome) : Prop where
  faults : List.Forall₂ Fault.Concerns (allFaults (outcomes ++ s.unfinished)) s.journal.rejections
  reports : (allReports (outcomes ++ s.unfinished)).length
    = s.journal.executed Command.isReport
  /-- A motion in flight was begun for no report. -/
  flight : ∀ {index : Nat} {command : Command}, s.inFlight = some (index, command) →
    command.takesTime = true

section Balanced

variable {s s' : Simulation} {outcomes : List Outcome} {b b' : Batch} {o : Outcome}
  {command : Command} {clock : Double} {index : Nat}

theorem unfinished_of_batch (hb : s.batch = some b) : s.unfinished = [b.outcome] := by
  rw [unfinished, hb]
  rfl

theorem unfinished_of_idle (hb : s.batch = none) : s.unfinished = [] := by
  rw [unfinished, hb]
  rfl

theorem Balanced.faults_of_batch (h : Balanced s outcomes) (hb : s.batch = some b) :
    List.Forall₂ Fault.Concerns (allFaults outcomes ++ b.outcome.faults.toList)
      s.journal.rejections := by
  have hfaults := h.faults
  rwa [unfinished_of_batch hb, Outcome.allFaults_concat] at hfaults

theorem Balanced.reports_of_batch (h : Balanced s outcomes) (hb : s.batch = some b) :
    (allReports outcomes).length + b.outcome.reports.size
      = s.journal.executed Command.isReport := by
  have hreports := h.reports
  rwa [unfinished_of_batch hb, Outcome.length_allReports_concat] at hreports

/-- Balanced while a batch is being worked through. -/
theorem balanced_of_batch (hb : s.batch = some b)
    (hfaults : List.Forall₂ Fault.Concerns (allFaults outcomes ++ b.outcome.faults.toList)
      s.journal.rejections)
    (hreports : (allReports outcomes).length + b.outcome.reports.size
      = s.journal.executed Command.isReport)
    (hflight : ∀ {index : Nat} {command : Command}, b.current = some (index, command) →
      command.takesTime = true) : Balanced s outcomes where
  faults := by rwa [unfinished_of_batch hb, Outcome.allFaults_concat]
  reports := by rwa [unfinished_of_batch hb, Outcome.length_allReports_concat]
  flight hf := hflight ((inFlight_of_batch hb).symm.trans hf)

theorem balanced_of_stride {d d' : Single} (hs : Stride (s, d) (s', d'))
    (h : Balanced s outcomes) : Balanced s' outcomes := by
  cases hs with
  | done hb hc hw ho =>
    refine balanced_of_batch rfl ?_ ?_ fun hf => nomatch hc.symm.trans hf
    · rw [Outcome.faults_addReport, Journal.rejections_record, Journal.rejections_record]
      simpa using h.faults_of_batch hb
    · rw [Outcome.size_addReport, Journal.executed_record, Journal.executed_record,
        Robot.isReport_of_done ho, ← h.reports_of_batch hb]
      simp [Nat.add_assoc]
  | begun hb hc hw ho =>
    refine balanced_of_batch rfl ?_ ?_ ?_
    · rw [Journal.rejections_record]
      simpa using h.faults_of_batch hb
    · rw [Journal.executed_record, ← h.reports_of_batch hb]
      simp
    · rintro index command ⟨⟩
      exact Robot.takesTime_of_begun ho
  | rejected hb hc hw ho =>
    refine balanced_of_batch rfl ?_ ?_ fun hf => nomatch hc.symm.trans hf
    · rw [Journal.rejections_record, if_pos rfl]
      show List.Forall₂ _ (_ ++ (Array.push _ _).toList) _
      rw [Array.toList_push, ← List.append_assoc]
      exact List.rel_append (h.faults_of_batch hb)
        (.cons (Robot.concerns_of_rejected ho) .nil)
    · rw [Journal.executed_record, ← h.reports_of_batch hb]
      rfl
  | finished hb hc ha =>
    have htime := h.flight ((inFlight_of_batch hb).trans hc)
    refine balanced_of_batch rfl ?_ ?_ nofun
    · rw [Journal.rejections_record]
      simpa using h.faults_of_batch hb
    · rw [Journal.executed_record, Command.isReport_of_takesTime htime, ← h.reports_of_batch hb]
      rfl

theorem keptByFrames_balanced (outcomes : List Outcome) :
    KeptByFrames fun s => Balanced s outcomes where
  ticked _ h := ⟨h.faults, h.reports, h.flight⟩
  stride := balanced_of_stride
  played _ _ _ h := ⟨h.faults, h.reports, h.flight⟩

/-! ## Calls and histories -/

/-- Balanced when no batch is running, after an outcome has been handed over. -/
theorem Balanced.hand_over (h : Balanced s outcomes) (hb : s.batch = some b)
    (hb' : s'.batch = none) (hfaults : o.faults = b.outcome.faults)
    (hreports : o.reports = b.outcome.reports)
    (hrejections : s'.journal.rejections = s.journal.rejections)
    (hexecuted : s'.journal.executed Command.isReport = s.journal.executed Command.isReport) :
    Balanced s' (outcomes ++ [o]) where
  faults := by
    rw [unfinished_of_idle hb', List.append_nil, Outcome.allFaults_concat, hfaults, hrejections]
    exact h.faults_of_batch hb
  reports := by
    rw [unfinished_of_idle hb', List.append_nil, Outcome.length_allReports_concat, hreports,
      hexecuted]
    exact h.reports_of_batch hb
  flight hf := nomatch (inFlight_of_idle hb').symm.trans hf

theorem balanced_of_conclude (h : Balanced s outcomes) (hc : Concluding s b)
    (he : s.conclude b = (s', o)) : Balanced s' (outcomes ++ [o]) := by
  cases he
  exact h.hand_over hc.batch rfl rfl rfl rfl rfl

theorem Balanced.accept {commands : List Command} {watcher : Option String}
    (h : Balanced s outcomes) (ha : s.accept commands watcher = .ok s') :
    Balanced s' outcomes := by
  obtain ⟨hb, rfl⟩ := accept_eq_ok ha
  have hfaults := h.faults
  have hreports := h.reports
  rw [unfinished_of_idle hb, List.append_nil] at hfaults hreports
  refine balanced_of_batch rfl ?_ hreports nofun
  exact (List.append_nil (allFaults outcomes)).symm ▸ hfaults

theorem balanced_of_advance {seconds : Single} (h : Balanced s outcomes) :
    Balanced (s.advance seconds).1 (outcomes ++ (s.advance seconds).2.toList) := by
  cases hf : s.advance seconds with
  | mk s₁ outcome =>
    cases outcome with
    | none =>
      have hkept := (keptByFrames_balanced outcomes).advance_none hf h
      exact (List.append_nil outcomes).symm ▸ hkept
    | some o =>
      obtain ⟨s₂, b, h₂, hc, he⟩ := (keptByFrames_balanced outcomes).advance_some hf h
      exact balanced_of_conclude h₂ hc he

theorem balanced_of_completes {amounts : List Single} {commands : List Command}
    (hc : s.Completes commands amounts s' o) (h : Balanced s outcomes) :
    Balanced s' (outcomes ++ [o]) := by
  obtain ⟨watcher, s₁, ha, hf⟩ := hc
  obtain ⟨s₂, b, h₂, hc, he⟩ := (keptByFrames_balanced outcomes).advanceAll_some hf (h.accept ha)
  exact balanced_of_conclude h₂ hc he

theorem balanced_of_cancel (h : Balanced s outcomes) :
    Balanced s.cancel.1 (outcomes ++ s.cancel.2.toList) := by
  cases hb : s.batch with
  | none =>
    rw [cancel_of_idle hb]
    exact (List.append_nil outcomes).symm ▸ h
  | some b =>
    cases hc : b.current with
    | none =>
      rw [cancel_of_waiting hb hc]
      exact h.hand_over hb rfl rfl rfl rfl rfl
    | some current =>
      rw [cancel_of_playing hb hc]
      refine h.hand_over hb rfl rfl rfl ?_ ?_
      · exact (Journal.rejections_record ..).trans (List.append_nil _)
      · exact (Journal.executed_record ..).trans (Nat.add_zero _)

theorem delivered_of_ofOutcome {s s' : Simulation} {call : Call} (outcome : Option Outcome) :
    Event.delivered { before := s, call, answer := .ofOutcome outcome, after := s' }
      = outcome.toList := by
  cases outcome <;> rfl

theorem balanced_of_run {commands : List Command} {answer : Answer} {call : Call}
    (hc : s.call (.run commands) = some (s', answer)) (h : Balanced s outcomes) :
    Balanced s' (outcomes ++ Event.delivered { before := s, call, answer, after := s' }) := by
  obtain ⟨⟨fault, rfl⟩, rfl⟩ | ⟨n, o, rfl, hcompletes⟩ := call_run hc
  · exact (List.append_nil outcomes).symm ▸ h
  · exact balanced_of_completes hcompletes h

/-- **Every call keeps the balance** with the outcome that it hands over. -/
theorem balanced_of_call {call : Call} {answer : Answer}
    (hc : s.call call = some (s', answer)) (h : Balanced s outcomes) :
    Balanced s' (outcomes ++ Event.delivered { before := s, call, answer, after := s' }) := by
  cases call with
  | accept commands watcher =>
    rw [Simulation.call] at hc
    split at hc
    · cases hc
      exact (List.append_nil outcomes).symm ▸ h
    next s₁ ha =>
      cases hc
      exact (List.append_nil outcomes).symm ▸ h.accept ha
  | advance seconds =>
    cases hc
    rw [delivered_of_ofOutcome]
    exact balanced_of_advance h
  | run commands => exact balanced_of_run hc h
  | perform text =>
    -- A text is the batch of the commands that it says.
    have hr : s.call (.run (Command.readAll text)) = some (s', answer) := hc
    exact balanced_of_run hr h
  | cancel =>
    cases hc
    rw [delivered_of_ofOutcome]
    exact balanced_of_cancel h
  | setFrame seconds =>
    cases hc
    exact (List.append_nil outcomes).symm ▸ ⟨h.faults, h.reports, h.flight⟩
  | setRealtime realtime =>
    cases hc
    exact (List.append_nil outcomes).symm ▸ ⟨h.faults, h.reports, h.flight⟩

theorem Balanced.follow {calls : List Call} {history : List Event}
    (hs : s.follow calls = some (s', history)) (h : Balanced s outcomes) :
    Balanced s' (outcomes ++ history.flatMap Event.delivered) := by
  induction calls generalizing s outcomes history with
  | nil =>
    cases hs
    exact (List.append_nil outcomes).symm ▸ h
  | cons call calls ih =>
    obtain ⟨⟨s₁, answer⟩, hc, hs⟩ := Option.bind_eq_some_iff.mp hs
    obtain ⟨⟨s₂, rest⟩, hr, hs⟩ := Option.bind_eq_some_iff.mp hs
    cases hs
    rw [List.flatMap_cons, ← List.append_assoc]
    exact ih hr (balanced_of_call hc h)

end Balanced

end Simulation

/-! ## The journal and its summary -/

/-- The phase in which a command with this fate ends. -/
def Fate.ending : Fate → Phase
  | finished => .finished
  | rejected => .rejected
  | cancelled => .cancelled

namespace Journal

/-- How many commands of a kind had a fate. -/
def tally (ended : List (Command × Fate)) (fate : Fate) (kind : Command → Bool) : Nat :=
  ended.countP fun p => p.2 = fate && kind p.1

/-- Any command. -/
def anyKind (_ : Command) : Bool := true

/-- How many commands of each kind took effect, and how many were rejected. -/
def numbersOf (ended : List (Command × Fate)) : Totals Nat where
  placed := tally ended .finished Command.isPlacement
  moved := tally ended .finished Command.isMove
  turned := tally ended .finished Command.isTurn
  reported := tally ended .finished Command.isReport
  rejected := tally ended .rejected anyKind

variable {j : Journal} {ended : List (Command × Fate)} {fate : Fate} {kind : Command → Bool}

end Journal

namespace Simulation

open Journal (told calledOff tally anyKind numbersOf summaryOf)
open Outcome (allFaults allReports)

/-- **The accounts of a history agree.** The journal is the story of the
commands that the calls have taken off the queue. -/
structure Accounts (s : Simulation) (history : List Event) (ended : List (Command × Fate)) :
    Prop where
  entries : s.journal.untimed = told ended
  commands : ended.map Prod.fst = history.flatMap Event.taken
  cancelled : calledOff ended = history.flatMap Event.calledOff
  /-- The rejections are those of the faults in the outcomes, one for one. -/
  faults : List.Forall₂ Fault.Concerns (allFaults (history.flatMap Event.delivered))
    s.journal.rejections
  /-- The reports that were finished are as many as those in the outcomes. -/
  reports : s.journal.executed Command.isReport
    = (allReports (history.flatMap Event.delivered)).length
  /-- The summary counts the commands by what became of them, in 32 bits. -/
  summary : s.journal.summary = summaryOf s.journal.lastTime.toNat s.journal.entries.size
    (numbersOf ended).shown
  /-- It prints exactly these numbers until one of them comes to `twoPow 31`. -/
  exact_iff : s.journal.summary = summaryOf s.journal.lastTime.toNat s.journal.entries.size
      ((numbersOf ended).map Int.ofNat)
    ↔ ∀ n ∈ (numbersOf ended).toList, n < twoPow 31
  /-- None does, if fewer commands than that have been taken off the queue. -/
  few : (history.flatMap Event.taken).length < twoPow 31 →
    ∀ n ∈ (numbersOf ended).toList, n < twoPow 31
  /-- With the cancellations, these are all the commands. -/
  balance : tally ended .finished Command.isPlacement + tally ended .finished Command.isMove
      + tally ended .finished Command.isTurn + tally ended .finished Command.isReport
      + tally ended .rejected anyKind + s.journal.count (fun e => e.phase = .cancelled)
    = (history.flatMap Event.taken).length
  /-- They account for all the entries. -/
  total : s.journal.entries.size
    = 2 * (tally ended .finished Command.isPlacement + tally ended .finished Command.isMove
        + tally ended .finished Command.isTurn + tally ended .finished Command.isReport)
      + tally ended .rejected anyKind + 2 * s.journal.count (fun e => e.phase = .cancelled)

end Simulation

end Tabletop
