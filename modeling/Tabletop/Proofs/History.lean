import Tabletop.Simulation.Run
import Tabletop.Settings

/-!
# Calls and histories

A simulation is used through a few calls: a batch is handed over, time
advances frame by frame or until the batch ends, the batch is called off, and
two settings can be changed at any moment. A **history** is a sequence of
calls in any order, each with what it answered and the simulation before and
after it. What is true of a simulation at all times is what is true at the end
of every history.

A call may give no answer at all: a run does not come back if its batch never
ends, or if it has to wait too long, so no history goes past it.
-/

namespace Tabletop

/-- What can be asked of a simulation. -/
inductive Call where
  /-- Begin a batch, for a watcher if one is given. -/
  | accept (commands : List Command) (watcher : Option String)
  /-- Let the time of one frame pass. -/
  | advance (seconds : Single)
  /-- Work through a batch from beginning to end. -/
  | run (commands : List Command)
  /-- Work through the commands of a text from beginning to end. -/
  | perform (text : List Char)
  /-- Call the batch off. -/
  | cancel
  /-- Set the time of a frame of a run. -/
  | setFrame (seconds : Single)
  /-- Set the pace of runs. -/
  | setRealtime (realtime : Bool)

/-- What a call answers. -/
inductive Answer where
  /-- There is nothing to say. -/
  | nothing
  /-- The call was refused. -/
  | refused (fault : Fault)
  /-- A batch has ended, and this is its outcome. -/
  | ended (outcome : Outcome)

/-- The answer that hands over an outcome, if there is one. -/
def Answer.ofOutcome : Option Outcome → Answer
  | none => .nothing
  | some outcome => .ended outcome

/-- One call of a history. -/
structure Event where
  /-- The simulation before the call. -/
  before : Simulation
  /-- The call. -/
  call : Call
  /-- Its answer. -/
  answer : Answer
  /-- The simulation after the call. -/
  after : Simulation

namespace Simulation

/-- What a run comes back with, if it does. -/
def comeBack (s : Simulation) :
    Except Fault (Option (Simulation × Outcome)) → Option (Simulation × Answer)
  | .error fault => some (s, .refused fault)
  | .ok none => none
  | .ok (some (s', outcome)) => some (s', .ended outcome)

/-- The simulation after a call, and the answer. -/
def call (s : Simulation) : Call → Option (Simulation × Answer)
  | .accept commands watcher =>
    match s.accept commands watcher with
    | .error fault => some (s, .refused fault)
    | .ok s' => some (s', .nothing)
  | .advance seconds => some ((s.advance seconds).map id .ofOutcome)
  | .run commands => s.comeBack (s.run commands)
  | .perform text => s.comeBack (s.perform text)
  | .cancel => some (s.cancel.map id .ofOutcome)
  | .setFrame seconds => some (s.setFrame seconds, .nothing)
  | .setRealtime realtime => some (s.setRealtime realtime, .nothing)

/-- The simulation after some calls, and the history of them. -/
def follow (s : Simulation) : List Call → Option (Simulation × List Event)
  | [] => some (s, [])
  | call :: calls => do
    let (s₁, answer) ← s.call call
    let (s₂, history) ← s₁.follow calls
    return (s₂, { before := s, call, answer, after := s₁ } :: history)

/-- A simulation as it is set up, before any call: on a table with a robot in
any state, or as settings say. -/
inductive Initial : Simulation → Prop
  | new (t : Table) (r : Robot) : Initial (.new t r)
  | settings {c : Settings} {s : Simulation} (h : c.simulation = .ok s) : Initial s

/-- Time advances by several amounts, one frame for each, until the batch
ends. The amounts after that frame are not looked at. -/
def advanceAll (s : Simulation) : List Single → Simulation × Option Outcome
  | [] => (s, none)
  | seconds :: rest =>
    match s.advance seconds with
    | (s, none) => s.advanceAll rest
    | (s, some outcome) => (s, some outcome)

/-- A batch is begun, and it ends when time has advanced by some amounts. -/
def Completes (s : Simulation) (commands : List Command) (amounts : List Single)
    (s' : Simulation) (o : Outcome) : Prop :=
  ∃ watcher s₁, s.accept commands watcher = .ok s₁ ∧ s₁.advanceAll amounts = (s', some o)

/-- Whether a batch ends when time has advanced by some amounts. -/
def endsWithin (s : Simulation) (commands : List Command) (amounts : List Single) : Bool :=
  match s.accept commands none with
  | .error _ => false
  | .ok s₁ => (s₁.advanceAll amounts).2.isSome

theorem completes_of_endsWithin {s : Simulation} {commands : List Command}
    {amounts : List Single} (h : s.endsWithin commands amounts = true) :
    ∃ s' o, s.Completes commands amounts s' o := by
  unfold endsWithin at h
  split at h
  · cases h
  next s₁ ha =>
    obtain ⟨o, ho⟩ := Option.isSome_iff_exists.mp h
    exact ⟨_, o, none, s₁, ha, Prod.ext rfl ho⟩

/-- The command whose motion is being played, with its number. -/
def inFlight (s : Simulation) : Option (Nat × Command) := s.batch.bind Batch.current

/-- The commands that are not taken up yet. -/
def waiting (s : Simulation) : List Command := (s.batch.map Batch.waiting).getD []

variable {s : Simulation} {b : Batch}

theorem inFlight_of_batch (hb : s.batch = some b) : s.inFlight = b.current := by
  rw [inFlight, hb]
  rfl

theorem inFlight_of_idle (hb : s.batch = none) : s.inFlight = none := by
  rw [inFlight, hb]
  rfl

theorem waiting_of_batch (hb : s.batch = some b) : s.waiting = b.waiting := by
  rw [waiting, hb]
  rfl

/-! ## Cutting and joining histories -/

variable {s₀ s' : Simulation} {calls : List Call}

/-- A history may be cut at any of its calls: up to it there is a history, it
is a call of the simulation reached there, and after it there is a history. -/
theorem follow_split {before rest : List Event} {e : Event}
    (hs : s₀.follow calls = some (s, before ++ e :: rest)) :
    ∃ earlier later, calls = earlier ++ e.call :: later ∧ earlier.length = before.length
      ∧ s₀.follow earlier = some (e.before, before)
      ∧ e.before.call e.call = some (e.after, e.answer)
      ∧ e.after.follow later = some (s, rest) := by
  induction before generalizing s₀ calls with
  | nil =>
    cases calls with
    | nil => cases hs
    | cons call calls =>
      obtain ⟨⟨s₁, answer⟩, hc, hs⟩ := Option.bind_eq_some_iff.mp hs
      obtain ⟨⟨s₂, history⟩, hr, hs⟩ := Option.bind_eq_some_iff.mp hs
      cases hs
      exact ⟨[], calls, rfl, rfl, rfl, hc, hr⟩
  | cons e' before ih =>
    cases calls with
    | nil => cases hs
    | cons call calls =>
      obtain ⟨⟨s₁, answer⟩, hc, hs⟩ := Option.bind_eq_some_iff.mp hs
      obtain ⟨⟨s₂, history⟩, hr, hs⟩ := Option.bind_eq_some_iff.mp hs
      cases hs
      obtain ⟨earlier, later, rfl, hlength, hearlier, he, hlater⟩ := ih hr
      refine ⟨call :: earlier, later, rfl, congrArg Nat.succ hlength, ?_, he, hlater⟩
      rw [follow, hc]
      show (s₁.follow earlier).bind _ = _
      rw [hearlier]
      rfl

theorem follow_append {earlier later : List Call} {before rest : List Event}
    (hearlier : s₀.follow earlier = some (s, before))
    (hlater : s.follow later = some (s', rest)) :
    s₀.follow (earlier ++ later) = some (s', before ++ rest) := by
  induction earlier generalizing s₀ before with
  | nil =>
    cases hearlier
    exact hlater
  | cons call calls ih =>
    obtain ⟨⟨s₁, answer⟩, hc, hs⟩ := Option.bind_eq_some_iff.mp hearlier
    obtain ⟨⟨s₂, history⟩, hr, hs⟩ := Option.bind_eq_some_iff.mp hs
    cases hs
    rw [List.cons_append, follow, hc]
    show (s₁.follow (calls ++ later)).bind _ = _
    rw [ih hr]
    rfl

end Simulation

end Tabletop
