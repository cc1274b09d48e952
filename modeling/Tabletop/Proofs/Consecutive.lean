import Tabletop.Proofs.Accounts
import Tabletop.Proofs.Returning
import Tabletop.Proofs.Splitting

/-!
# Runs one after another

Runs that follow one another on one simulation are compared here with a single
run of all their commands. `Performed.trans` already says that they come to the
same if all of them come back. What is missing is that one side comes back
if the other does. Where waiting is no hindrance, that is a matter of the
motions alone (`run_returns_iff_attains`): the motions of a joined batch are
those of its first part and then those of the second, begun where the first
leaves the robot (`Standing.motions_append`).

`Resumed` holds what a run leaves as it was, so that the next one can begin.
-/

namespace Tabletop

/-- Texts joined by line feeds are read one after another. -/
theorem Command.readAll_intercalate (texts : List (List Char)) :
    Command.readAll (['\n'].intercalate texts) = texts.flatMap Command.readAll := by
  induction texts with
  | nil => rfl
  | cons text texts ih =>
    cases texts with
    | nil => rw [List.intercalate_singleton, List.flatMap_singleton]
    | cons next texts =>
      rw [List.intercalate_cons_cons, List.append_assoc, List.singleton_append,
        Command.readAll_append, ih]
      rfl

namespace Outcome

/-- What batches brought about, one after another. -/
def all (outcomes : List Outcome) : Outcome := outcomes.foldr (· ++ ·) .empty

theorem reports_all (outcomes : List Outcome) :
    (all outcomes).reports.toList = allReports outcomes := by
  induction outcomes with
  | nil => rfl
  | cons o outcomes ih =>
    show (o.reports ++ (all outcomes).reports).toList = _
    rw [Array.toList_append, ih]
    rfl

theorem faults_all (outcomes : List Outcome) :
    (all outcomes).faults.toList = allFaults outcomes := by
  induction outcomes with
  | nil => rfl
  | cons o outcomes ih =>
    show (o.faults ++ (all outcomes).faults).toList = _
    rw [Array.toList_append, ih]
    rfl

end Outcome

namespace Standing

variable {t : Table}

/-- The outcome so far has no part in what sends the robot on its way. -/
theorem motions_outcome (t : Table) (r : Robot) (o p : Outcome) (commands : List Command) :
    ({ robot := r, outcome := o } : Standing).motions t commands
      = ({ robot := r, outcome := p } : Standing).motions t commands := by
  induction commands generalizing r o p with
  | nil => rfl
  | cons command rest ih =>
    cases ho : r.obey t command with
    | error fault =>
      rw [motions_of_rejected ho, motions_of_rejected ho]
      exact ih ..
    | ok result =>
      obtain ⟨robot, report | _⟩ := result
      · rw [motions_of_done ho, motions_of_done ho]
        exact ih ..
      · rw [motions_of_begun ho, motions_of_begun ho]
        exact congrArg _ (ih ..)

/-- **Motions go on** from where the first commands leave the robot. -/
theorem motions_append (a : Standing) (first rest : List Command) :
    a.motions t (first ++ rest) = a.motions t first ++ (a.obeyAll t first).motions t rest := by
  induction first generalizing a with
  | nil => rfl
  | cons command first ih =>
    have hall : a.obeyAll t (command :: first) = (a.obey t command).obeyAll t first := rfl
    rw [List.cons_append, hall]
    cases ho : a.robot.obey t command with
    | error fault =>
      rw [motions_of_rejected ho, motions_of_rejected ho, obey_of_rejected ho]
      exact ih _
    | ok result =>
      obtain ⟨robot, report | _⟩ := result
      · rw [motions_of_done ho, motions_of_done ho, obey_of_done ho]
        exact ih _
      · rw [motions_of_begun ho, motions_of_begun ho, obey_of_begun ho, List.cons_append]
        exact congrArg _ (ih _)

end Standing

namespace Simulation

/-- Between two runs: nothing goes on, and what a run does not touch is as it
was. -/
structure Resumed (s s' : Simulation) : Prop where
  /-- No batch is being worked through. -/
  batch : s'.batch = none
  /-- The robot is at rest. -/
  rest : s'.robot.motion = none
  /-- The table is the same. -/
  table : s'.table = s.table
  /-- The robot takes the same times. -/
  times : s'.robot.timeFor = s.robot.timeFor
  /-- The frames are as long. -/
  frame : s'.frame = s.frame
  /-- And they are waited for or not, as before. -/
  realtime : s'.realtime = s.realtime

variable {s s₁ s₂ : Simulation} {o o₁ o₂ : Outcome} {commands first rest : List Command}

theorem resumed_of_run (hm : s.robot.motion = none)
    (h : s.run commands = .ok (some (s₁, o))) : Resumed s s₁ := by
  obtain ⟨n, hc⟩ := completes_of_run h
  obtain ⟨-, hrest, hbatch⟩ := standing_of_completes hm hc
  have htable := (kept_table s.table).completes hc rfl
  have htimes := (kept_timeFor s.robot.timeFor).completes hc rfl
  obtain ⟨watcher, s₀, ha, hf⟩ := hc
  obtain ⟨-, rfl⟩ := accept_eq_ok ha
  obtain ⟨s₂, b, hframe, -, he⟩ := (keptByFrames_frame s.frame).advanceAll_some hf rfl
  obtain ⟨s₃, b', hrealtime, -, he'⟩ :=
    (keptByFrames_realtime s.realtime).advanceAll_some hf rfl
  refine ⟨hbatch, hrest, htable, htimes, ?_, ?_⟩
  · cases he
    exact hframe
  · cases he'
    exact hrealtime

theorem Resumed.canWait (h : s.Resumed s₁) : s₁.canWait = s.canWait := by
  rw [Simulation.canWait, Simulation.canWait, h.realtime, h.frame]

/-- Where waiting is no hindrance, a run comes back if the durations of its
motions are attained. -/
theorem run_returns_iff_attains (hf : s.frame.Positive) (hb : s.batch = none)
    (hm : s.robot.motion = none) (hwait : s.canWait = true) (commands : List Command) :
    (∃ s₁ o, s.run commands = .ok (some (s₁, o)))
      ↔ ∀ command ∈ ({ robot := s.robot, outcome := .empty } : Standing).motions s.table
        commands, Attains s.frame (s.robot.timeFor command) := by
  rw [run_returns_iff hf hb hm, drains_iff hf hb hm]
  exact and_iff_left (.inl hwait)

/-- **A joined run comes back** exactly if the run of its second part does,
after that of its first part. -/
theorem run_append_returns (hf : s.frame.Positive) (hb : s.batch = none)
    (hm : s.robot.motion = none) (hwait : s.canWait = true)
    (h : s.run first = .ok (some (s₁, o₁))) :
    (∃ s₂ o₂, s₁.run rest = .ok (some (s₂, o₂)))
      ↔ ∃ s₂ o₂, s.run (first ++ rest) = .ok (some (s₂, o₂)) := by
  have hresumed := resumed_of_run hm h
  have hfirst := (run_returns_iff_attains hf hb hm hwait first).mp ⟨s₁, o₁, h⟩
  have hrest : ({ robot := s₁.robot, outcome := .empty } : Standing).motions s₁.table rest
      = (({ robot := s.robot, outcome := .empty } : Standing).obeyAll s.table first).motions
        s.table rest := by
    rw [(performed_of_run hm h).standing, hresumed.table]
    exact Standing.motions_outcome ..
  rw [run_returns_iff_attains (hresumed.frame ▸ hf) hresumed.batch hresumed.rest
      (hresumed.canWait.trans hwait),
    run_returns_iff_attains hf hb hm hwait, hresumed.frame, hresumed.times,
    Standing.motions_append, hrest]
  refine ⟨fun hall command hmem => ?_, fun hall command hmem => ?_⟩
  · obtain hmem | hmem := List.mem_append.mp hmem
    · exact hfirst command hmem
    · exact hall command hmem
  · exact hall command (List.mem_append_right _ hmem)

/-- What comes back after all commands comes back after the first of them. -/
theorem run_returns_of_append (hf : s.frame.Positive) (hb : s.batch = none)
    (hm : s.robot.motion = none) (hwait : s.canWait = true)
    (h : s.run (first ++ rest) = .ok (some (s₂, o₂))) :
    ∃ s₁ o₁, s.run first = .ok (some (s₁, o₁)) := by
  have hall := (run_returns_iff_attains hf hb hm hwait (first ++ rest)).mp ⟨s₂, o₂, h⟩
  rw [Standing.motions_append] at hall
  exact (run_returns_iff_attains hf hb hm hwait first).mpr fun command hmem =>
    hall command (List.mem_append_left _ hmem)

end Simulation

end Tabletop
