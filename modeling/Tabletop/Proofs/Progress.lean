import Tabletop.Proofs.Consistency
import Tabletop.Proofs.Counting

/-!
# How far a batch has come

A command that takes time is taken up in one frame and finished in another,
with the clock, the journal and other frames in between. None of that has a
bearing on what it brings about. A `Standing` is a robot at rest together with
an outcome, and `Standing.obey` is one command on it, its motion arrived at
once: commands without time, for the robot itself.

`Simulation.Progress` says how a batch stands in the middle of it. The
commands that are done make up a first part of the batch, and their standing is
what the robot has settled on and the outcome so far; the one in flight will
add what it adds when its motion has arrived; the others wait untouched. It is
kept by every frame, whatever its length, so the end of a batch is known before
its first frame (`Simulation.standing_of_completes`).
-/

namespace Tabletop

/-- A robot at rest, and what its commands have brought about so far. -/
structure Standing where
  /-- The robot. -/
  robot : Robot
  /-- The outcome so far. -/
  outcome : Outcome

namespace Standing

/-- A command on a standing, its motion arrived at once. -/
def obey (t : Table) (a : Standing) (command : Command) : Standing :=
  match a.robot.obey t command with
  | .ok (robot, .done report) => { robot, outcome := a.outcome.addReport report }
  | .ok (robot, .begun) => { a with robot := robot.arrived }
  | .error fault => { a with outcome := a.outcome.addFault fault }

/-- Commands on a standing, one after the other. -/
def obeyAll (t : Table) (a : Standing) (commands : List Command) : Standing :=
  commands.foldl (obey t) a

variable {t : Table} {a : Standing} {command : Command} {robot : Robot}

theorem obey_of_done {report : Option (List Char)}
    (ho : a.robot.obey t command = .ok (robot, .done report)) :
    a.obey t command = { robot, outcome := a.outcome.addReport report } := by
  rw [obey, ho]

theorem obey_of_begun (ho : a.robot.obey t command = .ok (robot, .begun)) :
    a.obey t command = { a with robot := robot.arrived } := by
  rw [obey, ho]

theorem obey_of_rejected {fault : Fault} (ho : a.robot.obey t command = .error fault) :
    a.obey t command = { a with outcome := a.outcome.addFault fault } := by
  rw [obey, ho]

theorem obeyAll_append (t : Table) (a : Standing) (done rest : List Command) :
    a.obeyAll t (done ++ rest) = (a.obeyAll t done).obeyAll t rest :=
  List.foldl_append

theorem obeyAll_concat (t : Table) (a : Standing) (done : List Command)
    (command : Command) :
    a.obeyAll t (done ++ [command]) = (a.obeyAll t done).obey t command :=
  obeyAll_append t a done [command]

end Standing

/-- The command is over and done with: it has finished or has been rejected. -/
def Phase.settles : Phase → Bool
  | .finished => true
  | .rejected => true
  | _ => false

namespace Journal

/-- How many commands have finished or have been rejected. -/
def settledCount (j : Journal) : Nat := j.count fun e => e.phase.settles

theorem settledCount_record (j : Journal) (clock : Double) (index : Nat)
    (command : Command) (phase : Phase) :
    (j.record clock index command phase).settledCount
      = j.settledCount + phase.settles.toNat :=
  j.count_push _ _

end Journal

namespace Simulation

/-- **How far a batch has come** since it began on the simulation `s₀`. -/
structure Progress (s₀ s : Simulation) (commands done : List Command) (b : Batch) :
    Prop where
  /-- The table is the same. -/
  table : s.table = s₀.table
  /-- The batch is the one being worked through. -/
  batch : s.batch = some b
  /-- No command is lost: some are done, one may be in flight, the rest wait. -/
  commands : commands = done ++ ((b.current.map Prod.snd).toList ++ b.waiting)
  /-- What is settled is what the commands that are done bring about. -/
  standing : ({ robot := s₀.robot, outcome := .empty } : Standing).obeyAll s₀.table done
    = { robot := s.robot.halt, outcome := b.outcome }
  /-- Between commands the robot is at rest. -/
  rest : b.current = none → s.robot.motion = none
  /-- The command in flight brings about what its motion arrives at. -/
  arrival : ∀ {index : Nat} {command : Command}, b.current = some (index, command) →
    index = s₀.nextIndex + done.length
      ∧ ({ robot := s.robot.halt, outcome := b.outcome } : Standing).obey s₀.table command
        = { robot := s.robot.arrived, outcome := b.outcome }
  /-- Numbers are given to the commands that are done and to the one in flight. -/
  nextIndex : s.nextIndex = s₀.nextIndex + done.length + b.current.toList.length
  /-- The journal has the end of each command that is done. -/
  settled : s.journal.settledCount = s₀.journal.settledCount + done.length

section Progress

variable {s₀ s s' : Simulation} {commands done rest : List Command} {b b' : Batch}
  {command : Command}

/-- At its beginning no command of a batch is done. -/
theorem progress_of_accept {watcher : Option String} (hm : s₀.robot.motion = none)
    (ha : s₀.accept commands watcher = .ok s) :
    Progress s₀ s commands []
      { waiting := commands, current := none, outcome := .empty, watcher } := by
  obtain ⟨-, rfl⟩ := accept_eq_ok ha
  exact {
    table := rfl
    batch := rfl
    commands := rfl
    standing := by
      rw [Robot.halt_of_rest hm]
      rfl
    rest := fun _ => hm
    arrival := (nomatch ·)
    nextIndex := rfl
    settled := rfl }

/-- The next command of a batch with none in flight. -/
theorem Progress.commands_of_waiting (h : Progress s₀ s commands done b)
    (hc : b.current = none) (hw : b.waiting = command :: rest) :
    commands = done ++ command :: rest := by
  rw [h.commands, hc, hw]
  rfl

theorem Progress.nextIndex_of_waiting (h : Progress s₀ s commands done b)
    (hc : b.current = none) : s.nextIndex = s₀.nextIndex + done.length := by
  rw [h.nextIndex, hc]
  rfl

/-- Between commands a command acts on what is settled. -/
theorem Progress.halt_of_waiting (h : Progress s₀ s commands done b)
    (hc : b.current = none) : s.robot.halt = s.robot :=
  Robot.halt_of_rest (h.rest hc)

/-- **One more command is done,** however it came to its end: at once, by
being rejected, or with the end of its motion. -/
theorem Progress.settle (h : Progress s₀ s commands done b)
    (hcommands : commands = done ++ command :: rest) (ht : s'.table = s.table)
    (hb : s'.batch = some b') (hc : b'.current = none) (hw : b'.waiting = rest)
    (hm : s'.robot.motion = none)
    (ho : ({ robot := s.robot.halt, outcome := b.outcome } : Standing).obey s₀.table command
      = { robot := s'.robot, outcome := b'.outcome })
    (hn : s'.nextIndex = s₀.nextIndex + done.length + 1)
    (hj : s'.journal.settledCount = s.journal.settledCount + 1) :
    Progress s₀ s' commands (done ++ [command]) b' where
  table := ht.trans h.table
  batch := hb
  commands := by
    rw [hcommands, hc, hw, List.append_assoc]
    rfl
  standing := by
    rw [Standing.obeyAll_concat, h.standing, ho, Robot.halt_of_rest hm]
  rest _ := hm
  arrival h := nomatch hc.symm.trans h
  nextIndex := by
    rw [hn, hc, List.length_append]
    rfl
  settled := by
    rw [hj, h.settled, List.length_append, Nat.add_assoc]
    rfl

/-- A motion begins: nothing is settled by that. -/
theorem Progress.begin {d : Single} {robot : Robot} (h : Progress s₀ s commands done b)
    (hc : b.current = none) (hw : b.waiting = command :: rest)
    (ho : s.robot.obey s.table command = .ok (robot, .begun)) :
    Progress s₀
      { s with
        robot
        nextIndex := s.nextIndex + 1
        batch := some { b with waiting := rest, current := some (s.nextIndex, command) }
        journal := s.journal.record (s.clock - d.convert) s.nextIndex command .started }
      commands done
      { b with waiting := rest, current := some (s.nextIndex, command) } := by
  have hhalt : robot.halt = s.robot.halt := by
    cases Robot.obeyed_of_eq ho with
    | begun => rfl
  exact {
    table := h.table
    batch := rfl
    commands := h.commands_of_waiting hc hw
    standing := by
      rw [h.standing, ← hhalt]
    rest := (nomatch ·)
    arrival := by
      intro index command' hf
      cases hf
      refine ⟨h.nextIndex_of_waiting hc, ?_⟩
      rw [h.table, ← h.halt_of_waiting hc] at ho
      show Standing.obey _ { robot := robot.halt, outcome := b.outcome } command = _
      rw [hhalt, Standing.obey_of_begun ho]
    nextIndex := by
      rw [h.nextIndex_of_waiting hc]
      rfl
    settled := by
      rw [Journal.settledCount_record, h.settled]
      rfl }

theorem progress_of_stride {d d' : Single} (hs : Stride (s, d) (s', d'))
    (h : Progress s₀ s commands done b) :
    ∃ done b, Progress s₀ s' commands done b := by
  have hbatch := h.batch
  cases hs with
  | done hb hc hw ho =>
    cases hbatch.symm.trans hb
    refine ⟨_, _, h.settle (h.commands_of_waiting hc hw) rfl rfl hc rfl
      (Robot.motion_of_done ho (h.rest hc)) ?_ ?_ ?_⟩
    · rw [h.table] at ho
      rw [h.halt_of_waiting hc, Standing.obey_of_done ho]
    · rw [← h.nextIndex_of_waiting hc]
    · rw [Journal.settledCount_record, Journal.settledCount_record]
      rfl
  | begun hb hc hw ho =>
    cases hbatch.symm.trans hb
    exact ⟨_, _, h.begin hc hw ho⟩
  | rejected hb hc hw ho =>
    cases hbatch.symm.trans hb
    refine ⟨_, _, h.settle (h.commands_of_waiting hc hw) rfl rfl hc rfl (h.rest hc) ?_ ?_ ?_⟩
    · rw [h.table] at ho
      rw [h.halt_of_waiting hc, Standing.obey_of_rejected ho]
    · rw [← h.nextIndex_of_waiting hc]
    · rw [Journal.settledCount_record]
      rfl
  | @finished _ _ _ _ command _ hb hc ha =>
    cases hbatch.symm.trans hb
    obtain rfl := Robot.arrived_of_advance ha
    -- The command in flight is the next of those that are done.
    have hcommands : commands = done ++ command :: b.waiting := by
      rw [h.commands, hc]
      rfl
    refine ⟨_, _, h.settle hcommands rfl rfl rfl rfl Robot.arrived_motion
      (h.arrival hc).2 ?_ ?_⟩
    · rw [h.nextIndex, hc]
      rfl
    · rw [Journal.settledCount_record]
      rfl

theorem progress_of_played {d : Single} {index : Nat} {robot : Robot}
    (hb : s.batch = some b') (hc : b'.current = some (index, command))
    (ha : s.robot.advance d = (robot, false)) (h : Progress s₀ s commands done b) :
    Progress s₀ { s with robot } commands done b := by
  cases h.batch.symm.trans hb
  obtain ⟨motion, hm, rfl⟩ := Robot.playing_of_advance ha
  exact {
    table := h.table
    batch := h.batch
    commands := h.commands
    standing := h.standing
    rest := fun hnone => nomatch hc.symm.trans hnone
    arrival := by
      intro index command hf
      obtain ⟨hi, ho⟩ := h.arrival hf
      refine ⟨hi, ho.trans ?_⟩
      rw [Robot.arrived, hm]
      rfl
    nextIndex := h.nextIndex
    settled := h.settled }

/-- **Every frame keeps it.** -/
theorem keptByFrames_progress (s₀ : Simulation) (commands : List Command) :
    KeptByFrames fun s => ∃ done b, Progress s₀ s commands done b where
  ticked _ := fun ⟨done, b, h⟩ => ⟨done, b, { h with }⟩
  stride hs := fun ⟨_, _, h⟩ => progress_of_stride hs h
  played hb hc ha := fun ⟨_, _, h⟩ => ⟨_, _, progress_of_played hb hc ha h⟩

/-- **The end of a batch is known before its first frame.** However its time
is cut into frames, the robot and the outcome are those of its commands obeyed
one after the other, each motion arrived at once. -/
theorem standing_of_completes {amounts : List Single} {o : Outcome}
    (hm : s.robot.motion = none) (h : s.Completes commands amounts s' o) :
    ({ robot := s.robot, outcome := .empty } : Standing).obeyAll s.table commands
        = { robot := s'.robot, outcome := o }
      ∧ s'.robot.motion = none ∧ s'.batch = none := by
  obtain ⟨watcher, s₁, ha, hf⟩ := h
  obtain ⟨s₂, b, ⟨done, b', hp⟩, hc, he⟩ := (keptByFrames_progress s commands).advanceAll_some
    hf ⟨_, _, progress_of_accept hm ha⟩
  cases hp.batch.symm.trans hc.batch
  cases he
  -- Nothing is in flight and nothing waits, so all commands are done.
  have hdone : commands = done := by
    rw [hp.commands, hc.current, hc.waiting]
    exact List.append_nil done
  refine ⟨?_, hp.rest hc.current, rfl⟩
  rw [hdone, hp.standing, hp.halt_of_waiting hc.current]

/-- **A batch brings about the same** on two simulations with one table and
one robot, whatever else they have been through. -/
theorem completes_congr {s₁ s₁' : Simulation} {amounts amounts' : List Single}
    {o o' : Outcome} (ht : s'.table = s.table) (hr : s'.robot = s.robot)
    (hm : s.robot.motion = none) (h : s.Completes commands amounts s₁ o)
    (h' : s'.Completes commands amounts' s₁' o') : s₁'.robot = s₁.robot ∧ o' = o := by
  obtain ⟨hstanding, -, -⟩ := standing_of_completes hm h
  obtain ⟨hstanding', -, -⟩ := standing_of_completes (hr ▸ hm) h'
  rw [ht, hr, hstanding] at hstanding'
  obtain ⟨hrobot, houtcome⟩ := Standing.mk.inj hstanding'
  exact ⟨hrobot.symm, houtcome.symm⟩

end Progress

end Simulation

end Tabletop
