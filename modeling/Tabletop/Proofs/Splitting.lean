import Tabletop.Proofs.Chronicle
import Tabletop.Proofs.Lines
import Tabletop.Proofs.Progress

/-!
# One batch or two

It makes no difference whether commands are given in one batch or in two. The
frames do differ: what is begun at the head of the second batch gets the time
of a frame, and in the middle of one batch it gets none. So the runs are not
compared frame by frame but each with what its commands bring about at rest.
For the robot and the outcome this is `Standing.obeyAll`. For the journal it
is `Standing.story`, the entries that commands leave if each motion arrives at
once, and `story_of_completes` says that the journal of a batch tells the story
of its commands, whatever the frames. Both go on from where they stand
(`Standing.obeyAll_append`, `Standing.story_append`), and texts are read one
after the other, so the main statement is `perform_append`.
-/

namespace Tabletop

namespace Outcome

/-- What two batches brought about, one after the other. -/
def append (o p : Outcome) : Outcome :=
  { reports := o.reports ++ p.reports
    faults := o.faults ++ p.faults
    cancelled := o.cancelled || p.cancelled }

instance : Append Outcome := ⟨append⟩

theorem append_empty (o : Outcome) : o ++ empty = o := by
  show mk (o.reports ++ #[]) (o.faults ++ #[]) (o.cancelled || false) = o
  rw [Array.append_empty, Array.append_empty, Bool.or_false]

theorem append_addReport (o p : Outcome) (report : Option (List Char)) :
    o ++ p.addReport report = (o ++ p).addReport report := by
  cases report with
  | none => rfl
  | some text => exact congrArg (mk · _ _) Array.append_push

theorem append_addFault (o p : Outcome) (fault : Fault) :
    o ++ p.addFault fault = (o ++ p).addFault fault :=
  congrArg (mk _ · _) Array.append_push

end Outcome

namespace Standing

variable {t : Table} {r : Robot} {o p : Outcome} {command : Command}

/-- What was brought about before has no bearing on a command. -/
theorem obey_append (t : Table) (r : Robot) (o p : Outcome) (command : Command) :
    ({ robot := r, outcome := o ++ p } : Standing).obey t command
      = { robot := (({ robot := r, outcome := p } : Standing).obey t command).robot
          outcome := o ++ (({ robot := r, outcome := p } : Standing).obey t command).outcome }
      := by
  cases ho : r.obey t command with
  | error fault =>
    rw [obey_of_rejected ho, obey_of_rejected ho, Outcome.append_addFault]
  | ok result =>
    obtain ⟨robot, report | _⟩ := result
    · rw [obey_of_done ho, obey_of_done ho, Outcome.append_addReport]
    · rw [obey_of_begun ho, obey_of_begun ho]

theorem obeyAll_outcome (t : Table) (r : Robot) (o p : Outcome) (commands : List Command) :
    ({ robot := r, outcome := o ++ p } : Standing).obeyAll t commands
      = { robot := (({ robot := r, outcome := p } : Standing).obeyAll t commands).robot
          outcome := o
            ++ (({ robot := r, outcome := p } : Standing).obeyAll t commands).outcome } := by
  induction commands generalizing r p with
  | nil => rfl
  | cons command rest ih =>
    show (obey t _ command).obeyAll t rest = _
    rw [obey_append, ih]
    rfl

/-- How a command ends that is left alone. -/
def fate (t : Table) (a : Standing) (command : Command) : Fate :=
  match a.robot.obey t command with
  | .ok _ => .finished
  | .error _ => .rejected

/-- The entries, without times, that commands leave in the journal if they are
left alone: the group of each, under its number. -/
def story (t : Table) (a : Standing) (index : Nat) :
    List Command → List (Nat × Command × Phase)
  | [] => []
  | command :: rest =>
    (a.fate t command).phases.map (index, command, ·)
      ++ (a.obey t command).story t (index + 1) rest

theorem fate_of_ok {a : Standing} {result : Robot × Effect}
    (ho : a.robot.obey t command = .ok result) : a.fate t command = .finished := by
  rw [fate, ho]

theorem fate_of_rejected {a : Standing} {fault : Fault}
    (ho : a.robot.obey t command = .error fault) : a.fate t command = .rejected := by
  rw [fate, ho]

/-- **A story goes on** from where its first part ends. -/
theorem story_append (t : Table) (a : Standing) (index : Nat) (first rest : List Command) :
    a.story t index (first ++ rest)
      = a.story t index first
        ++ (a.obeyAll t first).story t (index + first.length) rest := by
  induction first generalizing a index with
  | nil => rfl
  | cons command first ih =>
    rw [List.cons_append, story, story, ih, List.append_assoc, List.length_cons,
      Nat.add_right_comm, Nat.add_assoc]
    rfl

/-- The outcome so far has no part in the story. -/
theorem story_outcome (t : Table) (r : Robot) (o p : Outcome) (index : Nat)
    (commands : List Command) :
    ({ robot := r, outcome := o } : Standing).story t index commands
      = ({ robot := r, outcome := p } : Standing).story t index commands := by
  induction commands generalizing r o p index with
  | nil => rfl
  | cons command rest ih =>
    -- The robot after the command is the same, so the rest is the same story.
    cases ho : r.obey t command with
    | error fault =>
      rw [story, story, fate_of_rejected ho, fate_of_rejected ho, obey_of_rejected ho,
        obey_of_rejected ho]
      exact congrArg _ (ih ..)
    | ok result =>
      obtain ⟨robot, report | _⟩ := result
      · rw [story, story, fate_of_ok ho, fate_of_ok ho, obey_of_done ho, obey_of_done ho]
        exact congrArg _ (ih ..)
      · rw [story, story, fate_of_ok ho, fate_of_ok ho, obey_of_begun ho, obey_of_begun ho]
        exact congrArg _ (ih ..)

end Standing

namespace Simulation

/-- What the journal will still be told of a batch if it is left alone: the
end of the command in flight, and the story of those that wait. -/
def toTell (s : Simulation) (b : Batch) : List (Nat × Command × Phase) :=
  b.current.toList.map (fun (index, command) => (index, command, .finished))
    ++ ({ robot := s.robot.arrived, outcome := b.outcome } : Standing).story s.table
      s.nextIndex b.waiting

/-- In the middle of a batch: with what is still to be told, the journal will
be `whole`. -/
def Telling (whole : List (Nat × Command × Phase)) (s : Simulation) : Prop :=
  s.Steady ∧ ∃ b, s.batch = some b ∧ s.journal.untimed ++ s.toTell b = whole

section Telling

variable {s s' : Simulation} {b : Batch} {d d' : Single} {command : Command}
  {rest : List Command} {whole : List (Nat × Command × Phase)}

/-- With nothing in flight, the next command is the next of the story. -/
theorem toTell_of_waiting (hm : s.robot.motion = none) (hc : b.current = none)
    (hw : b.waiting = command :: rest) :
    s.toTell b
      = (Standing.fate s.table { robot := s.robot, outcome := b.outcome } command).phases.map
          (s.nextIndex, command, ·)
        ++ (Standing.obey s.table { robot := s.robot, outcome := b.outcome } command).story
          s.table (s.nextIndex + 1) rest := by
  rw [toTell, hc, hw, Robot.arrived_of_rest hm]
  rfl

theorem telling_of_stride (h : Stride (s, d) (s', d')) (ht : Telling whole s) :
    Telling whole s' := by
  obtain ⟨hs, b, hbatch, hwhole⟩ := ht
  refine ⟨steady_of_stride h hs, ?_⟩
  cases h with
  | @done _ _ _ command rest robot report hb hc hw ho =>
    cases hbatch.symm.trans hb
    have hm := hs.rest_of_current hb hc
    refine ⟨_, rfl, ?_⟩
    rw [← hwhole, toTell_of_waiting hm hc hw, Standing.fate_of_ok ho, Standing.obey_of_done ho,
      Journal.untimed_record, Journal.untimed_record, toTell, hc,
      Robot.arrived_of_rest (Robot.motion_of_done ho hm), List.append_assoc, List.append_assoc]
    rfl
  | @begun _ _ _ command rest robot hb hc hw ho =>
    cases hbatch.symm.trans hb
    have hm := hs.rest_of_current hb hc
    refine ⟨_, rfl, ?_⟩
    rw [← hwhole, toTell_of_waiting hm hc hw, Standing.fate_of_ok ho, Standing.obey_of_begun ho,
      Journal.untimed_record, toTell, List.append_assoc]
    rfl
  | @rejected _ _ _ command rest fault hb hc hw ho =>
    cases hbatch.symm.trans hb
    have hm := hs.rest_of_current hb hc
    refine ⟨_, rfl, ?_⟩
    rw [← hwhole, toTell_of_waiting hm hc hw, Standing.fate_of_rejected ho,
      Standing.obey_of_rejected ho, Journal.untimed_record, toTell, hc,
      Robot.arrived_of_rest hm, List.append_assoc]
    rfl
  | @finished _ _ _ index command robot hb hc ha =>
    cases hbatch.symm.trans hb
    refine ⟨_, rfl, ?_⟩
    rw [← hwhole, toTell, toTell, hc, Journal.untimed_record, Robot.arrived_of_advance ha,
      Robot.arrived_of_rest Robot.arrived_motion, List.append_assoc]
    rfl

theorem telling_of_played {index : Nat} {robot : Robot} (hb : s.batch = some b)
    (hc : b.current = some (index, command)) (ha : s.robot.advance d = (robot, false))
    (ht : Telling whole s) : Telling whole { s with robot } := by
  obtain ⟨hs, b', hbatch, hwhole⟩ := ht
  refine ⟨steady_of_played hb hc ha hs, b', hbatch, ?_⟩
  obtain ⟨motion, hm, rfl⟩ := Robot.playing_of_advance ha
  rw [← hwhole, toTell, toTell, Robot.arrived, Robot.arrived, hm]
  rfl

/-- **Every frame tells what was to be told.** -/
theorem keptByFrames_telling (whole : List (Nat × Command × Phase)) :
    KeptByFrames (Telling whole) where
  ticked clock := fun ⟨hs, b, h⟩ => ⟨kept_steady.ticked clock hs, b, h⟩
  stride := telling_of_stride
  played := telling_of_played

/-- **The journal of a batch tells the story of its commands,** whatever the
amounts of time. -/
theorem story_of_completes {commands : List Command} {amounts : List Single} {o : Outcome}
    (hm : s.robot.motion = none) (h : s.Completes commands amounts s' o) :
    s'.journal.untimed = s.journal.untimed
      ++ ({ robot := s.robot, outcome := .empty } : Standing).story s.table s.nextIndex
        commands := by
  obtain ⟨watcher, s₁, ha, hf⟩ := h
  obtain ⟨hb, rfl⟩ := accept_eq_ok ha
  obtain ⟨s₂, b, ⟨hs, b', hb', hwhole⟩, hc, he⟩ := (keptByFrames_telling _).advanceAll_some hf
    ⟨steady_of_rest rfl hm, _, rfl, rfl⟩
  cases hc.batch.symm.trans hb'
  cases he
  -- At the end nothing is left to tell.
  have hnothing : s₂.toTell b = [] := by
    rw [toTell, hc.current, hc.waiting]
    rfl
  rw [hnothing, List.append_nil] at hwhole
  refine hwhole.trans (congrArg (s.journal.untimed ++ ·) ?_)
  rw [toTell, Robot.arrived_of_rest hm]
  rfl

/-- The numbers given and those to be given add up to the same in every
frame. -/
theorem keptByFrames_numbers (n : Nat) :
    KeptByFrames fun s => s.nextIndex + s.waiting.length = n where
  ticked _ h := h
  stride hs h := by
    cases hs with
    | done hb _ hw =>
      rw [waiting_of_batch hb, hw] at h
      exact (Nat.add_right_comm ..).trans h
    | begun hb _ hw =>
      rw [waiting_of_batch hb, hw] at h
      exact (Nat.add_right_comm ..).trans h
    | rejected hb _ hw =>
      rw [waiting_of_batch hb, hw] at h
      exact (Nat.add_right_comm ..).trans h
    | finished hb =>
      rw [waiting_of_batch hb] at h
      exact h
  played _ _ _ h := h

theorem nextIndex_of_completes {commands : List Command} {amounts : List Single}
    {o : Outcome} (h : s.Completes commands amounts s' o) :
    s'.nextIndex = s.nextIndex + commands.length := by
  obtain ⟨watcher, s₁, ha, hf⟩ := h
  obtain ⟨-, rfl⟩ := accept_eq_ok ha
  obtain ⟨s₂, b, hn, hc, he⟩ := (keptByFrames_numbers _).advanceAll_some hf rfl
  rw [waiting_of_batch hc.batch, hc.waiting] at hn
  cases he
  exact hn

end Telling

/-! ## Runs of texts -/

/-- What commands have made of a simulation, `s` before them and `s'` after
them, apart from times. -/
structure Performed (s s' : Simulation) (commands : List Command) (o : Outcome) : Prop where
  /-- The table is the same. -/
  table : s'.table = s.table
  /-- The robot and the outcome are those of the commands obeyed at rest. -/
  standing : ({ robot := s.robot, outcome := .empty } : Standing).obeyAll s.table commands
    = { robot := s'.robot, outcome := o }
  /-- The robot is at rest. -/
  rest : s'.robot.motion = none
  /-- Every command has got a number. -/
  nextIndex : s'.nextIndex = s.nextIndex + commands.length
  /-- The journal tells their story. -/
  journal : s'.journal.untimed = s.journal.untimed
    ++ ({ robot := s.robot, outcome := .empty } : Standing).story s.table s.nextIndex commands

variable {s s₁ s₂ s₃ : Simulation} {o₁ o₂ o₃ : Outcome}

/-- The frame of a run makes no difference. -/
theorem performed_of_run {s' : Simulation} {frame : Single} {commands : List Command}
    {o : Outcome} (hm : s.robot.motion = none)
    (h : ({ s with frame } : Simulation).run commands = .ok (some (s', o))) :
    Performed s s' commands o := by
  obtain ⟨n, hc⟩ := completes_of_run h
  obtain ⟨hstanding, hrest, -⟩ := standing_of_completes (s := { s with frame }) hm hc
  exact {
    table := (kept_table s.table).completes hc rfl
    standing := hstanding
    rest := hrest
    nextIndex := nextIndex_of_completes (s := { s with frame }) hc
    journal := story_of_completes (s := { s with frame }) hm hc }

/-- No commands make nothing of a simulation at rest. -/
theorem performed_nil (hm : s.robot.motion = none) : Performed s s [] .empty where
  table := rfl
  standing := rfl
  rest := hm
  nextIndex := rfl
  journal := (List.append_nil _).symm

/-- **The second batch goes on** from the robot of the first, and begins a new
outcome. -/
theorem Performed.trans {first rest : List Command} (h₁ : Performed s s₁ first o₁)
    (h₂ : Performed s₁ s₂ rest o₂) : Performed s s₂ (first ++ rest) (o₁ ++ o₂) := by
  have hstanding := h₂.standing
  have hjournal := h₂.journal
  rw [h₁.table] at hstanding hjournal
  refine ⟨h₂.table.trans h₁.table, ?_, h₂.rest, ?_, ?_⟩
  · have hon := Standing.obeyAll_outcome s.table s₁.robot o₁ .empty rest
    rw [Outcome.append_empty, hstanding] at hon
    rw [Standing.obeyAll_append, h₁.standing, hon]
  · rw [h₂.nextIndex, h₁.nextIndex, List.length_append, Nat.add_assoc]
  · rw [hjournal, h₁.journal, Standing.story_append, h₁.standing, h₁.nextIndex,
      List.append_assoc, Standing.story_outcome s.table s₁.robot o₁ .empty]

/-- Commands make the same of a simulation, whatever the frames. -/
theorem Performed.unique {commands : List Command} (h₁ : Performed s s₁ commands o₁)
    (h₂ : Performed s s₂ commands o₂) :
    o₁ = o₂ ∧ s₁.robot = s₂.robot ∧ s₁.journal.untimed = s₂.journal.untimed := by
  obtain ⟨hrobot, houtcome⟩ := Standing.mk.inj (h₁.standing.symm.trans h₂.standing)
  exact ⟨houtcome, hrobot, h₁.journal.trans h₂.journal.symm⟩

/-- **One text or two.** After any history, a text is run and then another, or
both as one text with a line feed between them, in frames of any length. If
all of these runs come back, they give the same reports and the same faults,
the robot is the same in the end, and the journals tell the same. -/
theorem perform_append {s₀ : Simulation} {calls : List Call} {history : List Event}
    {a b : List Char} {frame₁ frame₂ frame₃ : Single}
    (h₀ : s₀.Initial) (hm : s₀.robot.motion = none)
    (hs : s₀.follow calls = some (s, history)) (hb : s.batch = none)
    (h₁ : ({ s with frame := frame₁ } : Simulation).perform a = .ok (some (s₁, o₁)))
    (h₂ : ({ s₁ with frame := frame₂ } : Simulation).perform b = .ok (some (s₂, o₂)))
    (h₃ : ({ s with frame := frame₃ } : Simulation).perform (a ++ '\n' :: b)
      = .ok (some (s₃, o₃))) :
    o₃.reports = o₁.reports ++ o₂.reports ∧ o₃.faults = o₁.faults ++ o₂.faults
      ∧ s₃.robot = s₂.robot ∧ s₃.journal.untimed = s₂.journal.untimed := by
  have hrest := motion_of_follow h₀ hm hs hb
  have hfirst := performed_of_run hrest h₁
  have hboth := performed_of_run hrest h₃
  rw [Command.readAll_append] at hboth
  obtain ⟨rfl, hrobot, hjournal⟩ :=
    hboth.unique (hfirst.trans (performed_of_run hfirst.rest h₂))
  exact ⟨rfl, rfl, hrobot, hjournal⟩

theorem perform_eq_ok {text : List Char} {p : Simulation × Outcome}
    (h : (s.perform text).toOption.join = some p) : s.perform text = .ok (some p) := by
  cases hp : s.perform text with
  | error fault =>
    rw [hp] at h
    cases h
  | ok result =>
    rw [hp] at h
    exact congrArg Except.ok h

/-- The first text ends in a carriage return, and there is a placement off the
table on either side of the cut. The first run takes five frames and the second
two, and the run of both texts takes frames of another length. -/
theorem perform_append_at_carriage_return :
    ∃ s s₁ s₂ s₃ o₁ o₂ o₃,
      s = Simulation.new ⟨2, 2, 1, by decide⟩ (.new 1 1)
      ∧ ({ s with frame := .ofRatio false 1 4 } : Simulation).perform
          "PLACE 5,5,NORTH\nPLACE 0,0,NORTH\nMOVE\r".toList = .ok (some (s₁, o₁))
      ∧ ({ s₁ with frame := 1 } : Simulation).perform
          "REPORT\r\nRIGHT\nPLACE 9,9,EAST\nREPORT".toList = .ok (some (s₂, o₂))
      ∧ ({ s with frame := .ofRatio false 1 8 } : Simulation).perform
          ("PLACE 5,5,NORTH\nPLACE 0,0,NORTH\nMOVE\r".toList ++ '\n' ::
            "REPORT\r\nRIGHT\nPLACE 9,9,EAST\nREPORT".toList) = .ok (some (s₃, o₃))
      ∧ o₃.reports = o₁.reports ++ o₂.reports ∧ o₃.faults = o₁.faults ++ o₂.faults
      ∧ s₃.robot = s₂.robot ∧ s₃.journal.untimed = s₂.journal.untimed := by
  obtain ⟨s, hnew⟩ : ∃ s, s = Simulation.new ⟨2, 2, 1, by decide⟩ (.new 1 1) := ⟨_, rfl⟩
  have hsplit : (({ s with frame := .ofRatio false 1 4 } : Simulation).perform
      "PLACE 5,5,NORTH\nPLACE 0,0,NORTH\nMOVE\r".toList).toOption.join.any (fun p =>
        (({ p.1 with frame := 1 } : Simulation).perform
          "REPORT\r\nRIGHT\nPLACE 9,9,EAST\nREPORT".toList).toOption.join.isSome) = true := by
    subst hnew
    decide +kernel
  have hjoined : (({ s with frame := .ofRatio false 1 8 } : Simulation).perform
      ("PLACE 5,5,NORTH\nPLACE 0,0,NORTH\nMOVE\r".toList ++ '\n' ::
        "REPORT\r\nRIGHT\nPLACE 9,9,EAST\nREPORT".toList)).toOption.join.isSome = true := by
    subst hnew
    decide +kernel
  obtain ⟨⟨s₁, o₁⟩, h₁, h⟩ := (Option.any_eq_true _ _).mp hsplit
  obtain ⟨⟨s₂, o₂⟩, h₂⟩ := Option.isSome_iff_exists.mp h
  obtain ⟨⟨s₃, o₃⟩, h₃⟩ := Option.isSome_iff_exists.mp hjoined
  exact ⟨s, s₁, s₂, s₃, o₁, o₂, o₃, hnew, perform_eq_ok h₁, perform_eq_ok h₂,
    perform_eq_ok h₃,
    perform_append (hnew ▸ .new _ _) (hnew ▸ rfl) (rfl : s.follow [] = _) (hnew ▸ rfl)
      (perform_eq_ok h₁) (perform_eq_ok h₂) (perform_eq_ok h₃)⟩

end Simulation

end Tabletop
