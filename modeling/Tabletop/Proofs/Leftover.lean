import Tabletop.Proofs.Consistency
import Tabletop.Proofs.Counting

/-!
# A motion that is left over

A simulation plays the motions that its own commands begin, and no other. If
its robot is moving when the simulation is set up, that motion is nobody's: no
frame plays it, no command in flight waits for its end, and calling a batch
off passes it by. The robot goes on refusing to turn and to step, as one that
is moving, until a placement drops the motion.

`Leftover` describes such a simulation and `Relieved` one that has got over it,
or never had to. Every call keeps a simulation in one of the two. From them it
is read off when a batch can still meet with the refusal, and
`findsMoving_iff` says so: exactly if the robot was given to the simulation
placed and moving, and no placement has taken effect since.
-/

namespace Tabletop

namespace Robot

variable {r : Robot} {t : Table} {command : Command} {here : Cell}

/-- Before it is placed a robot is asked for nothing, so it refuses nothing. -/
theorem position_of_busy (ho : r.obey t command = .error (.robot .moving)) :
    ∃ here, r.position = some here := by
  cases hp : r.position with
  | some here => exact ⟨here, rfl⟩
  | none =>
    cases command with
    | place x y facing =>
      rw [obey] at ho
      split at ho
      · cases ho
      · cases ho
    | move => rw [obey, ifPlaced_of_unplaced hp] at ho; cases ho
    | left => rw [obey, ifPlaced_of_unplaced hp] at ho; cases ho
    | right => rw [obey, ifPlaced_of_unplaced hp] at ho; cases ho
    | report => rw [obey, ifPlaced_of_unplaced hp] at ho; cases ho

theorem motion_of_busy (ho : r.obey t command = .error (.robot .moving)) :
    r.isMoving = true := by
  cases obeyed_of_eq ho with
  | busy hm => exact hm

/-- A robot that is moving does not turn. -/
theorem obey_left_of_moving (hp : r.position = some here) (hm : r.isMoving = true) :
    r.obey t .left = .error (.robot .moving) := by
  rw [obey, ifPlaced_of_placed hp, left, turn, ready_of_moving hp hm]
  rfl

end Robot

namespace Simulation

/-- **Nothing has become of the motion** that the robot came with. -/
structure Leftover (r : Robot) (s : Simulation) : Prop where
  /-- The robot is as it was given to the simulation. -/
  robot : s.robot = r
  /-- No command is in flight. -/
  flight : s.inFlight = none
  /-- No placement has taken effect. -/
  placements : s.journal.executed Command.isPlacement = 0

/-- **The motion is gone,** and a placement has done it. -/
structure Relieved (s : Simulation) : Prop where
  /-- The robot moves for the command in flight and for no other reason. -/
  steady : s.Steady
  /-- A placement has taken effect. -/
  placements : 0 < s.journal.executed Command.isPlacement

section Leftover

variable {r : Robot} {s s' : Simulation} {b : Batch}

theorem Leftover.current (h : Leftover r s) (hb : s.batch = some b) : b.current = none :=
  (inFlight_of_batch hb).symm.trans h.flight

/-- Placements that have taken effect stay in the journal. -/
theorem kept_placements : Kept fun s => 0 < s.journal.executed Command.isPlacement := by
  have hmore : ∀ {j : Journal} (clock : Double) (index : Nat) (command : Command)
      (phase : Phase), 0 < j.executed Command.isPlacement →
      0 < (j.record clock index command phase).executed Command.isPlacement := by
    intro j clock index command phase h
    rw [Journal.executed_record]
    exact Nat.lt_of_lt_of_le h (Nat.le_add_right _ _)
  refine kept_of_frames
    { ticked := fun _ h => h
      stride := fun hs h => ?_
      played := fun _ _ _ h => h }
    (fun h _ _ hj _ => hj ▸ h) (fun h => hmore _ _ _ _ h) (fun _ h => h)
  cases hs with
  | done => exact hmore _ _ _ _ (hmore _ _ _ _ h)
  | begun => exact hmore _ _ _ _ h
  | rejected => exact hmore _ _ _ _ h
  | finished => exact hmore _ _ _ _ h

theorem kept_relieved : Kept Relieved where
  ticked clock h := ⟨kept_steady.ticked clock h.steady, h.placements⟩
  stride hs h := ⟨steady_of_stride hs h.steady, kept_placements.stride hs h.placements⟩
  played hb hc ha h := ⟨steady_of_played hb hc ha h.steady, h.placements⟩
  concluded hb hc hw h := ⟨kept_steady.concluded hb hc hw h.steady, h.placements⟩
  accepted ha h := ⟨kept_steady.accepted ha h.steady, kept_placements.accepted ha h.placements⟩
  cancelled hb h := ⟨steady_of_cancel hb h.steady, kept_placements.cancelled hb h.placements⟩
  framed seconds h := ⟨kept_steady.framed seconds h.steady, h.placements⟩
  paced realtime h := ⟨kept_steady.paced realtime h.steady, h.placements⟩

/-- A motion is begun for no command, and a placement drops the one there is. -/
theorem leftover_of_stride (hr : r.isMoving = true) {d d' : Single}
    (hs : Stride (s, d) (s', d')) (h : Leftover r s) : Leftover r s' ∨ Relieved s' := by
  have hplacements := h.placements
  cases hs with
  | @done _ _ b command _ _ _ hb hc hw ho =>
    have hdone := Journal.executed_done Command.isPlacement s.journal (s.clock - d.convert)
      s.nextIndex command
    rw [hplacements] at hdone
    cases Robot.obeyed_of_eq ho with
    | placed => exact .inr ⟨steady_of_rest hc rfl, Nat.lt_of_lt_of_eq Nat.one_pos hdone.symm⟩
    | reported => exact .inl ⟨h.robot, hc, hdone⟩
    | blocked => exact .inl ⟨h.robot, hc, hdone⟩
  | begun hb hc hw ho =>
    cases Robot.obeyed_of_eq ho with
    | begun hm =>
      rw [← h.robot, Robot.isMoving_eq_false hm] at hr
      cases hr
  | rejected hb hc hw ho =>
    refine .inl ⟨h.robot, hc, ?_⟩
    show (s.journal.record ..).executed _ = 0
    rw [Journal.executed_record, hplacements]
    rfl
  | finished hb hc ha => cases (h.current hb).symm.trans hc

theorem kept_leftover (hr : r.isMoving = true) :
    Kept fun s => Leftover r s ∨ Relieved s where
  ticked clock
    | .inl h => .inl ⟨h.robot, h.flight, h.placements⟩
    | .inr h => .inr (kept_relieved.ticked clock h)
  stride hs
    | .inl h => leftover_of_stride hr hs h
    | .inr h => .inr (kept_relieved.stride hs h)
  played hb hc ha
    | .inl h => nomatch (h.current hb).symm.trans hc
    | .inr h => .inr (kept_relieved.played hb hc ha h)
  concluded hb hc hw
    | .inl h => .inl ⟨h.robot, rfl, h.placements⟩
    | .inr h => .inr (kept_relieved.concluded hb hc hw h)
  accepted ha
    | .inl h => by
      obtain ⟨-, rfl⟩ := accept_eq_ok ha
      exact .inl ⟨h.robot, rfl, h.placements⟩
    | .inr h => .inr (kept_relieved.accepted ha h)
  cancelled hb
    | .inl h => by
      rw [cancel_of_waiting hb (h.current hb)]
      exact .inl ⟨h.robot, rfl, h.placements⟩
    | .inr h => .inr (kept_relieved.cancelled hb h)
  framed seconds
    | .inl h => .inl ⟨h.robot, h.flight, h.placements⟩
    | .inr h => .inr (kept_relieved.framed seconds h)
  paced realtime
    | .inl h => .inl ⟨h.robot, h.flight, h.placements⟩
    | .inr h => .inr (kept_relieved.paced realtime h)

end Leftover

/-! ## The refusal -/

/-- Some batch has ended, and a command of it met with a robot that was
moving. -/
def FindsMoving (history : List Event) : Prop :=
  ∃ e ∈ history, ∃ o, e.answer = .ended o ∧ .robot .moving ∈ o.faults

/-- When a command is taken up the robot is at rest or stands nowhere. -/
def Free (s : Simulation) : Prop :=
  s.inFlight = none → s.robot.position = none ∨ s.robot.motion = none

/-- No command of the batch has met with a robot that was moving. -/
def Unhindered (s : Simulation) : Prop :=
  ∀ b, s.batch = some b → .robot .moving ∉ b.outcome.faults

section Refusal

variable {r : Robot} {s s' : Simulation} {b : Batch} {calls : List Call}
  {history : List Event}

theorem Steady.free (h : s.Steady) : s.Free := fun hf => .inr (h.rest hf)

theorem unhindered_of_idle (hb : s.batch = none) : s.Unhindered :=
  fun _ h => nomatch hb.symm.trans h

/-- A robot that is free refuses no command for moving. -/
theorem unhindered_of_stride {d d' : Single} (hs : Stride (s, d) (s', d')) (hfree : s.Free)
    (h : s.Unhindered) : s'.Unhindered := by
  cases hs with
  | @done _ _ b _ _ _ report hb hc hw ho =>
    intro b' hb'
    cases hb'
    cases report <;> exact h b hb
  | @begun _ _ b _ _ _ hb hc hw ho =>
    intro b' hb'
    cases hb'
    exact h b hb
  | @rejected _ _ b command _ fault hb hc hw ho =>
    intro b' hb' hmem
    cases hb'
    rcases Array.mem_push.mp hmem with hmem | rfl
    · exact h b hb hmem
    · obtain ⟨here, hp⟩ := Robot.position_of_busy ho
      have hm := Robot.motion_of_busy ho
      obtain hnone | hrest := hfree ((inFlight_of_batch hb).trans hc)
      · cases hp.symm.trans hnone
      · rw [Robot.isMoving_eq_false hrest] at hm
        cases hm
  | @finished _ _ b _ _ _ hb hc ha =>
    intro b' hb'
    cases hb'
    exact h b hb

/-- What keeps the robot free keeps the refusal out of every batch. -/
theorem kept_unhindered {P : Simulation → Prop} (k : Kept P) (hfree : ∀ {s}, P s → s.Free) :
    Kept fun s => P s ∧ s.Unhindered where
  ticked clock h := ⟨k.ticked clock h.1, h.2⟩
  stride hs h := ⟨k.stride hs h.1, unhindered_of_stride hs (hfree h.1) h.2⟩
  played hb hc ha h := ⟨k.played hb hc ha h.1, h.2⟩
  concluded hb hc hw h := ⟨k.concluded hb hc hw h.1, unhindered_of_idle rfl⟩
  accepted ha h := by
    refine ⟨k.accepted ha h.1, ?_⟩
    obtain ⟨-, rfl⟩ := accept_eq_ok ha
    intro b hb
    cases hb
    exact Array.not_mem_empty _
  cancelled {s b} hb h := by
    refine ⟨k.cancelled hb h.1, unhindered_of_idle ?_⟩
    cases hc : b.current with
    | none => rw [cancel_of_waiting hb hc]; rfl
    | some current => rw [cancel_of_playing hb hc]; rfl
  framed seconds h := ⟨k.framed seconds h.1, h.2⟩
  paced realtime h := ⟨k.paced realtime h.1, h.2⟩

theorem not_findsMoving {P : Simulation → Prop} (k : Kept P) (hfree : ∀ {s}, P s → s.Free)
    (hs : s.follow calls = some (s', history)) (hb : s.batch = none) (hp : P s) :
    ¬ FindsMoving history := by
  rintro ⟨e, he, o, ho, hmem⟩
  obtain ⟨s₁, b, ⟨-, h⟩, hb₁, ho'⟩ := (kept_unhindered k hfree).ended_of_follow hs he ho
    ⟨hp, unhindered_of_idle hb⟩
  rw [ho'] at hmem
  exact h b hb₁ hmem

/-- A batch that ends in its first frame, as a history. -/
theorem exists_history {s₁ : Simulation} {commands : List Command} {seconds : Single}
    {o : Outcome} (ha : s.accept commands none = .ok s₁)
    (hf : s₁.advance seconds = (s', some o)) :
    ∃ history, s.follow [.accept commands none, .advance seconds] = some (s', history)
      ∧ ∃ e ∈ history, e.answer = .ended o := by
  refine ⟨[{ before := s, call := .accept commands none, answer := .nothing, after := s₁ },
    { before := s₁, call := .advance seconds, answer := .ended o, after := s' }], ?_,
    _, List.mem_cons_of_mem _ List.mem_cons_self, rfl⟩
  simp [follow, call, ha, hf, Answer.ofOutcome]

/-- A motion left over to a placed robot is found by the next turn. -/
theorem findsMoving_of_moving {here : Cell} (hb : s.batch = none)
    (hp : s.robot.position = some here) (hm : s.robot.isMoving = true) :
    ∃ later s' history, s.follow later = some (s', history) ∧ FindsMoving history := by
  let b : Batch :=
    { waiting := [.left], current := none, outcome := .empty, watcher := none }
  let s₁ : Simulation := { s with batch := some b }
  have ha : s.accept [.left] none = .ok s₁ := accept_of_idle hb _ _
  have ho : (s₁.tick 0).robot.obey s.table .left = .error (.robot .moving) :=
    Robot.obey_left_of_moving hp hm
  have hf : (s₁.advance 0).2 = some (b.outcome.addFault (.robot .moving)) := by
    rw [advance_of_waiting 0 rfl rfl]
    show (work (s₁.tick 0) b _ (.left :: [])).2 = _
    rw [work_of_rejected ho]
    rfl
  obtain ⟨history, hs, e, he, hended⟩ := exists_history ha (Prod.ext rfl hf)
  exact ⟨_, _, history, hs, e, he, _, hended, Array.mem_push_self⟩

end Refusal

/-- Before the first call nothing has become of a motion. -/
theorem Initial.leftover {s : Simulation} (h : s.Initial) : Leftover s.robot s where
  robot := rfl
  flight := inFlight_of_idle h.idle
  placements := by
    rw [h.untouched.journal]
    rfl

/-- **When a batch can meet with a robot that is moving.** After any history
that leaves no batch unfinished, some further history has a batch that does,
exactly if the simulation was set up with a robot that was placed and moving,
and no placement has taken effect since. So it never happens to a robot that
was at rest to begin with, and to no robot after a placement. -/
theorem findsMoving_iff {s₀ s : Simulation} {calls : List Call} {history : List Event}
    (h₀ : s₀.Initial) (hs : s₀.follow calls = some (s, history)) (hb : s.batch = none) :
    (∃ later s' history', s.follow later = some (s', history') ∧ FindsMoving history')
      ↔ s₀.robot.isPlaced = true ∧ s₀.robot.isMoving = true
        ∧ s.journal.executed Command.isPlacement = 0 := by
  by_cases hm : s₀.robot.motion = none
  · -- A robot at rest is steady from the beginning.
    have hsteady := kept_steady.follow hs (h₀.steady hm)
    constructor
    · rintro ⟨later, s', history', hs', hfinds⟩
      exact absurd hfinds (not_findsMoving kept_steady Steady.free hs' hb hsteady)
    · rintro ⟨-, hmoving, -⟩
      rw [Robot.isMoving_eq_false hm] at hmoving
      cases hmoving
  · have hmoving : s₀.robot.isMoving = true := Option.isSome_iff_ne_none.mpr hm
    have hleft := (kept_leftover hmoving).follow hs (.inl h₀.leftover)
    constructor
    · rintro ⟨later, s', history', hs', hfinds⟩
      refine ⟨?_, hmoving, ?_⟩
      · cases hp : s₀.robot.position with
        | some here =>
          rw [Robot.isPlaced, hp]
          rfl
        | none =>
          refine absurd hfinds (not_findsMoving (kept_leftover hmoving) ?_ hs' hb hleft)
          rintro s (h | h) hf
          · exact .inl (h.robot ▸ hp)
          · exact h.steady.free hf
      · obtain h | h := hleft
        · exact h.placements
        · exact absurd hfinds (not_findsMoving kept_relieved (fun h => h.steady.free) hs' hb h)
    · rintro ⟨hplaced, -, hnone⟩
      obtain ⟨here, hp⟩ := Option.isSome_iff_exists.mp hplaced
      obtain h | h := hleft
      · exact findsMoving_of_moving hb (h.robot ▸ hp) (h.robot ▸ hmoving)
      · exact absurd hnone (Nat.ne_of_gt h.placements)

/-- The robot has begun a turn when it is given to the simulation, and the only
placement since then was off the table. -/
theorem findsMoving_after_rejection :
    ∃ r s history,
      ((Robot.new 0 0).place ((⟨5, 5, 1, by decide⟩ : Table).cellAt 0 0) .north).turn .north
        = .ok r
      ∧ (Simulation.new ⟨5, 5, 1, by decide⟩ r).follow
          [.accept [.place 5 5 .east, .report] none, .advance 0] = some (s, history)
      ∧ ∃ later s' history', s.follow later = some (s', history') ∧ FindsMoving history' := by
  obtain ⟨r, hr⟩ : ∃ r, ((Robot.new 0 0).place
      ((⟨5, 5, 1, by decide⟩ : Table).cellAt 0 0) .north).turn .north = .ok r := ⟨_, rfl⟩
  have hany : ((Simulation.new ⟨5, 5, 1, by decide⟩ r).follow
      [.accept [.place 5 5 .east, .report] none, .advance 0]).any
      (fun p => p.1.batch.isNone && p.1.journal.executed Command.isPlacement = 0) = true := by
    cases hr
    decide +kernel
  obtain ⟨⟨s, history⟩, hs, hp⟩ := (Option.any_eq_true _ _).mp hany
  obtain ⟨hb, hnone⟩ := Bool.and_eq_true_iff.mp hp
  refine ⟨r, s, history, hr, hs, ?_⟩
  cases hr
  exact (findsMoving_iff (.new _ _) hs (Option.isNone_iff_eq_none.mp hb)).mpr
    ⟨rfl, rfl, of_decide_eq_true hnone⟩

/-- A turn that ends where it begins is given no time to be played in, and the
turn to the left that is asked for next is refused. -/
theorem findsMoving_of_turn :
    ∃ r s history,
      ((Robot.new 0 0).place ((⟨5, 5, 1, by decide⟩ : Table).cellAt 0 0) .north).turn .north
        = .ok r
      ∧ (Simulation.new ⟨5, 5, 1, by decide⟩ r).follow
          [.accept [.left, .report] none, .advance defaultFrame] = some (s, history)
      ∧ FindsMoving history := by
  obtain ⟨r, hr⟩ : ∃ r, ((Robot.new 0 0).place
      ((⟨5, 5, 1, by decide⟩ : Table).cellAt 0 0) .north).turn .north = .ok r := ⟨_, rfl⟩
  obtain ⟨s₁, ha⟩ : ∃ s₁, (Simulation.new ⟨5, 5, 1, by decide⟩ r).accept [.left, .report] none
      = .ok s₁ := ⟨_, accept_of_idle rfl _ _⟩
  have hf : (s₁.advance defaultFrame).2
      = some { reports := #["0,0,North".toList], faults := #[.robot .moving]
               cancelled := false } := by
    cases hr
    cases ha
    decide +kernel
  obtain ⟨history, hs, e, he, hended⟩ := exists_history ha (Prod.ext rfl hf)
  exact ⟨r, _, history, hr, hs, e, he, _, hended, by simp⟩

end Simulation

end Tabletop
