import Tabletop.Proofs.Kept

/-!
# The robot and its batch agree

A batch says which command is being played, and the robot has a motion. The
two are kept in different places and change in different calls, and they
agree at all times: `Simulation.Steady` says that the robot moves exactly
while a command is in flight, and then along the path which that command sends
it, from where it stands. A robot that is at rest to begin with is enough for
this.

If it also stands on a cell of its table, it does so for ever:
`Simulation.Grounded`. Not only its coordinates are those of a cell; the cell
is the table's own, the point at which it is drawn included.
-/

namespace Tabletop

namespace Simulation

/-- **The robot moves for the command in flight and for no other reason.** -/
structure Steady (s : Simulation) : Prop where
  /-- Without a command in flight, the robot is at rest. -/
  rest : s.inFlight = none → s.robot.motion = none
  /-- With one, the robot is placed and on the way that the command sends it. -/
  motion : ∀ {index : Nat} {command : Command}, s.inFlight = some (index, command) →
    s.robot.isPlaced = true
      ∧ ∃ motion, s.robot.motion = some motion
        ∧ s.robot.Undertakes s.table command motion.path

/-- **The robot stands on a cell of its table,** if it is placed. -/
def Grounded (s : Simulation) : Prop :=
  ∀ here : Cell, s.robot.position = some here → s.table.Has here

section Steady

variable {s : Simulation} {b : Batch}

/-- Nothing in flight, nothing in motion. -/
theorem steady_of_rest (hf : s.inFlight = none) (hm : s.robot.motion = none) : s.Steady where
  rest _ := hm
  motion h := nomatch hf.symm.trans h

theorem Steady.rest_of_current (hs : s.Steady) (hb : s.batch = some b)
    (hc : b.current = none) : s.robot.motion = none :=
  hs.rest ((inFlight_of_batch hb).trans hc)

theorem steady_of_stride {s' : Simulation} {d d' : Single}
    (h : Stride (s, d) (s', d')) (hs : s.Steady) : s'.Steady := by
  cases h with
  | done hb hc hw ho =>
    exact steady_of_rest hc (Robot.motion_of_done ho (hs.rest_of_current hb hc))
  | begun hb hc hw ho =>
    cases Robot.obeyed_of_eq ho with
    | begun hm hp hu =>
      refine { rest := (nomatch ·), motion := fun h => ?_ }
      cases h
      exact ⟨hp, _, rfl, hu.congr rfl rfl⟩
  | rejected hb hc hw ho => exact steady_of_rest hc (hs.rest_of_current hb hc)
  | finished hb hc ha =>
    rw [Robot.arrived_of_advance ha]
    exact steady_of_rest rfl Robot.arrived_motion

theorem steady_of_played {d : Single} {index : Nat} {command : Command} {robot : Robot}
    (hb : s.batch = some b) (hc : b.current = some (index, command))
    (ha : s.robot.advance d = (robot, false)) (hs : s.Steady) :
    ({ s with robot } : Simulation).Steady := by
  obtain ⟨motion, hm, rfl⟩ := Robot.playing_of_advance ha
  have hf : s.inFlight = some (index, command) := (inFlight_of_batch hb).trans hc
  refine { rest := fun h => ?_, motion := fun h => ?_ }
  · cases hf.symm.trans h
  · cases hf.symm.trans h
    obtain ⟨hp, motion', hm', hu⟩ := hs.motion hf
    cases hm.symm.trans hm'
    exact ⟨hp, _, rfl, hu.congr rfl rfl⟩

theorem steady_of_cancel (hb : s.batch = some b) (hs : s.Steady) : s.cancel.1.Steady := by
  cases hc : b.current with
  | none =>
    rw [cancel_of_waiting hb hc]
    exact steady_of_rest rfl (hs.rest_of_current hb hc)
  | some current =>
    rw [cancel_of_playing hb hc]
    exact steady_of_rest rfl rfl

theorem kept_steady : Kept Steady where
  ticked _ hs := ⟨hs.rest, hs.motion⟩
  stride := steady_of_stride
  played := steady_of_played
  concluded hb hc _ hs := steady_of_rest rfl (hs.rest_of_current hb hc)
  accepted ha hs := by
    obtain ⟨hb, rfl⟩ := accept_eq_ok ha
    exact steady_of_rest rfl (hs.rest (inFlight_of_idle hb))
  cancelled := steady_of_cancel
  framed _ hs := ⟨hs.rest, hs.motion⟩
  paced _ hs := ⟨hs.rest, hs.motion⟩

end Steady

section Grounded

variable {s : Simulation}

/-- At the end of its motion a grounded robot stands on a cell of the table:
on the same one after a turn, and on the one ahead after a step. -/
theorem has_of_arrived {r : Robot} {t : Table} {command : Command} {motion : Motion}
    (hm : r.motion = some motion) (hu : r.Undertakes t command motion.path)
    (hg : ∀ here, r.position = some here → t.Has here) :
    ∀ here, r.arrived.position = some here → t.Has here := by
  intro here hp
  rw [Robot.arrived, hm] at hp
  dsimp only at hp
  -- The path has to be a variable for the cases to say which one it is.
  generalize motion.path = path at hp hu
  cases hu with
  | left => exact hg here hp
  | right => exact hg here hp
  | move hp' ht =>
    cases hp
    exact Table.has_ahead (hg _ hp') _

theorem grounded_of_stride {s' : Simulation} {d d' : Single}
    (h : Stride (s, d) (s', d')) (hs : s.Steady) (hg : s.Grounded) : s'.Grounded := by
  cases h with
  | done hb hc hw ho =>
    cases Robot.obeyed_of_eq ho with
    | placed ht =>
      intro here hp
      cases hp
      exact Table.has_cellAt ht
    | reported => exact hg
    | blocked => exact hg
  | begun hb hc hw ho =>
    cases Robot.obeyed_of_eq ho with
    | begun => exact hg
  | rejected => exact hg
  | finished hb hc ha =>
    obtain ⟨-, motion, hm, hu⟩ := hs.motion ((inFlight_of_batch hb).trans hc)
    rw [Robot.arrived_of_advance ha]
    exact has_of_arrived hm hu hg

theorem grounded_of_played {d : Single} {robot : Robot}
    (ha : s.robot.advance d = (robot, false)) (hg : s.Grounded) :
    ({ s with robot } : Simulation).Grounded := by
  obtain ⟨motion, -, rfl⟩ := Robot.playing_of_advance ha
  exact hg

theorem grounded_of_cancel {b : Batch} (hb : s.batch = some b) (hg : s.Grounded) :
    s.cancel.1.Grounded := by
  cases hc : b.current with
  | none =>
    rw [cancel_of_waiting hb hc]
    exact hg
  | some current =>
    rw [cancel_of_playing hb hc]
    exact hg

theorem kept_grounded : Kept fun s => s.Steady ∧ s.Grounded where
  ticked clock h := ⟨kept_steady.ticked clock h.1, h.2⟩
  stride hs h := ⟨steady_of_stride hs h.1, grounded_of_stride hs h.1 h.2⟩
  played hb hc ha h := ⟨steady_of_played hb hc ha h.1, grounded_of_played ha h.2⟩
  concluded hb hc hw h := ⟨kept_steady.concluded hb hc hw h.1, h.2⟩
  accepted ha h := by
    refine ⟨kept_steady.accepted ha h.1, ?_⟩
    obtain ⟨-, rfl⟩ := accept_eq_ok ha
    exact h.2
  cancelled hb h := ⟨steady_of_cancel hb h.1, grounded_of_cancel hb h.2⟩
  framed frame h := ⟨kept_steady.framed frame h.1, h.2⟩
  paced realtime h := ⟨kept_steady.paced realtime h.1, h.2⟩

end Grounded

/-! ## From the beginning -/

/-- What settings set up: a table with a robot that has not been placed. -/
theorem eq_of_settings {c : Settings} {s : Simulation} (h : c.simulation = .ok s) :
    ∃ t, s = ((Simulation.new t (.new c.turnDuration c.stepDuration)).setFrame
      c.frame).setRealtime c.realtime := by
  rw [Settings.simulation] at h
  cases ht : Table.make c.width c.length c.cellSize with
  | error e =>
    rw [ht] at h
    cases h
  | ok t =>
    rw [ht] at h
    cases h
    exact ⟨t, rfl⟩

/-- Nothing has happened yet. -/
structure Untouched (s : Simulation) : Prop where
  clock : s.clock = 0
  nextIndex : s.nextIndex = 0
  batch : s.batch = none
  journal : s.journal = .empty
  notices : s.notices = #[]

theorem Initial.untouched {s : Simulation} (h : s.Initial) : s.Untouched := by
  cases h with
  | new => exact ⟨rfl, rfl, rfl, rfl, rfl⟩
  | settings h =>
    obtain ⟨t, rfl⟩ := eq_of_settings h
    exact ⟨rfl, rfl, rfl, rfl, rfl⟩

theorem Initial.idle {s : Simulation} (h : s.Initial) : s.batch = none := h.untouched.batch

/-- A robot at rest to begin with: everything is steady. -/
theorem Initial.steady {s : Simulation} (h : s.Initial) (hm : s.robot.motion = none) :
    s.Steady :=
  steady_of_rest (inFlight_of_idle h.idle) hm

/-- A robot at rest to begin with is at rest whenever no batch is running. -/
theorem motion_of_follow {s₀ s : Simulation} {calls : List Call} {history : List Event}
    (h₀ : s₀.Initial) (hm : s₀.robot.motion = none)
    (hs : s₀.follow calls = some (s, history)) (hb : s.batch = none) :
    s.robot.motion = none :=
  (kept_steady.follow hs (h₀.steady hm)).rest (inFlight_of_idle hb)

/-- A simulation set up by settings, or on a table with a robot that is at
rest and, if placed, on a cell of that table. -/
inductive SoundStart : Simulation → Prop
  | new {t : Table} {r : Robot} (hm : r.motion = none)
      (hp : ∀ here, r.position = some here → t.Has here) : SoundStart (.new t r)
  | settings {c : Settings} {s : Simulation} (h : c.simulation = .ok s) : SoundStart s

/-- **The robot and the batch tell the same story.** -/
structure Agrees (s : Simulation) : Prop where
  /-- A placed robot stands on the table's own cell at its coordinates. -/
  cell : ∀ here, s.robot.position = some here → s.table.cell here.x here.y = .ok here
  /-- It moves exactly while the batch has a command in flight. -/
  moving : s.robot.isMoving = true ↔
    ∃ b current, s.batch = some b ∧ b.current = some current
  /-- Then the robot is placed, and it moves as that command sends it. -/
  motion : ∀ b index command, s.batch = some b → b.current = some (index, command) →
    s.robot.isPlaced = true
      ∧ ∃ motion, s.robot.motion = some motion
        ∧ s.robot.Undertakes s.table command motion.path
  /-- With no batch it is at rest. -/
  idle : s.batch = none → s.robot.isMoving = false

theorem agrees_of_steady {s : Simulation} (hs : s.Steady) (hg : s.Grounded) : s.Agrees where
  cell := hg
  moving := by
    constructor
    · intro hm
      cases hf : s.inFlight with
      | none =>
        rw [Robot.isMoving_eq_false (hs.rest hf)] at hm
        cases hm
      | some current =>
        obtain ⟨b, hb, hc⟩ := Option.bind_eq_some_iff.mp hf
        exact ⟨b, current, hb, hc⟩
    · rintro ⟨b, ⟨index, command⟩, hb, hc⟩
      obtain ⟨-, motion, hm, -⟩ := hs.motion ((inFlight_of_batch hb).trans hc)
      rw [Robot.isMoving, hm]
      rfl
  motion _ _ _ hb hc := hs.motion ((inFlight_of_batch hb).trans hc)
  idle hb := Robot.isMoving_eq_false (hs.rest (inFlight_of_idle hb))

/-- **The robot and its batch agree at all times.** However calls follow each
other, whatever amounts of time pass, the robot stands on a cell of the table
it was set up with and moves for the command in flight alone. -/
theorem agrees_of_follow {s₀ s : Simulation} {calls : List Call} {history : List Event}
    (h₀ : s₀.SoundStart) (h : s₀.follow calls = some (s, history)) :
    s.Agrees ∧ s.table = s₀.table := by
  refine ⟨?_, (kept_table s₀.table).follow h rfl⟩
  have hstart : s₀.Steady ∧ s₀.Grounded := by
    cases h₀ with
    | new hm hp => exact ⟨steady_of_rest rfl hm, hp⟩
    | settings hc =>
      obtain ⟨t, rfl⟩ := eq_of_settings hc
      exact ⟨steady_of_rest rfl rfl, nofun⟩
  obtain ⟨hs, hg⟩ := kept_grounded.follow h hstart
  exact agrees_of_steady hs hg

/-- A second batch is refused while the robot is turning, and a quarter of a
second of the turn is played. -/
theorem agrees_during_turn :
    ∃ s history, (Simulation.new ⟨5, 5, 1, by decide⟩ (.new 1 1)).follow
        [.accept [.place 1 2 .north, .left, .move] none, .advance (.ofRatio false 1 4),
          .run [.report]] = some (s, history)
      ∧ s.robot.isMoving = true ∧ s.Agrees := by
  have hsome : (((Simulation.new ⟨5, 5, 1, by decide⟩ (.new 1 1)).follow
      [.accept [.place 1 2 .north, .left, .move] none, .advance (.ofRatio false 1 4),
        .run [.report]]).any fun p => p.1.robot.isMoving) = true := by
    decide +kernel
  obtain ⟨⟨s, history⟩, h, hm⟩ := (Option.any_eq_true _ _).mp hsome
  exact ⟨s, history, h, hm, (agrees_of_follow (.new rfl fun _ hp => by cases hp) h).1⟩

end Simulation

end Tabletop
