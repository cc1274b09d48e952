import Tabletop.Proofs.Completion
import Tabletop.Proofs.Moment
import Tabletop.Proofs.Rounding

/-!
# The edge of the table

Where the table ends there is no cell to step to, and a step should come to
nothing and take no time. The robot notices the end of the table by the cell
ahead being the cell it stands on, and that is a comparison of points as well
as of coordinates. So it notices the end if its own cell has a point to be
drawn at, and that depends on the cell size (`Table.Draws`). Where there is no
such point, a cell is not even the same as itself, and the robot sets out for
the cell that it stands on.

`move_at_moment` puts the three cases together, for every moment at which a
step is the next command and the robot is at rest. A step onto the table
begins a motion. A step off the table is done at once, and the next command is
taken up in the same frame (`DoneAtOnce`); but from a cell without a point it
begins a motion that leads nowhere.
-/

namespace Tabletop

namespace Binary

variable {F : Format}

/-- Every value but one is at its own place. -/
theorem equals_self_iff {x : Binary F} : x.equals x = true ↔ x ≠ nan := by
  cases x <;> simp [equals, compareBy, place?]

theorem finite_mul_finite_ne_nan {s t : Bool} {u v : Nat} {hu : F.Representable u}
    {hv : F.Representable v} : (finite s u hu * finite t v hv : Binary F) ≠ nan :=
  ofUnits_ne_nan _ _ _

/-- An integer of 32 bits is well below the ceiling, and it is rounded to zero
only if it is zero. -/
theorem exists_ofInt_eq (i : Int32) :
    ∃ s u h, (ofInt i.toInt : Single) = finite s u h ∧ (u = 0 ↔ i = 0) := by
  have hbelow := i.toInt_lt
  have habove := i.le_toInt
  have habs : i.toInt.natAbs ≤ twoPow 31 := by
    show i.toInt.natAbs ≤ 2147483648
    omega
  have hle : i.toInt.natAbs * twoPow Format.single.scale ≤ twoPow (31 + Format.single.scale) := by
    rw [twoPow_add]
    exact Nat.mul_le_mul_right _ habs
  unfold ofInt ofRatio
  refine ⟨_, _, _, ofUnits_of_lt _ (Format.round_lt_top (by decide) hle), ?_⟩
  have hpos := twoPow_pos Format.single.scale
  rw [Format.round_eq_zero_iff, Nat.mul_eq_zero, or_iff_left (by omega), Int.natAbs_eq_zero,
    ← Int32.toInt_inj, Int32.toInt_zero]

end Binary

namespace Table

variable {t : Table} {x y : Int32}

/-- The table has a cell one step from a cell in a direction. -/
def goesOn (t : Table) (c : Cell) (d : Direction) : Bool :=
  t.contains (c.x + d.step.1) (c.y + d.step.2)

/-- **The table has a point for the cell** at these coordinates. With a cell
size that is not a number it has none for any cell, and with an infinite one
none for those in the first column or the first row: zero times infinity is not
a number. -/
def Draws (t : Table) (x y : Int32) : Prop :=
  t.cellSize ≠ .nan ∧ (t.cellSize.isFinite = true ∨ x ≠ 0 ∧ y ≠ 0)

instance (t : Table) (x y : Int32) : Decidable (t.Draws x y) :=
  inferInstanceAs (Decidable (_ ∧ (_ ∨ _)))

theorem mul_cellSize_ne_nan (i : Int32) (size : Single) :
    (Binary.ofInt i.toInt * size : Single) ≠ .nan
      ↔ size ≠ .nan ∧ (size.isFinite = true ∨ i ≠ 0) := by
  obtain ⟨s, u, h, hi, hzero⟩ := Binary.exists_ofInt_eq i
  rw [hi]
  cases size with
  | nan => exact ⟨fun hne => absurd rfl hne, fun hne => absurd rfl hne.1⟩
  | infinite s' =>
    show (if u = 0 then Binary.nan else Binary.infinite (s != s') : Single) ≠ .nan ↔ _
    rw [Ne, Ne, Ne, ← hzero]
    by_cases hu : u = 0
    · simp [hu, Binary.isFinite]
    · simp [hu]
  | finite s' v h' =>
    refine iff_of_true Binary.finite_mul_finite_ne_nan ⟨?_, .inl rfl⟩
    intro h
    cases h

/-- **A cell is the same as itself** if the table has a point for it. -/
theorem equals_cellAt_self : (t.cellAt x y).equals (t.cellAt x y) = true ↔ t.Draws x y := by
  have hup : ((0 : Single).equals 0) = true :=
    Binary.equals_self_iff.mpr (Binary.ofNat_ne_nan 0)
  simp only [Cell.equals, Point.equals, cellAt, decide_true, Bool.true_and, hup,
    Bool.and_eq_true, Binary.equals_self_iff, mul_cellSize_ne_nan, Bool.and_true]
  unfold Draws
  rw [← and_and_left, or_and_left]

theorem contains_of_has {c : Cell} (h : t.Has c) : t.contains c.x c.y = true := by
  unfold Has cell at h
  split at h
  · assumption
  · cases h

theorem cellAt_of_has {c : Cell} (h : t.Has c) : t.cellAt c.x c.y = c := by
  rw [Has, cell_eq_ok (contains_of_has h)] at h
  exact Except.ok.inj h

end Table

namespace Robot

variable {r : Robot} {t : Table} {here : Cell}

theorem obey_move_of_placed (hp : r.position = some here) :
    r.obey t .move = (r.goForward t).mapError .robot :=
  ifPlaced_of_placed hp _ _

/-- Ahead there is a cell of the table. -/
theorem obey_move_of_contains (hp : r.position = some here) (hm : r.motion = none)
    (ht : t.goesOn here r.facing = true) :
    r.obey t .move = .ok (r.setOut (.step here (t.ahead here r.facing)), .begun) := by
  have hahead : t.contains (t.ahead here r.facing).x (t.ahead here r.facing).y = true := by
    rw [Table.ahead_of_contains ht]
    exact ht
  rw [obey_move_of_placed hp, goForward, hp]
  dsimp only
  rw [ahead_not_equals ht, if_neg Bool.false_ne_true, if_pos hahead, goTo_eq hp,
    ready_of_rest hp hm]
  rfl

/-- Ahead there is none, and the robot notices. -/
theorem obey_move_of_edge (hp : r.position = some here)
    (ht : t.goesOn here r.facing = false)
    (hself : here.equals here = true) : r.obey t .move = .ok (r, .done none) := by
  rw [obey_move_of_placed hp, goForward, hp]
  dsimp only
  rw [Table.ahead_of_not_contains ht, if_pos hself]
  rfl

/-- Ahead there is none, and the robot sets out for the cell it stands on. -/
theorem obey_move_of_unnoticed (hp : r.position = some here) (hm : r.motion = none)
    (ht : t.goesOn here r.facing = false)
    (hhere : t.contains here.x here.y = true) (hself : ¬ here.equals here = true) :
    r.obey t .move = .ok (r.setOut (.step here here), .begun) := by
  rw [obey_move_of_placed hp, goForward, hp]
  dsimp only
  rw [Table.ahead_of_not_contains ht, if_neg hself, if_pos hhere, goTo_eq hp,
    ready_of_rest hp hm]
  rfl

end Robot

namespace Simulation

/-- **A command is done at once** between two moments of a frame. -/
structure DoneAtOnce (s : Simulation) (seconds : Single) (p q : Simulation × Single)
    (command : Command) : Prop where
  before : s.Moment seconds p
  after : s.Moment seconds q
  stride : Stride p q
  /-- It was the next one. -/
  waiting : p.1.waiting = command :: q.1.waiting
  /-- The robot is as it was. -/
  robot : q.1.robot = p.1.robot
  /-- No motion has begun. -/
  flight : q.1.inFlight = none
  /-- No time has passed, and none has been used up. -/
  time : q.1.clock = p.1.clock ∧ q.2 = p.2
  /-- The journal has its beginning and its end, at one time. -/
  journal : q.1.journal = (p.1.journal.record (p.1.clock - p.2.convert) p.1.nextIndex command
    .started).record (p.1.clock - p.2.convert) p.1.nextIndex command .finished
  /-- The next command is taken up in the same frame. -/
  next : ∀ {command' : Command} {rest : List Command}, q.1.waiting = command' :: rest →
    ∃ q', s.Moment seconds q' ∧ Stride q q' ∧ q'.1.waiting = rest

section Edge

variable {s s₀ : Simulation} {seconds : Single} {p q : Simulation × Single}
  {command : Command} {rest : List Command} {robot : Robot} {calls : List Call}
  {history : List Event} {here : Cell}

/-- With nothing in flight a stride is the next command taken up, and what
comes of that is what the robot does. -/
theorem stride_of_waiting (hs : Stride p q) (hf : p.1.inFlight = none)
    (hw : p.1.waiting = command :: rest) :
    (∃ robot report, p.1.robot.obey p.1.table command = .ok (robot, .done report)
        ∧ q.1.robot = robot ∧ q.1.inFlight = none ∧ q.1.clock = p.1.clock ∧ q.2 = p.2
        ∧ q.1.journal = (p.1.journal.record (p.1.clock - p.2.convert) p.1.nextIndex command
          .started).record (p.1.clock - p.2.convert) p.1.nextIndex command .finished)
      ∨ (∃ robot, p.1.robot.obey p.1.table command = .ok (robot, .begun)
        ∧ q.1.robot = robot ∧ q.1.inFlight = some (p.1.nextIndex, command))
      ∨ ∃ fault, p.1.robot.obey p.1.table command = .error fault := by
  cases hs with
  | done hb hc hw' ho =>
    cases hw.symm.trans ((waiting_of_batch hb).trans hw')
    exact .inl ⟨_, _, ho, rfl, hc, rfl, rfl, rfl⟩
  | begun hb hc hw' ho =>
    cases hw.symm.trans ((waiting_of_batch hb).trans hw')
    exact .inr (.inl ⟨_, ho, rfl, rfl⟩)
  | rejected hb hc hw' ho =>
    cases hw.symm.trans ((waiting_of_batch hb).trans hw')
    exact .inr (.inr ⟨_, ho⟩)
  | finished hb hc => cases hf.symm.trans ((inFlight_of_batch hb).trans hc)

theorem Moment.doneAtOnce (h : s.Moment seconds p) (hf : p.1.inFlight = none)
    (hw : p.1.waiting = command :: rest)
    (ho : p.1.robot.obey p.1.table command = .ok (p.1.robot, .done none)) :
    ∃ q, s.DoneAtOnce seconds p q command := by
  obtain ⟨q, hq, hs, hrest⟩ := h.prompt hf hw
  obtain ⟨robot, report, ho', hrobot, hflight, hclock, htime, hjournal⟩ | ⟨robot, ho', -⟩
    | ⟨fault, ho'⟩ := stride_of_waiting hs hf hw
  · cases ho.symm.trans ho'
    exact ⟨q, {
      before := h
      after := hq
      stride := hs
      waiting := hrest ▸ hw
      robot := hrobot
      flight := hflight
      time := ⟨hclock, htime⟩
      journal := hjournal
      next := hq.prompt hflight }⟩
  · cases ho.symm.trans ho'
  · cases ho.symm.trans ho'

theorem Moment.begins (h : s.Moment seconds p) (hf : p.1.inFlight = none)
    (hw : p.1.waiting = command :: rest)
    (ho : p.1.robot.obey p.1.table command = .ok (robot, .begun)) :
    ∃ q, s.Begins seconds p q p.1.nextIndex command ∧ q.1.robot = robot := by
  obtain ⟨q, hq, hs, -⟩ := h.prompt hf hw
  obtain ⟨robot', report, ho', -⟩ | ⟨robot', ho', hrobot, hflight⟩ | ⟨fault, ho'⟩ :=
    stride_of_waiting hs hf hw
  · cases ho.symm.trans ho'
  · cases ho.symm.trans ho'
    exact ⟨q, ⟨h, hq, hs, hf, hflight⟩, hrobot⟩
  · cases ho.symm.trans ho'

/-- A robot at rest has no command in flight. -/
theorem Steady.flight_of_rest (hs : s.Steady) (hm : s.robot.motion = none) :
    s.inFlight = none := by
  cases hf : s.inFlight with
  | none => rfl
  | some current =>
    obtain ⟨-, motion, hmotion, -⟩ := hs.motion hf
    cases hm.symm.trans hmotion

/-- From a sound start on, the robot and its batch agree and the robot stands
on a cell of its table. -/
theorem SoundStart.grounded (h₀ : s₀.SoundStart)
    (hs : s₀.follow calls = some (s, history)) : s.Steady ∧ s.Grounded := by
  refine kept_grounded.follow hs ?_
  cases h₀ with
  | new hm hp => exact ⟨steady_of_rest rfl hm, hp⟩
  | settings hc =>
    obtain ⟨t, rfl⟩ := eq_of_settings hc
    exact ⟨steady_of_rest rfl rfl, nofun⟩

/-- **A step takes time if it leads somewhere,** and at the edge it takes none
if the robot notices the edge. At a moment of any frame after any history a
step is the next command and the robot is at rest. If there is a cell ahead,
a motion to it begins. If there is none and the robot's own cell has a point,
the step is done at once. If it has no point, a motion begins that leads from
the cell to itself. -/
theorem move_at_moment (h₀ : s₀.SoundStart) (hs : s₀.follow calls = some (s, history))
    (h : s.Moment seconds p) (hw : p.1.waiting = .move :: rest)
    (hp : p.1.robot.position = some here) (hm : p.1.robot.motion = none) :
    (p.1.table.goesOn here p.1.robot.facing = true →
      ∃ q, s.Begins seconds p q p.1.nextIndex .move
        ∧ q.1.robot = p.1.robot.setOut
          (.step here (p.1.table.cellAt (here.x + p.1.robot.facing.step.1)
            (here.y + p.1.robot.facing.step.2))))
      ∧ (p.1.table.goesOn here p.1.robot.facing = false →
        (p.1.table.Draws here.x here.y → ∃ q, s.DoneAtOnce seconds p q .move)
        ∧ (¬ p.1.table.Draws here.x here.y →
          ∃ q, s.Begins seconds p q p.1.nextIndex .move
            ∧ q.1.robot = p.1.robot.setOut (.step here here))) := by
  obtain ⟨hsteady, hgrounded⟩ := kept_grounded.toKeptByFrames.moment h (h₀.grounded hs)
  have hflight := hsteady.flight_of_rest hm
  have hhas := hgrounded here hp
  have hself : here.equals here = true ↔ p.1.table.Draws here.x here.y := by
    rw [← Table.equals_cellAt_self, Table.cellAt_of_has hhas]
  refine ⟨fun ht => ?_, fun ht => ⟨fun hdraws => ?_, fun hdraws => ?_⟩⟩
  · rw [← Table.ahead_of_contains ht]
    exact h.begins hflight hw (Robot.obey_move_of_contains hp hm ht)
  · exact h.doneAtOnce hflight hw (Robot.obey_move_of_edge hp ht (hself.mpr hdraws))
  · exact h.begins hflight hw
      (Robot.obey_move_of_unnoticed hp hm ht (Table.contains_of_has hhas) (mt hself.mp hdraws))

/-- The robot stands on the northern edge of a table with an infinite cell
size, on a cell that has a point all the same. -/
theorem move_at_northern_edge :
    ∃ s₀ s history p q,
      ({ Settings.default with width := 3, length := 2, cellSize := .infinite false } :
          Settings).simulation = .ok s₀
      ∧ s₀.follow [.accept [.place 1 1 .north] none, .advance 0, .accept [.move, .left] none]
        = some (s, history)
      ∧ s.DoneAtOnce (.ofRatio false 1 4) p q .move := by
  obtain ⟨s₀, hs₀⟩ : ∃ s₀, ({ Settings.default with
      width := 3, length := 2, cellSize := .infinite false } : Settings).simulation = .ok s₀ :=
    ⟨_, rfl⟩
  have hany : (s₀.follow
      [.accept [.place 1 1 .north] none, .advance 0, .accept [.move, .left] none]).any
      (fun p => p.1.batch.isSome && p.1.waiting = [.move, .left] && p.1.robot.motion = none
        && p.1.robot.position.any fun here =>
          !p.1.table.goesOn here p.1.robot.facing
          && decide (p.1.table.Draws here.x here.y)) = true := by
    cases hs₀
    decide +kernel
  obtain ⟨⟨s, history⟩, hs, hp⟩ := (Option.any_eq_true _ _).mp hany
  simp only [Bool.and_eq_true, decide_eq_true_eq, Bool.not_eq_true', Option.any_eq_true] at hp
  obtain ⟨⟨⟨hb, hw⟩, hm⟩, here, hhere, hedge, hdraws⟩ := hp
  obtain ⟨b, hb⟩ := Option.isSome_iff_exists.mp hb
  have hmoment := moment_tick (.ofRatio false 1 4) hb
  obtain ⟨q, hq⟩ := ((move_at_moment (.settings hs₀) hs hmoment hw hhere hm).2 hedge).1 hdraws
  exact ⟨s₀, s, history, _, q, hs₀, hs, hq⟩

/-- On a table of a single cell, with a cell size that is not a number, the
robot faces south and is told to step. There is no cell to the south; a
hundredth of a second later the step is being played, and the report waits. -/
theorem move_onto_itself :
    ∃ s₀ s s' history here,
      ({ Settings.default with width := 1, length := 1, cellSize := .nan } :
          Settings).simulation = .ok s₀
      ∧ s₀.follow [.accept [.place 0 0 .south] none, .advance 0, .accept [.move, .report] none]
        = some (s, history)
      ∧ s.robot.position = some here ∧ s.table.contains here.x here.y = true
      ∧ s.robot.isMoving = false
      ∧ s.table.goesOn here s.robot.facing = false
      ∧ s.advance (.ofRatio false 1 100) = (s', none)
      ∧ s'.inFlight = some (1, .move) ∧ s'.robot.isMoving = true ∧ s'.waiting = [.report] := by
  obtain ⟨s₀, hs₀⟩ : ∃ s₀, ({ Settings.default with
      width := 1, length := 1, cellSize := .nan } : Settings).simulation = .ok s₀ := ⟨_, rfl⟩
  have hany : (s₀.follow
      [.accept [.place 0 0 .south] none, .advance 0, .accept [.move, .report] none]).any
      (fun p => (p.1.robot.position.any fun here => p.1.table.contains here.x here.y
          && p.1.robot.isMoving = false
          && p.1.table.goesOn here p.1.robot.facing = false)
        && (p.1.advance (.ofRatio false 1 100)).2 = none
        && (p.1.advance (.ofRatio false 1 100)).1.inFlight = some (1, .move)
        && (p.1.advance (.ofRatio false 1 100)).1.robot.isMoving
        && (p.1.advance (.ofRatio false 1 100)).1.waiting = [.report]) = true := by
    cases hs₀
    decide +kernel
  obtain ⟨⟨s, history⟩, hs, hp⟩ := (Option.any_eq_true _ _).mp hany
  simp only [Bool.and_eq_true, decide_eq_true_eq, Option.any_eq_true] at hp
  obtain ⟨⟨⟨⟨⟨here, hhere, ⟨hon, hrest⟩, hedge⟩, hnone⟩, hflight⟩, hmoving⟩, hw⟩ := hp
  exact ⟨s₀, s, _, history, here, hs₀, hs, hhere, hon, hrest, hedge, Prod.ext rfl hnone,
    hflight, hmoving, hw⟩

end Edge

end Simulation

end Tabletop
