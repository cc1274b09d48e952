import Tabletop.Proofs.Meaning

/-!
# A placement makes a fresh start

Whatever a simulation has been through, a batch that begins with a placement
on the table does not depend on it. The placement calls off a motion that is
left over, and puts the robot in a pose without a look at the one before. So
the batch brings about what it would bring about for a robot with no past
(`Simulation.completes_forget`): one at rest that stands nowhere.

For that robot nothing counts but the commands and the size of the table
(`Reckoning.of_congr`). Two simulations with tables of one size therefore
come to the same outcome and the same pose, however they differ otherwise and
however time advances in each of them: `Simulation.placement_erases`.
-/

namespace Tabletop

/-- Two tables of the same size have the same coordinates. -/
theorem Table.contains_congr {t t' : Table} (hw : t'.width = t.width)
    (hl : t'.length = t.length) (x y : Int32) : t'.contains x y = t.contains x y := by
  unfold contains
  rw [hw, hl]

namespace Reckoning

variable {t t' : Table} {r : Reckoning}

/-- Drawing the table at another size changes no command's meaning. -/
theorem obey_congr (hw : t'.width = t.width) (hl : t'.length = t.length) :
    obey t' = obey t := by
  funext r command
  unfold obey Pose.step
  simp only [Table.contains_congr hw hl]

theorem of_congr (hw : t'.width = t.width) (hl : t'.length = t.length) :
    of t' = of t := by
  funext pose commands
  unfold of obeyAll
  rw [obey_congr hw hl]

/-- A robot that has been placed stays placed. -/
theorem isSome_obey (h : r.pose.isSome = true) (command : Command) :
    (r.obey t command).pose.isSome = true := by
  obtain ⟨p, hp⟩ := Option.isSome_iff_exists.mp h
  cases command with
  | place x y facing =>
    cases ht : t.contains x y with
    | true => rw [obey_place ht]; rfl
    | false => rw [obey_place_offTable ht]; exact h
  | move => rw [obey_move hp]; rfl
  | left => rw [obey_left hp]; rfl
  | right => rw [obey_right hp]; rfl
  | report => rw [obey_report hp]; exact h

theorem isSome_obeyAll (h : r.pose.isSome = true) (commands : List Command) :
    (r.obeyAll t commands).pose.isSome = true := by
  induction commands generalizing r with
  | nil => exact h
  | cons command rest ih => exact ih (isSome_obey h command)

/-- A placement on the table is all that is known of the pose before it. -/
theorem of_place {x y : Int32} (facing : Direction) (rest : List Command) (pose : Option Pose)
    (h : t.contains x y = true) :
    of t pose (.place x y facing :: rest) = of t (some { x, y, facing }) rest := by
  show ((start pose).obey t (.place x y facing)).obeyAll t rest = _
  rw [obey_place h]
  rfl

/-- After a placement on the table there is a pose. -/
theorem exists_pose_of_place {x y : Int32} (facing : Direction) (rest : List Command)
    (pose : Option Pose) (h : t.contains x y = true) :
    ∃ p, (of t pose (.place x y facing :: rest)).pose = some p := by
  rw [of_place facing rest pose h]
  exact Option.isSome_iff_exists.mp (isSome_obeyAll rfl rest)

/-- The outcome with these reports and faults. -/
def outcome (r : Reckoning) : Outcome :=
  { reports := r.reports.toArray, faults := r.faults.toArray, cancelled := false }

end Reckoning

/-- The robot with its past forgotten, as if it had never been placed. -/
def Robot.forget (r : Robot) : Robot :=
  { r with position := none, facing := .north, motion := none }

namespace Simulation

/-- The simulation with the past of its robot forgotten. -/
def forget (s : Simulation) : Simulation := { s with robot := s.robot.forget }

section Forget

variable {s s' : Simulation} {b : Batch} {x y : Int32} {facing : Direction}
  {rest : List Command}

/-- To the work that begins with a placement the past of the robot is nothing. -/
theorem work_forget (h : s.table.contains x y = true) (d : Single) :
    s.forget.work b d (.place x y facing :: rest) = s.work b d (.place x y facing :: rest) := by
  have hplace : ∀ r : Robot, r.obey s.table (.place x y facing)
      = .ok (r.place (s.table.cellAt x y) facing, .done none) := by
    intro r
    rw [Robot.obey, Table.cell_eq_ok h]
  rw [work_of_done (hplace s.robot), work_of_done (s := s.forget) (hplace s.robot.forget)]
  -- Both robots are placed, and placing one keeps nothing of its past.
  rfl

theorem advanceAll_forget (hb : s.batch = some b) (hc : b.current = none)
    (hw : b.waiting = .place x y facing :: rest) (h : s.table.contains x y = true)
    {amounts : List Single} {o : Outcome} (ha : s.advanceAll amounts = (s', some o)) :
    s.forget.advanceAll amounts = (s', some o) := by
  cases amounts with
  | nil => cases ha
  | cons seconds amounts =>
    have hfirst : s.forget.advance seconds = s.advance seconds := by
      rw [advance_of_waiting seconds hb hc, advance_of_waiting seconds (s := s.forget) hb hc, hw]
      exact work_forget (s := s.tick seconds) h _
    rw [advanceAll, hfirst]
    exact ha

/-- **A placement makes a fresh start.** A batch that begins with one completes
for a robot with no past just as it does for this one. -/
theorem completes_forget {amounts : List Single} {o : Outcome}
    (h : s.table.contains x y = true)
    (hc : s.Completes (.place x y facing :: rest) amounts s' o) :
    s.forget.Completes (.place x y facing :: rest) amounts s' o := by
  obtain ⟨watcher, s₁, ha, hf⟩ := hc
  obtain ⟨hb, rfl⟩ := accept_eq_ok ha
  refine ⟨watcher, _, accept_of_idle (s := s.forget) hb _ _, ?_⟩
  -- The frames are those of the simulation that has just been handed this batch.
  let b : Batch :=
    { waiting := .place x y facing :: rest, current := none, outcome := .empty, watcher }
  exact advanceAll_forget (s := { s with batch := some b }) (b := b) rfl rfl rfl h hf

/-- What a robot at rest comes to with a batch can be reckoned. -/
theorem reckoning_of_rest {commands : List Command} {amounts : List Single} {o : Outcome}
    (hm : s.robot.motion = none) (hc : s.Completes commands amounts s' o) :
    Reckoning.of s.table s.robot.pose commands
        = { pose := s'.robot.pose, reports := o.reports.toList, faults := o.faults.toList }
      ∧ o.cancelled = false := by
  obtain ⟨hstanding, -, -⟩ := standing_of_completes hm hc
  have hreckoning := Standing.reckoning_obeyAll (t := s.table)
    (a := { robot := s.robot, outcome := .empty }) hm commands
  have hcancelled := Standing.cancelled_obeyAll (t := s.table)
    { robot := s.robot, outcome := .empty } commands
  rw [hstanding] at hreckoning hcancelled
  exact ⟨hreckoning.symm, hcancelled⟩

/-- The outcome of such a batch, and the pose that it leads to. -/
theorem outcome_of_rest {commands : List Command} {amounts : List Single} {o : Outcome}
    (hm : s.robot.motion = none) (hc : s.Completes commands amounts s' o) :
    o = (Reckoning.of s.table s.robot.pose commands).outcome
      ∧ s'.robot.pose = (Reckoning.of s.table s.robot.pose commands).pose := by
  obtain ⟨hreckoning, hcancelled⟩ := reckoning_of_rest hm hc
  rw [hreckoning]
  obtain ⟨reports, faults, cancelled⟩ := o
  cases hcancelled
  exact ⟨rfl, rfl⟩

/-- After a placement they are reckoned from the pose that the robot is placed
in, whatever it was doing before. -/
theorem outcome_of_place {amounts : List Single} {o : Outcome}
    (h : s.table.contains x y = true)
    (hc : s.Completes (.place x y facing :: rest) amounts s' o) :
    o = (Reckoning.of s.table (some { x, y, facing }) rest).outcome
      ∧ s'.robot.pose = (Reckoning.of s.table (some { x, y, facing }) rest).pose := by
  rw [← Reckoning.of_place facing rest none h]
  exact outcome_of_rest rfl (completes_forget h hc)

end Forget

/-- **A placement on the table erases history.** Two simulations, on tables of
the same size, work through one batch that begins with a placement there, each
under amounts of time of its own. They come to the same outcome, and their
robots to the same pose. -/
theorem placement_erases {s₁ s₂ s₁' s₂' : Simulation} {x y : Int32} {facing : Direction}
    {rest : List Command} {amounts₁ amounts₂ : List Single} {o₁ o₂ : Outcome}
    (hwidth : s₂.table.width = s₁.table.width) (hlength : s₂.table.length = s₁.table.length)
    (h : s₁.table.contains x y = true)
    (h₁ : s₁.Completes (.place x y facing :: rest) amounts₁ s₁' o₁)
    (h₂ : s₂.Completes (.place x y facing :: rest) amounts₂ s₂' o₂) :
    o₁ = o₂ ∧ ∃ p, s₁'.robot.pose = some p ∧ s₂'.robot.pose = some p := by
  have h' : s₂.table.contains x y = true := by
    rw [Table.contains_congr hwidth hlength]
    exact h
  obtain ⟨hreckoning₁, hcancelled₁⟩ := reckoning_of_rest rfl (completes_forget h h₁)
  obtain ⟨hreckoning₂, hcancelled₂⟩ := reckoning_of_rest rfl (completes_forget h' h₂)
  -- Neither robot has a pose to begin with, and the tables are of one size.
  have hsame : Reckoning.of s₂.forget.table s₂.forget.robot.pose
      = Reckoning.of s₁.forget.table s₁.forget.robot.pose :=
    congrFun (Reckoning.of_congr hwidth hlength) none
  obtain ⟨p, hp⟩ := Reckoning.exists_pose_of_place facing rest none h
  rw [show Reckoning.of s₁.table none _ = _ from hreckoning₁] at hp
  rw [hsame, hreckoning₁] at hreckoning₂
  obtain ⟨hpose, hreports, hfaults⟩ := Reckoning.mk.inj hreckoning₂
  refine ⟨?_, p, hp, hpose ▸ hp⟩
  obtain ⟨reports₁, faults₁, cancelled₁⟩ := o₁
  obtain ⟨reports₂, faults₂, cancelled₂⟩ := o₂
  cases Array.toList_inj.mp hreports
  cases Array.toList_inj.mp hfaults
  cases hcancelled₁
  cases hcancelled₂
  rfl

/-- A new simulation, and one that has been running for a while. The robot of
the second is in the middle of a turn, on a cell of a larger table, and its own
table has a cell size that is not a number. -/
theorem placement_erases_turn :
    ∃ s₁ s₂ s₁' s₂' o₁ o₂,
      s₁ = Simulation.new ⟨2, 2, 1, by decide⟩ (.new 1 1)
      ∧ s₂ = { Simulation.new ⟨2, 2, .nan, by decide⟩
          (((Robot.new 2 0).place ⟨7, 3, 0, 0, 0⟩ .south).setOut (.turn 180 90 .east)) with
          clock := .ofRatio false 5 2
          nextIndex := 3 }
      ∧ s₁.Completes [.place 1 0 .west, .move, .right, .move, .report, .place 0 2 .east]
          [.ofRatio false 1 2, .infinite false, .nan, .infinite false, .infinite false] s₁' o₁
      ∧ s₂.Completes [.place 1 0 .west, .move, .right, .move, .report, .place 0 2 .east]
          [.infinite false, .infinite false, .infinite false] s₂' o₂
      ∧ o₁ = o₂ ∧ ∃ p, s₁'.robot.pose = some p ∧ s₂'.robot.pose = some p := by
  obtain ⟨s₁, hs₁⟩ : ∃ s₁, s₁ = Simulation.new ⟨2, 2, 1, by decide⟩ (.new 1 1) := ⟨_, rfl⟩
  obtain ⟨s₂, hs₂⟩ : ∃ s₂, s₂ = { Simulation.new ⟨2, 2, .nan, by decide⟩
      (((Robot.new 2 0).place ⟨7, 3, 0, 0, 0⟩ .south).setOut (.turn 180 90 .east)) with
      clock := .ofRatio false 5 2
      nextIndex := 3 } := ⟨_, rfl⟩
  have he₁ : s₁.endsWithin [.place 1 0 .west, .move, .right, .move, .report, .place 0 2 .east]
      [.ofRatio false 1 2, .infinite false, .nan, .infinite false, .infinite false] = true := by
    subst hs₁
    decide +kernel
  have he₂ : s₂.endsWithin [.place 1 0 .west, .move, .right, .move, .report, .place 0 2 .east]
      [.infinite false, .infinite false, .infinite false] = true := by
    subst hs₂
    decide +kernel
  obtain ⟨s₁', o₁, h₁⟩ := completes_of_endsWithin he₁
  obtain ⟨s₂', o₂, h₂⟩ := completes_of_endsWithin he₂
  have hwidth : s₂.table.width = s₁.table.width := by rw [hs₁, hs₂]; rfl
  have hlength : s₂.table.length = s₁.table.length := by rw [hs₁, hs₂]; rfl
  have hcontains : s₁.table.contains 1 0 = true := by rw [hs₁]; decide
  exact ⟨s₁, s₂, s₁', s₂', o₁, o₂, hs₁, hs₂, h₁, h₂,
    placement_erases hwidth hlength hcontains h₁ h₂⟩

end Simulation

end Tabletop
