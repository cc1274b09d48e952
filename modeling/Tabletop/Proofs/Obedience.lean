import Tabletop.Simulation.Frame

/-!
# What a command can do

`Robot.obey` is opened here once. `Robot.Obeyed` lists everything that can
come of taking up a command, with the condition under which it comes of it,
and `Robot.obeyed` says that the list is complete. All that is said about
simulations later goes through the list.

Three of the commands send the robot along a path, and which path that is
depends on the table and on the robot alone: `Robot.Undertakes`.
-/

namespace Tabletop

namespace Table

variable (t : Table)

/-- The very cell that the table has at these coordinates. -/
def Has (c : Cell) : Prop := t.cell c.x c.y = .ok c

variable {t}

theorem cell_eq_ok {x y : Int32} (h : t.contains x y = true) :
    t.cell x y = .ok (t.cellAt x y) := by
  rw [cell, if_pos h]

theorem cell_eq_error {x y : Int32} (h : t.contains x y = false) :
    t.cell x y = .error (.offTable x y) := by
  rw [cell, h]
  rfl

theorem has_cellAt {x y : Int32} (h : t.contains x y = true) : t.Has (t.cellAt x y) :=
  cell_eq_ok h

theorem ahead_of_contains {c : Cell} {d : Direction}
    (h : t.contains (c.x + d.step.1) (c.y + d.step.2) = true) :
    t.ahead c d = t.cellAt (c.x + d.step.1) (c.y + d.step.2) := by
  rw [ahead, cell_eq_ok h]

theorem ahead_of_not_contains {c : Cell} {d : Direction}
    (h : t.contains (c.x + d.step.1) (c.y + d.step.2) = false) :
    t.ahead c d = c := by
  rw [ahead, cell_eq_error h]

/-- A step from a cell of the table leads to one. -/
theorem has_ahead {c : Cell} (h : t.Has c) (d : Direction) : t.Has (t.ahead c d) := by
  cases hc : t.contains (c.x + d.step.1) (c.y + d.step.2) with
  | true =>
    rw [ahead_of_contains hc]
    exact has_cellAt hc
  | false =>
    rw [ahead_of_not_contains hc]
    exact h

end Table

namespace Robot

/-- The path along which a command sends a robot. A turn leads a quarter to
the side, a step to the cell ahead, which is a cell of the table. -/
inductive Undertakes (r : Robot) (t : Table) : Command → Path → Prop
  | left : Undertakes r t .left (Motion.turnPath r.facing r.facing.left)
  | right : Undertakes r t .right (Motion.turnPath r.facing r.facing.right)
  | move {here : Cell} (hp : r.position = some here)
      (ht : t.contains (t.ahead here r.facing).x (t.ahead here r.facing).y = true) :
      Undertakes r t .move (.step here (t.ahead here r.facing))

variable (r : Robot)

/-- The time that a motion along a path is asked to take. -/
def durationOf : Path → Single
  | .turn .. => r.turnDuration
  | .step .. => r.stepDuration

/-- The robot at the beginning of a path. -/
def setOut (path : Path) : Robot :=
  { r with motion := some (.along path (r.durationOf path)) }

/-- The robot at the end of its motion, or as it is if it is at rest. -/
def arrived : Robot :=
  match r.motion with
  | none => r
  | some motion => r.settle motion.path

variable {r}

theorem isMoving_eq_false (h : r.motion = none) : r.isMoving = false := by
  rw [isMoving, h]
  rfl

theorem halt_of_rest (h : r.motion = none) : r.halt = r := by
  obtain ⟨position, facing, motion, turnDuration, stepDuration⟩ := r
  subst h
  rfl

theorem arrived_of_rest (h : r.motion = none) : r.arrived = r := by
  rw [arrived, h]

theorem settle_motion (path : Path) : (r.settle path).motion = none := by
  cases path <;> rfl

theorem arrived_motion : r.arrived.motion = none := by
  unfold arrived
  split
  · assumption
  · exact settle_motion _

/-- A motion that is over has brought the robot to its end. -/
theorem arrived_of_advance {r' : Robot} {seconds : Single}
    (h : r.advance seconds = (r', true)) : r' = r.arrived := by
  unfold advance at h
  cases hm : r.motion with
  | none =>
    rw [hm] at h
    cases h
    rw [arrived, hm]
  | some motion =>
    rw [hm] at h
    dsimp only at h
    split at h
    · cases h
      rw [arrived, hm]
      rfl
    · cases h

/-- A motion that goes on has changed nothing but the time played. -/
theorem playing_of_advance {r' : Robot} {seconds : Single}
    (h : r.advance seconds = (r', false)) :
    ∃ motion, r.motion = some motion ∧ r' = { r with motion := some (motion.play seconds) } := by
  unfold advance at h
  split at h
  next => cases h
  next motion hm =>
    dsimp only at h
    split at h
    · cases h
    · cases h
      exact ⟨motion, hm, rfl⟩

/-- What a robot undertakes depends on where it stands and where it faces. -/
theorem Undertakes.congr {r' : Robot} {t : Table} {command : Command} {path : Path}
    (hu : r.Undertakes t command path) (hp : r'.position = r.position)
    (hf : r'.facing = r.facing) : r'.Undertakes t command path := by
  cases hu with
  | left => exact hf ▸ .left
  | right => exact hf ▸ .right
  | move hp' ht => exact hf ▸ .move (hp.trans hp') (hf ▸ ht)

/-- **All that can come of taking up a command.** A robot that is at rest
does or begins what it is told, or is told why not; one that is moving can be
placed and can report, and does nothing else but find its way blocked. -/
inductive Obeyed (r : Robot) (t : Table) :
    Command → Except Fault (Robot × Effect) → Prop
  | placed {x y : Int32} {facing : Direction} (ht : t.contains x y = true) :
      Obeyed r t (.place x y facing) (.ok (r.place (t.cellAt x y) facing, .done none))
  | offTable {x y : Int32} {facing : Direction} (ht : t.contains x y = false) :
      Obeyed r t (.place x y facing) (.error (.offTable x y))
  | unplaced {command : Command} (hc : ∀ x y facing, command ≠ .place x y facing)
      (hp : r.position = none) : Obeyed r t command (.error (.unplaced command))
  | reported {here : Cell} (hp : r.position = some here) :
      Obeyed r t .report (.ok (r, .done (some (here.text ++ ',' :: r.facing.name))))
  | blocked {here : Cell} (hp : r.position = some here)
      (ht : t.contains (here.x + r.facing.step.1) (here.y + r.facing.step.2) = false) :
      Obeyed r t .move (.ok (r, .done none))
  | begun {command : Command} {path : Path} (hm : r.motion = none)
      (hp : r.isPlaced = true) (hu : r.Undertakes t command path) :
      Obeyed r t command (.ok (r.setOut path, .begun))
  | busy {command : Command} (hm : r.isMoving = true) :
      Obeyed r t command (.error (.robot .moving))

/-- A step changes one of the two coordinates. -/
theorem ahead_not_equals {t : Table} {c : Cell} {d : Direction}
    (h : t.contains (c.x + d.step.1) (c.y + d.step.2) = true) :
    (t.ahead c d).equals c = false := by
  have hne : c.x + d.step.1 ≠ c.x ∨ c.y + d.step.2 ≠ c.y := by
    cases d
    · exact .inr (by simp [Direction.step])
    · exact .inl (by simp [Direction.step])
    · exact .inr (by simp [Direction.step])
    · exact .inl (by simp [Direction.step])
  rw [Table.ahead_of_contains h]
  rcases hne with hx | hy
  · simp [Cell.equals, Table.cellAt, hx]
  · simp [Cell.equals, Table.cellAt, hy]

theorem obeyed_place (t : Table) (x y : Int32) (facing : Direction) :
    r.Obeyed t (.place x y facing) (r.obey t (.place x y facing)) := by
  cases ht : t.contains x y with
  | true =>
    rw [obey, Table.cell_eq_ok ht]
    exact .placed ht
  | false =>
    rw [obey, Table.cell_eq_error ht]
    exact .offTable ht

theorem ready_of_rest {here : Cell} (hp : r.position = some here)
    (hm : r.motion = none) : r.ready = .ok here := by
  simp [ready, hp, isMoving, hm]

theorem ready_of_moving {here : Cell} (hp : r.position = some here)
    (hm : r.isMoving = true) : r.ready = .error .moving := by
  simp [ready, hp, hm]

/-- The cell that a robot sets out from is the one it stands on. -/
theorem goTo_eq {here : Cell} (hp : r.position = some here) (target : Cell) :
    r.goTo target = (do let _ ← r.ready; return r.setOut (.step here target)) := by
  cases hm : r.motion with
  | none => rw [goTo, ready_of_rest hp hm]; rfl
  | some motion => rw [goTo, ready_of_moving hp (by simp [isMoving, hm])]; rfl

theorem ifPlaced_of_unplaced (hp : r.position = none) (command : Command)
    (action : Except Refusal (Robot × Effect)) :
    r.ifPlaced command action = .error (.unplaced command) := by
  simp [ifPlaced, isPlaced, hp]

theorem ifPlaced_of_placed {here : Cell} (hp : r.position = some here)
    (command : Command) (action : Except Refusal (Robot × Effect)) :
    r.ifPlaced command action = action.mapError .robot := by
  simp [ifPlaced, isPlaced, hp]

/-- **A placed robot sets out or is busy.** For a command that sends the robot
along a path, the state of its motion decides. -/
theorem obeyed_of_ready {t : Table} {command : Command} {path : Path} {here : Cell}
    (hp : r.position = some here) (hu : r.Undertakes t command path)
    (ho : r.obey t command = ((do
      let _ ← r.ready
      return r.setOut path : Except Refusal Robot).map (·, Effect.begun)).mapError .robot) :
    r.Obeyed t command (r.obey t command) := by
  cases hm : r.motion with
  | none =>
    rw [ho, ready_of_rest hp hm]
    exact .begun hm (by simp [isPlaced, hp]) hu
  | some motion =>
    have hmoving : r.isMoving = true := by simp [isMoving, hm]
    rw [ho, ready_of_moving hp hmoving]
    exact .busy hmoving

theorem obeyed_move (t : Table) : r.Obeyed t .move (r.obey t .move) := by
  cases hp : r.position with
  | none =>
    rw [obey, ifPlaced_of_unplaced hp]
    exact .unplaced (fun _ _ _ h => nomatch h) hp
  | some here =>
    have ho : r.obey t .move = (r.goForward t).mapError .robot :=
      ifPlaced_of_placed hp _ _
    rw [goForward, hp] at ho
    dsimp only at ho
    -- Where the table ends, the cell ahead is the cell the robot stands on.
    by_cases he : (t.ahead here r.facing).equals here = true
    · rw [if_pos he] at ho
      rw [ho]
      refine .blocked hp ?_
      cases ht : t.contains (here.x + r.facing.step.1) (here.y + r.facing.step.2) with
      | false => rfl
      | true => rw [ahead_not_equals ht] at he; cases he
    · rw [if_neg he] at ho
      by_cases ht : t.contains (t.ahead here r.facing).x (t.ahead here r.facing).y = true
      · rw [if_pos ht] at ho
        rw [goTo_eq hp] at ho
        exact obeyed_of_ready hp (.move hp ht) ho
      · rw [if_neg ht] at ho
        rw [ho]
        refine .blocked hp ?_
        cases hc : t.contains (here.x + r.facing.step.1) (here.y + r.facing.step.2) with
        | false => rfl
        | true => exact absurd (Table.ahead_of_contains hc ▸ hc) ht

/-- **The list is complete.** -/
theorem obeyed (r : Robot) (t : Table) (command : Command) :
    r.Obeyed t command (r.obey t command) := by
  cases command with
  | place x y facing => exact obeyed_place t x y facing
  | move => exact obeyed_move t
  | left =>
    cases hp : r.position with
    | none =>
      rw [obey, ifPlaced_of_unplaced hp]
      exact .unplaced (fun _ _ _ h => nomatch h) hp
    | some here => exact obeyed_of_ready hp .left (ifPlaced_of_placed hp _ _)
  | right =>
    cases hp : r.position with
    | none =>
      rw [obey, ifPlaced_of_unplaced hp]
      exact .unplaced (fun _ _ _ h => nomatch h) hp
    | some here => exact obeyed_of_ready hp .right (ifPlaced_of_placed hp _ _)
  | report =>
    cases hp : r.position with
    | none =>
      rw [obey, ifPlaced_of_unplaced hp]
      exact .unplaced (fun _ _ _ h => nomatch h) hp
    | some here =>
      rw [obey, ifPlaced_of_placed hp, report, hp]
      exact .reported hp

theorem obeyed_of_eq {t : Table} {command : Command}
    {result : Except Fault (Robot × Effect)} (h : r.obey t command = result) :
    r.Obeyed t command result :=
  h ▸ r.obeyed t command

/-- A command that takes no time leaves a resting robot at rest. -/
theorem motion_of_done {r' : Robot} {t : Table} {command : Command}
    {report : Option (List Char)} (ho : r.obey t command = .ok (r', .done report))
    (hm : r.motion = none) : r'.motion = none := by
  cases obeyed_of_eq ho with
  | placed => rfl
  | reported => exact hm
  | blocked => exact hm

end Robot

end Tabletop
