import Tabletop.Motion

/-!
# The robot

A robot stands on a cell, or has not been placed yet, and faces a direction.
Position and direction are what it has settled on: a turn or a step that is
being played changes neither until its time is over, and then in one go. So a
motion that is called off leaves nothing behind.

Between the settled values, the robot is drawn at a heading and a point that
follow the motion.
-/

namespace Tabletop

/-- What the robot refuses to do. -/
inductive Refusal where
  /-- It stands on no cell. -/
  | unplaced
  /-- A motion is being played. -/
  | moving
deriving DecidableEq

/-- The wording of an error. -/
def Refusal.message : Refusal → String
  | unplaced => "robot has not been placed on the table"
  | moving => "robot is still turning or moving"

/-- The robot. -/
structure Robot where
  /-- The cell it stands on, if it has been placed. -/
  position : Option Cell
  /-- The direction it faces. -/
  facing : Direction
  /-- The motion being played, if any. -/
  motion : Option Motion
  /-- Seconds for a quarter turn, as asked for. -/
  turnDuration : Single
  /-- Seconds for a step, as asked for. -/
  stepDuration : Single
deriving DecidableEq

namespace Robot

/-- A robot that has not been placed. It faces north. -/
def new (turnDuration stepDuration : Single) : Robot :=
  { position := none
    facing := .north
    motion := none
    turnDuration := soundDuration turnDuration
    stepDuration := soundDuration stepDuration }

instance : Inhabited Robot := ⟨new 1 1⟩

variable (r : Robot)

/-- It stands on a cell. -/
def isPlaced : Bool := r.position.isSome

/-- A motion is being played. -/
def isMoving : Bool := r.motion.isSome

/-- The robot on a cell, facing a direction, at rest. -/
def place (cell : Cell) (facing : Direction) : Robot :=
  { r with position := some cell, facing, motion := none }

/-- The cell the robot stands on, if it is free to begin a motion. -/
def ready : Except Refusal Cell :=
  match r.position with
  | none => .error .unplaced
  | some cell => if r.isMoving then .error .moving else .ok cell

/-- Begins to turn towards a direction. -/
def turn (target : Direction) : Except Refusal Robot := do
  let _ ← r.ready
  return { r with
    motion := some (.along (Motion.turnPath r.facing target) r.turnDuration) }

/-- Begins a quarter turn counter-clockwise. -/
def left : Except Refusal Robot := r.turn r.facing.left

/-- Begins a quarter turn clockwise. -/
def right : Except Refusal Robot := r.turn r.facing.right

/-- Begins to go to a cell. -/
def goTo (target : Cell) : Except Refusal Robot := do
  let start ← r.ready
  return { r with motion := some (.along (.step start target) r.stepDuration) }

/-- The robot at the end of a path. -/
def settle : Path → Robot
  | .turn _ _ target => { r with facing := target, motion := none }
  | .step _ target => { r with position := some target, motion := none }

/-- Plays the motion for a while. The answer says whether the robot is at
rest afterwards: if the motion's time is over, its end is settled on. -/
def advance (seconds : Single) : Robot × Bool :=
  match r.motion with
  | none => (r, true)
  | some motion =>
    let motion := motion.play seconds
    if motion.isOver then
      (r.settle motion.path, true)
    else
      ({ r with motion := some motion }, false)

/-- The robot with its motion called off. -/
def halt : Robot := { r with motion := none }

/-- Coordinates and direction, with commas between them. -/
def report : Except Refusal (List Char) :=
  match r.position with
  | none => .error .unplaced
  | some cell => .ok (cell.text ++ ',' :: r.facing.name)

/-- The part of the motion that has been played; all of it if there is
none. -/
def progress : Single :=
  match r.motion with
  | none => 1
  | some motion => motion.progress

/-- The angle at which the robot is drawn, clockwise from north. -/
def heading : Single :=
  match r.motion with
  | some { path := .turn start stop _, .. } =>
    Binary.wrap Motion.fullTurn (Point.between start stop r.progress)
  | _ => r.facing.degrees

/-- The point at which the robot is drawn. -/
def point : Option Point :=
  match r.motion with
  | some { path := .step start stop, .. } =>
    some (start.point.blend stop.point r.progress)
  | _ => r.position.map Cell.point

end Robot

end Tabletop
