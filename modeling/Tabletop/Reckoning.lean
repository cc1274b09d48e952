import Tabletop.Simulation.Basic

/-!
# Commands without time

What commands mean can be said without a clock, without motions and without
frames: a command changes a pose, or finds no pose to change, and may add a
report or a fault. This is the meaning that a simulation must give to a batch
however its time is cut into frames, so it is written down here on its own,
from the coordinates alone and without the robot.
-/

namespace Tabletop

/-- Where a robot stands and which way it faces. -/
structure Pose where
  /-- Column. -/
  x : Int32
  /-- Row. -/
  y : Int32
  /-- Direction. -/
  facing : Direction
deriving DecidableEq

namespace Pose

/-- The pose after a step, if the table has a cell there, and the same pose
otherwise. -/
def step (t : Table) (p : Pose) : Pose :=
  let x := p.x + p.facing.step.1
  let y := p.y + p.facing.step.2
  if t.contains x y then { p with x, y } else p

/-- The pose as it is reported. -/
def text (p : Pose) : List Char :=
  Numeral.ofInt p.x.toInt ++ ',' :: Numeral.ofInt p.y.toInt ++ ',' :: p.facing.name

end Pose

/-- A pose, if there is one, and the reports and faults on the way to it. -/
structure Reckoning where
  /-- The pose, once there was a placement. -/
  pose : Option Pose
  /-- The reports, in order. -/
  reports : List (List Char)
  /-- The faults, in order. -/
  faults : List Fault
deriving DecidableEq

namespace Reckoning

/-- From a pose, before any command. -/
def start (pose : Option Pose) : Reckoning := { pose, reports := [], faults := [] }

/-- What a command adds, on a table. -/
def obey (t : Table) (r : Reckoning) (command : Command) : Reckoning :=
  match command, r.pose with
  | .place x y facing, _ =>
    if t.contains x y then { r with pose := some { x, y, facing } }
    else { r with faults := r.faults ++ [.offTable x y] }
  | command, none => { r with faults := r.faults ++ [.unplaced command] }
  | .move, some p => { r with pose := some (p.step t) }
  | .left, some p => { r with pose := some { p with facing := p.facing.left } }
  | .right, some p => { r with pose := some { p with facing := p.facing.right } }
  | .report, some p => { r with reports := r.reports ++ [p.text] }

/-- What commands add, in order. -/
def obeyAll (t : Table) (r : Reckoning) (commands : List Command) : Reckoning :=
  commands.foldl (obey t) r

/-- What commands mean to a robot in a pose, or to one that has none. -/
def of (t : Table) (pose : Option Pose) (commands : List Command) : Reckoning :=
  obeyAll t (start pose) commands

end Reckoning

/-- The pose of a robot: where it stands and the direction it has settled
on. -/
def Robot.pose (r : Robot) : Option Pose :=
  r.position.map fun cell => { x := cell.x, y := cell.y, facing := r.facing }

end Tabletop
