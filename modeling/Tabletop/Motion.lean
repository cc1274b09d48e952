import Tabletop.Table

/-!
# Motions

A motion is a turn or a step that takes time. It has a path, from where the
robot was when it began to where it will be, and a clock of its own: the time
played so far, kept in double precision, and the time it takes in all.

Time is added frame by frame and each addition is rounded, so how much has
been played is the rounded running sum of the frames and not their exact sum.
-/

namespace Tabletop

/-- The time that stands for one which is not finite, in seconds. -/
def defaultDuration : Single := 1

/-- A time that a motion can take: finite and not negative. Times that are
not finite are replaced by the default, negative ones by zero. -/
def soundDuration (seconds : Single) : Single :=
  if seconds.isFinite then seconds.larger 0 else defaultDuration

/-- What a motion changes. -/
inductive Path where
  /-- The heading swings between two angles and ends in a new direction. -/
  | turn (start stop : Single) (target : Direction)
  /-- The robot goes from one cell to another. -/
  | step (start stop : Cell)
deriving DecidableEq

/-- A motion that is being played. -/
structure Motion where
  /-- What it changes. -/
  path : Path
  /-- Seconds played so far. -/
  elapsed : Double
  /-- Seconds it takes in all. -/
  duration : Single
deriving DecidableEq

namespace Motion

/-- The motion along a path, not yet begun. Its duration is made sound. -/
def along (path : Path) (duration : Single) : Motion :=
  { path, elapsed := 0, duration := soundDuration duration }

/-- The motion after more time has been played. Negative times, and those
that are not numbers, count as none. -/
def play (m : Motion) (seconds : Single) : Motion :=
  { m with elapsed := m.elapsed + (seconds.larger 0).convert }

/-- All of the motion's time has been played. -/
def isOver (m : Motion) : Bool :=
  (m.duration.convert : Double).atMost m.elapsed

/-- The part of the motion that has been played, between zero and one. A
motion that takes no time is all played. -/
def progress (m : Motion) : Single :=
  if m.duration ≤ 0 then
    1
  else
    (Binary.clamp 0 1 (m.elapsed / m.duration.convert)).convert

/-- A full turn, in degrees. -/
def fullTurn : Single := 360

/-- The turn from one direction to another along the shorter way: the angle
between them is brought between minus and plus half a turn. -/
def turnPath (start target : Direction) : Path :=
  let arc := Binary.wrap fullTurn (target.degrees - start.degrees)
  let arc := if 180 < arc then arc - fullTurn else arc
  .turn start.degrees (start.degrees + arc) target

end Motion

end Tabletop
