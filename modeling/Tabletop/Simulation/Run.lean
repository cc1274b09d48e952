import Tabletop.Simulation.Frame

/-!
# Runs of many frames

A run advances a simulation frame by frame until its batch ends, and at the
speed of the clock on the wall it waits for the time of a frame after each
frame that does not end it.

It need not come back. It breaks off where the time of a frame is longer than
any wait can be. And its batch need not end: when a motion is so long that
adding the time of one frame to the time played is rounded away, every further
frame leaves the simulation where it is. `Simulation.distance` is a count that
each frame of a run that does end brings down, so a frame that does not bring it
down is the sign to give up.
-/

namespace Tabletop

namespace Motion

/-- How far the time played is below the ceiling of its format, in units. A
time that is not a number gets no further. -/
def toPlay (m : Motion) : Nat :=
  match m.elapsed.place? with
  | some elapsed => (twoPow Format.double.top - elapsed).toNat
  | none => 0

end Motion

namespace Simulation

/-- More than any motion has left to play. -/
def farthest : Nat := twoPow (Format.double.top + 1) + 1

/-- A bound on the frames to the end of the batch: the commands that wait
count first, and then what the motion has left to play. -/
def distance (s : Simulation) : Nat :=
  match s.batch with
  | none => 0
  | some b =>
    let toPlay := match s.robot.motion with
      | some motion => motion.toPlay
      | none => farthest
    b.waiting.length * (farthest + 1) + toPlay

/-- The seconds that are too many to wait for. Those of a wait are counted in
64 bits. -/
def waitBound : Single := .ofRatio false (twoPow 64) 1

/-- The time of a frame can be waited for, if there is to be any waiting. -/
def canWait (s : Simulation) : Bool := !s.realtime || s.frame.less waitBound

/-- Advances frame by frame until the batch ends. The answer is `none` when
there is a wait that is too long, and when a frame brings the end no nearer, as
then none ever will. -/
def playOut (s : Simulation) : Option (Simulation × Outcome) :=
  match s.advance s.frame with
  | (s', some outcome) => some (s', outcome)
  | (s', none) =>
    if s.canWait ∧ s'.distance < s.distance then s'.playOut else none
termination_by s.distance

/-- Works through a batch from beginning to end. -/
def run (s : Simulation) (commands : List Command) :
    Except Fault (Option (Simulation × Outcome)) := do
  let s ← s.accept commands none
  return s.playOut

/-- Works through the commands of a text from beginning to end. -/
def perform (s : Simulation) (text : List Char) :
    Except Fault (Option (Simulation × Outcome)) :=
  s.run (Command.readAll text)

/-- Advances by equal amounts of time until the batch ends, or as often as
allowed. The answer also says how often that was. -/
def advanceUpTo (s : Simulation) (seconds : Single) :
    Nat → Simulation × Nat × Option Outcome
  | 0 => (s, 0, none)
  | frames + 1 =>
    match s.advance seconds with
    | (s, some outcome) => (s, 1, some outcome)
    | (s, none) =>
      let (s, made, outcome) := s.advanceUpTo seconds frames
      (s, made + 1, outcome)

end Simulation

end Tabletop
