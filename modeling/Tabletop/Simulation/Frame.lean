import Tabletop.Simulation.Basic

/-!
# One frame of a simulation

A frame lets some time pass. The motion being played, if there is one, takes
the time of the whole frame. When it is over, or if there was none, the
commands that wait are taken up one after another: a command that takes no
time is done at once, and a turn or a step stops the work unless its motion
is over within the same frame.

The first motion begun in a frame gets the time of the frame, as if it had
begun with it, and is entered in the journal at the frame's start. Time that
is left when a motion ends is not handed on: whatever is begun after it in
the same frame begins at the frame's end, with no time to play.
-/

namespace Tabletop

/-- What taking up a command led to. -/
inductive Effect where
  /-- The command is done, with its report if it made one. -/
  | done (report : Option (List Char))
  /-- A motion has begun. -/
  | begun
deriving DecidableEq

namespace Robot

/-- Begins to go one cell forward. At the edge of the table there is nothing
to do. -/
def goForward (r : Robot) (t : Table) : Except Refusal (Robot × Effect) :=
  match r.position with
  | none => .error .unplaced
  | some here =>
    let next := t.ahead here r.facing
    if next.equals here then
      .ok (r, .done none)
    else if t.contains next.x next.y then
      (r.goTo next).map (·, .begun)
    else
      .ok (r, .done none)

/-- Lets the robot do something for a command that it only obeys once it has
been placed. -/
def ifPlaced (r : Robot) (command : Command)
    (action : Except Refusal (Robot × Effect)) : Except Fault (Robot × Effect) :=
  if r.isPlaced then action.mapError .robot else .error (.unplaced command)

/-- Takes up a command on a table. -/
def obey (r : Robot) (t : Table) : Command → Except Fault (Robot × Effect)
  | .place x y facing =>
    match t.cell x y with
    | .ok cell => .ok (r.place cell facing, .done none)
    | .error _ => .error (.offTable x y)
  | .move => r.ifPlaced .move (r.goForward t)
  | .left => r.ifPlaced .left (r.left.map (·, .begun))
  | .right => r.ifPlaced .right (r.right.map (·, .begun))
  | .report => r.ifPlaced .report (r.report.map fun text => (r, .done (some text)))

end Robot

namespace Simulation

/-- Takes up the next command at a time of the clock. The answer is the
outcome after it, and the number of the command if its motion has begun. -/
def takeUp (s : Simulation) (o : Outcome) (command : Command) (now : Double) :
    Simulation × Outcome × Option Nat :=
  let index := s.nextIndex
  let s := { s with nextIndex := index + 1 }
  match s.robot.obey s.table command with
  | .ok (robot, .done report) =>
    ((({ s with robot }).record now index command .started).record
      now index command .finished, o.addReport report, none)
  | .ok (robot, .begun) =>
    (({ s with robot }).record now index command .started, o, some index)
  | .error fault =>
    (s.record now index command .rejected, o.addFault fault, none)

/-- Works through waiting commands, with some time for the next motion to
play, until a motion outlasts that time or no command is left. -/
def work (s : Simulation) (b : Batch) (seconds : Single) :
    List Command → Simulation × Option Outcome
  | [] =>
    let (s, outcome) := s.conclude b
    (s, some outcome)
  | command :: waiting =>
    match s.takeUp b.outcome command (s.clock - seconds.convert) with
    | (s, outcome, none) => s.work { b with outcome } seconds waiting
    | (s, outcome, some index) =>
      match s.robot.advance seconds with
      | (robot, true) =>
        (({ s with robot }).record s.clock index command .finished).work
          { b with outcome } 0 waiting
      | (robot, false) =>
        let b := { b with waiting, current := some (index, command), outcome }
        ({ s with robot, batch := some b }, none)

/-- Lets time pass. Negative times, and those that are not numbers, count as
none. The answer is the outcome of the batch if it ended in this frame; with
no batch to work through, not even the clock moves. -/
def advance (s : Simulation) (seconds : Single) : Simulation × Option Outcome :=
  match s.batch with
  | none => (s, none)
  | some b =>
    let seconds := seconds.larger 0
    let s := { s with clock := s.clock + seconds.convert }
    match b.current with
    | none => s.work b seconds b.waiting
    | some (index, command) =>
      match s.robot.advance seconds with
      | (robot, true) =>
        (({ s with robot }).record s.clock index command .finished).work
          { b with current := none } 0 b.waiting
      | (robot, false) => ({ s with robot }, none)

/-- Calls the batch off. The motion being played is dropped, and the robot
stays as it was before that command; the commands that wait are forgotten.
The answer is the outcome so far. -/
def cancel (s : Simulation) : Simulation × Option Outcome :=
  match s.batch with
  | none => (s, none)
  | some b =>
    let s := match b.current with
      | none => s
      | some (index, command) =>
        ({ s with robot := s.robot.halt }).record s.clock index command .cancelled
    let (s, outcome) := s.conclude { b with
      outcome := { b.outcome with cancelled := true } }
    (s, some outcome)

end Simulation

end Tabletop
