import Tabletop.Console.Session
import Tabletop.Files.Tree
import Tabletop.Listing

/-!
# The program

The program opens the files that its arguments name, has `Console.prepare` make
a plan of them and runs it as `Console.session` does, or, under the name of the
listing program, hands them to `Listing.ofArguments`, and prints what comes back.
Nothing is decided here.

A run at the speed of the clock on the wall sleeps for the time of a frame
after each frame that does not end its batch. It is shown frame by frame, and
so is a run of which it is known that it will never end. Where no such wait is
possible, the plan is run without them and breaks off by itself.
-/

namespace Tabletop

namespace Program

/-- The number and the wording of an error of the system. -/
def systemError? : IO.Error → Option (UInt32 × String)
  | .noFileOrDirectory _ code details => some (code, details)
  | .inappropriateType _ code details => some (code, details)
  | .invalidArgument _ code details => some (code, details)
  | .permissionDenied _ code details => some (code, details)
  | .resourceExhausted _ code details => some (code, details)
  | .hardwareFault code details => some (code, details)
  | .otherError code details => some (code, details)
  | _ => none

/-- Why a file cannot be opened. -/
def readError (isThere : Bool) (error : IO.Error) : ReadError :=
  match systemError? error with
  | none => .refused isThere error.toString
  | some (code, details) =>
    -- Some errors come with the negative of their number.
    match (if code < 0x80000000 then code else 0 - code).toNat with
    | 2 => .notFound
    | 20 => .notADirectory
    | 21 => .isADirectory
    | 36 => .nameTooLong
    | 5 => .refused isThere "Input/output error (os error 5)"
    | 13 => .refused isThere "Permission denied (os error 13)"
    | 40 => .refused isThere "Too many levels of symbolic links (os error 40)"
    | number => .refused isThere (details ++ " (os error " ++ toString number ++ ")")

/-- Whether something has a path. -/
def isThere (path : String) : IO Bool := do
  try
    let _ ← IO.FS.realPath path
    return true
  catch _ => return false

/-- Opens a file. -/
def openFile (path : String) : IO (Except ReadError Source) := do
  if FileTree.namesInput path then return .ok .input
  try
    return .ok (.bytes (← IO.FS.readBinFile path))
  catch error => return .error (readError (← isThere path) error)

/-- Reads a stream to its end. -/
partial def readToEnd (stream : IO.FS.Stream) (bytes : ByteArray) : IO ByteArray := do
  let more ← stream.read 65536
  if more.isEmpty then return bytes else readToEnd stream (bytes ++ more)

/-- What is around the program, as far as some paths and the standard input
go. -/
def lookAround (paths : List String) (withInput : Bool) : IO Surroundings := do
  let opened ← paths.mapM fun path => return (path, ← openFile path)
  let input ←
    if withInput || paths.any FileTree.namesInput then readToEnd (← IO.getStdin) .empty
    else pure .empty
  return { open? := fun path => (opened.lookup path).getD (.error .notFound), input }

/-- The milliseconds of a frame. -/
def pause (s : Simulation) : UInt32 :=
  (Journal.milliseconds s.frame.convert).toUInt32

/-- Shows a run frame by frame until its batch ends. -/
partial def play (s : Simulation) : IO (Simulation × Outcome) := do
  match s.advance s.frame with
  | (s, some outcome) => return (s, outcome)
  | (s, none) =>
    if s.realtime then IO.sleep (pause s)
    play s

/-- Prints the reports and the faults of a batch. -/
def announce (outcome : Outcome) : IO Unit := do
  IO.print (Console.inLines outcome.reports.toList)
  for fault in outcome.faults do
    IO.eprint (Console.faultLine fault)

/-- Shows the batches of a plan, one after another. -/
def showPlan (p : Console.Plan) : IO UInt32 := do
  let mut s := p.simulation
  for text in p.texts do
    match s.accept (Command.readAll text) none with
    | .ok begun =>
      let (next, outcome) ← play begun
      announce outcome
      s := next
    | .error _ => pure ()
  IO.print (p.output s .empty)
  return 0

/-- Prints how a session ended. -/
def finish (ending : Console.Ending) : IO UInt32 := do
  IO.print ending.output
  IO.eprint ending.complaint
  return ending.code.toUInt32

/-- Runs a plan. -/
def runPlan (p : Console.Plan) : IO UInt32 := do
  if p.simulation.realtime && p.simulation.canWait then
    showPlan p
  else
    match p.run with
    | some ending => finish ending
    | none => showPlan p

/-- Runs a session. -/
def session (arguments : List String) : IO UInt32 := do
  let request := Console.request arguments
  let w ← lookAround request.paths request.readsInput
  match Console.prepare w request with
  | .error ending => finish ending
  | .ok p => runPlan p

/-- Prints a listing. -/
def list (arguments : List String) : IO UInt32 := do
  match Listing.ofArguments (← lookAround (arguments.take 1) false) arguments with
  | .ok text =>
    IO.print text
    return 0
  | .error failure =>
    IO.eprint (failure.message (← IO.appPath).toString)
    return 1

end Program

end Tabletop

/-- Runs a session, or prints a listing if the program goes by that name. -/
def main (arguments : List String) : IO UInt32 := do
  if (← IO.appPath).fileName = some "dump_batch" then
    Tabletop.Program.list arguments
  else
    Tabletop.Program.session arguments
