import Tabletop.Command.Json
import Tabletop.Command.Reader
import Tabletop.Files

/-!
# Listings of command files

A listing shows how a text is read as commands: each line that is a command,
with its number and in its written form; then the lines that are passed over,
unless they are blank; then all commands as JSON.
-/

namespace Tabletop

namespace Listing

/-- A line with its number, counted from one. -/
abbrev Numbered (α : Type) := Nat × α

/-- What a text is read as. -/
structure Sorting where
  /-- The commands, with the numbers of their lines. -/
  kept : List (Numbered Command)
  /-- The lines passed over that are not blank, with their numbers. -/
  dropped : List (Numbered (List Char))
deriving DecidableEq

/-- Sorts lines by whether they are commands. -/
def sortLines (number : Nat) : List (List Char) → Sorting
  | [] => { kept := [], dropped := [] }
  | line :: rest =>
    let others := sortLines (number + 1) rest
    match Command.read? line with
    | some command => { others with kept := (number, command) :: others.kept }
    | none =>
      if (Text.trim line).isEmpty then others
      else { others with dropped := (number, line) :: others.dropped }

/-- Sorts the lines of a text. -/
def sort (text : List Char) : Sorting := sortLines 1 (Text.lines text)

/-- A line of a listing. -/
def numberedLine (number : Nat) (text : List Char) : String :=
  String.ofList (Numeral.inColumn 4 number ++ ':' :: ' ' :: text) ++ "\n"

namespace Sorting

variable (s : Sorting)

/-- The commands, in order. -/
def commands : List Command := s.kept.map Prod.snd

/-- The part of a listing that shows the commands. -/
def keptPart : String :=
  String.join (s.kept.map fun (number, command) => numberedLine number command.text)

/-- The part of a listing that shows the lines passed over. It is left out if
there are none. -/
def droppedPart : String :=
  if s.dropped.isEmpty then
    ""
  else
    "\n=== Dropped Lines ===\n"
      ++ String.join (s.dropped.map fun (number, line) => numberedLine number line)

/-- The commands as a document. -/
def document : String :=
  String.ofList ((Command.listToJson s.commands).print .spread)

/-- The listing of a file. -/
def print (name : String) : String :=
  "=== Command Batch: " ++ name ++ " ===\n" ++ s.keptPart ++ s.droppedPart
    ++ "\n=== JSON ===\n" ++ s.document ++ "\n"

end Sorting

/-- Why there is no listing. -/
inductive Failure where
  /-- No file is named. -/
  | unnamed
  /-- The file cannot be read. -/
  | unreadable (name : String) (error : ReadError)
deriving DecidableEq

/-- What is told of a failure by a program of some name. -/
def Failure.message (program : String) : Failure → String
  | unnamed =>
    "Usage: " ++ program ++ " <commands.txt>\n"
      ++ "Shows the command batch parsed from a command file\n"
  | unreadable name error =>
    "Error: read " ++ name ++ "\n\nCaused by:\n    " ++ error.message ++ "\n"

/-- The listing of the file that the first argument names. -/
def ofArguments (w : Surroundings) : List String → Except Failure String
  | [] => .error .unnamed
  | name :: _ =>
    match w.read name with
    | .ok (text, _) => .ok ((sort text).print name)
    | .error error => .error (.unreadable name error)

/-- The listing, if a file is named and can be read. -/
def ofArguments? (w : Surroundings) (arguments : List String) : Option String :=
  (ofArguments w arguments).toOption

end Listing

end Tabletop
