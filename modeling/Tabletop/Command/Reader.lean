import Tabletop.Command
import Tabletop.Text.Split

/-!
# Reading commands

One line holds one command. The first word says which, in capital letters
only; `PLACE` takes the next word, cut at its commas, and all further words
and pieces are ignored. Blanks around a coordinate or a direction cannot
occur, as a word has none, but a direction may be written in any letter case.

A text of several lines is read as the list of those lines that are commands:
a line that is not is passed over without a word.
-/

namespace Tabletop

/-- Why a line is not a command. -/
inductive CommandError where
  /-- The line has no word. -/
  | blank
  /-- The first word names no command. -/
  | unknownWord (word : String)
  /-- The placement has fewer than three pieces. -/
  | tooFewPieces
  /-- The piece is not an integer of 32 bits. -/
  | badCoordinate (piece : String)
  /-- The piece names no direction. -/
  | badDirection (piece : String)
deriving DecidableEq

/-- The wording of an error. -/
def CommandError.message : CommandError → String
  | blank => "empty command line"
  | unknownWord word => "unknown command \x60" ++ word ++ "\x60"
  | tooFewPieces => "PLACE expects X,Y,FACING"
  | badCoordinate piece => "invalid coordinate \x60" ++ piece ++ "\x60"
  | badDirection piece => "invalid facing \x60" ++ piece ++ "\x60"

namespace Command

/-- Reads a coordinate. -/
def readCoordinate (piece : List Char) : Except CommandError Int32 :=
  match Numeral.toInt32? (Text.trim piece) with
  | some n => .ok n
  | none => .error (.badCoordinate (String.ofList piece))

/-- Reads a direction. -/
def readFacing (piece : List Char) : Except CommandError Direction :=
  match Direction.read? piece with
  | some d => .ok d
  | none => .error (.badDirection (String.ofList piece))

/-- Reads what stands after `PLACE`. Of several faults the leftmost is
reported. -/
def readPlacement (word : List Char) : Except CommandError Command :=
  match Text.fields (· = ',') word with
  | a :: b :: c :: _ => do
    let x ← readCoordinate a
    let y ← readCoordinate b
    let facing ← readFacing c
    return .place x y facing
  | _ => .error .tooFewPieces

/-- Reads the words of a line. -/
def readWords : List (List Char) → Except CommandError Command
  | [] => .error .blank
  | word :: others =>
    if word = "PLACE".toList then
      match others with
      | [] => .error .tooFewPieces
      | arguments :: _ => readPlacement arguments
    else if word = "MOVE".toList then .ok .move
    else if word = "LEFT".toList then .ok .left
    else if word = "RIGHT".toList then .ok .right
    else if word = "REPORT".toList then .ok .report
    else .error (.unknownWord (String.ofList word))

/-- Reads a line. -/
def read (line : List Char) : Except CommandError Command :=
  readWords (Text.words line)

/-- The command on a line, if there is one. -/
def read? (line : List Char) : Option Command := (read line).toOption

/-- The commands of a text, one to a line, in order. Other lines are passed
over. -/
def readAll (text : List Char) : List Command :=
  (Text.lines text).filterMap read?

end Command

end Tabletop
