import Tabletop.Command
import Tabletop.Json.Content
import Tabletop.Json.Printer
import Tabletop.Json.Reader

/-!
# Commands as JSON

A direction, and a command without arguments, is its name. A placement is an
object with the one field `Place`, which holds the record of its arguments.
-/

namespace Tabletop

namespace Direction

/-- The direction as a JSON value. -/
def toJson (d : Direction) : Json.Value := .text d.name

/-- Reads a direction. -/
def ofJson? (v : Json.Value) : Option Direction := do
  let name ← v.toName?
  all.find? fun d => d.name = name

end Direction

namespace Command

/-- The names of the arguments of a placement. -/
def placeFields : List (List Char) := ["x".toList, "y".toList, "facing".toList]

/-- The command as a JSON value. -/
def toJson : Command → Json.Value
  | place x y facing =>
    .object [("Place".toList, .object [
      ("x".toList, .ofInt x.toInt),
      ("y".toList, .ofInt y.toInt),
      ("facing".toList, facing.toJson)])]
  | move => .text "Move".toList
  | left => .text "Left".toList
  | right => .text "Right".toList
  | report => .text "Report".toList

/-- Reads the arguments of a placement. -/
def placeOfJson? (v : Json.Value) : Option Command := do
  match ← v.toRecord? placeFields with
  | [x, y, facing] =>
    return .place (← x.toInt32?) (← y.toInt32?) (← Direction.ofJson? facing)
  | _ => none

/-- Reads a command. -/
def ofJson? (v : Json.Value) : Option Command := do
  match ← v.toVariant? with
  | (name, arguments) =>
    if name = "Place".toList then
      placeOfJson? (← arguments)
    else
      match arguments with
      | some (.null) | none =>
        if name = "Move".toList then some move
        else if name = "Left".toList then some left
        else if name = "Right".toList then some right
        else if name = "Report".toList then some report
        else none
      | _ => none

end Command

/-- A batch as a JSON value. -/
def Command.listToJson (commands : List Command) : Json.Value :=
  .ofList Command.toJson commands

/-- Reads a batch. -/
def Command.listOfJson? (v : Json.Value) : Option (List Command) :=
  v.toList? Command.ofJson?

end Tabletop
