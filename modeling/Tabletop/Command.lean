import Tabletop.Direction
import Tabletop.Text.Numeral

/-!
# Commands

What the robot can be told to do, and how a command is written: its keyword
in capital letters, and for a placement the coordinates and the direction
after it, with commas and no blanks between them.
-/

namespace Tabletop

/-- A command for the robot. -/
inductive Command where
  /-- Stand on the cell with these coordinates and face this way. -/
  | place (x y : Int32) (facing : Direction)
  /-- Go one cell forward. -/
  | move
  /-- Turn a quarter counter-clockwise. -/
  | left
  /-- Turn a quarter clockwise. -/
  | right
  /-- Say where the robot stands and which way it faces. -/
  | report
deriving DecidableEq

namespace Command

/-- The word that a command begins with. -/
def keyword : Command → List Char
  | place .. => "PLACE".toList
  | move => "MOVE".toList
  | left => "LEFT".toList
  | right => "RIGHT".toList
  | report => "REPORT".toList

/-- What stands after the keyword of a placement. -/
def placement (x y : Int32) (facing : Direction) : List Char :=
  Numeral.ofInt x.toInt ++ ',' :: Numeral.ofInt y.toInt
    ++ ',' :: facing.name.map Char.toUpper

/-- The command as it is written. -/
def text : Command → List Char
  | place x y facing => "PLACE ".toList ++ placement x y facing
  | c => c.keyword

end Command

end Tabletop
