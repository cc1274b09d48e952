import Tabletop.Binary.Basic
import Tabletop.Text.Blank

/-!
# The four directions

Directions are named for the compass and ordered clockwise from north, so a
quarter turn to the right is the next one and a quarter turn to the left the
one before. North is the direction of growing `y`, east that of growing `x`.
-/

namespace Tabletop

/-- A direction in which the robot can face. -/
inductive Direction where
  | north
  | east
  | south
  | west
deriving DecidableEq, Repr

namespace Direction

/-- The directions, clockwise from north. -/
def all : List Direction := [north, east, south, west]

/-- A quarter turn clockwise. -/
def right : Direction → Direction
  | north => east
  | east => south
  | south => west
  | west => north

/-- A quarter turn counter-clockwise. -/
def left : Direction → Direction
  | north => west
  | west => south
  | south => east
  | east => north

/-- The direction as an angle, clockwise from north. -/
def degrees : Direction → Single
  | north => 0
  | east => 90
  | south => 180
  | west => 270

/-- What one step adds to `x` and to `y`. -/
def step : Direction → Int32 × Int32
  | north => (0, 1)
  | east => (1, 0)
  | south => (0, -1)
  | west => (-1, 0)

/-- The name, with a capital letter first. -/
def name : Direction → List Char
  | north => "North".toList
  | east => "East".toList
  | south => "South".toList
  | west => "West".toList

/-- Two texts that differ at most in the case of ASCII letters. -/
def sameLetters (s t : List Char) : Bool :=
  s.map Char.toLower = t.map Char.toLower

/-- Reads a name in any letter case, with blanks around it allowed. -/
def read? (s : List Char) : Option Direction :=
  all.find? fun d => sameLetters d.name (Text.trim s)

@[simp] theorem left_right (d : Direction) : d.right.left = d := by cases d <;> rfl

@[simp] theorem right_left (d : Direction) : d.left.right = d := by cases d <;> rfl

theorem mem_all (d : Direction) : d ∈ all := by cases d <;> decide

end Direction

end Tabletop
