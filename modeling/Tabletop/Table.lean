import Tabletop.Binary.Arithmetic
import Tabletop.Direction
import Tabletop.Text.Numeral

/-!
# The table and its cells

A table has `width` cells from west to east and `length` cells from south to
north, numbered from zero. Both are positive and the number of cells fits
into a coordinate: these facts are part of the type, and `Table.make` is the
one place that checks them.

A cell also carries the point at which it is drawn, a cell size away from its
neighbours. The point takes part when two cells are compared, by the
comparison of floating-point values: on a table whose cell size is not a
number, a cell differs from itself.
-/

namespace Tabletop

/-- A point of the space in which the table is drawn. -/
structure Point where
  /-- Towards the east. -/
  x : Single
  /-- Upwards. -/
  y : Single
  /-- Towards the north. -/
  z : Single
deriving DecidableEq

namespace Point

/-- Same place, by comparison of the three numbers. -/
def equals (p q : Point) : Bool :=
  p.x.equals q.x && p.y.equals q.y && p.z.equals q.z

/-- The fraction `t` of the way from one number to another. -/
def between (a b t : Single) : Single := a + (b - a) * t

/-- The fraction `t` of the way from `p` to `q`, no less than nothing and no
more than the whole of it. -/
def blend (p q : Point) (t : Single) : Point :=
  let t := Binary.clamp 0 1 t
  { x := between p.x q.x t, y := between p.y q.y t, z := between p.z q.z t }

end Point

/-- A cell of a table: its coordinates and the point at which it is drawn. -/
structure Cell where
  /-- Column, counted from the west. -/
  x : Int32
  /-- Row, counted from the south. -/
  y : Int32
  /-- Where the cell is drawn. -/
  point : Point
deriving DecidableEq

namespace Cell

/-- Same coordinates and same point, by comparison of numbers. -/
def equals (c d : Cell) : Bool := c.x = d.x && c.y = d.y && c.point.equals d.point

/-- The coordinates, separated by a comma. -/
def text (c : Cell) : List Char :=
  Numeral.ofInt c.x.toInt ++ ',' :: Numeral.ofInt c.y.toInt

end Cell

/-- What can be wrong with a table or with a place on it. -/
inductive TableError where
  /-- The table would have no cells, or more than a coordinate can count. -/
  | badDimensions (width length : Int32)
  /-- The coordinates are those of no cell. -/
  | offTable (x y : Int32)
deriving DecidableEq

/-- The wording of an error. -/
def TableError.message : TableError → String
  | badDimensions width length =>
    "invalid table dimensions " ++ String.ofList (Numeral.ofInt width.toInt) ++ "x"
      ++ String.ofList (Numeral.ofInt length.toInt)
  | offTable x y =>
    "cell " ++ String.ofList (Numeral.ofInt x.toInt) ++ ","
      ++ String.ofList (Numeral.ofInt y.toInt) ++ " is not on the table"

/-- Both sides are positive and their product fits into a coordinate. -/
def ValidDimensions (width length : Int32) : Prop :=
  0 < width.toInt ∧ 0 < length.toInt ∧ width.toInt * length.toInt < 2147483648

instance (width length : Int32) : Decidable (ValidDimensions width length) :=
  inferInstanceAs (Decidable (_ ∧ _ ∧ _))

/-- A rectangular table of cells. -/
structure Table where
  /-- Number of columns. -/
  width : Int32
  /-- Number of rows. -/
  length : Int32
  /-- Distance between neighbouring cells where the table is drawn. -/
  cellSize : Single
  /-- There are cells, and not too many to count. -/
  valid : ValidDimensions width length

namespace Table

/-- The table of the given dimensions, if they are valid. -/
def make (width length : Int32) (cellSize : Single) : Except TableError Table :=
  if h : ValidDimensions width length then
    .ok { width, length, cellSize, valid := h }
  else
    .error (.badDimensions width length)

/-- The table of the given dimensions with neighbouring cells at distance
one. -/
def makeUnit (width length : Int32) : Except TableError Table :=
  make width length 1

variable (t : Table)

/-- The coordinates are those of a cell. -/
def contains (x y : Int32) : Bool :=
  0 ≤ x && x < t.width && 0 ≤ y && y < t.length

/-- The number of a cell when the cells are counted row by row. -/
def index (x y : Int32) : Int32 := x + y * t.width

/-- The cell with the given coordinates, wherever they are. -/
def cellAt (x y : Int32) : Cell :=
  { x, y
    point := {
      x := Binary.ofInt x.toInt * t.cellSize
      y := 0
      z := Binary.ofInt y.toInt * t.cellSize } }

/-- The cell with the given coordinates, if the table has it. -/
def cell (x y : Int32) : Except TableError Cell :=
  if t.contains x y then .ok (t.cellAt x y) else .error (.offTable x y)

/-- The number of cells. -/
def size : Nat := t.width.toInt.toNat * t.length.toInt.toNat

/-- The coordinates from zero up to a bound. -/
def coordinates (bound : Int32) : List Int32 :=
  (List.range bound.toInt.toNat).map fun i => Int32.ofNat i

/-- All cells, row by row from the south, each row from the west. -/
def cells : List Cell :=
  (coordinates t.length).flatMap fun y =>
    (coordinates t.width).map fun x => t.cellAt x y

/-- The cell one step away in a direction, or the given cell if that step
leaves the table. The given cell need not be one of this table. -/
def ahead (c : Cell) (d : Direction) : Cell :=
  match t.cell (c.x + d.step.1) (c.y + d.step.2) with
  | .ok next => next
  | .error _ => c

end Table

end Tabletop
