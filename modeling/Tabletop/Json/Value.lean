/-!
# JSON values as they are written

A value keeps its numbers and texts the way they stand in the document: a
number as its numeral, a text as what stands between its quotes. So reading
and printing lose nothing, a numeral may be of any size, and it is up to
whoever uses a value whether a text whose escapes make no sense, or a number
that is no integer, is a fault.
-/

namespace Tabletop

namespace Json

/-- A JSON value. -/
inductive Value where
  /-- The word `null`. -/
  | null
  /-- One of the words `true` and `false`. -/
  | boolean (b : Bool)
  /-- A number, by its numeral. -/
  | number (numeral : List Char)
  /-- A text, by what stands between the quotes. -/
  | text (body : List Char)
  /-- Values in brackets. -/
  | list (items : List Value)
  /-- Values with keys, in braces. A key may occur more than once. -/
  | object (fields : List (List Char × Value))

end Json

end Tabletop
