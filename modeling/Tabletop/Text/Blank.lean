/-!
# Blank characters

The characters with the property White_Space: six of the control characters
from tab to carriage return and next line, the spaces of all widths, and the
line and paragraph separators. The zero-width characters and the byte order
mark are not among them.
-/

namespace Tabletop

namespace Text

/-- The character separates words and may be trimmed. -/
def isBlank (c : Char) : Bool :=
  let n := c.toNat
  (0x09 ≤ n && n ≤ 0x0d) || n = 0x20 || n = 0x85 || n = 0xa0 || n = 0x1680
    || (0x2000 ≤ n && n ≤ 0x200a) || n = 0x2028 || n = 0x2029 || n = 0x202f
    || n = 0x205f || n = 0x3000

/-- The text without the blanks at its start. -/
def trimLeft (s : List Char) : List Char := s.dropWhile isBlank

/-- The text without the blanks at either end. -/
def trim (s : List Char) : List Char := (trimLeft (trimLeft s).reverse).reverse

end Text

end Tabletop
