/-!
# Blanks, comments and line ends of a configuration document

A line ends at a line feed, with a carriage return right before it or not; a
carriage return anywhere else is a fault. Blanks are the space and the tab.
A comment runs to the end of its line and holds no control character other
than the tab.

The readers of a document are functions from what is left of it to what they
read and what is left then, or to nothing when the document is malformed.
-/

namespace Tabletop

namespace Toml

/-- Reads something from the front of a text; also gives what is left. -/
abbrev Scan (α : Type) := List Char → Option (α × List Char)

/-- A blank within a line. -/
def isBlank (c : Char) : Bool := c = ' ' || c = '\t'

/-- Leaves out blanks. -/
def skipBlanks (s : List Char) : List Char := s.dropWhile isBlank

/-- A character that texts and comments may hold: no control character other
than the tab. -/
def isPrintable (c : Char) : Bool := c = '\t' || (' ' ≤ c && c ≠ '\x7f')

/-- Takes a line end. -/
def takeLineEnd : List Char → Option (List Char)
  | '\n' :: rest => some rest
  | '\r' :: '\n' :: rest => some rest
  | _ => none

/-- Leaves out a comment, if there is one. -/
def skipComment : List Char → List Char
  | '#' :: rest => rest.dropWhile isPrintable
  | s => s

/-- Takes what may follow a statement: blanks, a comment, and the end of the
line or of the document. -/
def finishLine (s : List Char) : Option (List Char) :=
  match skipComment (skipBlanks s) with
  | [] => some []
  | rest => takeLineEnd rest

/-- Leaves out blanks, line ends and comments between the items of a list.
The flag says that a comment is being left out. -/
def skipTrivia (inComment : Bool) : List Char → List Char
  | [] => []
  | '\r' :: '\n' :: rest => skipTrivia false rest
  | c :: rest =>
    if c = '\n' then skipTrivia false rest
    else if inComment then
      if isPrintable c then skipTrivia true rest else c :: rest
    else if isBlank c then skipTrivia false rest
    else if c = '#' then skipTrivia true rest
    else c :: rest

end Toml

end Tabletop
