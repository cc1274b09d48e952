import Tabletop.Text.Blank

/-!
# Lines, words and fields

Three ways to cut a text. `lines` ends a line at a line feed, takes a carriage
return right before it as part of the line end, and has no line after the
last line end. `words` are the longest runs of characters that are not blank.
`fields` are what stands between separators, so a text with no separator is
one field.
-/

namespace Tabletop

namespace Text

/-- Puts a character in front of the first piece, which is empty if there is
none. -/
def consFirst (c : Char) : List (List Char) → List (List Char)
  | [] => [[c]]
  | piece :: pieces => (c :: piece) :: pieces

/-- The lines of a text, without their ends. -/
def lines : List Char → List (List Char)
  | [] => []
  | '\n' :: rest => [] :: lines rest
  | '\r' :: '\n' :: rest => [] :: lines rest
  | c :: rest => consFirst c (lines rest)

/-- The pieces of a text between the characters that separate them. -/
def fields (separates : Char → Bool) : List Char → List (List Char)
  | [] => [[]]
  | c :: rest =>
    if separates c then [] :: fields separates rest
    else consFirst c (fields separates rest)

/-- The words of a text: its longest runs without a blank. -/
def words (s : List Char) : List (List Char) :=
  (fields isBlank s).filter (· ≠ [])

end Text

end Tabletop
