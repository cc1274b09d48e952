import Tabletop.Text.Numeral
import Tabletop.Toml.Lexical

/-!
# Texts of a configuration document

A text stands between quotes or apostrophes, one of them or three. Between
quotes a backslash begins an escape; between apostrophes it means itself.
Between three of them a text may go over several lines: a line end right
after the opening is left out, every line end becomes a line feed, and up to
two more quotes may stand right before the closing ones. There, a backslash
at the end of a line leaves out the line end and all blanks and line ends
after it.

Reading takes two steps: first the text is cut out, with its escapes left in
place, and then the escapes are replaced.
-/

namespace Tabletop

namespace Toml

namespace Text

/-- A digit of base sixteen. -/
def isHexDigit (c : Char) : Bool :=
  c.isDigit || ('a' ≤ c && c ≤ 'f') || ('A' ≤ c && c ≤ 'F')

/-- The character with a number written in base sixteen, if it is one. -/
def scalar? (digits : List Char) : Option Char :=
  let n := Numeral.value 16 digits
  if digits.all isHexDigit ∧ n.isValidChar then some (Char.ofNat n) else none

/-- What a letter after a backslash stands for. -/
def escape? : Char → Option Char
  | 'b' => some '\x08'
  | 't' => some '\t'
  | 'n' => some '\n'
  | 'f' => some '\x0c'
  | 'r' => some '\r'
  | '"' => some '"'
  | '\\' => some '\\'
  | _ => none

/-- Puts a character that may be missing in front of a text that may be
missing. -/
def cons? (c : Option Char) (s : Option (List Char)) : Option (List Char) := do
  return (← c) :: (← s)

/-- Replaces the escapes of a text. The flag says that blanks and line ends
are being left out. -/
def unescape (trimming : Bool) : List Char → Option (List Char)
  | [] => some []
  | '\\' :: 'u' :: a :: b :: c :: d :: rest =>
    cons? (scalar? [a, b, c, d]) (unescape false rest)
  | '\\' :: 'U' :: a :: b :: c :: d :: e :: f :: g :: h :: rest =>
    cons? (scalar? [a, b, c, d, e, f, g, h]) (unescape false rest)
  | '\\' :: c :: rest =>
    if (skipBlanks (c :: rest)).head? = some '\n' then
      unescape true rest
    else
      cons? (escape? c) (unescape false rest)
  | c :: rest =>
    if trimming && (isBlank c || c = '\n') then
      unescape true rest
    else if c = '\\' then
      none
    else
      (unescape false rest).map (c :: ·)

/-- Cuts out a text up to the quote that ends it. -/
def takeQuoted : Scan (List Char)
  | [] => none
  | '"' :: rest => some ([], rest)
  | '\\' :: c :: rest =>
    if isPrintable c then
      (takeQuoted rest).map fun (body, rest) => ('\\' :: c :: body, rest)
    else
      none
  | c :: rest =>
    if isPrintable c then
      (takeQuoted rest).map fun (body, rest) => (c :: body, rest)
    else
      none

/-- Cuts out a text up to the apostrophe that ends it. -/
def takeLiteral : Scan (List Char)
  | [] => none
  | '\'' :: rest => some ([], rest)
  | c :: rest =>
    if isPrintable c then
      (takeLiteral rest).map fun (body, rest) => (c :: body, rest)
    else
      none

/-- Decides on a text after a mark: with two more marks the text is over, and
up to two marks that follow still belong to it. The answer is those marks,
and what follows. -/
def closing? (mark : Char) (s : List Char) : Option (List Char × List Char) :=
  let marks := (s.takeWhile (· = mark)).length
  if marks < 2 then
    none
  else
    let extra := min (marks - 2) 2
    some (List.replicate extra mark, s.drop (2 + extra))

/-- Cuts out a text up to the three marks that end it, with a line feed for
each line end; a carriage return anywhere else is a fault. With `escapes`, a
backslash keeps the character after it from being a mark. -/
def takeLines (mark : Char) (escapes : Bool) : Scan (List Char)
  | [] => none
  | '\r' :: '\n' :: rest =>
    (takeLines mark escapes rest).map fun (body, rest) => ('\n' :: body, rest)
  | c :: rest =>
    if escapes && c = '\\' then
      match rest with
      | [] => none
      | '\r' :: '\n' :: rest =>
        (takeLines mark escapes rest).map fun (body, rest) => (c :: '\n' :: body, rest)
      | d :: rest =>
        if d = '\n' || isPrintable d then
          (takeLines mark escapes rest).map fun (body, rest) => (c :: d :: body, rest)
        else
          none
    else if c = mark then
      match closing? mark rest with
      | some (extra, rest) => some (extra, rest)
      | none => (takeLines mark escapes rest).map fun (body, rest) => (c :: body, rest)
    else if c = '\n' || isPrintable c then
      (takeLines mark escapes rest).map fun (body, rest) => (c :: body, rest)
    else
      none

/-- Leaves out a line end at the front. -/
def skipLineEnd (s : List Char) : List Char := (takeLineEnd s).getD s

/-- Replaces the escapes of a text that was cut out. -/
def unescaped : Option (List Char × List Char) → Option (List Char × List Char)
  | some (body, rest) => (unescape false body).map (·, rest)
  | none => none

/-- Takes a text that may be a key: one mark on either side. -/
def takeShort : Scan (List Char)
  | '"' :: rest => unescaped (takeQuoted rest)
  | '\'' :: rest => takeLiteral rest
  | _ => none

/-- Takes a text of either length. -/
def take : Scan (List Char)
  | '"' :: '"' :: '"' :: rest => unescaped (takeLines '"' true (skipLineEnd rest))
  | '\'' :: '\'' :: '\'' :: rest => takeLines '\'' false (skipLineEnd rest)
  | s => takeShort s

end Text

end Toml

end Tabletop
