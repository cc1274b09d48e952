import Tabletop.Binary.Decimal
import Tabletop.Text.Numeral
import Tabletop.Toml.Tree
import Tabletop.Toml.Lexical

/-!
# Numbers of a configuration document

A number has an optional sign and digits, and single underscores may stand
between two digits. Without point and exponent it is a whole number, which
must fit into 64 bits; zero in front of another digit is a fault. With a
point, an exponent or both it is a floating-point number, the double nearest
to what is written; a number too large for that is a fault, unless it is
negative. There are whole numbers in bases two, eight and sixteen as well,
without a sign, and words for infinity and for "not a number".
-/

namespace Tabletop

namespace Toml

namespace Number

/-- Takes digits that may be missing, each with an underscore in front or
not. An underscore must have a digit after it. -/
def takeMore (isDigit : Char → Bool) : Scan (List Char)
  | [] => some ([], [])
  | '_' :: c :: rest =>
    if isDigit c then
      (takeMore isDigit rest).map fun (digits, rest) => (c :: digits, rest)
    else
      none
  | c :: rest =>
    if isDigit c then
      (takeMore isDigit rest).map fun (digits, rest) => (c :: digits, rest)
    else if c = '_' then
      none
    else
      some ([], c :: rest)

/-- Takes digits, one at least, with underscores between them. -/
def takeDigits (isDigit : Char → Bool) : Scan (List Char)
  | [] => none
  | c :: rest =>
    if isDigit c then
      (takeMore isDigit rest).map fun (digits, rest) => (c :: digits, rest)
    else
      none

/-- Takes the digits before a point: zero, or digits that do not begin with
it. -/
def takeWhole : Scan (List Char)
  | '0' :: rest => some (['0'], rest)
  | s => takeDigits Char.isDigit s

/-- Takes a sign, if there is one: whether it is a minus, and what follows. -/
def takeSign : List Char → Bool × List Char
  | '-' :: rest => (true, rest)
  | '+' :: rest => (false, rest)
  | s => (false, s)

/-- Takes the point and the digits after it, if there is a point. -/
def takeFraction : Scan (Option (List Char))
  | '.' :: rest =>
    (takeDigits Char.isDigit rest).map fun (digits, rest) => (some digits, rest)
  | s => some (none, s)

/-- Takes the exponent, if there is one. -/
def takeExponent : Scan (Option Int)
  | c :: rest =>
    if c = 'e' || c = 'E' then do
      let (negative, rest) := takeSign rest
      let (digits, rest) ← takeDigits Char.isDigit rest
      let n : Int := Numeral.value 10 digits
      return (some (if negative then -n else n), rest)
    else
      some (none, c :: rest)
  | [] => some (none, [])

/-- A whole number, if it fits into 64 bits. -/
def integer? (i : Int) : Option Node :=
  if -9223372036854775808 ≤ i ∧ i < 9223372036854775808 then some (.integer i) else none

/-- A floating-point number, if it is not too large. -/
def float? (x : Double) : Option Node :=
  if x = .infinite false then none else some (.float x)

/-- The number with a sign, digits, digits after the point and an exponent. -/
def ofParts? (negative : Bool) (whole : List Char) :
    Option (List Char) → Option Int → Option Node
  | none, none =>
    let n : Int := Numeral.value 10 whole
    integer? (if negative then -n else n)
  | fraction, exponent =>
    let fraction := fraction.getD []
    float? (.ofDecimal negative (Numeral.value 10 (whole ++ fraction))
      (exponent.getD 0 - fraction.length))

/-- Takes a number in base ten, or one of the words. -/
def takeDecimal (s : List Char) : Option (Node × List Char) :=
  match takeSign s with
  | (negative, 'i' :: 'n' :: 'f' :: rest) => some (.float (.infinite negative), rest)
  | (_, 'n' :: 'a' :: 'n' :: rest) => some (.float .nan, rest)
  | (negative, rest) => do
    let (whole, rest) ← takeWhole rest
    let (fraction, rest) ← takeFraction rest
    let (exponent, rest) ← takeExponent rest
    return (← ofParts? negative whole fraction exponent, rest)

/-- Takes the digits of a whole number in some base. -/
def takeInBase (base : Nat) (isDigit : Char → Bool) (s : List Char) :
    Option (Node × List Char) := do
  let (digits, rest) ← takeDigits isDigit s
  return (← integer? (Numeral.value base digits), rest)

/-- Takes a number. -/
def take : Scan Node
  | '0' :: 'x' :: rest =>
    takeInBase 16
      (fun c => c.isDigit || ('a' ≤ c && c ≤ 'f') || ('A' ≤ c && c ≤ 'F')) rest
  | '0' :: 'o' :: rest => takeInBase 8 (fun c => '0' ≤ c && c ≤ '7') rest
  | '0' :: 'b' :: rest => takeInBase 2 (fun c => c = '0' || c = '1') rest
  | s => takeDecimal s

end Number

end Toml

end Tabletop
