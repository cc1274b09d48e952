/-!
# Decimal numerals

Numbers are written with the fewest digits, a minus sign in front of a
negative one. They are read with more freedom: one sign of either kind, then
at least one digit, zeros in front allowed. Only the ten ASCII digits count.
-/

namespace Tabletop

namespace Numeral

/-- The digit for a number below ten. -/
def digit (n : Nat) : Char := Char.ofNat ('0'.toNat + n)

/-- A natural number in decimal digits. -/
def ofNat (n : Nat) : List Char :=
  if n < 10 then [digit n] else ofNat (n / 10) ++ [digit (n % 10)]
termination_by n

/-- An integer in decimal digits, a minus sign in front of a negative one. -/
def ofInt (i : Int) : List Char :=
  if i < 0 then '-' :: ofNat i.natAbs else ofNat i.natAbs

/-- The number a digit stands for in a base up to sixteen. -/
def digitValue (c : Char) : Nat :=
  if c.isDigit then c.toNat - '0'.toNat
  else if c.isLower then c.toNat - 'a'.toNat + 10
  else c.toNat - 'A'.toNat + 10

/-- The number that digits stand for in a base. -/
def value (base : Nat) (digits : List Char) : Nat :=
  digits.foldl (fun n c => n * base + digitValue c) 0

/-- Reads digits; there must be one at least. -/
def toNat? (s : List Char) : Option Nat :=
  if s ≠ [] ∧ s.all Char.isDigit then some (value 10 s) else none

/-- Reads an optional sign and digits. -/
def toInt? : List Char → Option Int
  | '+' :: digits => (toNat? digits).map Int.ofNat
  | '-' :: digits => (toNat? digits).map fun n => -(n : Int)
  | digits => (toNat? digits).map Int.ofNat

/-- An integer as one of 32 bits, if it fits. -/
def int32? (i : Int) : Option Int32 :=
  if -2147483648 ≤ i ∧ i < 2147483648 then some (Int32.ofInt i) else none

/-- Reads an integer of 32 bits. -/
def toInt32? (s : List Char) : Option Int32 := (toInt? s).bind int32?

/-- A number in a column of the given width, blanks on its left. -/
def inColumn (width n : Nat) : List Char :=
  let digits := ofNat n
  List.replicate (width - digits.length) ' ' ++ digits

end Numeral

end Tabletop
