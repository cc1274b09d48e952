import Tabletop.Binary.Basic

/-!
# Arithmetic on binary floating-point values

Each operation is the exact operation on magnitudes followed by one rounding
to nearest. The cases that have no exact answer give a value that is not a
number: infinities that cancel, zero times infinity, zero by zero.

An exact sum of zero is positive unless both operands are negative zeros.
A product and a quotient are negative when exactly one operand is.
-/

namespace Tabletop

namespace Binary

variable {F : Format}

/-- The value nearest to a whole number of units. -/
def ofSignedUnits (i : Int) : Binary F :=
  ofUnits (decide (i < 0)) i.natAbs 1

/-- A finite value as a signed whole number of units. -/
def signed (negative : Bool) (units : Nat) : Int :=
  if negative then -(units : Int) else units

/-- The sum, rounded to nearest. -/
def add : Binary F → Binary F → Binary F
  | nan, _ => nan
  | _, nan => nan
  | infinite s, infinite t => if s = t then infinite s else nan
  | infinite s, finite .. => infinite s
  | finite .., infinite t => infinite t
  | finite s u _, finite t v _ =>
    let sum := signed s u + signed t v
    if sum = 0 then zero (s && t) else ofSignedUnits sum

instance : Add (Binary F) := ⟨add⟩

/-- The difference, rounded to nearest: the sum with the opposite. -/
def sub (x y : Binary F) : Binary F := x + -y

instance : Sub (Binary F) := ⟨sub⟩

/-- The product, rounded to nearest. -/
def mul : Binary F → Binary F → Binary F
  | nan, _ => nan
  | _, nan => nan
  | infinite s, infinite t => infinite (s != t)
  | infinite s, finite t v _ => if v = 0 then nan else infinite (s != t)
  | finite s u _, infinite t => if u = 0 then nan else infinite (s != t)
  | finite s u _, finite t v _ => ofUnits (s != t) (u * v) (twoPow F.scale)

instance : Mul (Binary F) := ⟨mul⟩

/-- The quotient, rounded to nearest. A finite value other than zero divided
by zero is an infinity. -/
def div : Binary F → Binary F → Binary F
  | nan, _ => nan
  | _, nan => nan
  | infinite _, infinite _ => nan
  | infinite s, finite t _ _ => infinite (s != t)
  | finite s _ _, infinite t => zero (s != t)
  | finite s u _, finite t v _ =>
    if v = 0 then
      if u = 0 then nan else infinite (s != t)
    else
      ofUnits (s != t) (u * twoPow F.scale) v

instance : Div (Binary F) := ⟨div⟩

/-- What is left of the first value after taking away the second a whole
number of times, towards zero. It has the sign of the first value, and no
rounding happens. -/
def remainder : Binary F → Binary F → Binary F
  | nan, _ => nan
  | _, nan => nan
  | infinite _, _ => nan
  | finite s u h, infinite _ => finite s u h
  | finite s u _, finite _ v _ => if v = 0 then nan else ofUnits s (u % v) 1

/-- The magnitude with the positive sign. -/
def magnitude : Binary F → Binary F
  | nan => nan
  | infinite _ => infinite false
  | finite _ u h => finite false u h

/-- The remainder brought into the range from zero up to the modulus: a
negative one has the modulus added, in one rounded addition. That addition
may round up to the modulus itself. -/
def wrap (modulus x : Binary F) : Binary F :=
  let r := x.remainder modulus
  if r < 0 then r + modulus.magnitude else r

/-- The nearest whole number, a half going away from zero, kept between zero
and `limit`. A value that is not a number gives zero. -/
def toNat (limit : Nat) : Binary F → Nat
  | nan => 0
  | infinite s => if s then 0 else limit
  | finite s u _ =>
    if s then 0 else min limit ((2 * u + twoPow F.scale) / twoPow (F.scale + 1))

end Binary

end Tabletop
