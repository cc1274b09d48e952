import Tabletop.Binary.Basic

/-!
# The binary value nearest to a decimal

A decimal is a natural number of digits times a power of ten. The nearest
value is one rounded quotient; only exponents so large or so small that the
answer does not depend on the digits are set apart, to keep the numbers in
the quotient short.
-/

namespace Tabletop

namespace Binary

variable {F : Format}

/-- The value nearest to `digits` times the power of ten with the given sign.

Above `F.top`, the power of ten alone is past the ceiling. Below the second
bound, `digits * twoPow F.scale` is less than half the power of ten it is
divided by, and the nearest magnitude is zero. -/
def ofDecimal (negative : Bool) (digits : Nat) (exponent : Int) : Binary F :=
  if digits = 0 then
    zero negative
  else if (F.top : Int) < exponent then
    infinite negative
  else if exponent < -(digits.log2 + F.scale + 2 : Nat) then
    zero negative
  else if 0 ≤ exponent then
    ofRatio negative (digits * tenPow exponent.toNat) 1
  else
    ofRatio negative digits (tenPow (-exponent).toNat)

end Binary

end Tabletop
