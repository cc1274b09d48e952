import Tabletop.Binary.Basic

/-!
# The written form of a binary floating-point value

A value is written as one bit for the sign, `exponentBits` bits for the
exponent and `precision - 1` bits for the fraction. Exponent zero marks the
magnitudes below `twoPow (precision - 1)` units, which are written as they are;
the largest exponent marks the infinities and the values that are not
numbers; any other exponent stands for a fraction with a leading one, shifted
to the left by the exponent less one.
-/

namespace Tabletop

namespace Binary

variable {F : Format}

/-- A fraction with its leading one, shifted by an exponent below the largest
one, is a magnitude of the format. -/
theorem representable_of_fields {fraction shift : Nat}
    (hf : fraction < twoPow (F.precision - 1))
    (hs : shift ≤ twoPow F.exponentBits - 3) :
    F.Representable ((twoPow (F.precision - 1) + fraction) * twoPow shift) := by
  obtain ⟨p, hp⟩ : ∃ p, F.precision = p + 1 :=
    ⟨F.precision - 1, by have := F.precision_pos; omega⟩
  rw [hp, Nat.add_sub_cancel] at hf
  rw [hp, Nat.add_sub_cancel]
  have hm : twoPow p + fraction < twoPow F.precision := by
    rw [hp, twoPow_succ]
    omega
  refine ⟨?_, _, _, hm, rfl⟩
  calc (twoPow p + fraction) * twoPow shift
      < twoPow F.precision * twoPow shift :=
        Nat.mul_lt_mul_of_pos_right hm (twoPow_pos _)
    _ = twoPow (F.precision + shift) := (twoPow_add ..).symm
    _ ≤ twoPow F.top := twoPow_le (by unfold Format.top; omega)

/-- A fraction without a leading one is a magnitude of the format. -/
theorem representable_of_fraction {fraction : Nat}
    (hf : fraction < twoPow (F.precision - 1)) : F.Representable fraction := by
  have hp : fraction < twoPow F.precision :=
    Nat.lt_of_lt_of_le hf (twoPow_le (Nat.sub_le _ _))
  refine ⟨Nat.lt_of_lt_of_le hp (twoPow_le ?_), fraction, 0, hp, (Nat.mul_one _).symm⟩
  unfold Format.top
  omega

/-- The value written by the low bits of `b`; bits above the sign are
ignored. -/
def ofBits (b : Nat) : Binary F :=
  let fractionBits := F.precision - 1
  let fraction := b % twoPow fractionBits
  let exponent := b / twoPow fractionBits % twoPow F.exponentBits
  let negative := b.testBit (fractionBits + F.exponentBits)
  have hf : fraction < twoPow (F.precision - 1) := Nat.mod_lt _ (twoPow_pos _)
  if exponent = 0 then
    .finite negative fraction (representable_of_fraction hf)
  else if h : exponent ≤ twoPow F.exponentBits - 2 then
    .finite negative ((twoPow (F.precision - 1) + fraction) * twoPow (exponent - 1))
      (representable_of_fields hf (by omega))
  else if fraction = 0 then
    .infinite negative
  else
    .nan

/-- The bits of a value other than "not a number", which has many written
forms and so none of its own. -/
def toBits? : Binary F → Option Nat
  | nan => none
  | infinite s => some (sign s + (twoPow F.exponentBits - 1) * twoPow (F.precision - 1))
  | finite s u _ =>
    if u < twoPow (F.precision - 1) then
      some (sign s + u)
    else
      let shift := F.excess u
      some (sign s + shift * twoPow (F.precision - 1) + u / twoPow shift)
where
  /-- The sign bit in its place. -/
  sign (negative : Bool) : Nat :=
    if negative then twoPow (F.precision - 1 + F.exponentBits) else 0

end Binary

end Tabletop
