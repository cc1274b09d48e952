import Tabletop.Binary.Power

/-!
# Binary formats and rounding to nearest

A binary format is given by the number of binary digits it keeps and by the
width of its exponent. Every finite value of a format is a whole number of
one smallest unit, the distance between zero and the next value, so a
magnitude is a natural number of units and all arithmetic on magnitudes is
arithmetic on natural numbers. Which naturals are magnitudes is
`Format.Representable`: those of at most `precision` binary digits, shifted
to the left by some amount, below the format's ceiling.

The one operation that is not exact is rounding a quotient to the nearest
magnitude. `Format.round` does it, ties going to the even neighbour, and
`Format.exists_round_eq` says that its result always has few enough digits:
the ceiling is then the only thing left to check.
-/

namespace Tabletop

/-- A binary format, given by the number of significant binary digits and the
number of bits its exponent takes in the written form. -/
structure Format where
  /-- Significant binary digits, the leading one included. -/
  precision : Nat
  /-- Width of the exponent in the written form. -/
  exponentBits : Nat
  /-- A value has at least one digit. -/
  precision_pos : 0 < precision := by decide
  /-- The exponent tells zero, ordinary values and infinity apart. -/
  two_le_exponentBits : 2 ≤ exponentBits := by decide
deriving DecidableEq

namespace Format

/-- Single precision: 24 digits, an exponent of 8 bits. -/
def single : Format := { precision := 24, exponentBits := 8 }

/-- Double precision: 53 digits, an exponent of 11 bits. -/
def double : Format := { precision := 53, exponentBits := 11 }

variable (F : Format)

/-- One is `twoPow scale` units. -/
def scale : Nat := twoPow (F.exponentBits - 1) - 3 + F.precision

/-- Every finite magnitude is below `twoPow top` units. -/
def top : Nat := twoPow F.exponentBits - 3 + F.precision

/-- The magnitudes of a format: naturals of at most `precision` significant
digits, below the ceiling. -/
def Representable (n : Nat) : Prop :=
  n < twoPow F.top ∧ ∃ m e, m < twoPow F.precision ∧ n = m * twoPow e

/-- The whole number nearest to `n / d`; a tie goes to the even neighbour. -/
def nearestEven (n d : Nat) : Nat :=
  let q := n / d
  let r := n % d
  if 2 * r < d then q else if 2 * r = d then q + q % 2 else q + 1

/-- How many of the last digits of `q` are past the precision. -/
def excess (q : Nat) : Nat := q.log2 + 1 - F.precision

/-- The quotient `n / d` rounded to `precision` significant digits, a tie
going to the even neighbour. Below the precision it is rounded to a whole
number of units. -/
def round (n d : Nat) : Nat :=
  let unit := twoPow (F.excess (n / d))
  nearestEven n (d * unit) * unit

theorem nearestEven_le_succ (n d : Nat) : nearestEven n d ≤ n / d + 1 := by
  unfold nearestEven
  dsimp only
  split
  · omega
  · split <;> omega

theorem lt_twoPow_excess (q : Nat) : q < twoPow (F.precision + F.excess q) := by
  refine Nat.lt_of_lt_of_le (lt_twoPow_log2 q) (twoPow_le ?_)
  unfold excess
  omega

/-- **Rounding leaves at most `precision` digits.** The quotient of the digits
kept is below `twoPow precision`. Rounding may raise it to that power itself,
which is one digit shifted once more. -/
theorem exists_round_eq (n d : Nat) :
    ∃ m e, m < twoPow F.precision ∧ F.round n d = m * twoPow e := by
  have hq : n / (d * twoPow (F.excess (n / d))) < twoPow F.precision := by
    rw [← Nat.div_div_eq_div_mul]
    refine Nat.div_lt_of_lt_mul ?_
    have h := F.lt_twoPow_excess (n / d)
    rwa [twoPow_add, Nat.mul_comm] at h
  have hr := nearestEven_le_succ n (d * twoPow (F.excess (n / d)))
  by_cases h : nearestEven n (d * twoPow (F.excess (n / d))) < twoPow F.precision
  · exact ⟨_, _, h, rfl⟩
  · have he : nearestEven n (d * twoPow (F.excess (n / d))) = twoPow F.precision := by
      omega
    obtain ⟨p, hp⟩ : ∃ p, F.precision = p + 1 :=
      ⟨F.precision - 1, by have := F.precision_pos; omega⟩
    refine ⟨twoPow p, F.excess (n / d) + 1, ?_, ?_⟩
    · rw [hp]
      exact twoPow_lt (Nat.lt_succ_self p)
    · unfold round
      dsimp only
      rw [he, hp, twoPow_succ, twoPow_succ, Nat.mul_comm 2 (twoPow p), Nat.mul_assoc]

theorem representable_round {n d : Nat} (h : F.round n d < twoPow F.top) :
    F.Representable (F.round n d) :=
  ⟨h, F.exists_round_eq n d⟩

theorem representable_zero : F.Representable 0 :=
  ⟨twoPow_pos _, 0, 0, twoPow_pos _, (Nat.zero_mul _).symm⟩

end Format

end Tabletop
