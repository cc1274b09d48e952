import Tabletop.Binary.Arithmetic

/-!
# Rounding to nearest

What is said here about `Format.round` needs no exact description of it. The
numbers that a format can tell apart near `n` are `unitAt n` units away from
each other, and a whole number is rounded to one of the two next to it. So
rounding never passes a number that keeps its digits (`le_round`, `round_le`),
and adding at least the distance between neighbours shows in the sum
(`lt_round_add`), while adding less than half of it to a power of two does not
(`round_le_twoPow`).
-/

namespace Tabletop

namespace Format

variable {F : Format} {n u v : Nat}

/-- At most `precision` digits, shifted to the left: what rounding leaves as
it is. -/
def Fits (F : Format) (u : Nat) : Prop := ∃ m e, m < twoPow F.precision ∧ u = m * twoPow e

theorem fits_round (n d : Nat) : F.Fits (F.round n d) := F.exists_round_eq n d

theorem fits_twoPow (k : Nat) : F.Fits (twoPow k) :=
  ⟨1, k, Nat.lt_of_lt_of_le (by decide : 1 < twoPow 1) (twoPow_le F.precision_pos),
    (Nat.one_mul _).symm⟩

/-- How far the numbers that fit are from each other near `n`. -/
def unitAt (F : Format) (n : Nat) : Nat := twoPow (F.excess n)

theorem unitAt_pos : 0 < F.unitAt n := twoPow_pos _

theorem round_one (n : Nat) :
    F.round n 1 = nearestEven n (F.unitAt n) * F.unitAt n := by
  unfold round unitAt
  dsimp only
  rw [Nat.div_one, Nat.one_mul]

theorem div_le_nearestEven (n d : Nat) : n / d ≤ nearestEven n d := by
  unfold nearestEven
  dsimp only
  split
  · omega
  · split <;> omega

theorem nearestEven_eq_div {d : Nat} (h : 2 * (n % d) < d) : nearestEven n d = n / d :=
  if_pos h

/-- Rounding gives at least the next number below. -/
theorem below_le_round (n : Nat) : n / F.unitAt n * F.unitAt n ≤ F.round n 1 := by
  rw [round_one]
  exact Nat.mul_le_mul_right _ (div_le_nearestEven _ _)

/-- Past the precision, the highest digit of `n` is the first of those kept. -/
theorem twoPow_log2_eq (h : 0 < F.excess n) :
    twoPow n.log2 = twoPow (F.precision - 1) * F.unitAt n := by
  have hp := F.precision_pos
  rw [unitAt, ← twoPow_add]
  congr 1
  unfold excess at h ⊢
  omega

theorem pos_of_excess_pos (h : 0 < F.excess n) : n ≠ 0 := by
  rintro rfl
  have hp := F.precision_pos
  have hzero : Nat.log2 0 = 0 := by decide
  unfold excess at h
  omega

/-- A number that fits is a multiple of the distance near `n`, or below the
highest digit of `n`. -/
theorem Fits.dvd_or_lt (hu : F.Fits u) (n : Nat) :
    F.unitAt n ∣ u ∨ 0 < F.excess n ∧ u < twoPow n.log2 := by
  obtain ⟨m, e, hm, rfl⟩ := hu
  by_cases he : F.excess n ≤ e
  · exact .inl (Nat.dvd_mul_left_of_dvd (Nat.pow_dvd_pow 2 he) m)
  · have hpos : 0 < F.excess n := by omega
    refine .inr ⟨hpos, ?_⟩
    calc m * twoPow e
        < twoPow F.precision * twoPow e := Nat.mul_lt_mul_of_pos_right hm (twoPow_pos e)
      _ = twoPow (F.precision + e) := (twoPow_add ..).symm
      _ ≤ twoPow n.log2 := twoPow_le (by unfold excess at he hpos; omega)

/-- **Rounding does not go below** a number that fits. -/
theorem le_round (hu : F.Fits u) (h : u ≤ n) : u ≤ F.round n 1 := by
  refine Nat.le_trans ?_ (below_le_round n)
  obtain ⟨k, rfl⟩ | ⟨hpos, hlt⟩ := hu.dvd_or_lt n
  · rw [Nat.mul_comm] at h ⊢
    exact Nat.mul_le_mul_right _ ((Nat.le_div_iff_mul_le unitAt_pos).mpr h)
  · -- The highest digit alone is a multiple of the distance.
    have hhigh : twoPow n.log2 ≤ n := Nat.log2_self_le (pos_of_excess_pos hpos)
    refine Nat.le_trans (Nat.le_of_lt hlt) ?_
    rw [twoPow_log2_eq hpos] at hhigh ⊢
    exact Nat.mul_le_mul_right _ ((Nat.le_div_iff_mul_le unitAt_pos).mpr hhigh)

/-- **Rounding does not go above** a number that fits. -/
theorem round_le (hu : F.Fits u) (h : n ≤ u) : F.round n 1 ≤ u := by
  obtain ⟨k, hk⟩ | ⟨hpos, hlt⟩ := hu.dvd_or_lt n
  · rw [round_one, hk, Nat.mul_comm _ k]
    refine Nat.mul_le_mul_right _ ?_
    obtain hlt | heq := Nat.lt_or_eq_of_le h
    · have hdiv : n / F.unitAt n < k := Nat.div_lt_of_lt_mul (hk ▸ hlt)
      exact Nat.le_trans (nearestEven_le_succ _ _) hdiv
    · have hn : n = F.unitAt n * k := heq.trans hk
      have hmod : n % F.unitAt n = 0 := Nat.mod_eq_zero_of_dvd ⟨k, hn⟩
      rw [nearestEven_eq_div (by rw [hmod]; exact unitAt_pos)]
      exact Nat.div_le_of_le_mul (Nat.le_of_eq hn)
  · have hhigh : twoPow n.log2 ≤ n := Nat.log2_self_le (pos_of_excess_pos hpos)
    omega

theorem Fits.round_eq (hu : F.Fits u) : F.round u 1 = u :=
  Nat.le_antisymm (round_le hu (Nat.le_refl u)) (le_round hu (Nat.le_refl u))

theorem nearestEven_mono {m d : Nat} (h : m ≤ n) : nearestEven m d ≤ nearestEven n d := by
  obtain hlt | heq := Nat.lt_or_eq_of_le (Nat.div_le_div_right h : m / d ≤ n / d)
  · exact Nat.le_trans (nearestEven_le_succ m d) (Nat.le_trans hlt (div_le_nearestEven n d))
  · -- With the same quotient, only the remainder has grown.
    have hm := Nat.div_add_mod m d
    have hn := Nat.div_add_mod n d
    rw [heq] at hm
    unfold nearestEven
    dsimp only
    rw [heq]
    split
    · split
      · exact Nat.le_refl _
      · split <;> omega
    · split
      · split
        · omega
        · split <;> omega
      · exact Nat.le_of_eq (by rw [if_neg (by omega), if_neg (by omega)])

/-- **Rounding keeps the order.** -/
theorem round_mono {m : Nat} (h : m ≤ n) : F.round m 1 ≤ F.round n 1 := by
  obtain rfl | hn := Nat.eq_zero_or_pos n
  · exact Nat.le_of_eq (by rw [Nat.le_zero.mp h])
  · have hlow : twoPow n.log2 ≤ n := Nat.log2_self_le (by omega)
    obtain hlt | hle := Nat.lt_or_ge m (twoPow n.log2)
    · -- The highest digit of `n` stands between the two.
      exact Nat.le_trans (round_le (fits_twoPow _) (Nat.le_of_lt hlt)) (le_round (fits_twoPow _) hlow)
    · have hpos := twoPow_pos n.log2
      have hlog : m.log2 = n.log2 := by
        refine (Nat.log2_eq_iff (by omega)).mpr ⟨hle, Nat.lt_of_le_of_lt h (lt_twoPow_log2 n)⟩
      have hunit : F.unitAt m = F.unitAt n := by rw [unitAt, unitAt, excess, excess, hlog]
      rw [round_one, round_one, hunit]
      exact Nat.mul_le_mul_right _ (nearestEven_mono h)

theorem nearestEven_mul_mul {d c : Nat} (hc : 0 < c) :
    nearestEven (n * c) (d * c) = nearestEven n d := by
  have htwice : 2 * (n % d * c) = 2 * (n % d) * c := (Nat.mul_assoc ..).symm
  unfold nearestEven
  rw [Nat.mul_div_mul_right n d hc, Nat.mul_mod_mul_right]
  dsimp only
  rw [htwice]
  simp only [Nat.mul_lt_mul_right hc, Nat.mul_left_inj (Nat.ne_of_gt hc)]

/-- A common factor makes no difference. -/
theorem round_mul {d : Nat} (hd : 0 < d) (n : Nat) : F.round (n * d) d = F.round n 1 := by
  unfold round
  dsimp only
  rw [Nat.mul_div_cancel n hd, Nat.div_one, Nat.one_mul, Nat.mul_comm d, nearestEven_mul_mul hd]

/-- Rounding does not reach the ceiling from below a smaller power of two. -/
theorem round_lt_top {k : Nat} (hk : k < F.top) (h : n ≤ twoPow k) :
    F.round n 1 < twoPow F.top :=
  Nat.lt_of_le_of_lt (round_le (fits_twoPow k) h) (twoPow_lt hk)

/-- Only nothing is rounded to zero. -/
theorem round_eq_zero_iff : F.round n 1 = 0 ↔ n = 0 := by
  obtain rfl | hn := Nat.eq_zero_or_pos n
  · exact iff_of_true (Fits.round_eq F.representable_zero.2) rfl
  · have hone : 1 ≤ F.round n 1 := le_round (fits_twoPow 0) hn
    omega

/-- **What is added shows in the sum** if it is at least the distance there. -/
theorem lt_round_add (h : F.unitAt (u + v) ≤ v) : u < F.round (u + v) 1 := by
  refine Nat.lt_of_lt_of_le ?_ (below_le_round _)
  have hdiv := Nat.div_add_mod' (u + v) (F.unitAt (u + v))
  have hmod := Nat.mod_lt (u + v) (unitAt_pos (F := F) (n := u + v))
  omega

theorem unitAt_le (hv : 0 < v) (h : n ≤ twoPow (F.precision - 1) * v) : F.unitAt n ≤ v := by
  by_cases hpos : 0 < F.excess n
  · have hhigh : twoPow n.log2 ≤ n := Nat.log2_self_le (pos_of_excess_pos hpos)
    rw [twoPow_log2_eq hpos] at hhigh
    exact Nat.le_of_mul_le_mul_left (Nat.le_trans hhigh h) (twoPow_pos _)
  · have hzero : F.excess n = 0 := by omega
    rw [unitAt, hzero]
    exact hv

/-- **Too little to show.** Less than half the distance above a power of two
is lost there. -/
theorem round_le_twoPow {k : Nat} (hk : F.precision ≤ k) (h : n ≤ twoPow k + v)
    (hv : 2 * v < twoPow (k + 1 - F.precision)) : F.round n 1 ≤ twoPow k := by
  obtain hle | hlt : n ≤ twoPow k ∨ twoPow k < n := by omega
  · exact round_le (fits_twoPow k) hle
  · have hp := F.precision_pos
    have hhigh : twoPow k = twoPow (F.precision - 1) * twoPow (k + 1 - F.precision) := by
      rw [← twoPow_add]
      congr 1
      omega
    have hone : 1 ≤ twoPow (F.precision - 1) := twoPow_pos _
    have hunit : twoPow (k + 1 - F.precision) ≤ twoPow k := by
      rw [hhigh]
      exact Nat.le_mul_of_pos_left _ hone
    have hlog : n.log2 = k := by
      refine (Nat.log2_eq_iff (by omega)).mpr ⟨Nat.le_of_lt hlt, ?_⟩
      have hsucc := twoPow_succ k
      show n < twoPow (k + 1)
      omega
    have hunitAt : F.unitAt n = twoPow (k + 1 - F.precision) := by
      rw [unitAt, excess, hlog]
    -- Over the power of two there is less than half a unit.
    obtain ⟨r, rfl⟩ := Nat.exists_eq_add_of_lt hlt
    have hmod : (twoPow k + r + 1) % F.unitAt (twoPow k + r + 1) = r + 1 := by
      rw [hunitAt, hhigh, Nat.add_assoc, Nat.mul_add_mod_self_right]
      exact Nat.mod_eq_of_lt (by omega)
    have hdiv := Nat.div_add_mod' (twoPow k + r + 1) (F.unitAt (twoPow k + r + 1))
    rw [round_one, nearestEven_eq_div (by rw [hmod, hunitAt]; omega)]
    omega

end Format

namespace Binary

variable {F G : Format} {n u v : Nat}

theorem ofUnits_of_lt {d : Nat} (negative : Bool) (h : F.round n d < twoPow F.top) :
    (ofUnits negative n d : Binary F) = finite negative (F.round n d) (F.representable_round h) :=
  dif_pos h

theorem ofUnits_of_le {d : Nat} (negative : Bool) (h : twoPow F.top ≤ F.round n d) :
    (ofUnits negative n d : Binary F) = infinite negative :=
  dif_neg (Nat.not_lt.mpr h)

/-- What has been rounded is not rounded again. -/
theorem ofUnits_round (negative : Bool) (n : Nat) :
    (ofUnits negative (F.round n 1) 1 : Binary F) = ofUnits negative n 1 := by
  unfold ofUnits
  simp only [(F.fits_round n 1).round_eq]

theorem ofUnits_of_representable (negative : Bool) (h : F.Representable u) :
    (ofUnits negative u 1 : Binary F) = finite negative u h := by
  have hround : F.round u 1 = u := Format.Fits.round_eq h.2
  rw [ofUnits_of_lt negative (by rw [hround]; exact h.1)]
  simp only [hround]

/-- A value and one more, both on the upper side. -/
theorem ofUnits_add (hu : F.Fits u) (hv : F.Representable v) :
    (ofUnits false u 1 + finite false v hv : Binary F) = ofUnits false (u + v) 1 := by
  obtain hlt | hle := Nat.lt_or_ge u (twoPow F.top)
  · rw [ofUnits_of_representable false ⟨hlt, hu⟩]
    show (if (u : Int) + v = 0 then zero (false && false) else ofSignedUnits ((u : Int) + v)) = _
    split
    next hzero =>
      obtain ⟨rfl, rfl⟩ : u = 0 ∧ v = 0 := by omega
      exact (ofUnits_of_representable false F.representable_zero).symm
    · have hsign : decide ((u : Int) + v < 0) = false := decide_eq_false (by omega)
      have habs : ((u : Int) + v).natAbs = u + v := by omega
      rw [ofSignedUnits, hsign, habs]
  · have hsum : u ≤ F.round (u + v) 1 := Format.le_round hu (Nat.le_add_right u v)
    rw [ofUnits_of_le false (by rw [hu.round_eq]; exact hle),
      ofUnits_of_le false (Nat.le_trans hle hsum)]
    rfl

/-- The place of a value on the upper side. -/
theorem place_ofUnits (hu : F.Fits u) :
    (ofUnits false u 1 : Binary F).place? = some (min u (twoPow F.top) : Nat) := by
  obtain hlt | hle := Nat.lt_or_ge u (twoPow F.top)
  · rw [ofUnits_of_representable false ⟨hlt, hu⟩, Nat.min_eq_left (Nat.le_of_lt hlt)]
    rfl
  · rw [ofUnits_of_le false (by rw [hu.round_eq]; exact hle), Nat.min_eq_right hle]
    rfl

/-- So many units of double precision are one of single precision. -/
def widening : Nat := twoPow (Format.double.scale - Format.single.scale)

theorem widening_pos : 0 < widening := twoPow_pos _

theorem representable_widen (h : Format.single.Representable u) :
    Format.double.Representable (u * widening) := by
  obtain ⟨hlt, m, e, hm, rfl⟩ := h
  refine ⟨?_, m, e + (Format.double.scale - Format.single.scale),
    Nat.lt_of_lt_of_le hm (twoPow_le (by decide)), ?_⟩
  · calc m * twoPow e * widening
        < twoPow Format.single.top * widening :=
          Nat.mul_lt_mul_of_pos_right hlt widening_pos
      _ = twoPow (Format.single.top + (Format.double.scale - Format.single.scale)) := by
          rw [widening, twoPow_add]
      _ ≤ twoPow Format.double.top := twoPow_le (by decide)
  · rw [widening, twoPow_add, Nat.mul_assoc]

/-- **Nothing is lost** on the way from single to double precision. -/
theorem convert_finite (negative : Bool) (h : Format.single.Representable u) :
    ((finite negative u h : Single).convert : Double)
      = finite negative (u * widening) (representable_widen h) := by
  have hdown : twoPow (Format.single.scale - Format.double.scale) = 1 := by
    rw [show Format.single.scale - Format.double.scale = 0 by decide, twoPow_zero]
  rw [convert, hdown, ← widening, ofUnits_of_representable negative (representable_widen h)]

end Binary

end Tabletop
