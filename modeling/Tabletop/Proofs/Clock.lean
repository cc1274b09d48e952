import Tabletop.Proofs.Attaining
import Tabletop.Proofs.Completion

/-!
# The clock

The clock adds up the frames of batches, and each sum is rounded. It never
goes back (`frame_spec`), and later times of the clock are later milliseconds
of the journal (`Journal.milliseconds_mono`).

A frame begins at the time that the clock had before it, and that is the time
to be entered for what is begun with the frame. But the clock has moved on by
then, so the time is found again by taking the frame off (`frameStart`). What
is found is not always what was there: the sum may have been rounded, down or
up, and of an infinite sum nothing is left that is a number. All that is
certain is that it is not past the end of the frame (`frame_spec`). As long as
the clock stands below `twoPow 16` seconds and no frame is shorter than one of
`twoPow 14` to a second, the sums are exact, and what is found is the time
before (`onGrid_frame`).
-/

namespace Tabletop

namespace Binary

variable {F : Format} {u v : Nat}

/-! ## Order -/

theorem exists_place_of_atMost {x y : Binary F} (h : x ≤ y) :
    ∃ a b, x.place? = some a ∧ y.place? = some b ∧ a ≤ b := by
  have hc : x.compareBy (fun a b => decide (a ≤ b)) y = true := h
  unfold compareBy at hc
  split at hc
  next a b hx hy => exact ⟨a, b, hx, hy, of_decide_eq_true hc⟩
  · cases hc

theorem exists_place_of_less {x y : Binary F} (h : x < y) :
    ∃ a b, x.place? = some a ∧ y.place? = some b ∧ a < b := by
  have hc : x.compareBy (fun a b => decide (a < b)) y = true := h
  unfold compareBy at hc
  split at hc
  next a b hx hy => exact ⟨a, b, hx, hy, of_decide_eq_true hc⟩
  · cases hc

theorem atMost_trans {x y z : Binary F} (hxy : x ≤ y) (hyz : y ≤ z) : x ≤ z := by
  obtain ⟨a, b, hx, hy, hab⟩ := exists_place_of_atMost hxy
  obtain ⟨b', c, hy', hz, hbc⟩ := exists_place_of_atMost hyz
  cases hy.symm.trans hy'
  exact (atMost_iff hx hz).mpr (Int.le_trans hab hbc)

theorem less_of_atMost_of_less {x y z : Binary F} (hxy : x ≤ y) (hyz : y < z) : x < z := by
  obtain ⟨a, b, hx, hy, hab⟩ := exists_place_of_atMost hxy
  obtain ⟨b', c, hy', hz, hbc⟩ := exists_place_of_less hyz
  cases hy.symm.trans hy'
  exact (less_iff hx hz).mpr (Int.lt_of_le_of_lt hab hbc)

theorem less_of_less_of_atMost {x y z : Binary F} (hxy : x < y) (hyz : y ≤ z) : x < z := by
  obtain ⟨a, b, hx, hy, hab⟩ := exists_place_of_less hxy
  obtain ⟨b', c, hy', hz, hbc⟩ := exists_place_of_atMost hyz
  cases hy.symm.trans hy'
  exact (less_iff hx hz).mpr (Int.lt_of_lt_of_le hab hbc)

/-! ## Values on the upper side -/

theorem ofUnits_atMost (hu : F.Fits u) (hv : F.Fits v) (h : u ≤ v) :
    (ofUnits false u 1 : Binary F) ≤ ofUnits false v 1 := by
  rw [atMost_iff (place_ofUnits hu) (place_ofUnits hv)]
  omega

/-- The larger of two values, if the first is a number. -/
theorem larger_eq {x : Binary F} (hx : x ≠ nan) (y : Binary F) :
    x.larger y = if x < y then y else x := by
  have hnan : x.larger nan = x := by cases x <;> rfl
  cases y with
  | nan =>
    have hnot : ¬ x < nan := fun h => by
      obtain ⟨_, _, -, hy, -⟩ := exists_place_of_less h
      cases hy
    rw [if_neg hnot, hnan]
  | infinite | finite =>
    cases x with
    | nan => exact absurd rfl hx
    | infinite | finite => rfl

theorem larger_zero_ofUnits (hu : F.Fits u) :
    (ofUnits false u 1 : Binary F).larger 0 = ofUnits false u 1 := by
  have hnot : ¬ (ofUnits false u 1 : Binary F) < 0 := by
    rw [zero_eq, less_iff (place_ofUnits hu) rfl]
    omega
  rw [larger_eq (ofUnits_ne_nan _ _ _), if_neg hnot]

/-- In a format with room for them, a thousand is a thousand times one. -/
theorem exists_thousand_eq (hp : 10 ≤ F.precision) (htop : 10 + F.scale ≤ F.top) :
    ∃ h, (1000 : Binary F) = finite false (1000 * twoPow F.scale) h := by
  have hfew : 1000 < twoPow F.precision :=
    Nat.lt_of_lt_of_le (by decide : 1000 < twoPow 10) (twoPow_le hp)
  have hbelow : 1000 * twoPow F.scale < twoPow F.top :=
    calc 1000 * twoPow F.scale
      _ < twoPow 10 * twoPow F.scale := Nat.mul_lt_mul_of_pos_right (by decide) (twoPow_pos _)
      _ = twoPow (10 + F.scale) := (twoPow_add ..).symm
      _ ≤ twoPow F.top := twoPow_le htop
  refine ⟨⟨hbelow, 1000, _, hfew, rfl⟩, ?_⟩
  rw [ofNat_eq]
  exact ofUnits_of_representable false _

/-- A common factor makes no difference. -/
theorem ofUnits_mul (negative : Bool) {d : Nat} (hd : 0 < d) (n : Nat) :
    (ofUnits negative (n * d) d : Binary F) = ofUnits negative n 1 := by
  unfold ofUnits
  simp only [Format.round_mul hd]

/-- Multiplying by a thousand multiplies the units by a thousand. -/
theorem ofUnits_mul_thousand (hp : 10 ≤ F.precision) (htop : 10 + F.scale ≤ F.top)
    (hu : F.Fits u) : (ofUnits false u 1 * 1000 : Binary F) = ofUnits false (u * 1000) 1 := by
  obtain ⟨_, hthousand⟩ := exists_thousand_eq hp htop
  rw [hthousand]
  obtain hlt | hle := Nat.lt_or_ge u (twoPow F.top)
  · rw [ofUnits_of_representable false ⟨hlt, hu⟩]
    show (ofUnits false (u * (1000 * twoPow F.scale)) (twoPow F.scale) : Binary F) = _
    rw [← Nat.mul_assoc]
    exact ofUnits_mul false (twoPow_pos _) _
  · have hmore : u ≤ F.round (u * 1000) 1 :=
      Format.le_round hu (Nat.le_mul_of_pos_right u (by decide))
    rw [ofUnits_of_le false (by rw [hu.round_eq]; exact hle),
      ofUnits_of_le false (Nat.le_trans hle hmore)]
    show (if 1000 * twoPow F.scale = 0 then nan else infinite false : Binary F) = infinite false
    rw [if_neg (Nat.ne_of_gt (Nat.mul_pos (by decide) (twoPow_pos _)))]

/-- A value as a clock has it: not negative, and with the positive sign. -/
def Upper (x : Binary F) : Prop := ∃ u, F.Fits u ∧ x = ofUnits false u 1

theorem upper_ofUnits (u : Nat) : Upper (ofUnits false u 1 : Binary F) :=
  ⟨_, Format.fits_round u 1, (ofUnits_round false u).symm⟩

theorem upper_zero : Upper (0 : Binary F) := by
  rw [ofNat_eq]
  exact upper_ofUnits _

theorem upper_infinite : Upper (infinite false : Binary F) := by
  refine ⟨twoPow F.top, Format.fits_twoPow _, ?_⟩
  rw [ofUnits_of_le false (Nat.le_of_eq (Format.fits_twoPow _).round_eq.symm)]

theorem upper_atMost_infinite {x : Binary F} (hx : Upper x) : x ≤ infinite false := by
  obtain ⟨u, hu, rfl⟩ := hx
  rw [atMost_iff (place_ofUnits hu) rfl]
  show ((min u (twoPow F.top) : Nat) : Int) ≤ (twoPow F.top : Nat)
  omega

theorem upper_atMost_self {x : Binary F} (hx : Upper x) : x ≤ x := by
  obtain ⟨u, hu, rfl⟩ := hx
  exact ofUnits_atMost hu hu (Nat.le_refl u)

/-- Past the ceiling there is but one value. -/
theorem eq_or_le_of_atMost {u v : Nat} (hu : F.Fits u) (hv : F.Fits v)
    (h : (ofUnits false u 1 : Binary F) ≤ ofUnits false v 1) :
    (ofUnits false u 1 : Binary F) = ofUnits false v 1 ∨ u ≤ v := by
  rw [atMost_iff (place_ofUnits hu) (place_ofUnits hv)] at h
  obtain hle | hlt := Nat.lt_or_ge v u
  · refine .inl ?_
    rw [ofUnits_of_le false (by rw [hu.round_eq]; omega),
      ofUnits_of_le false (by rw [hv.round_eq]; omega)]
  · exact .inr hlt

theorem toNat_le {x : Binary F} {limit : Nat} : x.toNat limit ≤ limit := by
  unfold toNat
  split
  · exact Nat.zero_le _
  · split
    · exact Nat.zero_le _
    · exact Nat.le_refl _
  · split
    · exact Nat.zero_le _
    · exact Nat.min_le_left _ _

theorem toNat_ofUnits_mono (limit : Nat) (h : u ≤ v) :
    (ofUnits false u 1 : Binary F).toNat limit ≤ (ofUnits false v 1 : Binary F).toNat limit := by
  have hround : F.round u 1 ≤ F.round v 1 := Format.round_mono h
  obtain hlt | hle := Nat.lt_or_ge (F.round v 1) (twoPow F.top)
  · rw [ofUnits_of_lt false hlt, ofUnits_of_lt false (Nat.lt_of_le_of_lt hround hlt)]
    show min limit ((2 * F.round u 1 + _) / _) ≤ min limit ((2 * F.round v 1 + _) / _)
    have hdiv : (2 * F.round u 1 + twoPow F.scale) / twoPow (F.scale + 1)
        ≤ (2 * F.round v 1 + twoPow F.scale) / twoPow (F.scale + 1) :=
      Nat.div_le_div_right (by omega)
    omega
  · rw [ofUnits_of_le false hle]
    exact toNat_le

end Binary

namespace Journal

open Binary

variable {u v : Nat}

/-- Whatever the time, its milliseconds fit into 64 bits. -/
theorem lt_size (x : Double) : x.toNat latest < UInt64.size :=
  Nat.lt_of_le_of_lt toNat_le (by decide)

/-- **Later times are later milliseconds.** -/
theorem milliseconds_mono (hu : Format.double.Fits u) (hv : Format.double.Fits v) (h : u ≤ v) :
    milliseconds (ofUnits false u 1) ≤ milliseconds (ofUnits false v 1) := by
  have hmono := toNat_ofUnits_mono (F := Format.double) latest (Nat.mul_le_mul_right 1000 h)
  unfold milliseconds
  rw [larger_zero_ofUnits hu, larger_zero_ofUnits hv,
    ofUnits_mul_thousand (by decide) (by decide) hu,
    ofUnits_mul_thousand (by decide) (by decide) hv, UInt64.le_iff_toNat_le,
    UInt64.toNat_ofNat_of_lt' (lt_size _), UInt64.toNat_ofNat_of_lt' (lt_size _)]
  exact hmono

/-- The same by the order of the times themselves. -/
theorem milliseconds_le {x y : Double} (hx : Upper x) (hy : Upper y) (h : x ≤ y) :
    milliseconds x ≤ milliseconds y := by
  obtain ⟨u, hu, he⟩ := hx
  obtain ⟨v, hv, he'⟩ := hy
  rw [he, he'] at h ⊢
  obtain hsame | hle := eq_or_le_of_atMost hu hv h
  · rw [hsame]
    exact UInt64.le_refl _
  · exact milliseconds_mono hu hv hle

theorem milliseconds_nan : milliseconds .nan = milliseconds (ofUnits false 0 1) := by
  have hzero : (ofUnits false 0 1 : Double) = 0 := by rw [ofNat_eq, Nat.zero_mul]
  have hfits : Format.double.Fits 0 := Format.double.representable_zero.2
  have hlarger := larger_zero_ofUnits hfits
  unfold milliseconds
  rw [hlarger, hzero]
  rfl

end Journal

/-! ## Sums of frames -/

namespace Binary

open Journal (milliseconds milliseconds_mono)

variable {x y : Double} {u : Nat} {seconds : Single}

/-- What is added is finite, and no less than zero. -/
theorem ofUnits_add_sound {u v : Nat} {s : Bool} (hu : F.Fits u) (hv : F.Representable v)
    (hs : s = true → v = 0) :
    (ofUnits false u 1 + finite s v hv : Binary F) = ofUnits false (u + v) 1 := by
  cases s with
  | false => exact ofUnits_add hu hv
  | true =>
    obtain rfl := hs rfl
    rw [Nat.add_zero]
    obtain hlt | hle := Nat.lt_or_ge u (twoPow F.top)
    · have hsign : decide ((u : Int) + -((0 : Nat) : Int) < 0) = false := decide_eq_false (by omega)
      have habs : ((u : Int) + -((0 : Nat) : Int)).natAbs = u := by omega
      rw [ofUnits_of_representable false ⟨hlt, hu⟩]
      show (if (u : Int) + -((0 : Nat) : Int) = 0 then zero (false && true)
        else ofSignedUnits ((u : Int) + -((0 : Nat) : Int))) = _
      split
      next hzero =>
        obtain rfl : u = 0 := by omega
        rfl
      · rw [ofSignedUnits, hsign, habs]
        exact ofUnits_of_representable false ⟨hlt, hu⟩
    · rw [ofUnits_of_le false (by rw [hu.round_eq]; exact hle)]
      rfl

/-- What is taken away is finite, no less than zero, and no more than there
is. -/
theorem finite_sub_sound {u v : Nat} {s : Bool} (hu : F.Representable u)
    (hv : F.Representable v) (hs : s = true → v = 0) (h : v ≤ u) :
    (finite false u hu - finite s v hv : Binary F) = ofUnits false (u - v) 1 := by
  have hsigned : signed (!s) v = -(v : Int) := by
    cases s with
    | false => rfl
    | true =>
      rw [hs rfl]
      rfl
  show (if (u : Int) + signed (!s) v = 0 then zero (false && !s)
    else ofSignedUnits ((u : Int) + signed (!s) v)) = _
  rw [hsigned]
  have hsign : decide ((u : Int) + -(v : Int) < 0) = false := decide_eq_false (by omega)
  have habs : ((u : Int) + -(v : Int)).natAbs = u - v := by omega
  split
  next hzero =>
    rw [show u - v = 0 by omega]
    exact (ofUnits_of_representable false F.representable_zero).symm
  · rw [ofSignedUnits, hsign, habs]

theorem larger_zero_infinite : (infinite true : Binary F).larger 0 = 0
    ∧ (infinite false : Binary F).larger 0 = infinite false := by
  constructor
  · have hless : (infinite true : Binary F) < finite false 0 F.representable_zero := by
      rw [less_iff rfl rfl]
      have hpos := twoPow_pos F.top
      show -(twoPow F.top : Int) < (0 : Nat)
      omega
    rw [zero_eq]
    exact if_pos hless
  · obtain ⟨u, hu, he⟩ := upper_infinite (F := F)
    rw [he, larger_zero_ofUnits hu]

/-- **What a frame adds:** a finite amount that is no less than zero, or an
infinite one. -/
theorem larger_zero_cases (seconds : Single) :
    (seconds.larger 0).Sound ∨ seconds.larger 0 = infinite false := by
  cases seconds with
  | nan => exact .inl sound_zero
  | infinite negative =>
    cases negative with
    | true =>
      rw [larger_zero_infinite.1]
      exact .inl sound_zero
    | false => exact .inr larger_zero_infinite.2
  | finite s u hu => exact .inl (sound_larger_zero rfl)

theorem infinite_sub_finite {s t : Bool} {v : Nat} (hv : F.Representable v) :
    (infinite s - finite t v hv : Binary F) = infinite s := rfl

theorem infinite_sub_infinite (s : Bool) : (infinite s - infinite s : Binary F) = nan := by
  cases s <;> rfl

theorem upper_add_infinite {x : Binary F} (hx : Upper x) :
    x + infinite false = infinite false := by
  obtain ⟨u, hu, rfl⟩ := hx
  obtain hlt | hle := Nat.lt_or_ge u (twoPow F.top)
  · rw [ofUnits_of_representable false ⟨hlt, hu⟩]
    rfl
  · rw [ofUnits_of_le false (by rw [hu.round_eq]; exact hle)]
    rfl

end Binary

/-- The time found for the beginning of a frame, from the time of the clock
before it. -/
def frameStart (clock : Double) (seconds : Single) : Double :=
  clock + (seconds.larger 0).convert - (seconds.larger 0).convert

open Binary Journal

section Frame

variable {clock : Double} {seconds : Single} {s : Bool} {u w : Nat}
  {hw : Format.single.Representable w}

/-- A finite amount is added, and the sum rounded. -/
theorem add_of_sound (hu : Format.double.Fits u) (he : seconds.larger 0 = finite s w hw)
    (hs : s = true → w = 0) :
    (ofUnits false u 1 + (seconds.larger 0).convert : Double)
      = ofUnits false (u + w * widening) 1 := by
  rw [he, convert_finite]
  exact ofUnits_add_sound hu _ fun h => by rw [hs h, Nat.zero_mul]

/-- It is no more than the sum, and what is left of a finite sum without it is
rounded again. -/
theorem frameStart_of_sound (hu : Format.double.Fits u) (he : seconds.larger 0 = finite s w hw)
    (hs : s = true → w = 0)
    (hlt : Format.double.round (u + w * widening) 1 < twoPow Format.double.top) :
    w * widening ≤ Format.double.round (u + w * widening) 1
      ∧ frameStart (ofUnits false u 1) seconds
        = ofUnits false (Format.double.round (u + w * widening) 1 - w * widening) 1 := by
  have hle : w * widening ≤ Format.double.round (u + w * widening) 1 :=
    Format.le_round (representable_widen hw).2 (Nat.le_add_left _ _)
  refine ⟨hle, ?_⟩
  rw [frameStart, add_of_sound hu he hs, ofUnits_of_lt false hlt, he, convert_finite]
  exact finite_sub_sound _ _ (fun h => by rw [hs h, Nat.zero_mul]) hle

/-- Of an infinite sum everything is left. -/
theorem frameStart_of_overflow (hu : Format.double.Fits u)
    (he : seconds.larger 0 = finite s w hw) (hs : s = true → w = 0)
    (hle : twoPow Format.double.top ≤ Format.double.round (u + w * widening) 1) :
    frameStart (ofUnits false u 1) seconds = infinite false := by
  rw [frameStart, add_of_sound hu he hs, ofUnits_of_le false hle, he, convert_finite]
  exact infinite_sub_finite _

/-- An infinite amount leaves nothing that is a number. -/
theorem frameStart_of_infinite (hclock : Upper clock) (he : seconds.larger 0 = infinite false) :
    clock + (seconds.larger 0).convert = infinite false ∧ frameStart clock seconds = nan := by
  have hconvert : ((infinite false : Single).convert : Double) = infinite false := rfl
  rw [frameStart, he, hconvert, upper_add_infinite hclock]
  exact ⟨rfl, infinite_sub_infinite false⟩

/-- **The clock does not go back,** and what is found for the beginning of a
frame is not past its end. -/
theorem frame_spec (seconds : Single) (hclock : Upper clock) :
    Upper (clock + (seconds.larger 0).convert) ∧ clock ≤ clock + (seconds.larger 0).convert
      ∧ milliseconds (frameStart clock seconds)
        ≤ milliseconds (clock + (seconds.larger 0).convert) := by
  obtain ⟨s, w, hw, he, hs⟩ | he := larger_zero_cases seconds
  · obtain ⟨u, hu, hc⟩ := hclock
    have hround := Format.fits_round (F := Format.double) (u + w * widening) 1
    have hsum := ofUnits_round (F := Format.double) false (u + w * widening)
    rw [hc, add_of_sound hu he hs]
    refine ⟨upper_ofUnits _, ?_, ?_⟩
    · rw [← hsum]
      exact ofUnits_atMost hu hround (Format.le_round hu (Nat.le_add_right _ _))
    · obtain hlt | hle := Nat.lt_or_ge (Format.double.round (u + w * widening) 1)
        (twoPow Format.double.top)
      · rw [(frameStart_of_sound hu he hs hlt).2, ← ofUnits_round, ← hsum]
        exact milliseconds_mono (Format.fits_round _ _) hround
          (Format.round_le hround (Nat.sub_le _ _))
      · rw [frameStart_of_overflow hu he hs hle, ofUnits_of_le false hle]
        exact UInt64.le_refl _
  · obtain ⟨hsum, hstart⟩ := frameStart_of_infinite hclock he
    rw [hsum, hstart, milliseconds_nan]
    refine ⟨upper_infinite, upper_atMost_infinite hclock, ?_⟩
    obtain ⟨v, hv, hinfinite⟩ := upper_infinite (F := Format.double)
    rw [hinfinite]
    exact milliseconds_mono Format.double.representable_zero.2 hv (Nat.zero_le v)

/-- Without any time left there is nothing to take away. -/
theorem sub_convert_zero (hclock : Upper clock) : clock - (0 : Single).convert = clock := by
  obtain ⟨u, hu, hc⟩ := hclock
  rw [hc, convert_zero, zero_eq]
  obtain hlt | hle := Nat.lt_or_ge u (twoPow Format.double.top)
  · have hrep : Format.double.Representable u := ⟨hlt, hu⟩
    have hsub := finite_sub_sound (s := false) hrep Format.double.representable_zero
      (fun _ => rfl) (Nat.zero_le u)
    rw [ofUnits_of_representable false hrep, hsub]
    exact ofUnits_of_representable false hrep
  · rw [ofUnits_of_le false (by rw [hu.round_eq]; exact hle)]
    exact infinite_sub_finite _

/-! ## Exact sums -/

/-- **No shorter than** `twoPow 14` **to a second,** unless it is no time at
all. -/
def Coarse (seconds : Single) : Prop := ¬ (0 < seconds ∧ seconds < .ofRatio false 1 (twoPow 14))

instance (seconds : Single) : Decidable (Coarse seconds) :=
  inferInstanceAs (Decidable (¬ (0 < seconds ∧ seconds < .ofRatio false 1 (twoPow 14))))

/-- The units of double precision in the last digit of the coarse amounts. -/
def grain : Nat := twoPow (Format.double.scale - 37)

/-- **A clock that only coarse amounts have moved,** below `twoPow 16`
seconds. -/
def OnGrid (clock : Double) : Prop :=
  ∃ k, k < twoPow 53 ∧ clock = ofUnits false (k * grain) 1

theorem fits_grain {k : Nat} (hk : k < twoPow 53) : Format.double.Fits (k * grain) :=
  ⟨k, _, hk, rfl⟩

theorem onGrid_zero : OnGrid 0 := by
  refine ⟨0, twoPow_pos _, ?_⟩
  rw [ofNat_eq, Nat.zero_mul, Nat.zero_mul]

theorem grain_eq : grain = twoPow 112 * widening := by
  rw [grain, widening, ← twoPow_add]
  exact congrArg twoPow (by decide)

theorem place_coarse :
    (ofRatio false 1 (twoPow 14) : Single).place?
      = some (min (twoPow 135) (twoPow Format.single.top) : Nat) := by
  have hsplit : 1 * twoPow Format.single.scale = twoPow 135 * twoPow 14 := by
    rw [Nat.one_mul, ← twoPow_add]
    exact congrArg twoPow (by decide)
  rw [ofRatio, hsplit, ofUnits_mul false (twoPow_pos _)]
  exact place_ofUnits (Format.fits_twoPow _)

/-- A number of so many units ends with so many zeros. -/
theorem exists_eq_mul_twoPow (hw : Format.single.Representable w) (h : twoPow 135 ≤ w) :
    ∃ m, w = m * twoPow 112 := by
  obtain ⟨-, m, e, hm, rfl⟩ := hw
  have he : 112 ≤ e := by
    refine Classical.byContradiction fun hne => ?_
    have hlt : m * twoPow e < twoPow 135 :=
      calc m * twoPow e
        _ < twoPow 24 * twoPow e := Nat.mul_lt_mul_of_pos_right hm (twoPow_pos e)
        _ = twoPow (24 + e) := (twoPow_add ..).symm
        _ ≤ twoPow 135 := twoPow_le (by omega)
    omega
  refine ⟨m * twoPow (e - 112), ?_⟩
  rw [Nat.mul_assoc, ← twoPow_add, Nat.sub_add_cancel he]

/-- A coarse amount ends with its grain. -/
theorem exists_grain (hcoarse : Coarse seconds) (he : seconds.larger 0 = finite s w hw)
    (hs : s = true → w = 0) : ∃ m, w * widening = m * grain := by
  obtain rfl | hpos := Nat.eq_zero_or_pos w
  · exact ⟨0, by rw [Nat.zero_mul, Nat.zero_mul]⟩
  · obtain rfl : s = false := by
      cases s with
      | false => rfl
      | true => exact absurd (hs rfl) (Nat.ne_of_gt hpos)
    have hseconds : seconds = finite false w hw := by
      obtain h | h := larger_eq_or seconds 0
      · exact h.symm.trans he
      · rw [h, zero_eq] at he
        cases he
        cases hpos
    have hlow : twoPow 135 ≤ w := by
      have hup : (0 : Single) < seconds := by
        rw [hseconds, less_iff place_zero rfl]
        show (0 : Int) < w
        omega
      have hnot : ¬ seconds < ofRatio false 1 (twoPow 14) := fun h => hcoarse ⟨hup, h⟩
      rw [hseconds, less_iff rfl place_coarse] at hnot
      have hnot' : ¬ (w : Int) < (min (twoPow 135) (twoPow Format.single.top) : Nat) := hnot
      have htop := hw.1
      omega
    obtain ⟨m, hm⟩ := exists_eq_mul_twoPow hw hlow
    exact ⟨m, by rw [hm, grain_eq, Nat.mul_assoc]⟩

theorem bound_eq : 65536 * twoPow Format.double.scale = twoPow 53 * grain := by
  rw [show 65536 = twoPow 16 from rfl, grain, ← twoPow_add, ← twoPow_add]
  exact congrArg twoPow (by decide)

theorem ofNat_bound : (65536 : Double) = ofUnits false (twoPow 53 * grain) 1 := by
  rw [← bound_eq]
  exact ofNat_eq 65536

theorem fits_bound : Format.double.Fits (twoPow 53 * grain) := by
  rw [grain, ← twoPow_add]
  exact Format.fits_twoPow _

theorem lt_top_of_lt {k : Nat} (hk : k < twoPow 53) : k * grain < twoPow Format.double.top := by
  have hle : twoPow (53 + (Format.double.scale - 37)) ≤ twoPow Format.double.top :=
    twoPow_le (by decide)
  refine Nat.lt_of_lt_of_le ?_ hle
  rw [grain, twoPow_add]
  exact Nat.mul_lt_mul_of_pos_right hk (twoPow_pos _)

/-- A number is below the bound if what it is rounded to is. -/
theorem lt_of_less_bound {k : Nat} (h : (ofUnits false (k * grain) 1 : Double) < 65536) :
    k < twoPow 53 := by
  refine Classical.byContradiction fun hk => ?_
  have hle : twoPow 53 * grain ≤ Format.double.round (k * grain) 1 :=
    Format.le_round fits_bound (Nat.mul_le_mul_right _ (Nat.le_of_not_lt hk))
  rw [ofNat_bound, ← ofUnits_round,
    less_iff (place_ofUnits (Format.fits_round _ _)) (place_ofUnits fits_bound)] at h
  omega

/-- Where the sum is below the bound, it is exact, and the time before is
found again. -/
theorem onGrid_frame (hclock : OnGrid clock) (hcoarse : Coarse seconds)
    (hlt : clock + (seconds.larger 0).convert < 65536) :
    OnGrid (clock + (seconds.larger 0).convert) ∧ frameStart clock seconds = clock := by
  obtain ⟨k, hk, hc⟩ := hclock
  obtain ⟨s, w, hw, he, hs⟩ | he := larger_zero_cases seconds
  · obtain ⟨m, hm⟩ := exists_grain hcoarse he hs
    have hsum := add_of_sound (fits_grain hk) he hs
    rw [hm, ← Nat.add_mul] at hsum
    rw [hc, hsum] at hlt ⊢
    have hkm := lt_of_less_bound hlt
    have hround : Format.double.round (k * grain + w * widening) 1 = (k + m) * grain := by
      rw [hm, ← Nat.add_mul]
      exact (fits_grain hkm).round_eq
    obtain ⟨-, hstart⟩ := frameStart_of_sound (fits_grain hk) he hs (by
      rw [hround]
      exact lt_top_of_lt hkm)
    refine ⟨⟨_, hkm, rfl⟩, ?_⟩
    rw [hstart, hround, hm, ← Nat.sub_mul, Nat.add_sub_cancel]
  · have hinfinite := (frameStart_of_infinite ⟨_, fits_grain hk, hc⟩ he).1
    rw [hinfinite, ofNat_bound, less_iff rfl (place_ofUnits fits_bound)] at hlt
    have hlt' : (twoPow Format.double.top : Int)
        < (min (twoPow 53 * grain) (twoPow Format.double.top) : Nat) := hlt
    omega

end Frame

end Tabletop
