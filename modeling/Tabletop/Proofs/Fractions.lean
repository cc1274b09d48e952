import Tabletop.Proofs.Clock
import Tabletop.Proofs.Commitment

/-!
# Fractions of a motion

How much of a motion has been played is a quotient of two times, brought between
zero and one. Bringing it there leaves what is not a number as it is, so that the
part played is a fraction at all hangs on the two times: the whole time must be
finite and more than nothing where it is divided by, and the time played must be
a number. Both are kept by whatever is done with a robot, with any times asked
for and any amounts played (`Motion.Sound`): times are made sound each time a
motion is begun, and amounts each time one is played.

A quotient brought between zero and one is finite, and rounding it to single
precision leaves it where it is, because one is among the numbers that rounding
never passes (`Binary.Part`). `Robot.keeps_fractions` is what comes of this for
the robot.
-/

namespace Tabletop

namespace Format

variable {F : Format} {n d u : Nat}

theorem nearestEven_le {k : Nat} (hd : 0 < d) (h : n ≤ k * d) : nearestEven n d ≤ k := by
  obtain hlt | rfl := Nat.lt_or_eq_of_le h
  · have hdiv : n / d < k := Nat.div_lt_of_lt_mul (by rwa [Nat.mul_comm])
    exact Nat.le_trans (nearestEven_le_succ _ _) hdiv
  · have hmod : 2 * (k * d % d) < d := by rwa [Nat.mul_mod_left]
    exact Nat.le_of_eq ((nearestEven_eq_div hmod).trans (Nat.mul_div_cancel k hd))

/-- **Rounding a quotient** does not go above a number that fits. -/
theorem round_le_of_le_mul (hu : F.Fits u) (hd : 0 < d) (h : n ≤ u * d) : F.round n d ≤ u := by
  obtain ⟨k, hk⟩ | ⟨hpos, hlt⟩ := hu.dvd_or_lt (n / d)
  · rw [hk, Nat.mul_comm _ k, round]
    refine Nat.mul_le_mul_right _ (nearestEven_le (Nat.mul_pos hd unitAt_pos) ?_)
    calc n ≤ u * d := h
      _ = k * (d * F.unitAt (n / d)) := by rw [hk]; ac_rfl
  · -- The quotient has the digit that `u` is below.
    have hhigh : twoPow (n / d).log2 ≤ n / d := Nat.log2_self_le (pos_of_excess_pos hpos)
    have hdiv : n / d ≤ u := Nat.div_le_of_le_mul (by rwa [Nat.mul_comm])
    omega

/-- One is below the ceiling of every format. -/
theorem scale_lt_top (F : Format) : F.scale < F.top := by
  obtain ⟨e, he⟩ := Nat.exists_eq_add_of_le F.two_le_exponentBits
  have hpos := twoPow_pos e
  have hhalf : twoPow (F.exponentBits - 1) = 2 * twoPow e := by
    rw [he, ← twoPow_succ]
    congr 1
    omega
  have hwhole : twoPow F.exponentBits = 4 * twoPow e := by
    rw [he, twoPow_add]
    rfl
  rw [scale, top, hhalf, hwhole]
  omega

theorem representable_one (F : Format) : F.Representable (twoPow F.scale) :=
  ⟨twoPow_lt F.scale_lt_top, fits_twoPow _⟩

end Format

namespace Binary

variable {F : Format} {x y : Binary F}

theorem one_eq : (1 : Binary F) = finite false (twoPow F.scale) F.representable_one := by
  rw [ofNat_eq 1, Nat.one_mul]
  exact ofUnits_of_representable false F.representable_one

theorem less_of_not_atMost {a b : Int} (hx : x.place? = some a) (hy : y.place? = some b)
    (h : ¬ x ≤ y) : y < x := by
  rw [less_iff hy hx]
  rw [atMost_iff hx hy] at h
  omega

/-! ## Values from zero up -/

theorem Upper.ne_nan (hx : Upper x) : x ≠ nan := by
  obtain ⟨u, -, rfl⟩ := hx
  exact ofUnits_ne_nan _ _ _

theorem Upper.zero_atMost (hx : Upper x) : 0 ≤ x := by
  obtain ⟨u, hu, rfl⟩ := hx
  rw [zero_eq, atMost_iff rfl (place_ofUnits hu)]
  exact Int.natCast_nonneg _

theorem upper_ofNat (n : Nat) : Upper (OfNat.ofNat n : Binary F) := by
  rw [ofNat_eq]
  exact upper_ofUnits _

/-- A rounded quotient of magnitudes is no less than zero. -/
theorem upper_quotient (n d : Nat) : Upper (ofUnits false n d : Binary F) := by
  refine ⟨F.round n d, Format.fits_round n d, ?_⟩
  unfold ofUnits
  simp only [(F.fits_round n d).round_eq]

theorem upper_div (hx : Upper x) (hy : y.Positive) : Upper (x / y) := by
  obtain ⟨u, hu, rfl⟩ := hx
  obtain ⟨v, hv, rfl, hpos⟩ := hy
  obtain hlt | hle := Nat.lt_or_ge u (twoPow F.top)
  · rw [ofUnits_of_representable false ⟨hlt, hu⟩]
    show Upper (if v = 0 then _ else ofUnits false (u * twoPow F.scale) v)
    rw [if_neg (Nat.ne_of_gt hpos)]
    exact upper_quotient _ _
  · rw [ofUnits_of_le false (by rwa [hu.round_eq])]
    exact upper_infinite

theorem Sound.finite_nonneg (hx : x.Sound) : x.isFinite = true ∧ 0 ≤ x := by
  obtain ⟨s, u, hu, rfl, hzero⟩ := hx
  refine ⟨rfl, ?_⟩
  rw [zero_eq, atMost_iff rfl rfl]
  cases s with
  | false => exact Int.natCast_nonneg _
  | true =>
    rw [hzero rfl]
    exact Int.le_refl 0

/-- More than nothing is not minus nothing. -/
theorem Sound.positive (hx : x.Sound) (h : ¬ x ≤ 0) : x.Positive := by
  obtain ⟨s, u, hu, rfl, hzero⟩ := hx
  rw [zero_eq, atMost_iff rfl rfl] at h
  cases s with
  | false =>
    have hpos : ¬ (u : Int) ≤ (0 : Nat) := h
    exact ⟨u, hu, rfl, by omega⟩
  | true => exact absurd (by rw [hzero rfl]; exact Int.le_refl 0) h

/-- More than nothing is more than nothing in double precision. -/
theorem Positive.convert {x : Single} (hx : x.Positive) : (x.convert : Double).Positive := by
  obtain ⟨u, hu, rfl, hpos⟩ := hx
  exact ⟨u * widening, _, convert_finite false hu, Nat.mul_pos hpos widening_pos⟩

/-! ## Parts of one -/

/-- **A part of one:** finite, no less than zero and no more than one. -/
def Part (x : Binary F) : Prop := ∃ u h, x = finite false u h ∧ u ≤ twoPow F.scale

theorem part_one : Part (1 : Binary F) := ⟨_, _, one_eq, Nat.le_refl _⟩

theorem Part.spec (hx : Part x) : x ≠ nan ∧ 0 ≤ x ∧ x ≤ 1 := by
  obtain ⟨u, hu, rfl, hle⟩ := hx
  refine ⟨?_, ?_, ?_⟩
  · intro h
    cases h
  · rw [zero_eq, atMost_iff rfl rfl]
    exact Int.natCast_nonneg _
  · rw [one_eq, atMost_iff rfl rfl]
    exact Int.ofNat_le.mpr hle

/-- What is brought between zero and one is a part of one if it is a number from
zero up. -/
theorem part_clamp (hx : Upper x) : Part (clamp 0 1 x) := by
  have hnot : ¬ x < 0 := by
    obtain ⟨u, hu, rfl⟩ := hx
    rw [zero_eq, less_iff (place_ofUnits hu) rfl]
    exact Int.not_lt.mpr (Int.natCast_nonneg _)
  rw [clamp, if_neg hnot]
  split
  · exact part_one
  next hmore =>
    obtain ⟨u, hu, rfl⟩ := hx
    have htop := twoPow_lt F.scale_lt_top
    rw [one_eq, less_iff rfl (place_ofUnits hu)] at hmore
    have hless : ¬ (twoPow F.scale : Int) < (min u (twoPow F.top) : Nat) := hmore
    have hle : u ≤ twoPow F.scale := by omega
    have hrep : F.Representable u := ⟨Nat.lt_of_le_of_lt hle htop, hu⟩
    exact ⟨u, hrep, ofUnits_of_representable false hrep, hle⟩

/-- A part of one that is rounded to single precision is still one. -/
theorem Part.convert {x : Double} (hx : Part x) : Part (x.convert : Single) := by
  obtain ⟨u, hu, rfl, hle⟩ := hx
  have hround : Format.single.round (u * twoPow (Format.single.scale - Format.double.scale))
      (twoPow (Format.double.scale - Format.single.scale)) ≤ twoPow Format.single.scale := by
    refine Format.round_le_of_le_mul (Format.fits_twoPow _) (twoPow_pos _) ?_
    rw [show Format.single.scale - Format.double.scale = 0 by decide, twoPow_zero, Nat.mul_one,
      ← twoPow_add]
    exact Nat.le_trans hle (twoPow_le (by decide))
  have htop := Nat.lt_of_le_of_lt hround (twoPow_lt Format.single.scale_lt_top)
  exact ⟨_, _, ofUnits_of_lt false htop, hround⟩

end Binary

/-! ## The times of a motion -/

namespace Motion

variable {m : Motion}

/-- **A motion's times are sound:** it takes a finite time, no less than none, and
the time played is a number that is no less than none. -/
structure Sound (m : Motion) : Prop where
  /-- What it takes in all. -/
  duration : m.duration.Sound
  /-- What has been played. -/
  elapsed : Binary.Upper m.elapsed

theorem sound_along (path : Path) (duration : Single) : (along path duration).Sound where
  duration := sound_soundDuration duration
  elapsed := Binary.upper_zero

theorem Sound.play (h : m.Sound) (seconds : Single) : (m.play seconds).Sound where
  duration := h.duration
  elapsed := (frame_spec seconds h.elapsed).1

/-- A motion whose time is not over has played less than it takes. -/
theorem Sound.elapsed_less (h : m.Sound) (hover : m.isOver = false) :
    m.elapsed < m.duration.convert := by
  obtain ⟨u, hu, he⟩ := h.elapsed
  refine Binary.less_of_not_atMost (place_convert h.duration).1
    (by rw [he]; exact Binary.place_ofUnits hu) ?_
  exact Bool.eq_false_iff.mp hover

/-- **The part played is a part of one.** -/
theorem Sound.part_progress (h : m.Sound) : Binary.Part m.progress := by
  rw [progress]
  split
  · exact Binary.part_one
  next hpos =>
    have hduration := (h.duration.positive hpos).convert
    exact (Binary.part_clamp (Binary.upper_div h.elapsed hduration)).convert

end Motion

namespace Robot

variable {r : Robot} {action : Action}

/-- The times of the robot's motion are sound, if it has one. -/
def SoundMotion (r : Robot) : Prop := ∀ motion, r.motion = some motion → motion.Sound

theorem soundMotion_of_rest (hm : r.motion = none) : r.SoundMotion := by
  intro motion h
  cases hm.symm.trans h

theorem SoundMotion.comesTo (h : r.SoundMotion) {next : Robot × Reply}
    (hn : r.ComesTo action next) : next.1.SoundMotion := by
  cases hn with
  | placed => exact soundMotion_of_rest rfl
  | unplaced => exact h
  | busy => exact h
  | begun =>
    intro motion hm
    cases hm
    exact Motion.sound_along _ _
  | idle => exact h
  | playing seconds hm =>
    intro motion hm'
    cases hm'
    exact (h _ hm).play seconds
  | arrived => exact soundMotion_of_rest (settle_motion _)
  | halted => exact soundMotion_of_rest rfl
  | turnTimed => exact h
  | stepTimed => exact h

theorem SoundMotion.actAll (h : r.SoundMotion) (actions : List Action) :
    (r.actAll actions).1.SoundMotion :=
  keep_actAll (P := SoundMotion) (fun h hn => h.comesTo hn) h actions

theorem SoundMotion.part_progress (h : r.SoundMotion) : Binary.Part r.progress := by
  rw [progress]
  split
  · exact Binary.part_one
  next motion hm => exact (h motion hm).part_progress

/-- A motion that goes on is not over. -/
theorem goesOn_of_advance {r' : Robot} {seconds : Single} (h : r.advance seconds = (r', false)) :
    ∃ motion, r.motion = some motion ∧ r'.motion = some (motion.play seconds)
      ∧ (motion.play seconds).isOver = false := by
  unfold advance at h
  split at h
  next => cases h
  next motion hm =>
    dsimp only at h
    split at h
    · cases h
    next hover =>
      cases h
      exact ⟨motion, hm, rfl, Bool.eq_false_iff.mpr hover⟩

/-- **The part of a motion that has been played is a fraction.** -/
structure Fractional (r : Robot) : Prop where
  /-- What a motion takes is finite and not negative. -/
  duration : ∀ motion, r.motion = some motion →
    motion.duration.isFinite = true ∧ 0 ≤ motion.duration
  /-- What has been played of it is a number and not negative. -/
  elapsed : ∀ motion, r.motion = some motion → motion.elapsed ≠ .nan ∧ 0 ≤ motion.elapsed
  /-- When it has been played for a while and is not over, it has been played for
  less than it takes. -/
  goesOn : ∀ seconds r', r.advance seconds = (r', false) →
    ∃ motion, r'.motion = some motion ∧ motion.elapsed < motion.duration.convert
  /-- The part played is a number between zero and one. -/
  progress : r.progress ≠ .nan ∧ 0 ≤ r.progress ∧ r.progress ≤ 1

theorem SoundMotion.fractional (h : r.SoundMotion) : r.Fractional where
  duration motion hm := (h motion hm).duration.finite_nonneg
  elapsed motion hm := ⟨(h motion hm).elapsed.ne_nan, (h motion hm).elapsed.zero_atMost⟩
  goesOn seconds r' ha := by
    obtain ⟨motion, hm, hm', hover⟩ := goesOn_of_advance ha
    exact ⟨_, hm', ((h motion hm).play seconds).elapsed_less hover⟩
  progress := h.part_progress.spec

/-- **Fractions are kept** by all that can be done with a robot, whatever times it
is told to take and whatever amounts are played. -/
theorem keeps_fractions (h : r.Made) (actions : List Action) :
    (r.actAll actions).1.Fractional :=
  ((soundMotion_of_rest h.rests).actAll actions).fractional

/-- A robot is asked to take times that are no numbers, or infinite, or negative,
and its turn is played for amounts of the same kinds; half of it is played after
all. -/
theorem keeps_fractions_of_odd_times :
    let actions : List Action :=
      [.place ⟨7, 3, 0, 0, 0⟩ .north, .setTurnDuration (.infinite false), .left, .advance .nan,
        .advance (-5), .setTurnDuration (-1), .advance (.infinite true), .advance (1 / 2)]
    let run := (Robot.new .nan (-2)).actAll actions
    (Robot.new .nan (-2)).Made ∧ run.1.motion.isSome = true ∧ run.1.progress = 1 / 2
      ∧ run.1.Fractional := by
  intro actions run
  exact ⟨.new _ _, by decide +kernel, by decide +kernel, keeps_fractions (.new _ _) actions⟩

end Robot

end Tabletop
