import Tabletop.Proofs.Rounding
import Tabletop.Proofs.Timing

/-!
# What equal frames add up to

In a run all frames are equal, so the time played of a motion is a rounded
sum of equal amounts. The sum goes up frame by frame until a frame is so short
beside it that it is rounded away; from then on the sum stays what it is. A
duration is **attained** by a frame (`Attains`) if it is reached before that.

Where the sum stops depends on the digits of the frame, but not by much:
`attains_of_le` says that every duration of less than `twoPow 52` frames is
attained, and `not_attains_of_lt` that none of more than `twoPow 54` frames is.
-/

namespace Tabletop

/-- Frame by frame, a motion that has played no time yet gets all its time. -/
def Attains (frame duration : Single) : Prop := ∃ n, AllPlayed duration 0 (fun _ => frame) n

/-! ## Sums of equal amounts -/

/-- The rounded sum of so many equal amounts, in units. -/
def climb (v : Nat) : Nat → Nat
  | 0 => 0
  | n + 1 => Format.double.round (climb v n + v) 1

section Climb

variable {u v : Nat}

theorem fits_climb (v n : Nat) : Format.double.Fits (climb v n) := by
  cases n with
  | zero => exact Format.double.representable_zero.2
  | succ n => exact Format.fits_round _ _

theorem climb_le_succ (v n : Nat) : climb v n ≤ climb v (n + 1) :=
  Format.le_round (fits_climb v n) (Nat.le_add_right _ _)

theorem climb_le_add (v n k : Nat) : climb v n ≤ climb v (n + k) := by
  induction k with
  | zero => exact Nat.le_refl _
  | succ k ih => exact Nat.le_trans ih (climb_le_succ v (n + k))

/-- **A sum that stays for one frame stays for ever.** -/
theorem climb_of_stuck {n : Nat} (h : climb v (n + 1) = climb v n) (k : Nat) :
    climb v (n + k) = climb v n := by
  induction k with
  | zero => rfl
  | succ k ih =>
    show Format.double.round (climb v (n + k) + v) 1 = _
    rw [ih]
    exact h

/-- As long as it is below a number that it reaches, the sum goes up. -/
theorem climb_lt_succ {m n : Nat} (hm : u ≤ climb v m) (hn : climb v n < u) :
    climb v n < climb v (n + 1) := by
  refine Nat.lt_of_le_of_ne (climb_le_succ v n) fun hstuck => ?_
  obtain hle | hle := Nat.le_total n m
  · obtain ⟨k, rfl⟩ := Nat.exists_eq_add_of_le hle
    rw [climb_of_stuck hstuck.symm k] at hm
    omega
  · obtain ⟨k, rfl⟩ := Nat.exists_eq_add_of_le hle
    have hmono := climb_le_add v m k
    omega

/-- Below so many times the amount, adding it shows. -/
theorem exists_le_climb (hv : 0 < v) (h : u + v ≤ twoPow 52 * v) : ∃ n, u ≤ climb v n := by
  have hgrows : ∀ n, u ≤ climb v n ∨ n ≤ climb v n := by
    intro n
    induction n with
    | zero => exact .inr (Nat.zero_le _)
    | succ n ih =>
      by_cases hu : u ≤ climb v n
      · exact .inl (Nat.le_trans hu (climb_le_succ v n))
      · have hn := ih.resolve_left hu
        have hunit : Format.double.unitAt (climb v n + v) ≤ v :=
          Format.unitAt_le hv (Nat.le_trans (by omega) h)
        exact .inr (Nat.lt_of_le_of_lt hn (Format.lt_round_add hunit))
  exact ⟨u, (hgrows u).elim id id⟩

/-- Past so many times the amount, adding it does not show. -/
theorem climb_lt (hv : 0 < v) (h : twoPow 54 * v < u) (n : Nat) : climb v n < u := by
  -- The power of two at which the sum stops at the latest.
  have hstop : twoPow (v.log2 + 54) ≤ twoPow 54 * v := by
    rw [Nat.add_comm, twoPow_add]
    exact Nat.mul_le_mul_left _ (Nat.log2_self_le (Nat.ne_of_gt hv))
  have hsmall : 2 * v < twoPow (v.log2 + 54 + 1 - Format.double.precision) := by
    have hexp : v.log2 + 54 + 1 - Format.double.precision = v.log2 + 1 + 1 := by
      show v.log2 + 54 + 1 - 53 = _
      omega
    have hlog := lt_twoPow_log2 v
    rw [hexp, twoPow_succ (v.log2 + 1)]
    omega
  have hle : climb v n ≤ twoPow (v.log2 + 54) := by
    induction n with
    | zero => exact Nat.zero_le _
    | succ n ih =>
      refine Format.round_le_twoPow ?_ (Nat.add_le_add_right ih v) hsmall
      show 53 ≤ v.log2 + 54
      omega
  omega

end Climb

/-! ## Sound times -/

namespace Binary

variable {x : Single}

/-- The units of a finite value. -/
def units {F : Format} : Binary F → Nat
  | finite _ u _ => u
  | _ => 0

/-- Finite and not negative, with either form of zero. -/
def Sound {F : Format} (x : Binary F) : Prop := ∃ s u h, x = finite s u h ∧ (s = true → u = 0)

/-- Finite, positive and in its one form. -/
def Positive {F : Format} (x : Binary F) : Prop := ∃ u h, x = finite false u h ∧ 0 < u

theorem ofNat_eq {F : Format} (n : Nat) :
    (OfNat.ofNat n : Binary F) = ofUnits false (n * twoPow F.scale) 1 := rfl

theorem zero_eq {F : Format} : (0 : Binary F) = finite false 0 F.representable_zero := by
  rw [ofNat_eq 0, Nat.zero_mul]
  exact ofUnits_of_representable false F.representable_zero

theorem convert_zero : ((0 : Single).convert : Double) = 0 := by
  rw [zero_eq, zero_eq, convert_finite]
  simp only [Nat.zero_mul]

theorem zero_add_zero : (0 + 0 : Double) = 0 := by
  rw [zero_eq]
  rfl

theorem place_zero : (0 : Single).place? = some 0 := by
  rw [zero_eq]
  rfl

theorem sound_zero : (0 : Single).Sound := ⟨false, 0, _, zero_eq, nofun⟩

theorem Positive.sound (h : x.Positive) : x.Sound := by
  obtain ⟨u, hu, rfl, -⟩ := h
  exact ⟨false, u, hu, rfl, nofun⟩

theorem positive_one : (1 : Single).Positive := by
  have hone : Format.single.Representable (twoPow Format.single.scale) :=
    ⟨twoPow_lt (by decide), Format.fits_twoPow _⟩
  refine ⟨_, hone, ?_, twoPow_pos _⟩
  rw [ofNat_eq 1, Nat.one_mul]
  exact ofUnits_of_representable false hone

theorem less_iff {F : Format} {x y : Binary F} {a b : Int} (hx : x.place? = some a)
    (hy : y.place? = some b) : x < y ↔ a < b := by
  show x.compareBy _ y = true ↔ _
  rw [compareBy, hx, hy]
  exact decide_eq_true_iff

theorem atMost_iff {F : Format} {x y : Binary F} {a b : Int} (hx : x.place? = some a)
    (hy : y.place? = some b) : x ≤ y ↔ a ≤ b := by
  show x.compareBy _ y = true ↔ _
  rw [compareBy, hx, hy]
  exact decide_eq_true_iff

theorem sound_of_not_less (h : x.isFinite = true) (hneg : ¬ x < 0) : x.Sound := by
  cases x with
  | nan | infinite => cases h
  | finite s u hu =>
    refine ⟨s, u, hu, rfl, ?_⟩
    rintro rfl
    rw [less_iff rfl place_zero] at hneg
    have hu' : ¬ -(u : Int) < 0 := hneg
    omega

theorem positive_of_less (h : x.isFinite = true) (hpos : 0 < x) : x.Positive := by
  cases x with
  | nan | infinite => cases h
  | finite s u hu =>
    rw [less_iff place_zero rfl] at hpos
    cases s with
    | false =>
      have hu' : (0 : Int) < u := hpos
      exact ⟨u, hu, rfl, by omega⟩
    | true =>
      have hu' : (0 : Int) < -u := hpos
      omega

/-- The larger of a finite value and zero is one of the two. -/
theorem larger_zero_eq (h : x.isFinite = true) : x.larger 0 = if x < 0 then 0 else x := by
  rw [zero_eq]
  cases x with
  | nan | infinite => cases h
  | finite => rfl

/-- A finite value, made no less than zero. -/
theorem sound_larger_zero (h : x.isFinite = true) : (x.larger 0).Sound := by
  rw [larger_zero_eq h]
  split
  · exact sound_zero
  next hneg => exact sound_of_not_less h hneg

theorem Positive.larger_zero (h : x.Positive) : x.larger 0 = x := by
  obtain ⟨u, hu, rfl, -⟩ := h
  have hneg : ¬ (finite false u hu : Single) < 0 := by
    rw [less_iff rfl place_zero]
    show ¬ (u : Int) < 0
    omega
  have hfinite : (finite false u hu : Single).isFinite = true := rfl
  rw [larger_zero_eq hfinite, if_neg hneg]

end Binary

theorem sound_soundDuration (seconds : Single) : (soundDuration seconds).Sound := by
  unfold soundDuration
  split
  next h => exact Binary.sound_larger_zero h
  · exact Binary.positive_one.sound

theorem Robot.sound_timeFor (r : Robot) (command : Command) : (r.timeFor command).Sound := by
  cases command <;> exact sound_soundDuration _

namespace Simulation

theorem positive_frames : defaultFrame.Positive ∧ shortestFrame.Positive := by
  have hless : (defaultFrame.isFinite = true ∧ 0 < defaultFrame)
      ∧ shortestFrame.isFinite = true ∧ 0 < shortestFrame := by
    decide +kernel
  exact ⟨Binary.positive_of_less hless.1.1 hless.1.2, Binary.positive_of_less hless.2.1 hless.2.2⟩

theorem positive_soundFrame (seconds : Single) : (soundFrame seconds).Positive := by
  unfold soundFrame
  split
  next h =>
    obtain ⟨hfinite, hpos⟩ := (Bool.and_eq_true _ _).mp h
    obtain he | he := Binary.larger_eq_or seconds shortestFrame
    · rw [he]
      exact Binary.positive_of_less hfinite (of_decide_eq_true hpos)
    · rw [he]
      exact positive_frames.2
  · exact positive_frames.1

end Simulation

/-! ## Motions in equal frames -/

section Frames

variable {frame duration : Single}

/-- The time played in equal frames is their rounded sum. -/
theorem playedAfter_eq (hf : frame.Positive) (n : Nat) :
    playedAfter 0 (fun _ => frame) n
      = .ofUnits false (climb (frame.units * Binary.widening) n) 1 := by
  induction n with
  | zero =>
    rw [playedAfter, Binary.convert_zero, Binary.zero_add_zero, Binary.zero_eq]
    exact (Binary.ofUnits_of_representable false _).symm
  | succ n ih =>
    rw [playedAfter, hf.larger_zero, ih, climb, Binary.ofUnits_round]
    obtain ⟨u, hu, rfl, -⟩ := hf
    rw [Binary.convert_finite]
    exact Binary.ofUnits_add (fits_climb _ _) _

/-- No time at all changes nothing. -/
theorem playedAfter_add_zero (hf : frame.Positive) (n : Nat) :
    playedAfter 0 (fun _ => frame) n + (0 : Single).convert
      = playedAfter 0 (fun _ => frame) n := by
  rw [playedAfter_eq hf, Binary.convert_zero, Binary.zero_eq,
    Binary.ofUnits_add (fits_climb _ _), Nat.add_zero]

theorem place_convert (hd : duration.Sound) :
    (duration.convert : Double).place? = some ((duration.units * Binary.widening : Nat) : Int)
      ∧ duration.units * Binary.widening < twoPow Format.double.top := by
  obtain ⟨s, u, hu, rfl, hzero⟩ := hd
  have hplace : (if s then -((u * Binary.widening : Nat) : Int) else (u * Binary.widening : Nat))
      = (u * Binary.widening : Nat) := by
    split
    next hs => rw [hzero hs, Nat.zero_mul, Int.natCast_zero, Int.neg_zero]
    · rfl
  rw [Binary.convert_finite, Binary.units]
  exact ⟨congrArg some hplace, (Binary.representable_widen hu).1⟩

/-- All the time of a motion has been played when the sum has reached it. -/
theorem allPlayed_iff (hf : frame.Positive) (hd : duration.Sound) (n : Nat) :
    AllPlayed duration 0 (fun _ => frame) n
      ↔ duration.units * Binary.widening ≤ climb (frame.units * Binary.widening) n := by
  obtain ⟨hplace, htop⟩ := place_convert hd
  rw [AllPlayed, playedAfter_eq hf,
    Binary.atMost_iff hplace (Binary.place_ofUnits (fits_climb _ _))]
  omega

theorem attains_iff (hf : frame.Positive) (hd : duration.Sound) :
    Attains frame duration
      ↔ ∃ n, duration.units * Binary.widening ≤ climb (frame.units * Binary.widening) n :=
  exists_congr (allPlayed_iff hf hd)

theorem units_pos (hf : frame.Positive) : 0 < frame.units * Binary.widening := by
  obtain ⟨u, hu, rfl, hpos⟩ := hf
  exact Nat.mul_pos hpos Binary.widening_pos

/-- **Not too many frames:** less than `twoPow 52`, and one more to spare. -/
theorem attains_of_le (hf : frame.Positive) (hd : duration.Sound)
    (h : duration.units + frame.units ≤ twoPow 52 * frame.units) : Attains frame duration := by
  refine (attains_iff hf hd).mpr (exists_le_climb (units_pos hf) ?_)
  rw [← Nat.add_mul, ← Nat.mul_assoc]
  exact Nat.mul_le_mul_right _ h

/-- **Too many frames.** -/
theorem not_attains_of_lt (hf : frame.Positive) (hd : duration.Sound)
    (h : twoPow 54 * frame.units < duration.units) : ¬ Attains frame duration := by
  intro hattains
  obtain ⟨n, hn⟩ := (attains_iff hf hd).mp hattains
  have hlt : twoPow 54 * (frame.units * Binary.widening) < duration.units * Binary.widening := by
    rw [← Nat.mul_assoc]
    exact Nat.mul_lt_mul_of_pos_right h Binary.widening_pos
  exact absurd hn (Nat.not_le.mpr (climb_lt (units_pos hf) hlt n))

/-- What a motion has left to play, after so many frames. -/
theorem toPlay_eq {motion : Motion} {n : Nat} (hf : frame.Positive)
    (he : motion.elapsed = playedAfter 0 (fun _ => frame) n) :
    motion.toPlay
      = twoPow Format.double.top - climb (frame.units * Binary.widening) n := by
  rw [Motion.toPlay, he, playedAfter_eq hf, Binary.place_ofUnits (fits_climb _ _)]
  show ((twoPow Format.double.top : Int) - (min _ _ : Nat)).toNat = _
  omega

/-- **Every frame counts** for a motion whose duration is attained. -/
theorem toPlay_lt {motion : Motion} {n : Nat} (hf : frame.Positive)
    (hd : motion.duration.Sound) (he : motion.elapsed = playedAfter 0 (fun _ => frame) n)
    (ha : Attains frame motion.duration) (ho : (motion.play frame).isOver = false) :
    (motion.play frame).toPlay < motion.toPlay := by
  have hplayed : (motion.play frame).elapsed = playedAfter 0 (fun _ => frame) (n + 1) := by
    rw [playedAfter, ← he]
    rfl
  have hnot : ¬ AllPlayed motion.duration 0 (fun _ => frame) (n + 1) := by
    rw [AllPlayed, ← hplayed]
    exact Bool.eq_false_iff.mp ho
  rw [allPlayed_iff hf hd] at hnot
  obtain ⟨m, hm⟩ := (attains_iff hf hd).mp ha
  have hmono := climb_le_succ (frame.units * Binary.widening) n
  have hup := climb_lt_succ hm (n := n) (by omega)
  have htop := (place_convert hd).2
  rw [toPlay_eq hf hplayed, toPlay_eq hf he]
  omega

end Frames

end Tabletop
