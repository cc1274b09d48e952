import Tabletop.Proofs.Fractions

/-!
# The heading that is shown

While a robot turns, it is drawn at an angle between two directions, and that
angle is brought into the range of one turn before it is shown. Two things are
rounded on the way, the part of the arc and its sum with the first direction,
and neither leads past the end of the arc. So the angle is from zero up, with one
exception: the turn to the left from north goes below zero.

Bringing an angle from zero up into the range is exact, as what is left of a
number that fits after taking another one away fits too (`Format.Fits.mod`). An
angle below zero has a whole turn added to it, and that is rounded once more.
Less than a `twoPow 16`-th part of a degree is lost there, since the numbers just
below a whole turn are twice as far apart (`Binary.fullTurn_sub`). The robot is
then drawn at a whole turn, which is past the range.

`Robot.heading_spec` says this of everything that can be done with a robot: the
angle shown is a number from zero up to a whole turn, and it is a whole turn only
where a turn from north to the west has hardly begun (`Robot.HardlyTurned`).
-/

namespace Tabletop

namespace Format

variable {F : Format} {u v : Nat}

theorem fits_of_dvd {n e : Nat} (hdvd : twoPow e ∣ n) (h : n < twoPow F.precision * twoPow e) :
    F.Fits n := by
  obtain ⟨k, rfl⟩ := hdvd
  rw [Nat.mul_comm] at h ⊢
  exact ⟨k, e, Nat.lt_of_mul_lt_mul_right h, rfl⟩

/-- **What is left after a division fits:** it has no digits past the last one of
either number, and it is no more than the first and less than the second. -/
theorem Fits.mod (hu : F.Fits u) (hv : F.Fits v) (hpos : 0 < v) : F.Fits (u % v) := by
  obtain ⟨m, e, hm, rfl⟩ := hu
  obtain ⟨m', e', hm', rfl⟩ := hv
  obtain hle | hle := Nat.le_total e e'
  · have hdvd : twoPow e ∣ m' * twoPow e' := Nat.dvd_mul_left_of_dvd (Nat.pow_dvd_pow 2 hle) m'
    refine fits_of_dvd ((Nat.dvd_mod_iff hdvd).mpr (Nat.dvd_mul_left _ _)) ?_
    exact Nat.lt_of_le_of_lt (Nat.mod_le _ _) (Nat.mul_lt_mul_of_pos_right hm (twoPow_pos e))
  · have hdvd : twoPow e' ∣ m * twoPow e := Nat.dvd_mul_left_of_dvd (Nat.pow_dvd_pow 2 hle) m
    refine fits_of_dvd ((Nat.dvd_mod_iff (Nat.dvd_mul_left _ _)).mpr hdvd) ?_
    exact Nat.lt_trans (Nat.mod_lt _ hpos) (Nat.mul_lt_mul_of_pos_right hm' (twoPow_pos e'))

/-- Short of an even number of times by no more than the half is that number of
times. -/
theorem nearestEven_short_iff {k d w : Nat} (hodd : k % 2 = 1) (hw : 0 < w) (hd : w ≤ d) :
    nearestEven (d - w + k * d) d = k + 1 ↔ 2 * w ≤ d := by
  have hpos : 0 < d := Nat.lt_of_lt_of_le hw hd
  have hlt : d - w < d := by omega
  have hdiv : (d - w + k * d) / d = k := by
    rw [Nat.add_mul_div_right _ _ hpos, Nat.div_eq_of_lt hlt, Nat.zero_add]
  have hmod : (d - w + k * d) % d = d - w := by
    rw [Nat.add_mul_mod_self_right, Nat.mod_eq_of_lt hlt]
  unfold nearestEven
  rw [hdiv, hmod]
  dsimp only
  split
  · omega
  · split <;> omega

/-- A number of so many digits has so many less than those kept. -/
theorem unitAt_eq {n k : Nat} (hlow : twoPow k ≤ n) (hhigh : n < twoPow (k + 1)) :
    F.unitAt n = twoPow (k + 1 - F.precision) := by
  have hpos := twoPow_pos k
  rw [unitAt, excess, (Nat.log2_eq_iff (by omega)).mpr ⟨hlow, hhigh⟩]

end Format

namespace Binary

variable {F : Format} {u v : Nat}

/-! ## Values and what is left of them -/

/-- A value from zero up is brought into a range without rounding. -/
theorem wrap_upper (hu : F.Representable u) (hv : F.Representable v) (hpos : 0 < v) :
    ∃ h, wrap (finite false v hv) (finite false u hu) = finite false (u % v) h := by
  have hfits : F.Fits (u % v) := Format.Fits.mod hu.2 hv.2 hpos
  have hrep : F.Representable (u % v) := ⟨Nat.lt_of_le_of_lt (Nat.mod_le _ _) hu.1, hfits⟩
  have hleft : (finite false u hu).remainder (finite false v hv) = finite false (u % v) hrep := by
    show (if v = 0 then nan else ofUnits false (u % v) 1) = _
    rw [if_neg (Nat.ne_of_gt hpos)]
    exact ofUnits_of_representable false hrep
  have hnot : ¬ (finite false (u % v) hrep : Binary F) < 0 := by
    rw [zero_eq, less_iff rfl rfl]
    exact Int.not_lt.mpr (Int.natCast_nonneg _)
  exact ⟨hrep, by rw [wrap, hleft, if_neg hnot]⟩

/-- A value just below zero has the whole range added to it. -/
theorem wrap_lower (hu : F.Representable u) (hv : F.Representable v) (hpos : 0 < u) (hlt : u < v) :
    wrap (finite false v hv) (finite true u hu) = ofUnits false (v - u) 1 := by
  have hleft : (finite true u hu).remainder (finite false v hv) = finite true u hu := by
    show (if v = 0 then nan else ofUnits true (u % v) 1) = _
    rw [if_neg (by omega), Nat.mod_eq_of_lt hlt]
    exact ofUnits_of_representable true hu
  have hless : (finite true u hu : Binary F) < 0 := by
    rw [zero_eq, less_iff rfl rfl]
    show -(u : Int) < 0
    omega
  have hsign : decide (-(u : Int) + v < 0) = false := decide_eq_false (by omega)
  have habs : (-(u : Int) + v).natAbs = v - u := by omega
  rw [wrap, hleft, if_pos hless]
  show (if -(u : Int) + v = 0 then _ else ofSignedUnits (-(u : Int) + v)) = _
  rw [if_neg (by omega), ofSignedUnits, hsign, habs]

theorem finite_add (hu : F.Representable u) (hv : F.Representable v) :
    (finite false u hu + finite false v hv : Binary F) = ofUnits false (u + v) 1 := by
  rw [← ofUnits_of_representable false hu]
  exact ofUnits_add hu.2 hv

theorem finite_mul {s t : Bool} (hu : F.Representable u) (hv : F.Representable v) :
    (finite s u hu * finite t v hv : Binary F) = ofUnits (s != t) (u * v) (twoPow F.scale) := rfl

theorem zero_add_lower (hu : F.Representable u) :
    (0 + finite true u hu : Binary F) = if u = 0 then 0 else finite true u hu := by
  rw [zero_eq]
  show (if (0 : Nat) + -(u : Int) = 0 then zero (false && true)
    else ofSignedUnits ((0 : Nat) + -(u : Int))) = _
  by_cases h : u = 0
  · rw [if_pos h, if_pos (by omega)]
    rfl
  · have hsign : decide (((0 : Nat) : Int) + -(u : Int) < 0) = true := decide_eq_true (by omega)
    have habs : (((0 : Nat) : Int) + -(u : Int)).natAbs = u := by omega
    rw [if_neg h, if_neg (by omega), ofSignedUnits, hsign, habs]
    exact ofUnits_of_representable true hu

/-! ## Angles -/

/-- The units of one degree. -/
def degree : Nat := twoPow Format.single.scale

/-- **Within one turn:** from zero up, and less than the whole. -/
def InTurn (x : Single) : Prop := ∃ u h, x = finite false u h ∧ u < 360 * degree

theorem degree_pos : 0 < degree := twoPow_pos _

theorem representable_degrees {n : Nat} (hn : n < 512) :
    Format.single.Representable (n * degree) := by
  refine ⟨?_, n, _, Nat.lt_trans hn (by decide), rfl⟩
  calc n * degree
      < twoPow 9 * twoPow Format.single.scale := Nat.mul_lt_mul_of_pos_right hn degree_pos
    _ = twoPow (9 + Format.single.scale) := (twoPow_add ..).symm
    _ ≤ twoPow Format.single.top := twoPow_le (by decide)

/-- Angles up to a turn and more are themselves. -/
theorem ofNat_degrees {n : Nat} (hn : n < 512) :
    (OfNat.ofNat n : Single) = finite false (n * degree) (representable_degrees hn) :=
  (ofNat_eq n).trans (ofUnits_of_representable false (representable_degrees hn))

theorem InTurn.spec {x : Single} (hx : InTurn x) : x ≠ nan ∧ 0 ≤ x ∧ x < 360 := by
  obtain ⟨u, hu, rfl, hlt⟩ := hx
  refine ⟨?_, ?_, ?_⟩
  · intro h
    cases h
  · rw [zero_eq, atMost_iff rfl rfl]
    exact Int.natCast_nonneg _
  · rw [ofNat_degrees (by decide), less_iff rfl rfl]
    exact Int.ofNat_lt.mpr hlt

theorem inTurn_ofNat {n : Nat} (hn : n < 360) : InTurn (OfNat.ofNat n) :=
  ⟨_, _, ofNat_degrees (Nat.lt_trans hn (by decide)), Nat.mul_lt_mul_of_pos_right hn degree_pos⟩

/-- An angle from zero up that is brought into one turn is within it. -/
theorem inTurn_wrap (hu : Format.single.Representable u) :
    InTurn (wrap 360 (finite false u hu)) := by
  have hpos : 0 < 360 * degree := Nat.mul_pos (by decide) degree_pos
  obtain ⟨h, hwrap⟩ := wrap_upper hu (representable_degrees (n := 360) (by decide)) hpos
  rw [ofNat_degrees (by decide), hwrap]
  exact ⟨_, h, rfl, Nat.mod_lt _ hpos⟩

/-- **A part of an arc** is no more than the arc. -/
theorem arc_mul_part {n : Nat} {s : Bool} (hn : n < 512) (hu : Format.single.Representable u)
    (hle : u ≤ degree) :
    Format.single.round (n * u) 1 ≤ n * degree
      ∧ ∃ h, (finite s (n * degree) (representable_degrees hn) * finite false u hu : Single)
        = finite s (Format.single.round (n * u) 1) h := by
  have hround : Format.single.round (n * u) 1 ≤ n * degree :=
    Format.round_le (representable_degrees hn).2 (Nat.mul_le_mul_left _ hle)
  have hlt := Nat.lt_of_le_of_lt hround (representable_degrees hn).1
  refine ⟨hround, Format.single.representable_round hlt, ?_⟩
  rw [finite_mul, ← degree, Bool.bne_false, Nat.mul_right_comm, ofUnits_mul s degree_pos,
    ofUnits_of_lt s hlt]

/-- Forward along an arc the angle stays between the two ends. -/
theorem exists_forward {s a : Nat} {t : Single} (hs : s + a < 512) (ht : Part t) :
    ∃ u h, (OfNat.ofNat s + OfNat.ofNat a * t : Single) = finite false u h := by
  obtain ⟨u, hu, rfl, hle⟩ := ht
  obtain ⟨hround, h, hmul⟩ := arc_mul_part (n := a) (s := false) (by omega) hu hle
  rw [ofNat_degrees (by omega), ofNat_degrees (by omega), hmul, finite_add]
  refine ⟨_, _, ofUnits_of_lt false (Nat.lt_of_le_of_lt ?_ (representable_degrees hs).1)⟩
  refine Format.round_le (representable_degrees hs).2 ?_
  rw [Nat.add_mul]
  exact Nat.add_le_add_left hround _

/-- So it does backward, as long as the arc ends at zero or before. -/
theorem exists_backward {s a : Nat} {t : Single} (ha : a ≤ s) (hs : s < 512) (ht : Part t) :
    ∃ u h, (OfNat.ofNat s + -OfNat.ofNat a * t : Single) = finite false u h := by
  obtain ⟨u, hu, rfl, hle⟩ := ht
  obtain ⟨hround, h, hmul⟩ := arc_mul_part (n := a) (s := true) (by omega) hu hle
  have hless : Format.single.round (a * u) 1 ≤ s * degree :=
    Nat.le_trans hround (Nat.mul_le_mul_right _ ha)
  rw [ofNat_degrees (by omega), ofNat_degrees (by omega)]
  show ∃ u h, (finite false _ _ + finite true (a * degree) _ * _ : Single) = finite false u h
  rw [hmul]
  have hsub := finite_sub_sound (s := false) (representable_degrees hs)
    (Format.single.representable_round (Nat.lt_of_le_of_lt hless (representable_degrees hs).1))
    nofun hless
  refine ⟨_, _, hsub.trans (ofUnits_of_lt false ?_)⟩
  refine Nat.lt_of_le_of_lt ?_ (representable_degrees hs).1
  exact Format.round_le (representable_degrees hs).2 (Nat.sub_le _ _)

/-- **Just below a whole turn** the numbers are a `twoPow 15`-th part of a degree
apart, and less than the half of it is rounded away. -/
theorem fullTurn_sub {w : Nat} (hw : 0 < w) (hle : w ≤ 90 * degree) :
    Format.single.round (360 * degree - w) 1 ≤ 360 * degree
      ∧ (Format.single.round (360 * degree - w) 1 = 360 * degree ↔ w ≤ twoPow 133) := by
  have hhalf : twoPow 134 = 2 * twoPow 133 := twoPow_succ 133
  have hdegree : degree = 32768 * twoPow 134 := twoPow_add 15 134
  have hunit : Format.single.unitAt (360 * degree - w) = twoPow 134 := by
    have hlow : twoPow 157 = 256 * degree := twoPow_add 8 149
    have hhigh : twoPow 158 = 512 * degree := twoPow_add 9 149
    exact Format.unitAt_eq (k := 157) (by omega) (by show _ < twoPow 158; omega)
  have hpos := twoPow_pos 134
  refine ⟨Format.round_le (representable_degrees (n := 360) (by decide)).2 (Nat.sub_le _ _), ?_⟩
  have hfull : 360 * degree = 11796480 * twoPow 134 := by omega
  rw [Format.round_one, hunit, hfull, Nat.mul_left_inj (Nat.ne_of_gt hpos)]
  obtain hfar | hnear := Nat.lt_or_ge (twoPow 134) w
  · have hmost : Format.nearestEven (11796480 * twoPow 134 - w) (twoPow 134) ≤ 11796479 :=
      Format.nearestEven_le hpos (by omega)
    omega
  · have hsplit : 11796480 * twoPow 134 - w = twoPow 134 - w + 11796479 * twoPow 134 := by omega
    rw [hsplit, Format.nearestEven_short_iff (by decide) hw hnear]
    omega

/-- The least part of a degree that is not lost just below a whole turn. -/
def lostDegree : Single := .ofRatio false 1 (twoPow 16)

theorem lostDegree_eq : ∃ h, lostDegree = finite false (twoPow 133) h := by
  have hrep : Format.single.Representable (twoPow 133) :=
    ⟨twoPow_lt (by decide), Format.fits_twoPow _⟩
  have hsplit : 1 * twoPow Format.single.scale = twoPow 133 * twoPow 16 := by
    rw [Nat.one_mul, ← twoPow_add]
    exact congrArg twoPow (by decide)
  refine ⟨hrep, ?_⟩
  rw [lostDegree, ofRatio, hsplit, ofUnits_mul false (twoPow_pos _)]
  exact ofUnits_of_representable false hrep

/-- **From zero backward** a quarter turn is shown within one turn, unless less of
it is done than what is lost just below the whole. -/
theorem wrap_backward {t : Single} (ht : Part t) :
    InTurn (wrap 360 (0 + -90 * t)) ∧ ¬ (0 < t ∧ 90 * t ≤ lostDegree)
      ∨ wrap 360 (0 + -90 * t) = 360 ∧ 0 < t ∧ 90 * t ≤ lostDegree := by
  obtain ⟨u, hu, rfl, hle⟩ := ht
  obtain ⟨hround, h, hforward⟩ := arc_mul_part (n := 90) (s := false) (by decide) hu hle
  obtain ⟨-, _, hbackward⟩ := arc_mul_part (n := 90) (s := true) (by decide) hu hle
  have hninety : (90 : Single) = finite false (90 * degree) (representable_degrees (by decide)) :=
    ofNat_degrees (by decide)
  have hturn : (360 : Single) = finite false (360 * degree) (representable_degrees (by decide)) :=
    ofNat_degrees (by decide)
  have hmore : (0 : Single) < finite false u hu ↔ 0 < u := by
    rw [zero_eq, less_iff rfl rfl]
    exact Int.ofNat_lt
  have hfew : (90 * finite false u hu : Single) ≤ lostDegree
      ↔ Format.single.round (90 * u) 1 ≤ twoPow 133 := by
    obtain ⟨_, hlost⟩ := lostDegree_eq
    rw [hninety, hforward, hlost, atMost_iff rfl rfl]
    exact Int.ofNat_le
  have hangle : (0 + -90 * finite false u hu : Single)
      = 0 + finite true (Format.single.round (90 * u) 1) h := by
    rw [← hbackward, hninety]
    rfl
  rw [hmore, hfew, hangle, zero_add_lower]
  obtain rfl | hpos := Nat.eq_zero_or_pos u
  · rw [if_pos (Format.round_eq_zero_iff.mpr rfl), zero_eq]
    exact .inl ⟨inTurn_wrap _, fun h => absurd h.1 (Nat.lt_irrefl 0)⟩
  · have hw : Format.single.round (90 * u) 1 ≠ 0 := by
      rw [Ne, Format.round_eq_zero_iff]
      omega
    have hdegree := degree_pos
    obtain ⟨hsub, hfull⟩ := fullTurn_sub (Nat.pos_of_ne_zero hw) hround
    have hlt := Nat.lt_of_le_of_lt hsub (representable_degrees (n := 360) (by decide)).1
    rw [if_neg hw, hturn, wrap_lower h _ (Nat.pos_of_ne_zero hw) (by omega), ofUnits_of_lt false hlt]
    by_cases hnear : Format.single.round (90 * u) 1 ≤ twoPow 133
    · refine .inr ⟨?_, hpos, hnear⟩
      simp only [hfull.mpr hnear]
    · refine .inl ⟨⟨_, _, rfl, ?_⟩, fun h => hnear h.2⟩
      exact Nat.lt_of_le_of_ne hsub (mt hfull.mp hnear)

end Binary

namespace Motion

/-- The arc along which a turn is drawn, from its two ends. -/
def arc (start target : Direction) : Single :=
  match turnPath start target with
  | .turn start stop _ => stop - start
  | .step .. => 0

/-- To the left an arc leads backward by a quarter turn, and to the other sides
forward by no more than half a turn. -/
theorem arc_cases (start target : Direction) :
    target = start.left ∧ arc start target = -90
      ∨ target ≠ start.left ∧ ∃ a, a ≤ 180 ∧ arc start target = OfNat.ofNat a := by
  have hall : ∀ start ∈ Direction.all, ∀ target ∈ Direction.all,
      target = start.left ∧ arc start target = -90
        ∨ target ≠ start.left ∧ (arc start target = 0 ∨ arc start target = 90
          ∨ arc start target = 180) := by
    decide +kernel
  obtain h | ⟨hside, h⟩ := hall start (Direction.mem_all _) target (Direction.mem_all _)
  · exact .inl h
  · refine .inr ⟨hside, ?_⟩
    obtain h | h | h := h
    · exact ⟨0, by decide, h⟩
    · exact ⟨90, by decide, h⟩
    · exact ⟨180, by decide, h⟩

end Motion

/-- The degrees of a direction are a whole number of them; but for north there is a
quarter turn before them. -/
theorem Direction.exists_degrees_eq (d : Direction) :
    ∃ n, n ≤ 270 ∧ d.degrees = OfNat.ofNat n ∧ (d ≠ .north → 90 ≤ n) := by
  cases d with
  | north => exact ⟨0, by decide, rfl, fun h => absurd rfl h⟩
  | east => exact ⟨90, by decide, rfl, fun _ => by decide⟩
  | south => exact ⟨180, by decide, rfl, fun _ => by decide⟩
  | west => exact ⟨270, by decide, rfl, fun _ => by decide⟩

namespace Robot

variable {r : Robot}

/-- **The robot is turning.** -/
def Turning (r : Robot) : Prop :=
  ∃ motion start stop target, r.motion = some motion ∧ motion.path = .turn start stop target

/-- **A turn has hardly begun** that leads from north to the west: some of it has
been done, and no more than a `twoPow 16`-th part of a degree. -/
structure HardlyTurned (r : Robot) : Prop where
  /-- The robot still faces north. -/
  north : r.facing = .north
  /-- It is turning to the west. -/
  west : ∃ motion start stop, r.motion = some motion ∧ motion.path = .turn start stop .west
  /-- Some of the turn has been done. -/
  begun : 0 < r.progress
  /-- It is not more than what is lost just below a whole turn. -/
  few : 90 * r.progress ≤ Binary.lostDegree

theorem HardlyTurned.turning (h : r.HardlyTurned) : r.Turning := by
  obtain ⟨motion, start, stop, hm, hp⟩ := h.west
  exact ⟨motion, start, stop, .west, hm, hp⟩

/-- A robot that turns elsewhere than to its left has not hardly turned. -/
theorem HardlyTurned.left {motion : Motion} {start stop : Single} {target : Direction}
    (h : r.HardlyTurned) (hm : r.motion = some motion) (hp : motion.path = .turn start stop target) :
    target = r.facing.left := by
  obtain ⟨motion', start', stop', hm', hp'⟩ := h.west
  cases hm.symm.trans hm'
  cases hp.symm.trans hp'
  rw [h.north]
  rfl

theorem heading_of_not_turning (h : ¬ r.Turning) : r.heading = r.facing.degrees := by
  unfold heading
  split
  next start stop target elapsed duration hm => exact absurd ⟨_, _, _, _, hm, rfl⟩ h
  next => rfl

/-- A robot that turns is drawn along the arc from its direction. -/
theorem Whole.heading_of_turn (h : r.Whole) {motion : Motion} {start stop : Single}
    {target : Direction} (hm : r.motion = some motion) (hp : motion.path = .turn start stop target) :
    r.heading
      = Binary.wrap 360 (r.facing.degrees + Motion.arc r.facing target * r.progress) := by
  have hleaves : r.LeavesBy (.turn start stop target) := hp ▸ h.leaves motion hm
  obtain ⟨rfl, hpath⟩ := hleaves
  obtain ⟨path, elapsed, duration⟩ := motion
  have harc : Motion.arc r.facing target = stop - r.facing.degrees := by
    rw [Motion.arc, ← hpath]
  cases hp
  rw [harc, heading, hm]
  rfl

/-- A robot that turns to its left from north is drawn at a whole turn exactly as
long as it has hardly turned. -/
theorem Whole.heading_of_north (h : r.Whole) (hpart : Binary.Part r.progress) {motion : Motion}
    {start stop : Single} (hm : r.motion = some motion) (hp : motion.path = .turn start stop .west)
    (hnorth : r.facing = .north) :
    Binary.InTurn r.heading ∧ ¬ r.HardlyTurned ∨ r.heading = 360 ∧ r.HardlyTurned := by
  have harc : Motion.arc .north .west = -90 := by decide +kernel
  have hdegrees : Direction.north.degrees = 0 := rfl
  rw [h.heading_of_turn hm hp, hnorth, harc, hdegrees]
  obtain ⟨hin, hnot⟩ | ⟨hwhole, hsome, hfew⟩ := Binary.wrap_backward hpart
  · exact .inl ⟨hin, fun hhardly => hnot ⟨hhardly.begun, hhardly.few⟩⟩
  · exact .inr ⟨hwhole, hnorth, ⟨motion, start, stop, hm, hp⟩, hsome, hfew⟩

/-- **Where the robot is drawn,** in all cases. -/
theorem Whole.heading_cases (h : r.Whole) (hpart : Binary.Part r.progress) :
    Binary.InTurn r.heading ∧ ¬ r.HardlyTurned ∨ r.heading = 360 ∧ r.HardlyTurned := by
  obtain ⟨n, hn, hdegrees, hback⟩ := r.facing.exists_degrees_eq
  by_cases hturning : r.Turning
  · obtain ⟨motion, start, stop, target, hm, hp⟩ := hturning
    obtain ⟨htarget, harc⟩ | ⟨hside, a, ha, harc⟩ := Motion.arc_cases r.facing target
    · by_cases hnorth : r.facing = .north
      · rw [hnorth] at htarget
        exact h.heading_of_north hpart hm (htarget ▸ hp) hnorth
      · obtain ⟨u, hu, hangle⟩ := Binary.exists_backward (hback hnorth) (by omega) hpart
        rw [h.heading_of_turn hm hp, harc, hdegrees, hangle]
        exact .inl ⟨Binary.inTurn_wrap hu, fun hhardly => hnorth hhardly.north⟩
    · have hend : n + a < 512 := by omega
      obtain ⟨u, hu, hangle⟩ := Binary.exists_forward hend hpart
      rw [h.heading_of_turn hm hp, harc, hdegrees, hangle]
      exact .inl ⟨Binary.inTurn_wrap hu, fun hhardly => hside (hhardly.left hm hp)⟩
  · rw [heading_of_not_turning hturning, hdegrees]
    exact .inl ⟨Binary.inTurn_ofNat (by omega), fun hhardly => hturning hhardly.turning⟩

/-- **The angle shown.** -/
structure Shown (r : Robot) : Prop where
  /-- It is a number, and not a negative one. -/
  number : r.heading ≠ .nan ∧ 0 ≤ r.heading
  /-- It is less than a whole turn if the robot has not hardly turned. -/
  within : ¬ r.HardlyTurned → r.heading < 360
  /-- Otherwise it is a whole turn. -/
  whole : r.HardlyTurned → r.heading = 360
  /-- A robot that does not turn is drawn at its direction. -/
  settled : ¬ r.Turning → r.heading = r.facing.degrees

theorem Whole.shown (h : r.Whole) (hs : r.SoundMotion) : r.Shown := by
  have hcases := h.heading_cases hs.part_progress
  refine ⟨?_, fun hnot => ?_, fun hhardly => ?_, heading_of_not_turning⟩
  · obtain ⟨hin, -⟩ | ⟨hwhole, -⟩ := hcases
    · exact ⟨hin.spec.1, hin.spec.2.1⟩
    · have hupper : Binary.Upper (360 : Single) := Binary.upper_ofNat 360
      rw [hwhole]
      exact ⟨hupper.ne_nan, hupper.zero_atMost⟩
  · obtain ⟨hin, -⟩ | ⟨-, hhardly⟩ := hcases
    · exact hin.spec.2.2
    · exact absurd hhardly hnot
  · obtain ⟨-, hnot⟩ | ⟨hwhole, -⟩ := hcases
    · exact absurd hhardly hnot
    · exact hwhole

/-- **The heading that is shown** is a number from zero up, whatever is done with a
robot, with any times and any amounts. It is less than a whole turn but for one
case: some of a turn from north to the west has been done, and no more of it than
is lost just below the whole turn; then it is the whole turn. A robot that does not
turn is drawn at its direction. -/
theorem heading_spec (h : r.Made) (actions : List Action) : (r.actAll actions).1.Shown :=
  ((whole_of_rest h.rests).actAll actions).shown ((soundMotion_of_rest h.rests).actAll actions)

/-- Just before the end of a turn from west to north the sum of the two angles is
rounded to the whole turn, and the heading that is shown is zero. -/
theorem heading_before_north :
    let actions : List Action :=
      [.place ⟨4, 4, 4, 0, 4⟩ .west, .right, .advance (1 - .ofRatio false 1 (twoPow 24))]
    let run := (Robot.new 1 1).actAll actions
    (Robot.new 1 1).Made ∧ run.1.motion.isSome = true ∧ run.1.heading = 0 ∧ run.1.Shown := by
  intro actions run
  exact ⟨.new _ _, by decide +kernel, by decide +kernel, heading_spec (.new _ _) actions⟩

/-- A robot that faces north is told to turn to the left, and a `twoPow 24`-th part
of the turn's second is played. It is drawn at 360 degrees. -/
theorem whole_turn_after_short_frame :
    let run := (Robot.new 1 1).actAll
      [.place ⟨0, 0, 0, 0, 0⟩ .north, .left, .advance (.ofRatio false 1 (twoPow 24))]
    (Robot.new 1 1).Made ∧ run.1.heading = 360 ∧ ¬ run.1.heading < 360 := by
  intro run
  exact ⟨.new _ _, by decide +kernel, by decide +kernel⟩

end Robot

end Tabletop
