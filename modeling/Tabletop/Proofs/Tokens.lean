import Mathlib.Data.Bool.AllAny
import Tabletop.Json.Printer
import Tabletop.Json.Token

/-!
# Tokens next to each other

What follows a token can change how it is taken only if the token is a
numeral: one more digit, a point or an exponent would make it longer. So a
numeral is taken as it stands wherever none of these follows it (`Stops`), and
every other token is taken as it stands wherever it is.

`Token.Cuts` says that a first part of a document is cut into certain tokens
whatever its rest is cut into. It is what the printing of a value is shown to
give, piece by piece: such facts are joined end to end (`Cuts.trans`), and
blanks between tokens count for nothing (`cuts_blanks`).
-/

namespace Tabletop

namespace Json

namespace Token

variable {s t rest digits numeral body : List Char} {c : Char} {token : Token}
  {tokens more : List Token}

/-- A character that may go on with a numeral. -/
def isNumeric (c : Char) : Bool :=
  c.isDigit || c = '.' || c = 'e' || c = 'E' || c = '+' || c = '-'

/-- No numeral goes on here. -/
def Stops (rest : List Char) : Prop := ∀ c ∈ rest.head?, isNumeric c = false

/-- A numeral, taken as a whole. -/
def IsNumeral (numeral : List Char) : Prop := takeNumber numeral = some (numeral, [])

/-- What can stand between quotes, taken as a whole. -/
def IsBody (body : List Char) : Prop := takeBody (body ++ ['"']) = some (body, [])

/-! ## Numerals -/

theorem Stops.head_ne (h : Stops rest) (hc : isNumeric c = true) : rest.head? ≠ some c := by
  intro hhead
  rw [h c hhead] at hc
  cases hc

theorem Stops.takeWhile (h : Stops rest) : rest.takeWhile Char.isDigit = [] := by
  cases rest with
  | nil => rfl
  | cons c rest =>
    have hc : c.isDigit = false := by
      have hnot := h c rfl
      unfold isNumeric at hnot
      simp only [Bool.or_eq_false_iff] at hnot
      exact hnot.1.1.1.1.1
    rw [List.takeWhile_cons_of_neg (by rw [hc]; decide)]

theorem Stops.dropWhile (h : Stops rest) : rest.dropWhile Char.isDigit = rest := by
  have happend := List.takeWhile_append_dropWhile (p := Char.isDigit) (l := rest)
  rwa [h.takeWhile] at happend

theorem takeWhile_append_stops (h : Stops rest) (s : List Char) :
    (s ++ rest).takeWhile Char.isDigit = s.takeWhile Char.isDigit := by
  induction s with
  | nil => exact h.takeWhile
  | cons c s ih => rw [List.cons_append, List.takeWhile_cons, List.takeWhile_cons, ih]

theorem dropWhile_append_stops (h : Stops rest) (s : List Char) :
    (s ++ rest).dropWhile Char.isDigit = s.dropWhile Char.isDigit ++ rest := by
  induction s with
  | nil => exact h.dropWhile
  | cons c s ih =>
    rw [List.cons_append, List.dropWhile_cons, List.dropWhile_cons, ih]
    split <;> rfl

theorem takeDigits_append (h : Stops rest) (ht : takeDigits s = some (digits, t)) :
    takeDigits (s ++ rest) = some (digits, t ++ rest) := by
  unfold takeDigits at ht ⊢
  rw [takeWhile_append_stops h, dropWhile_append_stops h]
  split at ht
  · cases ht
  · cases ht
    rfl

theorem takeWhole_append (h : Stops rest) (ht : takeWhole s = some (digits, t)) :
    takeWhole (s ++ rest) = some (digits, t ++ rest) := by
  unfold takeWhole at ht ⊢
  split at ht
  · cases ht
  next hnot =>
    rw [takeDigits_append h ht]
    split
    next he =>
      cases he
      exact absurd ht (hnot _ _ _)
    · rfl

/-- Without a point there is no fraction. -/
theorem takeFraction_of_ne (h : s.head? ≠ some '.') : takeFraction s = some ([], s) := by
  unfold takeFraction
  split
  · exact absurd rfl h
  · rfl

theorem takeFraction_append (h : Stops rest) (ht : takeFraction s = some (digits, t)) :
    takeFraction (s ++ rest) = some (digits, t ++ rest) := by
  unfold takeFraction at ht
  split at ht
  next s =>
    obtain ⟨⟨d, r⟩, hd, he⟩ := Option.map_eq_some_iff.mp ht
    cases he
    show (takeDigits (s ++ rest)).map _ = _
    rw [takeDigits_append h hd]
    rfl
  next hne =>
    cases ht
    refine takeFraction_of_ne ?_
    cases s with
    | nil => exact h.head_ne rfl
    | cons c s => exact fun hc => hne s (by rw [Option.some.inj hc])

theorem takeSigned_append (h : Stops rest) (ht : takeSigned s = some (digits, t)) :
    takeSigned (s ++ rest) = some (digits, t ++ rest) := by
  unfold takeSigned at ht
  split at ht
  next s =>
    obtain ⟨⟨d, r⟩, hd, he⟩ := Option.map_eq_some_iff.mp ht
    cases he
    show (takeDigits (s ++ rest)).map _ = _
    rw [takeDigits_append h hd]
    rfl
  next s =>
    obtain ⟨⟨d, r⟩, hd, he⟩ := Option.map_eq_some_iff.mp ht
    cases he
    show (takeDigits (s ++ rest)).map _ = _
    rw [takeDigits_append h hd]
    rfl
  next hplus hminus =>
    cases s with
    | nil => cases ht
    | cons c s =>
      have hc := takeDigits_append h ht
      unfold takeSigned
      split
      next he => exact absurd (List.cons.inj he).1 fun hc => hplus s (by rw [hc])
      next he => exact absurd (List.cons.inj he).1 fun hc => hminus s (by rw [hc])
      · exact hc

/-- Without its letter there is no exponent. -/
theorem takeExponent_of_ne (he : s.head? ≠ some 'e') (hE : s.head? ≠ some 'E') :
    takeExponent s = some ([], s) := by
  unfold takeExponent
  split
  · exact absurd rfl he
  · exact absurd rfl hE
  · rfl

theorem takeExponent_append (h : Stops rest) (ht : takeExponent s = some (digits, t)) :
    takeExponent (s ++ rest) = some (digits, t ++ rest) := by
  unfold takeExponent at ht
  split at ht
  next s =>
    obtain ⟨⟨d, r⟩, hd, he⟩ := Option.map_eq_some_iff.mp ht
    cases he
    show (takeSigned (s ++ rest)).map _ = _
    rw [takeSigned_append h hd]
    rfl
  next s =>
    obtain ⟨⟨d, r⟩, hd, he⟩ := Option.map_eq_some_iff.mp ht
    cases he
    show (takeSigned (s ++ rest)).map _ = _
    rw [takeSigned_append h hd]
    rfl
  next hlower hupper =>
    cases ht
    cases s with
    | nil => exact takeExponent_of_ne (h.head_ne rfl) (h.head_ne rfl)
    | cons c s =>
      exact takeExponent_of_ne (fun hc => hlower s (by rw [Option.some.inj hc]))
        fun hc => hupper s (by rw [Option.some.inj hc])

theorem takeUnsigned_append (h : Stops rest) (ht : takeUnsigned s = some (numeral, t)) :
    takeUnsigned (s ++ rest) = some (numeral, t ++ rest) := by
  obtain ⟨⟨whole, s₁⟩, h₁, ht⟩ := Option.bind_eq_some_iff.mp ht
  obtain ⟨⟨fraction, s₂⟩, h₂, ht⟩ := Option.bind_eq_some_iff.mp ht
  obtain ⟨⟨exponent, s₃⟩, h₃, ht⟩ := Option.bind_eq_some_iff.mp ht
  cases ht
  unfold takeUnsigned
  rw [takeWhole_append h h₁]
  dsimp only [bind, Option.bind]
  rw [takeFraction_append h h₂]
  dsimp only
  rw [takeExponent_append h h₃]
  rfl

/-- A numeral begins with a digit or with a minus sign. -/
theorem head_of_takeNumber (ht : takeNumber s = some (numeral, t)) :
    ∃ c r, s = c :: r ∧ (c = '-' ∨ c.isDigit = true) := by
  unfold takeNumber at ht
  split at ht
  next r => exact ⟨'-', r, rfl, .inl rfl⟩
  · obtain ⟨⟨whole, r⟩, hw, -⟩ := Option.bind_eq_some_iff.mp ht
    unfold takeWhole at hw
    split at hw
    · cases hw
    · unfold takeDigits at hw
      split at hw
      · cases hw
      next hne =>
        cases s with
        | nil => exact absurd rfl hne
        | cons c s =>
          refine ⟨c, s, rfl, .inr (Classical.byContradiction fun hc => ?_)⟩
          exact hne (List.takeWhile_cons_of_neg hc)

/-- **A numeral is taken as it stands** where none of its kind goes on. -/
theorem takeNumber_append (h : Stops rest) (ht : takeNumber s = some (numeral, t)) :
    takeNumber (s ++ rest) = some (numeral, t ++ rest) := by
  have hcopy := ht
  unfold takeNumber at ht
  split at ht
  next s =>
    obtain ⟨⟨d, r⟩, hd, he⟩ := Option.map_eq_some_iff.mp ht
    cases he
    show (takeUnsigned (s ++ rest)).map _ = _
    rw [takeUnsigned_append h hd]
    rfl
  next hminus =>
    obtain ⟨c, r, rfl, hc⟩ := head_of_takeNumber hcopy
    have happend := takeUnsigned_append h ht
    unfold takeNumber
    split
    next he => exact absurd (List.cons.inj he).1 fun hc => hminus r (by rw [hc])
    · exact happend

/-- A token that begins like a numeral is one. -/
theorem take_of_numeric (hc : c = '-' ∨ c.isDigit = true) (s : List Char) :
    take (c :: s) = (takeNumber (c :: s)).map fun (numeral, rest) => (number numeral, rest) := by
  have hne : ∀ d ∈ ['[', ']', '\x7b', '\x7d', ':', ',', '"', 'n', 't', 'f'], c ≠ d := by
    have hall : ∀ d ∈ ['[', ']', '\x7b', '\x7d', ':', ',', '"', 'n', 't', 'f'],
        d ≠ '-' ∧ d.isDigit = false := List.all_iff_forall_prop.mp (by decide)
    rintro d hd rfl
    obtain ⟨hminus, hdigit⟩ := hall c hd
    rw [hdigit] at hc
    exact hc.elim hminus Bool.false_ne_true
  unfold take
  split <;>
    first
    | rfl
    | next he => exact absurd (List.cons.inj he).1 (hne _ (by decide))

theorem take_numeral (h : Stops rest) (hn : IsNumeral numeral) :
    take (numeral ++ rest) = some (number numeral, rest) := by
  have happend := takeNumber_append h hn
  obtain ⟨c, r, rfl, hc⟩ := head_of_takeNumber hn
  rw [List.cons_append] at happend ⊢
  rw [take_of_numeric hc, happend]
  rfl

/-! ## Texts -/

theorem takeBody_append (ht : takeBody s = some (body, t)) (rest : List Char) :
    takeBody (s ++ rest) = some (body, t ++ rest) := by
  fun_induction takeBody s generalizing body t with
  | case1 => cases ht
  | case2 s =>
    cases ht
    rfl
  | case3 a b c d s hhex ih =>
    obtain ⟨⟨d', r⟩, hd, he⟩ := Option.map_eq_some_iff.mp ht
    cases he
    simp only [List.cons_append]
    rw [takeBody, if_pos hhex, ih hd]
    rfl
  | case4 => cases ht
  | case5 c s hu hletter ih =>
    obtain ⟨⟨d, r⟩, hd, he⟩ := Option.map_eq_some_iff.mp ht
    cases he
    have hne : c ≠ 'u' := by
      rintro rfl
      cases hletter
    simp only [List.cons_append]
    rw [takeBody, if_pos hletter, ih hd]
    · rfl
    · intro _ _ _ _ _ hc
      exact absurd hc hne
  | case6 => cases ht
  | case7 => cases ht
  | case8 c s hquote hu hescape hplain ih =>
    obtain ⟨⟨d, r⟩, hd, he⟩ := Option.map_eq_some_iff.mp ht
    cases he
    have hne : c ≠ '\\' := by
      rintro rfl
      exact hplain rfl
    simp only [List.cons_append]
    rw [takeBody, if_neg hplain, ih hd]
    · rfl
    · exact hquote
    · exact fun _ _ _ _ _ hc => absurd hc hne
    · exact fun _ _ hc => absurd hc hne

theorem take_quoted (h : IsBody body) (rest : List Char) :
    take (quoted body ++ rest) = some (text body, rest) := by
  have hbody := takeBody_append h rest
  show (takeBody (body ++ ['"'] ++ rest)).map _ = _
  rw [hbody]
  rfl

/-! ## Documents -/

/-- The first part of a document is cut into these tokens, whatever its rest is
cut into. -/
def Cuts (s : List Char) (tokens : List Token) (rest : List Char) : Prop :=
  all s = (all rest).map (tokens ++ ·)

theorem Cuts.refl (s : List Char) : Cuts s [] s := by
  show all s = (all s).map id
  rw [Option.map_id]
  rfl

/-- **Pieces of a document are joined end to end.** -/
theorem Cuts.trans (h : Cuts s tokens t) (hmore : Cuts t more rest) :
    Cuts s (tokens ++ more) rest := by
  unfold Cuts at h hmore ⊢
  rw [h, hmore, Option.map_map]
  exact congrArg (Option.map · (all rest)) (funext fun ts => (List.append_assoc ..).symm)

/-- No token begins with a blank. -/
theorem isBlank_of_take (h : take (c :: s) = some (token, rest)) : isBlank c = false := by
  unfold isBlank
  simp only [Bool.or_eq_false_iff, decide_eq_false_iff_not]
  refine ⟨⟨⟨?_, ?_⟩, ?_⟩, ?_⟩ <;>
  · rintro rfl
    cases h

theorem cuts_of_take (h : take s = some (token, rest)) : Cuts s [token] rest := by
  cases s with
  | nil => cases h
  | cons c s =>
    unfold Cuts
    rw [all, if_neg (by rw [isBlank_of_take h]; decide)]
    split
    next hnone => rw [h] at hnone; cases hnone
    next hsome =>
      rw [h] at hsome
      cases hsome
      rfl

/-- Blanks between tokens count for nothing. -/
theorem cuts_blanks {blanks : List Char} (h : ∀ c ∈ blanks, isBlank c = true)
    (s : List Char) : Cuts (blanks ++ s) [] s := by
  induction blanks with
  | nil => exact .refl s
  | cons c blanks ih =>
    have hrest := ih fun d hd => h d (List.mem_cons_of_mem c hd)
    unfold Cuts at hrest ⊢
    rw [List.cons_append, all, if_pos (h c List.mem_cons_self), hrest]

end Token

end Json

end Tabletop
