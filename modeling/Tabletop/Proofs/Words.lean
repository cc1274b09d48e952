import Tabletop.Proofs.Lines

/-!
# Words and pieces

`Text.words` and `Text.fields` cut a text while they go along it. Here it is
said what they cut out, without going along anything. `HasWords` is about a
text and its words: each of them is a run of characters that are not blank,
with nothing but blanks before it and a blank or the end of the text after
it, so none could be longer. `HasPieces` is about a text and its pieces: no
piece has the separator in it, and with a separator between any two of them
they make up the text.

Both determine the cut, so reading along the text is right exactly if it finds
it: `words_eq_iff` and `fields_eq_iff`.
-/

namespace Tabletop

namespace Text

/-- Nothing but blanks. -/
def IsGap (s : List Char) : Prop := ∀ c ∈ s, isBlank c = true

/-- At least one character, and no blank. -/
def IsWord (s : List Char) : Prop := s ≠ [] ∧ ∀ c ∈ s, isBlank c = false

instance (s : List Char) : Decidable (IsGap s) := List.decidableBAll _ s

instance (s : List Char) : Decidable (IsWord s) :=
  have := List.decidableBAll (isBlank · = false) s
  inferInstanceAs (Decidable (s ≠ [] ∧ ∀ c ∈ s, isBlank c = false))

/-- **The words of a text,** in order. -/
inductive HasWords : List Char → List (List Char) → Prop
  /-- A gap has no words. -/
  | none {gap : List Char} (hgap : IsGap gap) : HasWords gap []
  /-- The first word ends with the text or before a blank. -/
  | cons {gap word rest : List Char} {words : List (List Char)} (hgap : IsGap gap)
      (hword : IsWord word) (hend : ∀ c ∈ rest.head?, isBlank c = true)
      (hrest : HasWords rest words) : HasWords (gap ++ word ++ rest) (word :: words)

/-- **The pieces of a text** between its separators, in order. -/
structure HasPieces (separator : Char) (s : List Char) (pieces : List (List Char)) :
    Prop where
  /-- A text without a separator is one piece. -/
  nonempty : pieces ≠ []
  /-- No piece goes past a separator. -/
  unbroken : ∀ piece ∈ pieces, separator ∉ piece
  /-- Nothing is lost. -/
  joined : [separator].intercalate pieces = s

/-! ## Words -/

section Words

variable {c : Char} {s gap word rest : List Char} {ws : List (List Char)}

/-- A text without separators is one field. -/
theorem fields_of_unbroken {separates : Char → Bool} (h : ∀ c ∈ s, separates c = false) :
    fields separates s = [s] := by
  induction s with
  | nil => rfl
  | cons c s ih =>
    have hc : separates c = false := h c List.mem_cons_self
    rw [fields, hc, ih fun a ha => h a (List.mem_cons_of_mem c ha)]
    rfl

/-- A blank in front adds no word to a text. -/
theorem words_cons (hc : isBlank c = true) (s : List Char) : words (c :: s) = words s := by
  show ((fields isBlank (c :: s)).filter _) = _
  rw [fields, if_pos hc]
  rfl

theorem words_of_gap (hgap : IsGap gap) : words gap = [] := by
  induction gap with
  | nil => rfl
  | cons c gap ih =>
    rw [words_cons (hgap c List.mem_cons_self)]
    exact ih fun a ha => hgap a (List.mem_cons_of_mem c ha)

theorem words_append_of_gap (hgap : IsGap gap) (s : List Char) :
    words (gap ++ s) = words s := by
  induction gap with
  | nil => rfl
  | cons c gap ih =>
    rw [List.cons_append, words_cons (hgap c List.mem_cons_self)]
    exact ih fun a ha => hgap a (List.mem_cons_of_mem c ha)

theorem words_of_word (hword : IsWord word) : words word = [word] := by
  unfold words
  rw [fields_of_unbroken hword.2]
  simp [hword.1]

/-- A word ends before a blank. -/
theorem words_append_of_word (hword : IsWord word)
    (hend : ∀ c ∈ rest.head?, isBlank c = true) :
    words (word ++ rest) = word :: words rest := by
  cases rest with
  | nil =>
    rw [List.append_nil]
    exact words_of_word hword
  | cons c rest =>
    have hc : isBlank c = true := hend c rfl
    rw [words_cons hc]
    unfold words
    rw [fields_append hc, List.filter_append]
    show words word ++ _ = _
    rw [words_of_word hword]
    rfl

theorem HasWords.words_eq (h : HasWords s ws) : words s = ws := by
  induction h with
  | none hgap => exact words_of_gap hgap
  | cons hgap hword hend _ ih =>
    rw [List.append_assoc, words_append_of_gap hgap, words_append_of_word hword hend, ih]

/-- A blank in front makes the first gap longer. -/
theorem HasWords.blank (hc : isBlank c = true) (h : HasWords s ws) : HasWords (c :: s) ws := by
  have hlonger : ∀ {gap}, IsGap gap → IsGap (c :: gap) := fun hgap =>
    List.forall_mem_cons.mpr ⟨hc, hgap⟩
  cases h with
  | none hgap => exact .none (hlonger hgap)
  | cons hgap hword hend hrest => exact .cons (hlonger hgap) hword hend hrest

/-- A text that starts with a word has it as its first word. -/
theorem HasWords.wordFirst (hword : IsWord word) (hend : ∀ c ∈ rest.head?, isBlank c = true)
    (h : HasWords rest ws) : HasWords (word ++ rest) (word :: ws) := by
  have hgap : IsGap [] := by simp [IsGap]
  exact HasWords.cons hgap hword hend h

/-- Any other character in front makes the first word longer, or is a word of
its own if there is a gap after it. -/
theorem HasWords.solid (hc : isBlank c = false) (h : HasWords s ws) :
    ∃ ws, HasWords (c :: s) ws := by
  have hone : IsWord [c] := ⟨List.cons_ne_nil c [], by simpa using hc⟩
  cases h with
  | none hgap =>
    exact ⟨_, .wordFirst hone (fun a ha => hgap a (List.mem_of_mem_head? ha)) (.none hgap)⟩
  | @cons gap word rest words hgap hword hend hrest =>
    cases gap with
    | nil =>
      have hlonger : IsWord (c :: word) :=
        ⟨List.cons_ne_nil c word, List.forall_mem_cons.mpr ⟨hc, hword.2⟩⟩
      exact ⟨_, .wordFirst hlonger hend hrest⟩
    | cons b gap =>
      have hb : isBlank b = true := hgap b List.mem_cons_self
      exact ⟨_, .wordFirst hone (by simpa using hb) (.cons hgap hword hend hrest)⟩

theorem exists_hasWords (s : List Char) : ∃ ws, HasWords s ws := by
  induction s with
  | nil => exact ⟨[], .none nofun⟩
  | cons c s ih =>
    obtain ⟨ws, h⟩ := ih
    cases hc : isBlank c with
    | true => exact ⟨ws, h.blank hc⟩
    | false => exact h.solid hc

/-- **What is read as the words of a text are its words.** -/
theorem words_eq_iff : words s = ws ↔ HasWords s ws := by
  refine ⟨?_, HasWords.words_eq⟩
  rintro rfl
  obtain ⟨ws, h⟩ := exists_hasWords s
  rw [h.words_eq]
  exact h

theorem HasWords.isWord (h : HasWords s ws) (hmem : word ∈ ws) : IsWord word := by
  induction h with
  | none => cases hmem
  | cons _ hword _ _ ih =>
    rcases List.mem_cons.mp hmem with rfl | hmem
    · exact hword
    · exact ih hmem

end Words

/-! ## Pieces -/

section Pieces

variable {separator c : Char} {s piece : List Char} {pieces : List (List Char)}

theorem intercalate_cons (separator : Char) (piece : List Char) (h : pieces ≠ []) :
    [separator].intercalate (piece :: pieces)
      = piece ++ separator :: [separator].intercalate pieces := by
  obtain ⟨next, others, rfl⟩ := List.exists_cons_of_ne_nil h
  simp [List.intercalate]

theorem intercalate_consFirst (separator : Char) (h : pieces ≠ []) :
    [separator].intercalate (consFirst c pieces) = c :: [separator].intercalate pieces := by
  obtain ⟨piece, others, rfl⟩ := List.exists_cons_of_ne_nil h
  show [separator].intercalate ((c :: piece) :: others) = _
  cases others with
  | nil => simp [List.intercalate]
  | cons next others =>
    rw [intercalate_cons _ _ (List.cons_ne_nil _ _), intercalate_cons _ _ (List.cons_ne_nil _ _)]
    rfl

theorem hasPieces_fields (separator : Char) (s : List Char) :
    HasPieces separator s (fields (· = separator) s) where
  nonempty := fields_ne_nil s
  unbroken := by
    induction s with
    | nil => simp [fields]
    | cons c s ih =>
      rw [fields]
      by_cases hc : c = separator
      · simpa [hc] using ih
      · obtain ⟨piece, others, he⟩ := List.exists_cons_of_ne_nil
          (fields_ne_nil s)
        rw [he] at ih ⊢
        simpa [hc, consFirst, Ne.symm hc] using ih
  joined := by
    induction s with
    | nil => rfl
    | cons c s ih =>
      rw [fields]
      by_cases hc : c = separator
      · rw [if_pos (by simpa using hc), intercalate_cons _ _ (fields_ne_nil s), ih, hc]
        rfl
      · rw [if_neg (by simpa using hc), intercalate_consFirst _ (fields_ne_nil s), ih]

theorem HasPieces.fields_eq (h : HasPieces separator s pieces) :
    fields (· = separator) s = pieces := by
  obtain ⟨hne, hunbroken, rfl⟩ := h
  induction pieces with
  | nil => exact absurd rfl hne
  | cons piece others ih =>
    have hpiece : fields (· = separator) piece = [piece] := by
      refine fields_of_unbroken fun a ha => decide_eq_false ?_
      rintro rfl
      exact hunbroken piece List.mem_cons_self ha
    by_cases ho : others = []
    · subst ho
      simpa [List.intercalate] using hpiece
    · rw [intercalate_cons _ _ ho, fields_append (by simp), hpiece,
        ih ho fun p hp => hunbroken p (List.mem_cons_of_mem piece hp)]
      rfl

/-- **What is read as the pieces of a text are its pieces.** -/
theorem fields_eq_iff : fields (· = separator) s = pieces ↔ HasPieces separator s pieces :=
  ⟨fun h => h ▸ hasPieces_fields separator s, HasPieces.fields_eq⟩

/-- There is one piece more than there are separators. -/
theorem length_fields (separator : Char) (s : List Char) :
    (fields (· = separator) s).length = s.count separator + 1 := by
  induction s with
  | nil => rfl
  | cons c s ih =>
    rw [fields, List.count_cons]
    by_cases hc : c = separator
    · simp [hc, ih]
    · obtain ⟨piece, others, he⟩ := List.exists_cons_of_ne_nil
        (fields_ne_nil s)
      rw [he] at ih ⊢
      simpa [hc, consFirst] using ih

theorem HasPieces.length_eq (h : HasPieces separator s pieces) :
    pieces.length = s.count separator + 1 := by
  rw [← h.fields_eq]
  exact length_fields separator s

/-- Every character of a piece is one of the text. -/
theorem HasPieces.mem (h : HasPieces separator s pieces) (hp : piece ∈ pieces) (hc : c ∈ piece) :
    c ∈ s := by
  obtain ⟨hne, -, rfl⟩ := h
  induction pieces with
  | nil => cases hp
  | cons first others ih =>
    by_cases ho : others = []
    · subst ho
      obtain rfl := List.mem_singleton.mp hp
      simpa [List.intercalate] using hc
    · rw [intercalate_cons _ _ ho]
      rcases List.mem_cons.mp hp with rfl | hp
      · exact List.mem_append_left _ hc
      · exact List.mem_append_right _ (List.mem_cons_of_mem _ (ih hp ho))

end Pieces

end Text

end Tabletop
