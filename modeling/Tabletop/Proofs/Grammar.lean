import Tabletop.Proofs.Numerals
import Tabletop.Proofs.Words

/-!
# What a line says

A line is a command or has something wrong with it, and which of these it is
depends on its words: on the first, and after `PLACE` on the pieces of the
second. `Command.Says` is the whole list of cases, with the words and the
pieces as they stand in the line and not as something cuts them out. All
that comes later on a line is passed over.

Of several faults the first one counts, in the order of the pieces. A piece is
complained of as it stands, so it matters that no blank is ever trimmed off
it: a piece of a word has none (`Text.trim_of_solid`).

The main statement is `Command.read_eq_iff_says`: reading gives what the line
says, whatever the line.
-/

namespace Tabletop

namespace Text

/-- Where there is no blank, there is nothing to trim. -/
theorem trim_of_solid {s : List Char} (h : ∀ c ∈ s, isBlank c = false) : trim s = s := by
  have hleft : ∀ {s : List Char}, (∀ c ∈ s, isBlank c = false) → trimLeft s = s := by
    intro s h
    cases s with
    | nil => rfl
    | cons c s => simp [trimLeft, h c List.mem_cons_self]
  unfold trim
  rw [hleft h, hleft (by simpa using h), List.reverse_reverse]

end Text

namespace Direction

/-- **The name of a direction,** each of its letters in either case. Only the
letters from `A` to `Z` have two. -/
def Spells (s : List Char) (d : Direction) : Prop :=
  s.map Char.toLower = d.name.map Char.toLower

theorem sameLetters_name (d d' : Direction) :
    (d'.name.map Char.toLower = d.name.map Char.toLower) ↔ d' = d := by
  cases d <;> cases d' <;> decide

theorem read?_eq_some_iff {s : List Char} {d : Direction}
    (h : ∀ c ∈ s, Text.isBlank c = false) : read? s = some d ↔ Spells s d := by
  unfold read?
  rw [Text.trim_of_solid h]
  constructor
  · intro hfind
    have hsame := List.find?_some hfind
    exact (of_decide_eq_true hsame).symm
  · intro hspells
    have hsame : (fun d' => sameLetters d'.name s) = fun d' => decide (d' = d) := by
      funext d'
      unfold sameLetters
      rw [hspells]
      exact decide_eq_decide.mpr (sameLetters_name d d')
    rw [hsame]
    cases d <;> rfl

end Direction

namespace Command

/-- **What the three pieces of a placement say.** -/
inductive PlacementSays (a b c : List Char) : Except CommandError Command → Prop
  | badColumn (ha : ∀ x : Int32, ¬ Numeral.Denotes a x.toInt) :
      PlacementSays a b c (.error (.badCoordinate (String.ofList a)))
  | badRow {x : Int32} (ha : Numeral.Denotes a x.toInt)
      (hb : ∀ y : Int32, ¬ Numeral.Denotes b y.toInt) :
      PlacementSays a b c (.error (.badCoordinate (String.ofList b)))
  | badDirection {x y : Int32} (ha : Numeral.Denotes a x.toInt)
      (hb : Numeral.Denotes b y.toInt) (hc : ∀ d, ¬ Direction.Spells c d) :
      PlacementSays a b c (.error (.badDirection (String.ofList c)))
  | place {x y : Int32} {d : Direction} (ha : Numeral.Denotes a x.toInt)
      (hb : Numeral.Denotes b y.toInt) (hc : Direction.Spells c d) :
      PlacementSays a b c (.ok (.place x y d))

/-- The words with which a line can begin. -/
def keywords : List (List Char) :=
  ["PLACE".toList, "MOVE".toList, "LEFT".toList, "RIGHT".toList, "REPORT".toList]

/-- **What the words of a line say.** -/
inductive WordsSay : List (List Char) → Except CommandError Command → Prop
  | blank : WordsSay [] (.error .blank)
  | move (others : List (List Char)) : WordsSay ("MOVE".toList :: others) (.ok .move)
  | left (others : List (List Char)) : WordsSay ("LEFT".toList :: others) (.ok .left)
  | right (others : List (List Char)) : WordsSay ("RIGHT".toList :: others) (.ok .right)
  | report (others : List (List Char)) : WordsSay ("REPORT".toList :: others) (.ok .report)
  | unknown {word : List Char} (others : List (List Char)) (h : word ∉ keywords) :
      WordsSay (word :: others) (.error (.unknownWord (String.ofList word)))
  | noPieces : WordsSay ["PLACE".toList] (.error .tooFewPieces)
  | fewPieces {word : List Char} (others : List (List Char)) (h : word.count ',' < 2) :
      WordsSay ("PLACE".toList :: word :: others) (.error .tooFewPieces)
  | placement {word a b c : List Char} {more : List (List Char)}
      {result : Except CommandError Command} (others : List (List Char))
      (hpieces : Text.HasPieces ',' word (a :: b :: c :: more))
      (h : PlacementSays a b c result) : WordsSay ("PLACE".toList :: word :: others) result

/-- **What a line says.** -/
def Says (line : List Char) (result : Except CommandError Command) : Prop :=
  ∃ words, Text.HasWords line words ∧ WordsSay words result

/-! ## Placements -/

section Placements

variable {s a b c word : List Char} {more : List (List Char)}
  {result : Except CommandError Command}

theorem readCoordinate_of_denotes {x : Int32} (hs : ∀ c ∈ s, Text.isBlank c = false)
    (h : Numeral.Denotes s x.toInt) : readCoordinate s = .ok x := by
  unfold readCoordinate
  rw [Text.trim_of_solid hs, Numeral.toInt32?_eq_some_iff.mpr h]

/-- The piece is complained of as it stands. -/
theorem readCoordinate_of_not (hs : ∀ c ∈ s, Text.isBlank c = false)
    (h : ∀ x : Int32, ¬ Numeral.Denotes s x.toInt) :
    readCoordinate s = .error (.badCoordinate (String.ofList s)) := by
  have hnone : Numeral.toInt32? s = none := by
    refine Option.eq_none_iff_forall_ne_some.mpr fun x hx => ?_
    exact h x (Numeral.toInt32?_eq_some_iff.mp hx)
  unfold readCoordinate
  rw [Text.trim_of_solid hs, hnone]

theorem readFacing_of_spells {d : Direction} (hs : ∀ c ∈ s, Text.isBlank c = false)
    (h : Direction.Spells s d) : readFacing s = .ok d := by
  unfold readFacing
  rw [(Direction.read?_eq_some_iff hs).mpr h]

theorem readFacing_of_not (hs : ∀ c ∈ s, Text.isBlank c = false)
    (h : ∀ d, ¬ Direction.Spells s d) :
    readFacing s = .error (.badDirection (String.ofList s)) := by
  have hnone : Direction.read? s = none := by
    refine Option.eq_none_iff_forall_ne_some.mpr fun d hd => ?_
    exact h d ((Direction.read?_eq_some_iff hs).mp hd)
  unfold readFacing
  rw [hnone]

/-- A word is read from its first three pieces. -/
theorem readPlacement_of_pieces
    (hpieces : Text.HasPieces ',' word (a :: b :: c :: more)) :
    readPlacement word = (do
      let x ← readCoordinate a
      let y ← readCoordinate b
      let facing ← readFacing c
      return .place x y facing) := by
  unfold readPlacement
  rw [hpieces.fields_eq]

/-- **What is read from the pieces of a word is what they say.** -/
theorem PlacementSays.readPlacement_eq (h : PlacementSays a b c result)
    (hword : Text.IsWord word) (hpieces : Text.HasPieces ',' word (a :: b :: c :: more)) :
    readPlacement word = result := by
  have hsolid : ∀ piece ∈ a :: b :: c :: more, ∀ c ∈ piece, Text.isBlank c = false :=
    fun piece hp c hc => hword.2 c (hpieces.mem hp hc)
  have hsa := hsolid a (by simp)
  have hsb := hsolid b (by simp)
  have hsc := hsolid c (by simp)
  rw [readPlacement_of_pieces hpieces]
  cases h with
  | badColumn ha =>
    rw [readCoordinate_of_not hsa ha]
    rfl
  | badRow ha hb =>
    rw [readCoordinate_of_denotes hsa ha, readCoordinate_of_not hsb hb]
    rfl
  | badDirection ha hb hc =>
    rw [readCoordinate_of_denotes hsa ha, readCoordinate_of_denotes hsb hb,
      readFacing_of_not hsc hc]
    rfl
  | place ha hb hc =>
    rw [readCoordinate_of_denotes hsa ha, readCoordinate_of_denotes hsb hb,
      readFacing_of_spells hsc hc]
    rfl

/-- Three pieces always say something. -/
theorem exists_placementSays (a b c : List Char) : ∃ result, PlacementSays a b c result := by
  by_cases ha : ∃ x : Int32, Numeral.Denotes a x.toInt
  · obtain ⟨x, ha⟩ := ha
    by_cases hb : ∃ y : Int32, Numeral.Denotes b y.toInt
    · obtain ⟨y, hb⟩ := hb
      by_cases hc : ∃ d, Direction.Spells c d
      · obtain ⟨d, hc⟩ := hc
        exact ⟨_, .place ha hb hc⟩
      · exact ⟨_, .badDirection ha hb (not_exists.mp hc)⟩
    · exact ⟨_, .badRow ha (not_exists.mp hb)⟩
  · exact ⟨_, .badColumn (not_exists.mp ha)⟩

end Placements

/-! ## Lines -/

section Lines

variable {line word : List Char} {words : List (List Char)}
  {result : Except CommandError Command}

/-- With fewer than two commas there are fewer than three pieces. -/
theorem readPlacement_of_count_lt (h : word.count ',' < 2) :
    readPlacement word = .error .tooFewPieces := by
  have hlength := Text.length_fields ',' word
  unfold readPlacement
  split
  next a b c more he =>
    rw [he] at hlength
    simp at hlength
    omega
  · rfl

/-- With two commas or more there are three pieces or more. -/
theorem exists_hasPieces_of_count (h : ¬ word.count ',' < 2) :
    ∃ a b c more, Text.HasPieces ',' word (a :: b :: c :: more) := by
  have hpieces := Text.hasPieces_fields ',' word
  have hlength := hpieces.length_eq
  match hf : Text.fields (· = ',') word with
  | a :: b :: c :: more => exact ⟨a, b, c, more, hf ▸ hpieces⟩
  | [] | [_] | [_, _] =>
    rw [hf] at hlength
    simp only [List.length_cons, List.length_nil] at hlength
    omega

/-- **What is read from the words of a line is what they say.** -/
theorem WordsSay.readWords_eq (h : WordsSay words result)
    (hwords : ∀ word ∈ words, Text.IsWord word) : readWords words = result := by
  cases h with
  | blank => rfl
  | move others => rfl
  | left others => rfl
  | right others => rfl
  | report others => rfl
  | noPieces => rfl
  | @unknown word others hnot =>
    unfold keywords at hnot
    simp only [List.mem_cons, List.not_mem_nil, or_false, not_or] at hnot
    obtain ⟨hplace, hmove, hleft, hright, hreport⟩ := hnot
    simp only [readWords, if_neg hplace, if_neg hmove, if_neg hleft, if_neg hright,
      if_neg hreport]
  | fewPieces others hfew => exact readPlacement_of_count_lt hfew
  | @placement word a b c more result others hpieces hsays =>
    have hword : Text.IsWord word := hwords word (by simp)
    exact hsays.readPlacement_eq hword hpieces

/-- The words of a line always say something. -/
theorem exists_wordsSay (words : List (List Char)) : ∃ result, WordsSay words result := by
  cases words with
  | nil => exact ⟨_, .blank⟩
  | cons word others =>
    by_cases hkeyword : word ∈ keywords
    · unfold keywords at hkeyword
      simp only [List.mem_cons, List.not_mem_nil, or_false] at hkeyword
      rcases hkeyword with rfl | rfl | rfl | rfl | rfl
      · cases others with
        | nil => exact ⟨_, .noPieces⟩
        | cons word others =>
          by_cases hfew : word.count ',' < 2
          · exact ⟨_, .fewPieces others hfew⟩
          · obtain ⟨a, b, c, more, hpieces⟩ := exists_hasPieces_of_count hfew
            obtain ⟨result, hsays⟩ := exists_placementSays a b c
            exact ⟨result, .placement others hpieces hsays⟩
      · exact ⟨_, .move others⟩
      · exact ⟨_, .left others⟩
      · exact ⟨_, .right others⟩
      · exact ⟨_, .report others⟩
    · exact ⟨_, .unknown others hkeyword⟩

theorem Says.read_eq (h : Says line result) : read line = result := by
  obtain ⟨words, hwords, hsay⟩ := h
  unfold read
  rw [hwords.words_eq]
  exact hsay.readWords_eq fun _ => hwords.isWord

theorem exists_says (line : List Char) : ∃ result, Says line result := by
  obtain ⟨words, hwords⟩ := Text.exists_hasWords line
  obtain ⟨result, hsay⟩ := exists_wordsSay words
  exact ⟨result, words, hwords, hsay⟩

/-- **The grammar of a line.** What is read from a line is what it says, and
the lines with a command are those that say one. -/
theorem read_eq_iff_says (line : List Char) :
    (∀ result, read line = result ↔ Says line result)
      ∧ ∀ command, read? line = some command ↔ Says line (.ok command) := by
  have hread : ∀ result, read line = result ↔ Says line result := by
    intro result
    refine ⟨?_, Says.read_eq⟩
    rintro rfl
    obtain ⟨result, h⟩ := exists_says line
    rw [h.read_eq]
    exact h
  refine ⟨hread, fun command => ?_⟩
  rw [← hread]
  unfold read?
  cases read line <;> simp [Except.toOption]

/-- The second piece is the first with something wrong with it. -/
example : read "PLACE +01,2147483648,Up,1 MOVE".toList
    = .error (.badCoordinate "2147483648") := by decide

end Lines

end Command

end Tabletop
