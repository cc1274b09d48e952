import Mathlib.Data.Bool.AllAny
import Tabletop.Proofs.Grammar

/-!
# Reading back what was written

A command that is written on a line and read again is the same command. The
line may hold more than that: blanks in front, and anything at all behind as
long as a blank sets it apart (`Command.Holds`). A text may hold more than the
lines of its commands: any number of lines that are no commands, and line ends
of both kinds (`Text.MadeOf`). Nothing of this is seen in what is read, so a
batch is read back from every text that carries it
(`Command.readAll_of_carries`).

The written form and the reader have nothing in common but the keywords, so
what is written is brought under the grammar of `Command.Says` first: its
words, the pieces of the second one, and the integers that they denote.
-/

namespace Tabletop

namespace Text

/-- **A text made of lines.** A line ends with a line feed, which may have a
carriage return before it, and the last line need not end at all. -/
inductive MadeOf : List (List Char) → List Char → Prop
  | empty : MadeOf [] []
  | unended {line : List Char} (hline : '\n' ∉ line) : MadeOf [line] line
  | feed {line text : List Char} {lines : List (List Char)} (hline : '\n' ∉ line)
      (hrest : MadeOf lines text) : MadeOf (line :: lines) (line ++ '\n' :: text)
  | returnFeed {line text : List Char} {lines : List (List Char)} (hline : '\n' ∉ line)
      (hrest : MadeOf lines text) : MadeOf (line :: lines) (line ++ '\r' :: '\n' :: text)

/-- A digit is not blank. -/
theorem isBlank_of_isDigit {c : Char} (h : c.isDigit = true) : isBlank c = false := by
  have hbounds : 48 ≤ c.toNat ∧ c.toNat ≤ 57 := by
    simpa [Char.isDigit, UInt32.le_iff_toNat_le] using h
  unfold isBlank
  simp only [Bool.or_eq_false_iff, Bool.and_eq_false_imp, decide_eq_true_eq,
    decide_eq_false_iff_not, not_le]
  omega

/-- A blank is no letter. -/
theorem toLower_of_isBlank {c : Char} (h : isBlank c = true) : c.toLower = c := by
  have hupper : ¬ (65 ≤ c.toNat ∧ c.toNat ≤ 90) := by
    unfold isBlank at h
    simp only [Bool.or_eq_true, Bool.and_eq_true, decide_eq_true_eq] at h
    omega
  unfold Char.toLower
  rw [dif_neg]
  simpa [UInt32.le_iff_toNat_le] using hupper

end Text

namespace Command

variable {line text : List Char} {lines : List (List Char)} {batch : List Command}
  {command : Command}

/-- **A line that holds a command:** the command as it is written, with blanks
before it, and after it the end of the line or a blank and anything else. -/
def Holds (line : List Char) (command : Command) : Prop :=
  ∃ gap rest, Text.IsGap gap ∧ (∀ c ∈ rest.head?, Text.isBlank c = true)
    ∧ line = gap ++ command.text ++ rest

/-- **Lines that carry a batch:** its commands in order, each on a line of its
own, and between them lines that are no commands. -/
inductive Carries : List (List Char) → List Command → Prop
  | empty : Carries [] []
  | command {line : List Char} {lines : List (List Char)} {command : Command}
      {batch : List Command} (hline : Holds line command) (hrest : Carries lines batch) :
      Carries (line :: lines) (command :: batch)
  | other {line : List Char} {lines : List (List Char)} {batch : List Command}
      (hline : read? line = none) (hrest : Carries lines batch) :
      Carries (line :: lines) batch

/-! ## One command -/

/-- The written direction is its name in capital letters. -/
theorem spells_upper (d : Direction) : Direction.Spells (d.name.map Char.toUpper) d := by
  unfold Direction.Spells
  cases d <;> decide

/-- A name of a direction is a word, without commas. -/
theorem spells_solid {word : List Char} {d : Direction} (h : Direction.Spells word d) {c : Char}
    (hc : c ∈ word) : Text.isBlank c = false ∧ c ≠ ',' := by
  have hnames : ∀ c ∈ d.name.map Char.toLower, Text.isBlank c = false ∧ c ≠ ',' :=
    List.all_iff_forall_prop.mp (by cases d <;> decide)
  have hmem : c.toLower ∈ d.name.map Char.toLower := h ▸ List.mem_map_of_mem hc
  -- A blank and a comma are what they are in either letter case.
  refine ⟨Bool.eq_false_iff.mpr fun hblank => ?_, ?_⟩
  · rw [Text.toLower_of_isBlank hblank] at hmem
    exact Bool.eq_false_iff.mp (hnames c hmem).1 hblank
  · rintro rfl
    exact (hnames _ hmem).2 rfl

theorem ofInt_solid {i : Int} {c : Char} (h : c ∈ Numeral.ofInt i) :
    Text.isBlank c = false ∧ c ≠ ',' := by
  rcases Numeral.mem_ofInt h with rfl | hdigit
  · decide
  · refine ⟨Text.isBlank_of_isDigit hdigit, ?_⟩
    rintro rfl
    cases hdigit

/-- What stands after the keyword of a placement, with a word for the
direction. -/
def placementWith (x y : Int32) (word : List Char) : List Char :=
  Numeral.ofInt x.toInt ++ ',' :: Numeral.ofInt y.toInt ++ ',' :: word

section Placements

variable {d : Direction} {word gap rest : List Char}

/-- What stands after `PLACE` is one word. -/
theorem isWord_placement (x y : Int32) (h : Direction.Spells word d) :
    Text.IsWord (placementWith x y word) := by
  refine ⟨by simp [placementWith], fun c hc => ?_⟩
  unfold placementWith at hc
  simp only [List.mem_append, List.mem_cons] at hc
  rcases hc with (hc | rfl | hc) | rfl | hc
  · exact (ofInt_solid hc).1
  · rfl
  · exact (ofInt_solid hc).1
  · rfl
  · exact (spells_solid h hc).1

/-- Its pieces are the coordinates and the direction. -/
theorem hasPieces_placement (x y : Int32) (h : Direction.Spells word d) :
    Text.HasPieces ',' (placementWith x y word)
      [Numeral.ofInt x.toInt, Numeral.ofInt y.toInt, word] where
  nonempty := List.cons_ne_nil _ _
  unbroken := by
    simp only [List.forall_mem_cons]
    refine ⟨fun h => (ofInt_solid h).2 rfl, fun h => (ofInt_solid h).2 rfl,
      fun hc => (spells_solid h hc).2 rfl, by simp⟩
  joined := by simp [placementWith, List.intercalate]

/-- **A written placement says itself,** whatever words come after it. -/
theorem wordsSay_placement (x y : Int32) (h : Direction.Spells word d)
    (others : List (List Char)) :
    WordsSay ("PLACE".toList :: placementWith x y word :: others) (.ok (.place x y d)) :=
  .placement others (hasPieces_placement x y h)
    (.place (Numeral.denotes_ofInt _) (Numeral.denotes_ofInt _) h)

/-- A placement between blanks is said by its line. -/
theorem says_of_placement (x y : Int32) (h : Direction.Spells word d) (hgap : Text.IsGap gap)
    (hrest : ∀ c ∈ rest.head?, Text.isBlank c = true) :
    Says (gap ++ ("PLACE ".toList ++ placementWith x y word) ++ rest) (.ok (.place x y d)) := by
  obtain ⟨others, hothers⟩ := Text.exists_hasWords rest
  have hblank : Text.IsGap [' '] := by decide
  have hkeyword : Text.IsWord "PLACE".toList := by decide
  have htail := Text.HasWords.cons hblank (isWord_placement x y h) hrest hothers
  have hnext : ∀ c ∈ ([' '] ++ placementWith x y word ++ rest).head?,
      Text.isBlank c = true := by
    rintro c ⟨⟩
    rfl
  have hwords := Text.HasWords.cons hgap hkeyword hnext htail
  have hsplit : gap ++ ("PLACE ".toList ++ placementWith x y word) ++ rest
      = gap ++ "PLACE".toList ++ ([' '] ++ placementWith x y word ++ rest) := by
    simp only [List.append_assoc]
    rfl
  rw [hsplit]
  exact ⟨_, hwords, wordsSay_placement x y h others⟩

/-- A placement stays on its line. -/
theorem feed_not_mem_placement (x y : Int32) (h : Direction.Spells word d) :
    '\n' ∉ "PLACE ".toList ++ placementWith x y word := by
  intro hmem
  rcases List.mem_append.mp hmem with hmem | hmem
  · revert hmem
    decide
  · exact absurd ((isWord_placement x y h).2 _ hmem) (by decide)

end Placements

/-- A written command is one line. -/
theorem feed_not_mem_text (command : Command) : '\n' ∉ command.text := by
  cases command with
  | place x y d => exact feed_not_mem_placement x y (spells_upper d)
  | move => decide
  | left => decide
  | right => decide
  | report => decide

theorem isWord_keyword (command : Command) : Text.IsWord command.keyword := by
  have hwords : ∀ word ∈ keywords, Text.IsWord word := by decide
  cases command with
  | place => exact hwords "PLACE".toList (by decide)
  | move => exact hwords "MOVE".toList (by decide)
  | left => exact hwords "LEFT".toList (by decide)
  | right => exact hwords "RIGHT".toList (by decide)
  | report => exact hwords "REPORT".toList (by decide)

/-- **A line that holds a command says it.** -/
theorem says_of_holds (h : Holds line command) : Says line (.ok command) := by
  obtain ⟨gap, rest, hgap, hrest, rfl⟩ := h
  obtain ⟨others, hothers⟩ := Text.exists_hasWords rest
  have hword := isWord_keyword command
  cases command with
  | place x y d => exact says_of_placement x y (spells_upper d) hgap hrest
  | move => exact ⟨_, .cons hgap hword hrest hothers, .move others⟩
  | left => exact ⟨_, .cons hgap hword hrest hothers, .left others⟩
  | right => exact ⟨_, .cons hgap hword hrest hothers, .right others⟩
  | report => exact ⟨_, .cons hgap hword hrest hothers, .report others⟩

theorem Holds.read? (h : Holds line command) : read? line = some command := by
  unfold Command.read?
  rw [(says_of_holds h).read_eq]
  rfl

/-! ## Many lines -/

/-- A text without line feeds is one line. -/
theorem readAll_of_line (h : '\n' ∉ line) : readAll line = (read? line).toList := by
  have hone : Text.fields (· = '\n') line = [line] := by
    refine Text.fields_of_unbroken fun c hc => decide_eq_false ?_
    rintro rfl
    exact h hc
  rw [readAll_eq, hone, List.filterMap_cons]
  cases read? line <;> rfl

/-- **A text is read line by line,** whatever its line ends. -/
theorem readAll_of_madeOf (h : Text.MadeOf lines text) : readAll text = lines.filterMap read? := by
  have hcons : ∀ (line : List Char) (lines : List (List Char)),
      (line :: lines).filterMap read? = (read? line).toList ++ lines.filterMap read? := by
    intro line lines
    rw [List.filterMap_cons]
    cases read? line <;> rfl
  induction h with
  | empty => rfl
  | unended hline =>
    rw [readAll_of_line hline, hcons]
    exact (List.append_nil _).symm
  | feed hline _ ih => rw [readAll_append, readAll_of_line hline, ih, hcons]
  | @returnFeed line text lines hline _ ih =>
    -- To the line feed, the carriage return is one blank more on the line.
    have hreturn : '\n' ∉ line ++ ['\r'] := by simpa using hline
    rw [List.append_cons line '\r', readAll_append, readAll_of_line hreturn, read?_concat rfl,
      ih, hcons]

theorem filterMap_of_carries (h : Carries lines batch) : lines.filterMap read? = batch := by
  induction h with
  | empty => rfl
  | command hline _ ih => rw [List.filterMap_cons, hline.read?, ih]
  | other hline _ ih => rw [List.filterMap_cons, hline, ih]

/-- **What was written is read back.** From every text whose lines carry a
batch, the batch is read and nothing else. -/
theorem readAll_of_carries (hlines : Carries lines batch) (htext : Text.MadeOf lines text) :
    readAll text = batch := by
  rw [readAll_of_madeOf htext]
  exact filterMap_of_carries hlines

/-- The first line holds no command and ends with both characters, the second
holds a placement at the extreme coordinates between blanks, and the last one
has no end. -/
theorem readAll_of_noise :
    Carries ["move".toList, "\t\u3000PLACE -2147483648,2147483647,SOUTH 9".toList,
        "REPORT\r".toList] [.place (-2147483648) 2147483647 .south, .report]
      ∧ Text.MadeOf ["move".toList, "\t\u3000PLACE -2147483648,2147483647,SOUTH 9".toList,
        "REPORT\r".toList]
        ("move".toList ++ '\r' :: '\n' :: ("\t\u3000PLACE -2147483648,2147483647,SOUTH 9".toList
          ++ '\n' :: "REPORT\r".toList))
      ∧ readAll ("move".toList ++ '\r' :: '\n' ::
          ("\t\u3000PLACE -2147483648,2147483647,SOUTH 9".toList ++ '\n' :: "REPORT\r".toList))
        = [.place (-2147483648) 2147483647 .south, .report] := by
  have hplace : Holds "\t\u3000PLACE -2147483648,2147483647,SOUTH 9".toList
      (.place (-2147483648) 2147483647 .south) :=
    ⟨"\t\u3000".toList, " 9".toList, by decide, by rintro c ⟨⟩; rfl, by decide +kernel⟩
  have hreport : Holds "REPORT\r".toList .report :=
    ⟨[], ['\r'], by decide, by rintro c ⟨⟩; rfl, by decide⟩
  have hcarries := Carries.other (by decide : read? "move".toList = none)
    (.command hplace (.command hreport .empty))
  have hfirst : '\n' ∉ "move".toList := by decide
  have hsecond : '\n' ∉ "\t\u3000PLACE -2147483648,2147483647,SOUTH 9".toList := by decide
  have hlast : '\n' ∉ "REPORT\r".toList := by decide
  have hmade := Text.MadeOf.returnFeed hfirst (.feed hsecond (.unended hlast))
  exact ⟨hcarries, hmade, readAll_of_carries hcarries hmade⟩

end Command

end Tabletop
