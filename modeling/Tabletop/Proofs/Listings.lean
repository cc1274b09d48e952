import Mathlib.Data.List.DropRight
import Tabletop.Listing
import Tabletop.Proofs.Coding
import Tabletop.Proofs.Planning
import Tabletop.Proofs.Rereading

/-!
# What a listing shows

A listing goes through the lines of a text once more, by itself: it numbers
them, asks of each whether it is a command, and of the others whether there is
anything left when blanks are trimmed off. The reader of batches cuts the text
at the same lines but knows no numbers, and a line without words is to it one
that is no command. So that the two agree has to be shown: the commands of a
listing are those that are read from the text, and a line is shown in one place
or, if it is blank, nowhere (`Listing.Accounts`).

The listing itself is a text again. Nothing that it shows of a line has a line
feed in it, so it can be cut back into what it was put together from
(`Listing.rows`), and the main statement, `Listing.accounts_of_read`, is about
these lines.
-/

namespace Tabletop

/-! ## Blank lines -/

namespace Text

variable {line : List Char}

theorem trimLeft_eq_nil_iff : trimLeft line = [] ↔ IsGap line := List.dropWhile_eq_nil_iff

/-- Nothing is left of a text by trimming if and only if it has no word. -/
theorem trim_eq_nil_iff : trim line = [] ↔ IsGap line := by
  have hreverse : IsGap (trimLeft line).reverse ↔ IsGap (trimLeft line) := by
    simp [IsGap]
  unfold trim
  rw [List.reverse_eq_nil_iff, trimLeft_eq_nil_iff, hreverse, ← trimLeft_eq_nil_iff]
  unfold trimLeft
  rw [List.dropWhile_idempotent, List.dropWhile_eq_nil_iff]
  rfl

/-- Lines with their ends. -/
def ended (lines : List (List Char)) : List Char := lines.flatMap (· ++ ['\n'])

/-- Lines that are put together are cut apart again. -/
theorem fields_ended {lines : List (List Char)} (h : ∀ line ∈ lines, '\n' ∉ line)
    (rest : List Char) :
    fields (· = '\n') (ended lines ++ rest) = lines ++ fields (· = '\n') rest := by
  induction lines with
  | nil => rfl
  | cons line lines ih =>
    have hline : ∀ c ∈ line, decide (c = '\n') = false := by
      rintro c hc
      refine decide_eq_false ?_
      rintro rfl
      exact h line List.mem_cons_self hc
    have hsplit : ended (line :: lines) ++ rest = line ++ '\n' :: (ended lines ++ rest) := by
      simp [ended]
    rw [hsplit, fields_append rfl, fields_of_unbroken hline,
      ih fun l hl => h l (List.mem_cons_of_mem _ hl)]
    rfl

/-- A line ends before a line feed. -/
theorem feed_not_mem_lines {text : List Char} (h : line ∈ lines text) : '\n' ∉ line := by
  fun_induction lines text generalizing line with
  | case1 => cases h
  | case2 rest ih =>
    rcases List.mem_cons.mp h with rfl | h
    · exact List.not_mem_nil
    · exact ih h
  | case3 rest ih =>
    rcases List.mem_cons.mp h with rfl | h
    · exact List.not_mem_nil
    · exact ih h
  | case4 c rest hfeed _ ih =>
    -- The character goes in front of the first line of the rest, if there is one.
    have hc : '\n' ≠ c := fun h => hfeed h.symm
    cases hlines : lines rest with
    | nil =>
      rw [hlines] at h
      cases List.mem_singleton.mp h
      simpa using hc
    | cons first others =>
      rw [hlines] at h ih
      rcases List.mem_cons.mp h with rfl | h
      · simpa [hc] using ih List.mem_cons_self
      · exact ih (List.mem_cons_of_mem _ h)

end Text

/-- A blank line is no command. -/
theorem Command.read?_of_gap {line : List Char} (h : Text.IsGap line) : read? line = none := by
  unfold read? read
  rw [Text.words_of_gap h]
  rfl

namespace Listing

/-! ## The sorting of lines -/

variable {text line : List Char} {number : Nat} {command : Command}

/-- The line of a text with a number, counted from one. -/
def LineAt (text : List Char) (number : Nat) (line : List Char) : Prop :=
  (line, number) ∈ (Text.lines text).zipIdx 1

/-- The command on a line, with the number of the line. -/
def kept? (p : List Char × Nat) : Option (Numbered Command) :=
  (Command.read? p.1).map fun command => (p.2, command)

/-- The line with its number, if it is passed over and is not blank. -/
def dropped? (p : List Char × Nat) : Option (Numbered (List Char)) :=
  if Command.read? p.1 = none ∧ ¬ Text.IsGap p.1 then some (p.2, p.1) else none

theorem kept_sortLines (lines : List (List Char)) (number : Nat) :
    (sortLines number lines).kept = (lines.zipIdx number).filterMap kept? := by
  induction lines generalizing number with
  | nil => rfl
  | cons line rest ih =>
    rw [sortLines, List.zipIdx_cons, List.filterMap_cons, ← ih, kept?]
    cases Command.read? line with
    | some command => rfl
    | none =>
      dsimp only
      split <;> rfl

theorem dropped_sortLines (lines : List (List Char)) (number : Nat) :
    (sortLines number lines).dropped = (lines.zipIdx number).filterMap dropped? := by
  induction lines generalizing number with
  | nil => rfl
  | cons line rest ih =>
    rw [sortLines, List.zipIdx_cons, List.filterMap_cons, ← ih, dropped?]
    cases hread : Command.read? line with
    | some command => simp
    | none =>
      simp only [List.isEmpty_iff, Text.trim_eq_nil_iff]
      by_cases hgap : Text.IsGap line
      · simp [hgap]
      · simp [hgap]

/-- What is taken from numbered lines, with their numbers, is in order. -/
theorem ascending_filterMap {α : Type} {f : List Char × Nat → Option (Numbered α)}
    (hf : ∀ p q, f p = some q → q.1 = p.2) (lines : List (List Char)) (number : Nat) :
    ((lines.zipIdx number).filterMap f).Pairwise fun p q => p.1 < q.1 := by
  have hnumbers : ((lines.zipIdx number).map Prod.snd).Pairwise (· < ·) := by
    rw [List.zipIdx_map_snd]
    exact List.pairwise_lt_range' 1
  refine List.Pairwise.filterMap f ?_ (List.pairwise_map.mp hnumbers)
  intro p p' hlt q hq q' hq'
  rw [hf p q hq, hf p' q' hq']
  exact hlt

theorem number_of_kept? {p : List Char × Nat} {q : Numbered Command} (h : kept? p = some q) :
    q.1 = p.2 := by
  obtain ⟨command, -, rfl⟩ := Option.map_eq_some_iff.mp h
  rfl

theorem number_of_dropped? {p : List Char × Nat} {q : Numbered (List Char)}
    (h : dropped? p = some q) : q.1 = p.2 := by
  unfold dropped? at h
  split at h
  · cases h
    rfl
  · cases h

theorem mem_kept_iff : (number, command) ∈ (sort text).kept ↔
    ∃ line, LineAt text number line ∧ Command.read? line = some command := by
  rw [sort, kept_sortLines, List.mem_filterMap]
  constructor
  · rintro ⟨⟨line, number'⟩, hline, hkept⟩
    obtain ⟨command', hread, hpair⟩ := Option.map_eq_some_iff.mp hkept
    cases hpair
    exact ⟨line, hline, hread⟩
  · rintro ⟨line, hline, hread⟩
    exact ⟨(line, number), hline, by rw [kept?, hread]; rfl⟩

theorem mem_dropped_iff : (number, line) ∈ (sort text).dropped ↔
    LineAt text number line ∧ Command.read? line = none ∧ ¬ Text.IsGap line := by
  rw [sort, dropped_sortLines, List.mem_filterMap]
  constructor
  · rintro ⟨⟨line', number'⟩, hline, hdropped⟩
    unfold dropped? at hdropped
    split at hdropped
    next h =>
      cases hdropped
      exact ⟨hline, h⟩
    next => cases hdropped
  · rintro ⟨hline, h⟩
    exact ⟨(line, number), hline, if_pos h⟩

/-- A text has one line with a number. -/
theorem LineAt.unique {line' : List Char} (h : LineAt text number line)
    (h' : LineAt text number line') : line = line' := by
  obtain ⟨-, hline⟩ := List.mk_mem_zipIdx_iff_le_and_getElem?_sub.mp h
  obtain ⟨-, hline'⟩ := List.mk_mem_zipIdx_iff_le_and_getElem?_sub.mp h'
  exact Option.some.inj (hline.symm.trans hline')

/-- **The commands of a listing are those of the text.** -/
theorem commands_sort (text : List Char) : (sort text).commands = Command.readAll text := by
  have hlines : Text.lines text = ((Text.lines text).zipIdx 1).map Prod.fst :=
    (List.zipIdx_map_fst ..).symm
  unfold Sorting.commands sort Command.readAll
  rw [kept_sortLines, List.map_filterMap]
  conv_rhs => rw [hlines, List.filterMap_map]
  refine List.filterMap_congr fun p _ => ?_
  unfold kept?
  rw [Option.map_map]
  exact Option.map_id'

/-- What a sorting of the lines of a text has to be. -/
structure Accounts (text : List Char) (s : Sorting) : Prop where
  /-- The commands are those of the lines that are commands. -/
  kept : ∀ number command, (number, command) ∈ s.kept ↔
    ∃ line, LineAt text number line ∧ Command.read? line = some command
  /-- The lines passed over are those that are no commands and not blank. -/
  dropped : ∀ number line, (number, line) ∈ s.dropped ↔
    LineAt text number line ∧ Command.read? line = none ∧ ∃ c ∈ line, Text.isBlank c = false
  /-- The commands are in the order of their lines, one to a line. -/
  keptAscending : s.kept.Pairwise fun p q => p.1 < q.1
  /-- So are the lines passed over. -/
  droppedAscending : s.dropped.Pairwise fun p q => p.1 < q.1
  /-- A line that is not blank is in one of the two places. -/
  once : ∀ number line, LineAt text number line → (∃ c ∈ line, Text.isBlank c = false) →
    (number ∈ s.kept.map Prod.fst ↔ number ∉ s.dropped.map Prod.fst)
  /-- A blank one is in neither. -/
  blank : ∀ number line, LineAt text number line → (∀ c ∈ line, Text.isBlank c = true) →
    number ∉ s.kept.map Prod.fst ∧ number ∉ s.dropped.map Prod.fst
  /-- The commands are those that are read from the text, in order. -/
  commands : s.commands = Command.readAll text
  /-- As they are shown, they are read again. -/
  reread : ∀ p ∈ s.kept, Command.read? p.2.text = some p.2

theorem not_isGap_iff : ¬ Text.IsGap line ↔ ∃ c ∈ line, Text.isBlank c = false := by
  simp [Text.IsGap]

theorem number_mem_kept_iff (hline : LineAt text number line) :
    number ∈ (sort text).kept.map Prod.fst ↔ Command.read? line ≠ none := by
  simp only [List.mem_map, Prod.exists, mem_kept_iff]
  constructor
  · rintro ⟨_, command, ⟨line', hline', hread⟩, rfl⟩
    rw [hline.unique hline', hread]
    exact Option.some_ne_none command
  · intro hread
    obtain ⟨command, hread⟩ := Option.ne_none_iff_exists'.mp hread
    exact ⟨number, command, ⟨line, hline, hread⟩, rfl⟩

theorem number_mem_dropped_iff (hline : LineAt text number line) :
    number ∈ (sort text).dropped.map Prod.fst ↔
      Command.read? line = none ∧ ¬ Text.IsGap line := by
  simp only [List.mem_map, Prod.exists, mem_dropped_iff]
  constructor
  · rintro ⟨_, line', ⟨hline', h⟩, rfl⟩
    rw [hline.unique hline']
    exact h
  · intro h
    exact ⟨number, line, ⟨hline, h⟩, rfl⟩

/-- **Every line is accounted for.** -/
theorem accounts_sort (text : List Char) : Accounts text (sort text) where
  kept _ _ := mem_kept_iff
  dropped number line := by rw [mem_dropped_iff, not_isGap_iff]
  keptAscending := by
    rw [sort, kept_sortLines]
    exact ascending_filterMap (fun _ _ => number_of_kept?) _ _
  droppedAscending := by
    rw [sort, dropped_sortLines]
    exact ascending_filterMap (fun _ _ => number_of_dropped?) _ _
  once number line hline hsolid := by
    rw [number_mem_kept_iff hline, number_mem_dropped_iff hline, not_isGap_iff]
    simp [hsolid]
  blank number line hline hgap := by
    rw [number_mem_kept_iff hline, number_mem_dropped_iff hline, Command.read?_of_gap hgap]
    simpa [Text.IsGap] using hgap
  commands := commands_sort text
  reread p _ := by
    have hholds : Command.Holds p.2.text p.2 := ⟨[], [], by decide, by simp, by simp⟩
    exact hholds.read?

/-! ## The printed listing -/

/-- A numbered line, without its end. -/
def row (number : Nat) (text : List Char) : List Char :=
  Numeral.inColumn 4 number ++ ':' :: ' ' :: text

namespace Sorting

variable (s : Sorting)

/-- The lines that show the commands. -/
def keptRows : List (List Char) := s.kept.map fun p => row p.1 p.2.text

/-- The lines that show what is passed over, with a heading, if there is
anything. -/
def droppedRows : List (List Char) :=
  if s.dropped = [] then []
  else [] :: "=== Dropped Lines ===".toList :: s.dropped.map fun p => row p.1 p.2

/-- The lines of a listing after the first, with the lines of a document in
their place. -/
def rows (document : List (List Char)) : List (List Char) :=
  s.keptRows ++ s.droppedRows ++ [[], "=== JSON ===".toList] ++ document ++ [[]]

/-- A listing after its first line. -/
def body : String :=
  s.keptPart ++ s.droppedPart ++ "\n=== JSON ===\n" ++ s.document ++ "\n"

variable {s}

/-- Numbered lines, put together, are lines with their ends. -/
theorem toList_join_numberedLine {α : Type} (items : List α) (number : α → Nat)
    (text : α → List Char) :
    (String.join (items.map fun a => numberedLine (number a) (text a))).toList
      = Text.ended (items.map fun a => row (number a) (text a)) := by
  have hline : ∀ a, (numberedLine (number a) (text a)).toList
      = row (number a) (text a) ++ ['\n'] := by
    intro a
    rw [numberedLine, String.toList_append, String.toList_ofList]
    rfl
  rw [String.toList_join, Text.ended, List.flatMap_map, List.flatMap_map]
  exact congrArg (items.flatMap ·) (funext hline)

theorem toList_keptPart : s.keptPart.toList = Text.ended s.keptRows :=
  toList_join_numberedLine s.kept Prod.fst fun p => p.2.text

theorem toList_droppedPart : s.droppedPart.toList = Text.ended s.droppedRows := by
  rw [droppedPart, droppedRows]
  by_cases hdropped : s.dropped = []
  · rw [if_pos hdropped, if_pos (List.isEmpty_iff.mpr hdropped)]
    rfl
  · rw [if_neg hdropped, if_neg (mt List.isEmpty_iff.mp hdropped), String.toList_append]
    exact congrArg ("\n=== Dropped Lines ===\n".toList ++ ·)
      (toList_join_numberedLine s.dropped Prod.fst Prod.snd)

theorem print_eq (name : String) :
    s.print name = "=== Command Batch: " ++ name ++ " ===\n" ++ s.body := by
  unfold print body
  simp only [String.append_assoc]

end Sorting

/-- A numbered line is one line. -/
theorem feed_not_mem_row {number : Nat} {text : List Char} (h : '\n' ∉ text) :
    '\n' ∉ row number text := by
  have hdigits : '\n' ∉ Numeral.ofNat number := fun hmem =>
    absurd ((Numeral.isDigits_ofNat number).2 _ hmem) (by decide)
  simp [row, Numeral.inColumn, hdigits, h]

theorem feed_not_mem_keptRows (s : Sorting) {line : List Char} (h : line ∈ s.keptRows) :
    '\n' ∉ line := by
  obtain ⟨p, -, rfl⟩ := List.mem_map.mp h
  exact feed_not_mem_row p.2.feed_not_mem_text

theorem feed_not_mem_droppedRows (h : line ∈ (sort text).droppedRows) : '\n' ∉ line := by
  unfold Sorting.droppedRows at h
  split at h
  · cases h
  · rcases List.mem_cons.mp h with rfl | h
    · exact List.not_mem_nil
    rcases List.mem_cons.mp h with rfl | h
    · decide
    obtain ⟨p, hp, rfl⟩ := List.mem_map.mp h
    obtain ⟨hline, -⟩ := mem_dropped_iff.mp hp
    exact feed_not_mem_row (Text.feed_not_mem_lines (List.fst_mem_of_mem_zipIdx hline))

/-- **A listing can be cut into its lines.** -/
theorem fields_body (text : List Char) :
    Text.fields (· = '\n') (sort text).body.toList
      = (sort text).rows (Text.fields (· = '\n') (sort text).document.toList) := by
  let s := sort text
  -- The document may have lines of its own, so it is not among the whole ones.
  have hbody : s.body.toList
      = Text.ended (s.keptRows ++ s.droppedRows ++ [[], "=== JSON ===".toList])
        ++ (s.document.toList ++ '\n' :: []) := by
    unfold Sorting.body
    simp only [String.toList_append, Sorting.toList_keptPart, Sorting.toList_droppedPart,
      Text.ended, List.flatMap_append, List.append_assoc]
    rfl
  have hlines : ∀ line ∈ s.keptRows ++ s.droppedRows ++ [[], "=== JSON ===".toList],
      '\n' ∉ line := by
    intro line hline
    rcases List.mem_append.mp hline with hline | hline
    · rcases List.mem_append.mp hline with hline | hline
      · exact feed_not_mem_keptRows s hline
      · exact feed_not_mem_droppedRows hline
    · rcases List.mem_cons.mp hline with rfl | hline
      · exact List.not_mem_nil
      · cases List.mem_singleton.mp hline
        decide
  rw [show (sort text).body.toList = _ from hbody, Text.fields_ended hlines,
    Text.fields_append rfl]
  exact (List.append_assoc ..).symm

/-- **A listing accounts for a text.** It shows each line that is a command, each
other line that is not blank, and a document that is read as the batch. -/
theorem accounts_of_read {w w' : Surroundings} {name : String} {others : List String}
    (h : w.read name = .ok (text, w')) :
    ∃ (s : Sorting) (body : String) (document : List (List Char)),
      ofArguments? w (name :: others)
          = some ("=== Command Batch: " ++ name ++ " ===\n" ++ body)
        ∧ Accounts text s
        ∧ Text.fields (· = '\n') body.toList = s.rows document
        ∧ (Json.Value.read? (['\n'].intercalate document)).bind Command.listOfJson?
          = some (Command.readAll text) := by
  refine ⟨sort text, (sort text).body, _, ?_, accounts_sort text, fields_body text, ?_⟩
  · rw [ofArguments?, ofArguments, h]
    exact congrArg some (Sorting.print_eq name)
  · rw [(Text.hasPieces_fields '\n' _).joined, Sorting.document, commands_sort,
      String.toList_ofList]
    exact Command.listCodes.roundTrips.written .spread _ trivial

/-- The first line ends with both characters, the second is blank, the third is
not a command, and the last one has no end. -/
theorem accounts_of_mixed_lines :
    ∃ (w : Surroundings) (s : Sorting) (body : String) (document : List (List Char)),
      w.read "b.txt" = .ok ("LEFT\r\n\u3000\nleft\nPLACE 1,2,east".toList, w)
        ∧ ofArguments? w ["b.txt"] = some ("=== Command Batch: " ++ "b.txt" ++ " ===\n" ++ body)
        ∧ (1, .left) ∈ s.kept ∧ (4, .place 1 2 .east) ∈ s.kept
        ∧ (3, "left".toList) ∈ s.dropped
        ∧ 2 ∉ s.kept.map Prod.fst ∧ 2 ∉ s.dropped.map Prod.fst
        ∧ Text.fields (· = '\n') body.toList = s.rows document
        ∧ (Json.Value.read? (['\n'].intercalate document)).bind Command.listOfJson?
          = some [.left, .place 1 2 .east] := by
  obtain ⟨w, hw⟩ : ∃ w : Surroundings, w = {
      open? := fun path =>
        if path = "b.txt" then .ok (.bytes "LEFT\r\n\u3000\nleft\nPLACE 1,2,east".toUTF8)
        else .error .notFound
      input := .empty } := ⟨_, rfl⟩
  have hread : w.read "b.txt" = .ok ("LEFT\r\n\u3000\nleft\nPLACE 1,2,east".toList, w) := by
    have htext : textOf "LEFT\r\n\u3000\nleft\nPLACE 1,2,east".toUTF8
        = .ok "LEFT\r\n\u3000\nleft\nPLACE 1,2,east".toList := by decide +kernel
    refine Console.read_of_bytes ?_ htext
    subst hw
    rfl
  have hcommands : Command.readAll "LEFT\r\n\u3000\nleft\nPLACE 1,2,east".toList
      = [.left, .place 1 2 .east] := by decide +kernel
  obtain ⟨s, body, document, hlisting, haccounts, hrows, hdocument⟩ := accounts_of_read hread
  rw [hcommands] at hdocument
  have hfirst : (1, .left) ∈ s.kept :=
    (haccounts.kept 1 .left).mpr ⟨"LEFT".toList, by unfold LineAt; decide, by decide⟩
  have hlast : (4, .place 1 2 .east) ∈ s.kept :=
    (haccounts.kept 4 (.place 1 2 .east)).mpr
      ⟨"PLACE 1,2,east".toList, by unfold LineAt; decide, by decide +kernel⟩
  have hdropped : (3, "left".toList) ∈ s.dropped :=
    (haccounts.dropped 3 "left".toList).mpr
      ⟨by unfold LineAt; decide, by decide, 'l', by decide, rfl⟩
  have hblank := haccounts.blank 2 "\u3000".toList (by unfold LineAt; decide)
    (List.all_iff_forall_prop.mp (by decide))
  exact ⟨w, s, body, document, hread, hlisting, hfirst, hlast, hdropped, hblank.1, hblank.2,
    hrows, hdocument⟩

end Listing

end Tabletop
