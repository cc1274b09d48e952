import Tabletop.Command.Reader

/-!
# Commands line by line

A text is read as the commands on its lines, and a line end may be a line feed
or a carriage return with a line feed after it. For what is read, a line feed
alone is all that counts: the carriage return before it is a blank, and a last
line without an end differs from an empty piece after the last line feed by
nothing that could be a command. So a text is read as its fields between line
feeds (`Command.readAll_eq`), and two texts with a line feed between them are
read as one after the other (`Command.readAll_append`), wherever the first one
ends.
-/

namespace Tabletop

namespace Text

variable {separates : Char → Bool} {c : Char}

theorem fields_ne_nil (s : List Char) : fields separates s ≠ [] := by
  cases s with
  | nil => nofun
  | cons c s =>
    rw [fields]
    split
    · nofun
    · cases fields separates s <;> nofun

theorem consFirst_append {pieces : List (List Char)} (h : pieces ≠ [])
    (others : List (List Char)) :
    consFirst c (pieces ++ others) = consFirst c pieces ++ others := by
  cases pieces with
  | nil => exact absurd rfl h
  | cons piece pieces => rfl

/-- A separator is the end of one field and the beginning of another. -/
theorem fields_append (hc : separates c = true) (s t : List Char) :
    fields separates (s ++ c :: t) = fields separates s ++ fields separates t := by
  induction s with
  | nil =>
    show fields separates (c :: t) = [] :: fields separates t
    rw [fields, if_pos hc]
  | cons a s ih =>
    rw [List.cons_append, fields, fields]
    split
    · rw [ih]
      rfl
    · rw [ih, consFirst_append (fields_ne_nil s)]

/-- A blank at its end adds no word to a line. -/
theorem words_concat (hc : isBlank c = true) (s : List Char) : words (s ++ [c]) = words s := by
  rw [words, fields_append hc, List.filter_append]
  exact List.append_nil _

end Text

namespace Command

theorem read?_concat {c : Char} (hc : Text.isBlank c = true) (line : List Char) :
    read? (line ++ [c]) = read? line := by
  rw [read?, read, Text.words_concat hc]
  rfl

/-- Lines of a text next to its fields between line feeds: the first field may
have a carriage return after the first line, the others say the same commands,
and a text without lines is one empty field. -/
inductive ReadsAlike : List (List Char) → List (List Char) → Prop
  | none : ReadsAlike [] [[]]
  | some {line field : List Char} {lines fields : List (List Char)}
      (hfirst : field = line ∨ field = line ++ ['\r'])
      (hothers : lines.filterMap read? = fields.filterMap read?) :
      ReadsAlike (line :: lines) (field :: fields)

namespace ReadsAlike

variable {lines fields : List (List Char)}

theorem filterMap (h : ReadsAlike lines fields) :
    lines.filterMap read? = fields.filterMap read? := by
  cases h with
  | none => rfl
  | @some line field _ _ hfirst hothers =>
    have hread : read? field = read? line := by
      obtain rfl | rfl := hfirst
      · rfl
      · exact read?_concat rfl line
    rw [List.filterMap_cons, List.filterMap_cons, hread, hothers]

theorem consFirst (h : ReadsAlike lines fields) (c : Char) :
    ReadsAlike (Text.consFirst c lines) (Text.consFirst c fields) := by
  cases h with
  | none => exact .some (.inl rfl) rfl
  | some hfirst hothers =>
    exact .some (hfirst.imp (congrArg (c :: ·)) (congrArg (c :: ·))) hothers

end ReadsAlike

theorem readsAlike (text : List Char) :
    ReadsAlike (Text.lines text) (Text.fields (· = '\n') text) := by
  fun_induction Text.lines text with
  | case1 => exact .none
  | case2 rest ih => exact .some (.inl rfl) ih.filterMap
  | case3 rest ih =>
    -- The field goes on to the line feed, the line only to the carriage return.
    exact .some (.inr rfl) ih.filterMap
  | case4 c rest hfeed _ ih =>
    have hc : c ≠ '\n' := fun h => hfeed h
    rw [Text.fields, if_neg (by simpa using hc)]
    exact ih.consFirst c

/-- **Only line feeds count.** -/
theorem readAll_eq (text : List Char) :
    readAll text = (Text.fields (· = '\n') text).filterMap read? :=
  (readsAlike text).filterMap

/-- **Texts are read one after the other** with a line feed between them. -/
theorem readAll_append (a b : List Char) :
    readAll (a ++ '\n' :: b) = readAll a ++ readAll b := by
  rw [readAll_eq, Text.fields_append rfl, List.filterMap_append, ← readAll_eq, ← readAll_eq]

end Command

end Tabletop
