import Tabletop.Json.Reader
import Tabletop.Proofs.Tokens

/-!
# Reading a printed value

A value is printed and read again: `Value.read?_print`. Between the two stand
its tokens (`Value.tokens`), which do not depend on the layout. That printing
gives them (`cuts_printAt`) is a matter of what stands next to what: after a
value there is always a comma, a bracket or a blank, so a numeral ends where
it should. That reading them gives the value (`run_tokens`) is a matter of what
is open: a value is read on top of any stack, and leaves it as it was.

Only a value whose numerals and texts are such as a document can hold is read
back (`Value.Proper`).
-/

namespace Tabletop

namespace Json

open Token

namespace Value

/-- **A value that can be written:** its numerals are numerals, and its texts
can stand between quotes. -/
inductive Proper : Value → Prop
  | null : Proper null
  | boolean (b : Bool) : Proper (boolean b)
  | number {numeral : List Char} (h : IsNumeral numeral) : Proper (number numeral)
  | text {body : List Char} (h : IsBody body) : Proper (text body)
  | list {items : List Value} (h : ∀ item ∈ items, Proper item) : Proper (list items)
  | object {fields : List (List Char × Value)} (hkeys : ∀ field ∈ fields, IsBody field.1)
      (hvalues : ∀ field ∈ fields, Proper field.2) : Proper (object fields)

mutual

/-- The tokens of a value. -/
def tokens : Value → List Token
  | null => [.null]
  | boolean b => [.boolean b]
  | number numeral => [.number numeral]
  | text body => [.text body]
  | list [] => [.openList, .closeList]
  | list (item :: items) => .openList :: (item.tokens ++ itemTokens items)
  | object [] => [.openObject, .closeObject]
  | object ((key, value) :: fields) =>
    .openObject :: .text key :: .colon :: (value.tokens ++ fieldTokens fields)

/-- The tokens of the items after the first one, and the closing bracket. -/
def itemTokens : List Value → List Token
  | [] => [.closeList]
  | item :: items => .comma :: (item.tokens ++ itemTokens items)

/-- The tokens of the fields after the first one, and the closing brace. -/
def fieldTokens : List (List Char × Value) → List Token
  | [] => [.closeObject]
  | (key, value) :: fields =>
    .comma :: .text key :: .colon :: (value.tokens ++ fieldTokens fields)

end

variable {v : Value} {rest : List Char}

/-! ## Printing gives the tokens -/

theorem isBlank_of_mem_gap {style : Style} {depth : Nat} :
    ∀ c ∈ style.gap depth, isBlank c = true := by
  intro c hc
  cases style with
  | compact => cases hc
  | spread =>
    rcases List.mem_cons.mp hc with rfl | hc
    · rfl
    · rw [List.eq_of_mem_replicate hc]
      rfl

theorem cuts_colon (style : Style) (rest : List Char) :
    Cuts (style.colon ++ rest) [.colon] rest := by
  cases style with
  | compact => exact cuts_of_take rfl
  | spread =>
    have hblank : ∀ c ∈ [' '], isBlank c = true := List.forall_mem_singleton.mpr rfl
    exact .trans (cuts_of_take rfl) (cuts_blanks hblank rest)

/-- A gap ends a numeral, or what comes after it does. -/
theorem stops_gap (style : Style) (depth : Nat) {c : Char} (hc : isNumeric c = false)
    (rest : List Char) : Stops (style.gap depth ++ c :: rest) := by
  cases style with
  | compact =>
    rintro _ ⟨⟩
    exact hc
  | spread =>
    rintro _ ⟨⟩
    rfl

theorem stops_printItems (style : Style) (depth : Nat) (items : List Value)
    (rest : List Char) : Stops (printItems style depth items ++ rest) := by
  cases items with
  | nil =>
    rw [printItems, List.append_assoc]
    exact stops_gap style depth rfl rest
  | cons item items =>
    rw [printItems]
    rintro _ ⟨⟩
    rfl

theorem stops_printFields (style : Style) (depth : Nat) (fields : List (List Char × Value))
    (rest : List Char) : Stops (printFields style depth fields ++ rest) := by
  cases fields with
  | nil =>
    rw [printFields, List.append_assoc]
    exact stops_gap style depth rfl rest
  | cons field fields =>
    rw [printFields]
    rintro _ ⟨⟩
    rfl

section

variable {style : Style} {depth : Nat} {ts us : List Token} {key shown more : List Char}

/-- One item, and what comes after it. -/
theorem cuts_item (hshown : ∀ rest, Stops rest → Cuts (shown ++ rest) ts rest)
    (hstops : Stops (more ++ rest)) (hmore : Cuts (more ++ rest) us rest) :
    Cuts (style.gap depth ++ shown ++ more ++ rest) (ts ++ us) rest := by
  rw [List.append_assoc, List.append_assoc]
  exact (cuts_blanks isBlank_of_mem_gap _).trans ((hshown _ hstops).trans hmore)

/-- One field, and what comes after it. -/
theorem cuts_field (hkey : IsBody key)
    (hshown : ∀ rest, Stops rest → Cuts (shown ++ rest) ts rest)
    (hstops : Stops (more ++ rest)) (hmore : Cuts (more ++ rest) us rest) :
    Cuts (style.gap depth ++ quoted key ++ style.colon ++ shown ++ more ++ rest)
      (.text key :: .colon :: (ts ++ us)) rest := by
  simp only [List.append_assoc]
  exact (cuts_blanks isBlank_of_mem_gap _).trans ((cuts_of_take (take_quoted hkey _)).trans
    ((cuts_colon style _).trans ((hshown _ hstops).trans hmore)))

end

mutual

/-- **A printed value is cut into its tokens.** -/
theorem cuts_printAt (style : Style) (depth : Nat) (v : Value) (hv : v.Proper)
    (rest : List Char) (hrest : Stops rest) :
    Cuts (v.printAt style depth ++ rest) v.tokens rest := by
  match v, hv with
  | .null, _ => exact cuts_of_take rfl
  | .boolean true, _ => exact cuts_of_take rfl
  | .boolean false, _ => exact cuts_of_take rfl
  | .number numeral, .number h => exact cuts_of_take (take_numeral hrest h)
  | .text body, .text h => exact cuts_of_take (take_quoted h rest)
  | .list [], _ => exact .trans (cuts_of_take rfl) (cuts_of_take rfl)
  | .list (item :: items), .list h =>
    obtain ⟨hitem, hitems⟩ := List.forall_mem_cons.mp h
    exact .trans (cuts_of_take rfl) (cuts_item (cuts_printAt style (depth + 1) item hitem)
      (stops_printItems style depth items rest) (cuts_printItems style depth items hitems rest))
  | .object [], _ => exact .trans (cuts_of_take rfl) (cuts_of_take rfl)
  | .object ((key, value) :: fields), .object hkeys hvalues =>
    obtain ⟨hkey, hkeys⟩ := List.forall_mem_cons.mp hkeys
    obtain ⟨hvalue, hvalues⟩ := List.forall_mem_cons.mp hvalues
    exact .trans (cuts_of_take rfl) (cuts_field hkey (cuts_printAt style (depth + 1) value hvalue)
      (stops_printFields style depth fields rest)
      (cuts_printFields style depth fields hkeys hvalues rest))

theorem cuts_printItems (style : Style) (depth : Nat) (items : List Value)
    (h : ∀ item ∈ items, item.Proper) (rest : List Char) :
    Cuts (printItems style depth items ++ rest) (itemTokens items) rest := by
  match items with
  | [] =>
    rw [printItems, List.append_assoc]
    exact .trans (cuts_blanks isBlank_of_mem_gap _) (cuts_of_take rfl)
  | item :: items =>
    obtain ⟨hitem, hitems⟩ := List.forall_mem_cons.mp h
    exact .trans (cuts_of_take rfl) (cuts_item (cuts_printAt style (depth + 1) item hitem)
      (stops_printItems style depth items rest) (cuts_printItems style depth items hitems rest))

theorem cuts_printFields (style : Style) (depth : Nat) (fields : List (List Char × Value))
    (hkeys : ∀ field ∈ fields, IsBody field.1) (hvalues : ∀ field ∈ fields, field.2.Proper)
    (rest : List Char) :
    Cuts (printFields style depth fields ++ rest) (fieldTokens fields) rest := by
  match fields with
  | [] =>
    rw [printFields, List.append_assoc]
    exact .trans (cuts_blanks isBlank_of_mem_gap _) (cuts_of_take rfl)
  | (key, value) :: fields =>
    obtain ⟨hkey, hkeys⟩ := List.forall_mem_cons.mp hkeys
    obtain ⟨hvalue, hvalues⟩ := List.forall_mem_cons.mp hvalues
    exact .trans (cuts_of_take rfl) (cuts_field hkey (cuts_printAt style (depth + 1) value hvalue)
      (stops_printFields style depth fields rest)
      (cuts_printFields style depth fields hkeys hvalues rest))

end

/-! ## The tokens give the value -/

theorem run_append (state : State) (ts us : List Token) :
    state.run (ts ++ us) = (state.run ts).bind fun after => after.run us :=
  List.foldlM_append ..

/-- Reading goes on from where the first tokens lead. -/
theorem run_of_run {state after : State} {ts : List Token} (h : state.run ts = some after)
    (us : List Token) : state.run (ts ++ us) = after.run us := by
  rw [run_append, h]
  rfl

/-- Where a list may end, any other token begins its first item. -/
theorem run_firstItem (v : Value) (stack : List Frame) (more : List Token) :
    (State.firstItem stack).run (v.tokens ++ more)
      = (State.value (.list [] :: stack)).run (v.tokens ++ more) := by
  match v with
  | .null => rfl
  | .boolean _ => rfl
  | .number _ => rfl
  | .text _ => rfl
  | .list [] => rfl
  | .list (_ :: _) => rfl
  | .object [] => rfl
  | .object (_ :: _) => rfl

mutual

/-- **The tokens of a value are read as that value,** on top of what is open. -/
theorem run_tokens (v : Value) (stack : List Frame) :
    (State.value stack).run v.tokens = some (.complete v stack) := by
  match v with
  | .null => rfl
  | .boolean _ => rfl
  | .number _ => rfl
  | .text _ => rfl
  | .list [] => rfl
  | .list (item :: items) =>
    calc (State.value stack).run (tokens (.list (item :: items)))
      _ = (State.firstItem stack).run (item.tokens ++ itemTokens items) := rfl
      _ = (State.value (.list [] :: stack)).run (item.tokens ++ itemTokens items) :=
        run_firstItem item stack _
      _ = (State.complete item (.list [] :: stack)).run (itemTokens items) :=
        run_of_run (run_tokens item _) _
      _ = some (.complete (.list (item :: items)) stack) := run_itemTokens items item [] stack
  | .object [] => rfl
  | .object ((key, value) :: fields) =>
    calc (State.value stack).run (tokens (.object ((key, value) :: fields)))
      _ = (State.value (.object [] key :: stack)).run (value.tokens ++ fieldTokens fields) := rfl
      _ = (State.complete value (.object [] key :: stack)).run (fieldTokens fields) :=
        run_of_run (run_tokens value _) _
      _ = some (.complete (.object ((key, value) :: fields)) stack) :=
        run_fieldTokens fields key value [] stack

theorem run_itemTokens (items : List Value) (v : Value) (before : List Value)
    (stack : List Frame) :
    (State.complete v (.list before :: stack)).run (itemTokens items)
      = some (.complete (.list (before.reverse ++ v :: items)) stack) := by
  match items with
  | [] =>
    show some (State.complete (.list (v :: before).reverse) stack) = _
    rw [List.reverse_cons]
  | item :: items =>
    calc (State.complete v (.list before :: stack)).run (itemTokens (item :: items))
      _ = (State.value (.list (v :: before) :: stack)).run (item.tokens ++ itemTokens items) := rfl
      _ = (State.complete item (.list (v :: before) :: stack)).run (itemTokens items) :=
        run_of_run (run_tokens item _) _
      _ = some (.complete (.list ((v :: before).reverse ++ item :: items)) stack) :=
        run_itemTokens items item (v :: before) stack
      _ = some (.complete (.list (before.reverse ++ v :: item :: items)) stack) := by
        rw [List.reverse_cons, List.append_assoc]
        rfl

theorem run_fieldTokens (fields : List (List Char × Value)) (key : List Char) (v : Value)
    (before : List (List Char × Value)) (stack : List Frame) :
    (State.complete v (.object before key :: stack)).run (fieldTokens fields)
      = some (.complete (.object (before.reverse ++ (key, v) :: fields)) stack) := by
  match fields with
  | [] =>
    show some (State.complete (.object ((key, v) :: before).reverse) stack) = _
    rw [List.reverse_cons]
  | (next, value) :: fields =>
    calc (State.complete v (.object before key :: stack)).run (fieldTokens ((next, value) :: fields))
      _ = (State.value (.object ((key, v) :: before) next :: stack)).run
          (value.tokens ++ fieldTokens fields) := rfl
      _ = (State.complete value (.object ((key, v) :: before) next :: stack)).run
          (fieldTokens fields) := run_of_run (run_tokens value _) _
      _ = some (.complete (.object (((key, v) :: before).reverse ++ (next, value) :: fields))
          stack) := run_fieldTokens fields next value ((key, v) :: before) stack
      _ = some (.complete (.object (before.reverse ++ (key, v) :: (next, value) :: fields))
          stack) := by
        rw [List.reverse_cons, List.append_assoc]
        rfl

end

/-- **What is printed is read back,** in either layout. -/
theorem read?_print (style : Style) (hv : v.Proper) : read? (v.print style) = some v := by
  have hstops : Stops [] := by
    rintro _ ⟨⟩
  have hcuts := cuts_printAt style 0 v hv [] hstops
  have hall : Token.all (v.print style) = some v.tokens := by
    rw [List.append_nil] at hcuts
    rw [print, hcuts, all, Option.map_some, List.append_nil]
  unfold read?
  rw [hall, Option.bind_some, ofTokens?, run_tokens]

end Value

end Json

end Tabletop
