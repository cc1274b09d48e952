import Mathlib.Data.List.TakeWhile
import Tabletop.Journal.Json
import Tabletop.Proofs.Documents
import Tabletop.Proofs.Numerals

/-!
# Journals and batches keep their meaning as JSON

Directions, commands, batches, phases and journals are written as JSON values
and read from them. `Codes` says that the writing is undone by the reading:
what is written is a value that a document can hold, reading it gives back
what was written, and nothing is ever read that cannot be written. With
`Value.read?_print` this is a round trip of documents, from either end
(`Codes.roundTrips`); the five of them are `roundTrips_all`.

The reader takes more than the writer gives: fields in any order and among
others, records without their names, names as keys. None of it comes back when
it is written again, and that makes no difference to what is read then.
-/

namespace Tabletop

namespace Json

namespace Value

open Token

variable {α : Type} {encode : α → Value} {decode : Value → Option α} {fits : α → Prop}

/-- **What writing and reading as JSON owe each other,** for the things that
fit what is read. -/
structure Codes (encode : α → Value) (decode : Value → Option α) (fits : α → Prop) : Prop where
  proper : ∀ a, (encode a).Proper
  decoded : ∀ a, fits a → decode (encode a) = some a
  fits_of_decoded : ∀ v a, decode v = some a → fits a

/-- **Round trips of documents.** What is written is read back from either
layout, and what is read from any document is still read after it has been
written again. -/
structure RoundTrips (encode : α → Value) (decode : Value → Option α) (fits : α → Prop) :
    Prop where
  written : ∀ style a, fits a → (read? ((encode a).print style)).bind decode = some a
  rewritten : ∀ style s a, (read? s).bind decode = some a →
    (read? ((encode a).print style)).bind decode = some a

theorem Codes.roundTrips (h : Codes encode decode fits) : RoundTrips encode decode fits := by
  have hwritten : ∀ style a, fits a → (read? ((encode a).print style)).bind decode = some a := by
    intro style a ha
    rw [read?_print style (h.proper a), Option.bind_some, h.decoded a ha]
  refine ⟨hwritten, fun style s a hs => hwritten style a ?_⟩
  obtain ⟨v, -, hv⟩ := Option.bind_eq_some_iff.mp hs
  exact h.fits_of_decoded v a hv

theorem Codes.of_iff {fits' : α → Prop} (h : Codes encode decode fits)
    (hiff : ∀ a, fits' a ↔ fits a) : Codes encode decode fits' where
  proper := h.proper
  decoded a ha := h.decoded a ((hiff a).mp ha)
  fits_of_decoded v a hv := (hiff a).mpr (h.fits_of_decoded v a hv)

/-! ## Names -/

/-- Neither quote nor backslash nor a control character is in it. -/
def IsPlain (name : List Char) : Prop := ∀ c ∈ name, c ≠ '"' ∧ c ≠ '\\' ∧ ¬ c < ' '

instance (name : List Char) : Decidable (IsPlain name) :=
  List.decidableBAll _ name

/-- A plain name can stand between quotes. -/
theorem isBody_of_isPlain {name : List Char} (h : IsPlain name) : IsBody name := by
  unfold IsBody
  induction name with
  | nil => rfl
  | cons c name ih =>
    obtain ⟨⟨hquote, hescape, hcontrol⟩, hname⟩ := List.forall_mem_cons.mp h
    rw [List.cons_append, takeBody, if_neg (by simp [hescape, hcontrol]), ih hname]
    · rfl
    · exact hquote
    · exact fun _ _ _ _ _ hc => absurd hc hescape
    · exact fun _ _ hc => absurd hc hescape

/-- A plain name has no escapes. -/
theorem unescape_of_isPlain {name : List Char} (h : IsPlain name) : unescape name = some name := by
  induction name with
  | nil => rfl
  | cons c name ih =>
    obtain ⟨⟨-, hescape, -⟩, hname⟩ := List.forall_mem_cons.mp h
    have hcons : unescape (c :: name) = (unescape name).map (c :: ·) := by
      rw [unescape] <;>
      · intros
        contradiction
    rw [hcons, ih hname]
    rfl

/-! ## Lists -/

/-- Reading every item of a list, if each one is read. -/
theorem mapM_eq_map {β γ : Type} {f : β → Option γ} {g : β → γ} {items : List β}
    (h : ∀ item ∈ items, f item = some (g item)) : items.mapM f = some (items.map g) := by
  induction items with
  | nil => rfl
  | cons item items ih =>
    obtain ⟨hitem, hitems⟩ := List.forall_mem_cons.mp h
    rw [List.mapM_cons, hitem, ih hitems]
    rfl

/-- Each item that was read was read from one of the list. -/
theorem exists_of_mem_mapM {β γ : Type} {f : β → Option γ} {items : List β} {values : List γ}
    (h : items.mapM f = some values) : ∀ value ∈ values, ∃ item ∈ items, f item = some value := by
  induction items generalizing values with
  | nil =>
    cases h
    simp
  | cons item items ih =>
    rw [List.mapM_cons] at h
    obtain ⟨first, hfirst, h⟩ := Option.bind_eq_some_iff.mp h
    obtain ⟨others, hothers, h⟩ := Option.bind_eq_some_iff.mp h
    cases h
    refine List.forall_mem_cons.mpr ⟨⟨item, List.mem_cons_self, hfirst⟩, fun value hvalue => ?_⟩
    obtain ⟨source, hsource, hread⟩ := ih hothers value hvalue
    exact ⟨source, List.mem_cons_of_mem item hsource, hread⟩

/-- **A list is written item by item.** -/
theorem Codes.list (h : Codes encode decode fits) :
    Codes (ofList encode) (toList? decode) fun items => ∀ item ∈ items, fits item where
  proper items := .list <| by
    intro v hv
    obtain ⟨item, -, rfl⟩ := List.mem_map.mp hv
    exact h.proper item
  decoded items hitems := by
    show (items.map encode).mapM decode = some items
    have hread : items.mapM (decode ∘ encode) = some (items.map id) :=
      mapM_eq_map fun item hitem => h.decoded item (hitems item hitem)
    rw [List.mapM_map, hread, List.map_id]
  fits_of_decoded v items hv item hitem := by
    cases v with
    | list values =>
      obtain ⟨value, -, hvalue⟩ := exists_of_mem_mapM hv item hitem
      exact h.fits_of_decoded value item hvalue
    | null => cases hv
    | boolean => cases hv
    | number => cases hv
    | text => cases hv
    | object => cases hv

/-! ## Records -/

/-- Under a key that occurs once stands one value. -/
theorem valuesOf_of_mem {fields : List (List Char × Value)} {key : List Char} {v : Value}
    (hkeys : (fields.map Prod.fst).Nodup) (h : (key, v) ∈ fields) : valuesOf key fields = [v] := by
  unfold valuesOf
  induction fields with
  | nil => cases h
  | cons field fields ih =>
    obtain ⟨hnot, hkeys⟩ := List.nodup_cons.mp hkeys
    rcases List.mem_cons.mp h with rfl | h
    · have hothers : ∀ field ∈ fields, ¬ decide (field.1 = key) = true := by
        rintro field hfield hkey
        exact hnot (List.mem_map.mpr ⟨field, hfield, of_decide_eq_true hkey⟩)
      rw [List.filter_cons_of_pos (by simp), List.filter_eq_nil_iff.mpr hothers]
      rfl
    · have hne : field.1 ≠ key := by
        rintro rfl
        exact hnot (List.mem_map.mpr ⟨(field.1, v), h, rfl⟩)
      rw [List.filter_cons_of_neg (by simpa using hne)]
      exact ih hkeys h

/-- A record can be written if its values can. -/
theorem proper_object {fields : List (List Char × Value)}
    (hplain : ∀ name ∈ fields.map Prod.fst, IsPlain name)
    (hvalues : ∀ v ∈ fields.map Prod.snd, v.Proper) : (object fields).Proper := by
  refine .object (fun field hfield => ?_) fun field hfield => ?_
  · exact isBody_of_isPlain (hplain field.1 (List.mem_map_of_mem hfield))
  · exact hvalues field.2 (List.mem_map_of_mem hfield)

/-- **A record is read as it is written:** with plain names, all different. -/
theorem toRecord?_object {fields : List (List Char × Value)}
    (hplain : ∀ name ∈ fields.map Prod.fst, IsPlain name) (hkeys : (fields.map Prod.fst).Nodup) :
    toRecord? (fields.map Prod.fst) (object fields) = some (fields.map Prod.snd) := by
  have hnames : (fields.mapM fun field => (unescape field.1).map (·, field.2)) = some fields := by
    rw [mapM_eq_map (g := id), List.map_id]
    intro field hfield
    rw [unescape_of_isPlain (hplain field.1 (List.mem_map_of_mem hfield))]
    rfl
  have hvalues : fields.mapM ((fun name => onlyValueOf? name fields) ∘ Prod.fst)
      = some (fields.map Prod.snd) := by
    refine mapM_eq_map fun field hfield => ?_
    show onlyValueOf? field.1 fields = some field.2
    rw [onlyValueOf?, valuesOf_of_mem hkeys hfield]
  show (fields.mapM fun field => (unescape field.1).map (·, field.2)).bind _ = _
  rw [hnames]
  show (fields.map Prod.fst).mapM _ = _
  rw [List.mapM_map, hvalues]

/-! ## Integers -/

theorem takeDigits_of_isDigits {digits : List Char} (h : Numeral.IsDigits digits) :
    takeDigits digits = some (digits, []) := by
  have hall : digits.takeWhile Char.isDigit = digits := List.takeWhile_eq_self_iff.mpr h.2
  have hnone : digits.dropWhile Char.isDigit = [] := List.dropWhile_eq_nil_iff.mpr h.2
  unfold takeDigits
  rw [hall, hnone]
  split
  · exact absurd rfl h.1
  · rfl

/-- A number is written without a zero in front. -/
theorem takeUnsigned_ofNat (n : Nat) : takeUnsigned (Numeral.ofNat n) = some (Numeral.ofNat n, []) := by
  have hwhole : takeWhole (Numeral.ofNat n) = some (Numeral.ofNat n, []) := by
    unfold takeWhole
    rw [takeDigits_of_isDigits (Numeral.isDigits_ofNat n)]
    split
    next c more _ hzero =>
      rcases Nat.eq_zero_or_pos n with rfl | hn
      · rw [Numeral.ofNat, if_pos (by decide)] at hzero
        cases hzero
      · have hhead := Numeral.head_ofNat hn
        rw [(Prod.mk.inj (Option.some.inj hzero)).1] at hhead
        exact absurd rfl hhead
    · rfl
  unfold takeUnsigned
  rw [hwhole]
  show some (Numeral.ofNat n ++ [] ++ [], []) = _
  rw [List.append_nil, List.append_nil]

/-- What is written for an integer is a numeral. -/
theorem isNumeral_ofInt (i : Int) : IsNumeral (Numeral.ofInt i) := by
  have hunsigned := takeUnsigned_ofNat i.natAbs
  unfold IsNumeral Numeral.ofInt
  split
  · show (takeUnsigned _).map _ = _
    rw [hunsigned]
    rfl
  · unfold takeNumber
    split
    next h =>
      exact absurd rfl (h ▸ Numeral.isDigits_ofNat i.natAbs).head_ne.2
    · exact hunsigned

theorem toInt?_of_isDigits {digits : List Char} (h : Numeral.IsDigits digits) :
    (number digits).toInt? = some (Numeral.decimal digits : Int) := by
  unfold toInt?
  split
  next he =>
    cases he
    exact absurd rfl h.head_ne.2
  next he =>
    cases he
    exact absurd rfl h.head_ne.2
  next he =>
    cases he
    rw [Numeral.toNat?_of_isDigits h]
    rfl
  next hne => exact absurd rfl (hne digits)

theorem toInt?_minus {digits : List Char} (h : Numeral.IsDigits digits) (hne : digits ≠ ['0']) :
    (number ('-' :: digits)).toInt? = some (-(Numeral.decimal digits : Int)) := by
  rw [toInt?, Numeral.toNat?_of_isDigits h]
  · rfl
  · exact hne

/-- **An integer is read as it is written.** -/
theorem toInt?_ofInt (i : Int) : (ofInt i).toInt? = some i := by
  have hdigits := Numeral.isDigits_ofNat i.natAbs
  unfold ofInt Numeral.ofInt
  split
  next hi =>
    -- The sign is not that of a zero.
    have hne : Numeral.ofNat i.natAbs ≠ ['0'] := by
      intro h
      exact Numeral.head_ofNat (Int.natAbs_pos.mpr hi.ne) (h ▸ rfl)
    rw [toInt?_minus hdigits hne, Numeral.decimal_ofNat]
    exact congrArg some (by omega)
  next hi =>
    rw [toInt?_of_isDigits hdigits, Numeral.decimal_ofNat]
    exact congrArg some (by omega)

theorem toInt32?_ofInt (x : Int32) : (ofInt x.toInt).toInt32? = some x := by
  rw [toInt32?, toInt?_ofInt, Option.bind_some]
  exact Numeral.int32?_eq_some_iff.mpr rfl

theorem toNatBelow?_ofInt {bound n : Nat} (h : n < bound) :
    (ofInt n).toNatBelow? bound = some n := by
  rw [toNatBelow?, toInt?_ofInt]
  show (if _ then _ else _) = _
  rw [if_pos (by omega)]
  rfl

theorem lt_of_toNatBelow? {bound n : Nat} {v : Value} (h : v.toNatBelow? bound = some n) :
    n < bound := by
  unfold toNatBelow? at h
  split at h
  · split at h
    · cases h
      omega
    · cases h
  · cases h

end Value

end Json

open Json Json.Value

/-! ## Commands -/

theorem Direction.codes : Codes toJson ofJson? fun _ => True where
  proper d := .text (isBody_of_isPlain (by cases d <;> decide))
  decoded d _ := by cases d <;> rfl
  fits_of_decoded _ _ _ := trivial

namespace Command

theorem placeFields_spec : placeFields.Nodup ∧ ∀ name ∈ placeFields, IsPlain name := by
  decide

/-- The record of the arguments of a placement. -/
def argumentsToJson (x y : Int32) (d : Direction) : Value :=
  .object [("x".toList, .ofInt x.toInt), ("y".toList, .ofInt y.toInt), ("facing".toList, d.toJson)]

theorem proper_arguments (x y : Int32) (d : Direction) : (argumentsToJson x y d).Proper := by
  refine proper_object placeFields_spec.2 ?_
  simp only [List.map_cons, List.map_nil, List.forall_mem_cons]
  exact ⟨.number (isNumeral_ofInt _), .number (isNumeral_ofInt _), Direction.codes.proper d,
    by simp⟩

theorem placeOfJson?_arguments (x y : Int32) (d : Direction) :
    placeOfJson? (argumentsToJson x y d) = some (.place x y d) := by
  have hrecord : (argumentsToJson x y d).toRecord? placeFields
      = some [.ofInt x.toInt, .ofInt y.toInt, d.toJson] :=
    toRecord?_object placeFields_spec.2 placeFields_spec.1
  rw [placeOfJson?, hrecord]
  show (toInt32? (.ofInt x.toInt)).bind _ = _
  rw [toInt32?_ofInt, Option.bind_some]
  show (toInt32? (.ofInt y.toInt)).bind _ = _
  rw [toInt32?_ofInt, Option.bind_some]
  show (Direction.ofJson? d.toJson).bind _ = _
  rw [Direction.codes.decoded d trivial]
  rfl

theorem codes : Codes toJson ofJson? fun _ => True where
  proper c := by
    cases c with
    | place x y d =>
      have hname : ∀ name ∈ ["Place".toList], IsPlain name := by decide
      exact proper_object hname (List.forall_mem_singleton.mpr (proper_arguments x y d))
    | move => exact .text (isBody_of_isPlain (by decide))
    | left => exact .text (isBody_of_isPlain (by decide))
    | right => exact .text (isBody_of_isPlain (by decide))
    | report => exact .text (isBody_of_isPlain (by decide))
  decoded c _ := by
    cases c with
    | place x y d => exact placeOfJson?_arguments x y d
    | move => rfl
    | left => rfl
    | right => rfl
    | report => rfl
  fits_of_decoded _ _ _ := trivial

theorem listCodes : Codes listToJson listOfJson? fun _ => True :=
  codes.list.of_iff fun _ => ⟨fun _ _ _ => trivial, fun _ => trivial⟩

end Command

/-! ## Journals -/

theorem Phase.codes : Codes toJson ofJson? fun _ => True where
  proper p := .text (isBody_of_isPlain (by cases p <;> decide))
  decoded p _ := by cases p <;> rfl
  fits_of_decoded _ _ _ := trivial

namespace Entry

theorem fields_spec : fields.Nodup ∧ ∀ name ∈ fields, IsPlain name := by
  decide

/-- The number of the command fits into 64 bits. -/
def Fits (e : Entry) : Prop := e.index < UInt64.size

theorem codes : Codes toJson ofJson? Fits where
  proper e := by
    refine proper_object fields_spec.2 ?_
    simp only [List.map_cons, List.map_nil, List.forall_mem_cons]
    exact ⟨.number (isNumeral_ofInt _), .number (isNumeral_ofInt _), Command.codes.proper e.command,
      Phase.codes.proper e.phase, by simp⟩
  decoded e he := by
    have hrecord : e.toJson.toRecord? fields
        = some [.ofInt e.time.toNat, .ofInt e.index, e.command.toJson, e.phase.toJson] :=
      toRecord?_object fields_spec.2 fields_spec.1
    rw [ofJson?, hrecord]
    show (toNatBelow? _ (.ofInt e.time.toNat)).bind _ = _
    rw [toNatBelow?_ofInt e.time.toNat_lt, Option.bind_some]
    show (toNatBelow? _ (.ofInt e.index)).bind _ = _
    rw [toNatBelow?_ofInt he, Option.bind_some]
    show (Command.ofJson? e.command.toJson).bind _ = _
    rw [Command.codes.decoded e.command trivial, Option.bind_some]
    show (Phase.ofJson? e.phase.toJson).bind _ = _
    rw [Phase.codes.decoded e.phase trivial, Option.bind_some]
    show some { e with time := .ofNat e.time.toNat } = _
    rw [UInt64.ofNat_toNat]
  fits_of_decoded v e he := by
    obtain ⟨values, -, he⟩ := Option.bind_eq_some_iff.mp he
    split at he
    next time index command phase =>
      obtain ⟨_, -, he⟩ := Option.bind_eq_some_iff.mp he
      obtain ⟨number, hnumber, he⟩ := Option.bind_eq_some_iff.mp he
      obtain ⟨_, -, he⟩ := Option.bind_eq_some_iff.mp he
      obtain ⟨_, -, he⟩ := Option.bind_eq_some_iff.mp he
      cases he
      exact lt_of_toNatBelow? hnumber
    · cases he

end Entry

namespace Journal

/-- The numbers of all its commands fit into 64 bits. -/
def Fits (j : Journal) : Prop := ∀ e ∈ j.entries, e.Fits

theorem codes : Codes toJson ofJson? Fits where
  proper j := Entry.codes.list.proper j.entries.toList
  decoded j hj := by
    have hlist := Entry.codes.list.decoded j.entries.toList fun e he => hj e (Array.mem_def.mpr he)
    show (toList? Entry.ofJson? (.ofList Entry.toJson j.entries.toList)).map _ = _
    rw [hlist]
    rfl
  fits_of_decoded v j hj := by
    obtain ⟨entries, hentries, rfl⟩ := Option.map_eq_some_iff.mp hj
    intro e he
    exact Entry.codes.list.fits_of_decoded v entries hentries e (by simpa using he)

end Journal

/-- **Everything that is written as JSON comes back,** and what has been read
comes back after it is written again: journals, batches, commands, directions
and phases. A journal's document is one of those that are read back. -/
theorem roundTrips_all :
    RoundTrips Journal.toJson Journal.ofJson? Journal.Fits
      ∧ RoundTrips Command.listToJson Command.listOfJson? (fun _ => True)
      ∧ RoundTrips Command.toJson Command.ofJson? (fun _ => True)
      ∧ RoundTrips Direction.toJson Direction.ofJson? (fun _ => True)
      ∧ RoundTrips Phase.toJson Phase.ofJson? (fun _ => True)
      ∧ ∀ j : Journal, j.Fits →
        (Value.read? j.document.toList).bind Journal.ofJson? = some j := by
  have hjournal := Journal.codes.roundTrips
  refine ⟨hjournal, Command.listCodes.roundTrips, Command.codes.roundTrips,
    Direction.codes.roundTrips, Phase.codes.roundTrips, fun j hj => ?_⟩
  rw [Journal.document, String.toList_ofList]
  exact hjournal.written .spread j hj

/-- All the numbers of an entry at their limits. -/
theorem roundTrips_limits :
    (Value.read? ((Journal.toJson ⟨#[{
        time := 18446744073709551615, index := 18446744073709551615
        command := .place (-2147483648) 2147483647 .south, phase := .cancelled }]⟩).print
          .compact)).bind Journal.ofJson?
      = some ⟨#[{
        time := 18446744073709551615, index := 18446744073709551615
        command := .place (-2147483648) 2147483647 .south, phase := .cancelled }]⟩ := by
  refine roundTrips_all.1.written .compact _ fun e he => ?_
  obtain rfl := Array.mem_singleton.mp he
  show (18446744073709551615 : Nat) < UInt64.size
  decide

end Tabletop
