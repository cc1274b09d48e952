import Tabletop.Settings
import Tabletop.Proofs.Keys
import Tabletop.Proofs.Numerals

/-!
# Settings laid over the defaults

A configuration document is read setting by setting. What a document says of a
setting is the node that stands under its key in a section of its title (`Holds`),
and what becomes of the setting depends on that alone (`Settled`): a node gives it
a value if it is of the right kind (`Gives`), and where there is none it keeps its
default. There are two sets of defaults, one for settings that their section leaves
out and one for sections that are absent, and they agree (`leftOut_eq`). So the
settings of a document are its nodes laid over the defaults (`Overlays`), there are
some exactly if each of the nodes fits (`Fitting`), and two documents with the same
nodes under the nine keys have the same settings, however they are written and
whatever else they hold (`overlays_of_read`).

The reader finds a node as the first one under its key. That this is the only one is
not the reader's doing: it is because no table of a document that was read has a key
twice (`Toml.orderly_read?`).
-/

namespace Tabletop

namespace Settings

open Toml

/-! ## What a document says of a setting -/

/-- The sections that are known. -/
inductive Title where
  | grid
  | robot
  | simulation
  | logging

/-- What stands at the head of a section. -/
def Title.key : Title → Key
  | .grid => "grid".toList
  | .robot => "robot".toList
  | .simulation => "simulation".toList
  | .logging => "logging".toList

/-- What a setting can be. -/
inductive Kind where
  /-- An integer of 32 bits. -/
  | int32
  /-- A number in single precision. -/
  | number
  /-- A truth value. -/
  | truth
  /-- A text. -/
  | text

/-- The value of a setting of some kind. -/
inductive Value where
  /-- An integer of 32 bits. -/
  | int32 (n : Int32)
  /-- A number in single precision. -/
  | number (x : Single)
  /-- A truth value. -/
  | truth (b : Bool)
  /-- A text. -/
  | text (s : List Char)

/-- **The value that a node gives** to a setting of some kind. Nodes of other kinds
give none, and neither does an integer beyond 32 bits where one within is asked for. -/
inductive Gives : Kind → Node → Value → Prop
  | int32 (n : Int32) : Gives .int32 (.integer n.toInt) (.int32 n)
  /-- A whole number, rounded to single precision. -/
  | whole (i : Int) : Gives .number (.integer i) (.number (.ofInt i))
  /-- A number with a point, rounded to single precision. -/
  | point (x : Double) : Gives .number (.float x) (.number x.convert)
  | truth (b : Bool) : Gives .truth (.boolean b) (.truth b)
  | text (s : List Char) : Gives .text (.text s) (.text s)

/-- The settings that are known. -/
inductive Setting where
  | width
  | length
  | cellSize
  | turnDuration
  | stepDuration
  | frame
  | realtime
  | level
  | showJournal

namespace Setting

/-- The title of the section that a setting stands in. -/
def title : Setting → Title
  | width | length | cellSize => .grid
  | turnDuration | stepDuration => .robot
  | frame | realtime => .simulation
  | level | showJournal => .logging

/-- The key that a setting stands under. -/
def key : Setting → Key
  | width => "width".toList
  | length => "length".toList
  | cellSize => "cell_size".toList
  | turnDuration => "turn_duration".toList
  | stepDuration => "move_duration".toList
  | frame => "frame_step".toList
  | realtime => "realtime".toList
  | level => "level".toList
  | showJournal => "show_event_log".toList

/-- What a setting is. -/
def kind : Setting → Kind
  | width | length => .int32
  | cellSize | turnDuration | stepDuration | frame => .number
  | realtime | showJournal => .truth
  | level => .text

/-- The value that a setting has. -/
def value (c : Settings) : Setting → Value
  | width => .int32 c.width
  | length => .int32 c.length
  | cellSize => .number c.cellSize
  | turnDuration => .number c.turnDuration
  | stepDuration => .number c.stepDuration
  | frame => .number c.frame
  | realtime => .truth c.realtime
  | level => .text c.level
  | showJournal => .truth c.showJournal

end Setting

/-- What a node holds if it is a table, in braces or outside them. -/
def entries? : Node → Option Entries
  | .inline entries => some entries
  | .table _ entries => some entries
  | _ => none

/-- Each section that is known is a table, where there is one. -/
def Sectioned (document : Entries) : Prop :=
  ∀ (title : Title) (table : Node), (title.key, table) ∈ document → (entries? table).isSome

/-- A node stands under a key in a section with a title. -/
def HoldsAt (document : Entries) (title : Title) (key : Key) (node : Node) : Prop :=
  ∃ table entries, (title.key, table) ∈ document ∧ entries? table = some entries ∧
    (key, node) ∈ entries

/-- **What a document says of a setting:** a node stands where the setting belongs. -/
def Holds (document : Entries) (k : Setting) (node : Node) : Prop :=
  HoldsAt document k.title k.key node

/-- **A value for a setting:** what the document gives, and the default where it
says nothing of the setting. -/
structure Settled (document : Entries) (k : Setting) (v : Value) : Prop where
  /-- A node that is there gives the value. -/
  given : ∀ node, Holds document k node → Gives k.kind node v
  /-- Without one the value is the default. -/
  absent : (∀ node, ¬ Holds document k node) → v = k.value default

/-- **The document laid over the defaults.** -/
def Overlays (document : Entries) (c : Settings) : Prop :=
  ∀ k : Setting, Settled document k (k.value c)

/-- What the document says of a setting is of the setting's kind. -/
def Fits (document : Entries) (k : Setting) : Prop :=
  ∀ node, Holds document k node → ∃ v, Gives k.kind node v

/-- So it is for all settings. -/
def Fitting (document : Entries) : Prop := ∀ k : Setting, Fits document k

variable {document : Entries}

/-- A document that holds tables only has tables for its sections. -/
theorem sectioned_of_forall (h : ∀ e ∈ document, (entries? e.2).isSome) : Sectioned document :=
  fun _ _ hmem => h _ hmem

/-! ## Reading one node -/

/-- **Values of a kind,** and the reader that finds them. -/
structure Reads {α : Type} (kind : Kind) (wrap : α → Value) (read? : Node → Option α) :
    Prop where
  /-- What is given to a setting of this kind is what is read. -/
  gives_iff : ∀ {node v}, Gives kind node v ↔ ∃ a, read? node = some a ∧ v = wrap a
  /-- Values are told apart. -/
  injective : ∀ {a b}, wrap a = wrap b → a = b

theorem Reads.gives_wrap_iff {α : Type} {kind : Kind} {wrap : α → Value}
    {read? : Node → Option α} (h : Reads kind wrap read?) {node : Node} {a : α} :
    Gives kind node (wrap a) ↔ read? node = some a := by
  rw [h.gives_iff]
  constructor
  · rintro ⟨b, hb, hab⟩
    rw [hb, h.injective hab]
  · exact fun ha => ⟨a, ha, rfl⟩

theorem reads_int32 : Reads .int32 .int32 int32? where
  gives_iff {node v} := by
    constructor
    · rintro ⟨n⟩
      exact ⟨n, Numeral.int32?_eq_some_iff.mpr rfl, rfl⟩
    · rintro ⟨n, hn, rfl⟩
      cases node with
      | integer i => exact Numeral.int32?_eq_some_iff.mp hn ▸ .int32 n
      | _ => cases hn
  injective h := by cases h; rfl

theorem reads_number : Reads .number .number single? where
  gives_iff {node v} := by
    constructor
    · rintro (_ | i | x)
      · exact ⟨.ofInt i, rfl, rfl⟩
      · exact ⟨x.convert, rfl, rfl⟩
    · rintro ⟨y, hy, rfl⟩
      cases node with
      | integer i => cases hy; exact .whole i
      | float x => cases hy; exact .point x
      | _ => cases hy
  injective h := by cases h; rfl

theorem reads_truth : Reads .truth .truth boolean? where
  gives_iff {node v} := by
    constructor
    · rintro ⟨⟩
      exact ⟨_, rfl, rfl⟩
    · rintro ⟨b, hb, rfl⟩
      cases node with
      | boolean b' => cases hb; exact .truth b
      | _ => cases hb
  injective h := by cases h; rfl

theorem reads_text : Reads .text .text text? where
  gives_iff {node v} := by
    constructor
    · rintro ⟨⟩
      exact ⟨_, rfl, rfl⟩
    · rintro ⟨s, hs, rfl⟩
      cases node with
      | text s' => cases hs; exact .text s
      | _ => cases hs
  injective h := by cases h; rfl

/-- **How one setting is read:** what it is of, the reader of its kind and its field. -/
structure Reader (k : Setting) where
  /-- What the field holds. -/
  Carrier : Type
  /-- What it holds, as a value. -/
  wrap : Carrier → Value
  /-- Reads a node. -/
  read? : Node → Option Carrier
  /-- The field. -/
  field : Settings → Carrier
  reads : Reads k.kind wrap read?
  value_eq : ∀ c, k.value c = wrap (field c)

/-- The readers of the nine settings. -/
def reader : (k : Setting) → Reader k
  | .width => ⟨Int32, .int32, int32?, Settings.width, reads_int32, fun _ => rfl⟩
  | .length => ⟨Int32, .int32, int32?, Settings.length, reads_int32, fun _ => rfl⟩
  | .cellSize => ⟨Single, .number, single?, Settings.cellSize, reads_number, fun _ => rfl⟩
  | .turnDuration =>
    ⟨Single, .number, single?, Settings.turnDuration, reads_number, fun _ => rfl⟩
  | .stepDuration =>
    ⟨Single, .number, single?, Settings.stepDuration, reads_number, fun _ => rfl⟩
  | .frame => ⟨Single, .number, single?, Settings.frame, reads_number, fun _ => rfl⟩
  | .realtime => ⟨Bool, .truth, boolean?, Settings.realtime, reads_truth, fun _ => rfl⟩
  | .level => ⟨List Char, .text, text?, Settings.level, reads_text, fun _ => rfl⟩
  | .showJournal => ⟨Bool, .truth, boolean?, Settings.showJournal, reads_truth, fun _ => rfl⟩

/-! ## Looking a setting up -/

/-- The node under a key in a section with a title, if the section is a table. -/
def find (document : Entries) (title : Title) (key : Key) : Option Node :=
  ((document.get? title.key).bind entries?).bind fun entries => entries.get? key

theorem orderly_of_entries? {node : Node} {entries : Entries} (h : node.Orderly)
    (he : entries? node = some entries) : entries.Orderly := by
  cases h with
  | inline hkeys h => cases he; exact ⟨hkeys, h⟩
  | table origin hkeys h => cases he; exact ⟨hkeys, h⟩
  | _ => cases he

/-- **A node is found** exactly if the document holds it there. -/
theorem find_eq_some_iff (ho : document.Orderly) {title : Title} {key : Key} {node : Node} :
    find document title key = some node ↔ HoldsAt document title key node := by
  simp only [find, Option.bind_eq_some_iff]
  constructor
  · rintro ⟨entries, ⟨table, hsection, he⟩, hnode⟩
    have hkeys : (entries.map Prod.fst).Nodup := (orderly_of_entries? (ho.found hsection) he).keys
    exact ⟨table, entries, (Entries.get?_eq_some_iff ho.keys).mp hsection, he,
      (Entries.get?_eq_some_iff hkeys).mp hnode⟩
  · rintro ⟨table, entries, hmem, he, hnode⟩
    have hsection : document.get? title.key = some table :=
      (Entries.get?_eq_some_iff ho.keys).mpr hmem
    have hkeys : (entries.map Prod.fst).Nodup := (orderly_of_entries? (ho.found hsection) he).keys
    exact ⟨entries, ⟨table, hsection, he⟩, (Entries.get?_eq_some_iff hkeys).mpr hnode⟩

/-- A table goes by its keys, wherever in it a setting is sought. -/
theorem asSection?_of_entries? {node : Node} {entries : Entries}
    (h : entries? node = some entries) :
    asSection? node = some fun _ key => entries.get? key := by
  cases node with
  | inline entries' => cases h; rfl
  | table origin entries' => cases h; rfl
  | _ => cases h

/-- A section that leaves a setting out and one that is absent come to the same. -/
theorem leftOut_eq : leftOut = default := by
  have hrealtime : leftOut.realtime = false := rfl
  have hshow : leftOut.showJournal = false := rfl
  unfold default
  generalize leftOut = c at *
  cases c
  cases hrealtime
  cases hshow
  rfl

/-- A section that is absent or a table is looked up by its keys. -/
theorem exists_sectionOf? (ho : document.Orderly) (hs : Sectioned document) (title : Title) :
    ∃ s, sectionOf? document title.key = some s
      ∧ ∀ {α : Type} (read? : Node → Option α) (field : Settings → α) (place : Nat) (key : Key),
        setting? read? field place key s
          = orDefault read? (field default) (find document title key) := by
  cases hget : document.get? title.key with
  | none =>
    refine ⟨none, by rw [sectionOf?, hget], fun read? field place key => ?_⟩
    rw [find, hget]
    rfl
  | some table =>
    obtain ⟨entries, he⟩ := Option.isSome_iff_exists.mp
      (hs title table ((Entries.get?_eq_some_iff ho.keys).mp hget))
    refine ⟨some fun _ key => entries.get? key, ?_, fun read? field place key => ?_⟩
    · rw [sectionOf?, hget]
      exact congrArg (Option.map some) (asSection?_of_entries? he)
    · rw [find, hget, Option.bind_some, he, setting?, leftOut_eq]
      rfl

/-- Documents in which the same is found hold the same. -/
theorem holds_congr {document' : Entries} (ho : document.Orderly) (ho' : document'.Orderly)
    (h : ∀ k : Setting, find document' k.title k.key = find document k.title k.key)
    (k : Setting) (node : Node) : Holds document' k node ↔ Holds document k node := by
  rw [Holds, Holds, ← find_eq_some_iff ho, ← find_eq_some_iff ho', h k]

section Lookup

variable {k : Setting} {found : Option Node}
  (hfound : ∀ node, found = some node ↔ Holds document k node)
include hfound

/-- **One setting is read** exactly as it is settled. -/
theorem orDefault_eq_some_iff (r : Reader k) {c : Settings} :
    orDefault r.read? (r.field default) found = some (r.field c) ↔
      Settled document k (k.value c) := by
  rw [r.value_eq c]
  cases found with
  | none =>
    have hnone : ∀ node, ¬ Holds document k node := fun node h => nomatch (hfound node).mpr h
    constructor
    · intro h
      have hc : r.field default = r.field c := Option.some.inj h
      exact ⟨fun node h => absurd h (hnone node), fun _ => by rw [r.value_eq, hc]⟩
    · intro h
      have hc : r.wrap (r.field c) = r.wrap (r.field default) :=
        (h.absent hnone).trans (r.value_eq default)
      exact congrArg some (r.reads.injective hc).symm
  | some node =>
    have hnode : Holds document k node := (hfound node).mp rfl
    refine ⟨fun h => ⟨fun node' h' => ?_, fun hnone => absurd hnode (hnone node)⟩,
      fun h => r.reads.gives_wrap_iff.mp (h.given node hnode)⟩
    cases (hfound node').mpr h'
    exact r.reads.gives_wrap_iff.mpr h

/-- A setting can be read if what the document says of it fits. -/
theorem exists_orDefault (r : Reader k) (hfit : Fits document k) :
    ∃ a, orDefault r.read? (r.field default) found = some a := by
  cases found with
  | none => exact ⟨_, rfl⟩
  | some node =>
    obtain ⟨v, hv⟩ := hfit node ((hfound node).mp rfl)
    obtain ⟨a, ha, -⟩ := r.reads.gives_iff.mp hv
    exact ⟨a, ha⟩

end Lookup

/-! ## Reading them all -/

/-- Each setting is read from the node that is found for it, and from nothing else. -/
def ReadFrom (found : Setting → Option Node) (c : Settings) : Prop :=
  ∀ k : Setting,
    orDefault (reader k).read? ((reader k).field default) (found k) = some ((reader k).field c)

theorem ofDocument?_eq_some_iff_readFrom (ho : document.Orderly) (hs : Sectioned document)
    {c : Settings} :
    ofDocument? document = some c ↔ ReadFrom (fun k => find document k.title k.key) c := by
  obtain ⟨grid, hgrid, hgridSettings⟩ := exists_sectionOf? ho hs .grid
  obtain ⟨robot, hrobot, hrobotSettings⟩ := exists_sectionOf? ho hs .robot
  obtain ⟨simulation, hsimulation, hsimulationSettings⟩ := exists_sectionOf? ho hs .simulation
  obtain ⟨logging, hlogging, hloggingSettings⟩ := exists_sectionOf? ho hs .logging
  have hgrid : sectionOf? document "grid".toList = _ := hgrid
  have hrobot : sectionOf? document "robot".toList = _ := hrobot
  have hsimulation : sectionOf? document "simulation".toList = _ := hsimulation
  have hlogging : sectionOf? document "logging".toList = _ := hlogging
  delta ofDocument? ReadFrom
  rewrite [hgrid, hrobot, hsimulation, hlogging]
  dsimp only [Option.bind_eq_bind, Option.bind_some]
  simp only [hgridSettings, hrobotSettings, hsimulationSettings, hloggingSettings]
  -- What the defaults are does not matter here, and they are better not computed.
  generalize default = d
  simp only [Option.bind_eq_some_iff]
  constructor
  · rintro ⟨_, h1, _, h2, _, h3, _, h4, _, h5, _, h6, _, h7, _, h8, _, h9, hc⟩ k
    cases hc
    cases k
    exacts [h1, h2, h3, h4, h5, h6, h7, h8, h9]
  · intro h
    exact ⟨_, h .width, _, h .length, _, h .cellSize, _, h .turnDuration, _, h .stepDuration,
      _, h .frame, _, h .realtime, _, h .level, _, h .showJournal, rfl⟩

/-- **The settings of a document** are what it says laid over the defaults. -/
theorem ofDocument?_eq_some_iff (ho : document.Orderly) (hs : Sectioned document)
    {c : Settings} : ofDocument? document = some c ↔ Overlays document c := by
  rw [ofDocument?_eq_some_iff_readFrom ho hs]
  exact forall_congr' fun k =>
    orDefault_eq_some_iff (fun node => find_eq_some_iff ho) (reader k)

/-- **There are settings** exactly if what the document says of each one fits. -/
theorem exists_ofDocument?_iff (ho : document.Orderly) (hs : Sectioned document) :
    (∃ c, ofDocument? document = some c) ↔ Fitting document := by
  constructor
  · rintro ⟨c, hc⟩ k node hnode
    exact ⟨_, ((ofDocument?_eq_some_iff ho hs).mp hc k).given node hnode⟩
  · intro hfit
    choose a ha using fun k =>
      exists_orDefault (fun node => find_eq_some_iff ho) (reader k) (hfit k)
    refine ⟨⟨a .width, a .length, a .cellSize, a .turnDuration, a .stepDuration, a .frame,
      a .realtime, a .level, a .showJournal⟩, ?_⟩
    rw [ofDocument?_eq_some_iff_readFrom ho hs]
    intro k
    have hk := ha k
    cases k <;> exact hk

/-! ## Reading a text -/

theorem read?_eq {text : List Char} (hread : Toml.read? text = some document) :
    read? text = ofDocument? document := by
  rw [read?, hread, Option.bind_some]

/-- What is settled for a setting depends on what is said of it, and on nothing else. -/
theorem Settled.congr {document' : Entries} {k : Setting} {v : Value}
    (hv : Settled document k v) (h : ∀ node, Holds document' k node ↔ Holds document k node) :
    Settled document' k v where
  given node hnode := hv.given node ((h node).mp hnode)
  absent hnone := hv.absent fun node hnode => hnone node ((h node).mpr hnode)

/-- **A configuration document is laid over the defaults setting by setting.** Let its
sections be tables. If what it says of each setting fits then there are settings, and
each has the value that the document gives and the default where it gives none. If
something does not fit there are no settings. Another text that says the same of each
setting is read to the same, whatever the order of its keys and sections and whatever
else stands in it. -/
theorem overlays_of_read {text : List Char} (hread : Toml.read? text = some document)
    (hs : Sectioned document) :
    (Fitting document → ∃ c, read? text = some c ∧ Overlays document c) ∧
      (¬ Fitting document → read? text = none) ∧
      ∀ text' document', Toml.read? text' = some document' → Sectioned document' →
        (∀ k node, Holds document' k node ↔ Holds document k node) →
        read? text' = read? text := by
  have ho : document.Orderly := orderly_read? hread
  rw [read?_eq hread]
  refine ⟨fun hfit => ?_, fun hfit => ?_, fun text' document' hread' hs' hsame => ?_⟩
  · obtain ⟨c, hc⟩ := (exists_ofDocument?_iff ho hs).mpr hfit
    exact ⟨c, hc, (ofDocument?_eq_some_iff ho hs).mp hc⟩
  · rw [Option.eq_none_iff_forall_ne_some]
    exact fun c hc => hfit ((exists_ofDocument?_iff ho hs).mp ⟨c, hc⟩)
  · rw [read?_eq hread']
    refine Option.ext fun c => ?_
    rw [ofDocument?_eq_some_iff (orderly_read? hread') hs', ofDocument?_eq_some_iff ho hs]
    exact forall_congr' fun k =>
      ⟨fun hv => hv.congr fun node => (hsame k node).symm, fun hv => hv.congr (hsame k)⟩

/-- One setting given, with and without what is unknown beside it; and one that does not
fit. -/
theorem overlays_of_read_rearranged :
    (∃ c, read? "[grid]\nlength = 3\n".toList = some c ∧
      Overlays [("grid".toList, .table .header [("length".toList, .integer 3)])] c ∧
      read? "[extra]\n[grid]\ncolour = true\nlength = 3\n".toList = some c) ∧
    read? "[grid]\nwidth = \"wide\"\n".toList = none := by
  constructor
  · have hread : Toml.read? "[grid]\nlength = 3\n".toList
        = some [("grid".toList, .table .header [("length".toList, .integer 3)])] := by rfl
    have hread' : Toml.read? "[extra]\n[grid]\ncolour = true\nlength = 3\n".toList
        = some [("extra".toList, .table .header []), ("grid".toList, .table .header
          [("colour".toList, .boolean true), ("length".toList, .integer 3)])] := by rfl
    have hfit : Fitting [("grid".toList, .table .header [("length".toList, .integer 3)])] := by
      intro k node hnode
      have hfind := (find_eq_some_iff (orderly_read? hread)).mpr hnode
      cases k with
      | length => cases hfind; exact ⟨_, .int32 3⟩
      | _ => cases hfind
    have hsame : ∀ k : Setting, find [("extra".toList, .table .header []), ("grid".toList,
          .table .header [("colour".toList, .boolean true), ("length".toList, .integer 3)])]
          k.title k.key
        = find [("grid".toList, .table .header [("length".toList, .integer 3)])]
          k.title k.key := by
      intro k
      cases k <;> rfl
    obtain ⟨hsome, -, hother⟩ :=
      overlays_of_read hread (sectioned_of_forall (by simp [entries?]))
    obtain ⟨c, hc, hover⟩ := hsome hfit
    exact ⟨c, hc, hover, hc ▸ hother _ _ hread' (sectioned_of_forall (by simp [entries?]))
      (holds_congr (orderly_read? hread) (orderly_read? hread') hsame)⟩
  · have hread : Toml.read? "[grid]\nwidth = \"wide\"\n".toList
        = some [("grid".toList, .table .header [("width".toList, .text "wide".toList)])] := by rfl
    refine (overlays_of_read hread (sectioned_of_forall (by simp [entries?]))).2.1 fun hfit => ?_
    obtain ⟨v, hv⟩ := hfit .width (.text "wide".toList)
      ⟨_, _, List.mem_singleton_self _, rfl, List.mem_singleton_self _⟩
    cases hv

end Settings

end Tabletop
