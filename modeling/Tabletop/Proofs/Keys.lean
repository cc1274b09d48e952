import Tabletop.Toml.Reader
import Mathlib.Data.List.Nodup

/-!
# Every key once

A document that is read has no table with a key that stands in it twice, however
the table was written and however deep it lies (`Node.Orderly`). So what a table
holds can be told without the order in which it was written: a node is found under
a key if and only if it stands there (`Entries.get?_eq_some_iff`).

The tree is built by two operations that refuse a key in use, a header and an
assignment, and both go down a path to a table and put what they have changed
back in its place (`Entries.Orderly.within`, `Entries.Orderly.assign`). A table in
braces is built by assignments too, and only then becomes a node of the tree
around it, so the reader of values has to be followed as well, depth by depth
(`yields_takeValue`).
-/

namespace Tabletop

namespace Toml

/-- **Each key once,** in all tables of a node, at any depth. -/
inductive Node.Orderly : Node → Prop
  | text (s : List Char) : Orderly (.text s)
  | integer (i : Int) : Orderly (.integer i)
  | float (x : Double) : Orderly (.float x)
  | boolean (b : Bool) : Orderly (.boolean b)
  | moment : Orderly .moment
  | list {items : List Node} (h : ∀ item ∈ items, item.Orderly) : Orderly (.list items)
  | inline {entries : List (Key × Node)} (hkeys : (entries.map Prod.fst).Nodup)
      (h : ∀ e ∈ entries, e.2.Orderly) : Orderly (.inline entries)
  | table (origin : Origin) {entries : List (Key × Node)} (hkeys : (entries.map Prod.fst).Nodup)
      (h : ∀ e ∈ entries, e.2.Orderly) : Orderly (.table origin entries)
  | tables {items : List (List (Key × Node))}
      (hkeys : ∀ entries ∈ items, (entries.map Prod.fst).Nodup)
      (h : ∀ entries ∈ items, ∀ e ∈ entries, e.2.Orderly) : Orderly (.tables items)

namespace Entries

/-- **Each key once,** in a table and in all tables within it. -/
structure Orderly (es : Entries) : Prop where
  /-- The keys of the table are all different. -/
  keys : (es.map Prod.fst).Nodup
  /-- So they are in the nodes that it holds. -/
  nodes : ∀ e ∈ es, e.2.Orderly

variable {es es' : Entries} {key : Key} {node : Node}

theorem orderly_nil : Orderly [] := ⟨List.nodup_nil, by simp⟩

/-! ## Looking a key up -/

theorem get?_eq_none_iff : get? es key = none ↔ key ∉ es.map Prod.fst := by
  rw [get?, Option.map_eq_none_iff, List.find?_eq_none, List.mem_map]
  refine ⟨?_, fun h e he hkey => h ⟨e, he, of_decide_eq_true hkey⟩⟩
  rintro h ⟨e, he, rfl⟩
  exact h e he (decide_eq_true rfl)

/-- **A node is found under a key** exactly if it stands there. -/
theorem get?_eq_some_iff (hkeys : (es.map Prod.fst).Nodup) :
    get? es key = some node ↔ (key, node) ∈ es := by
  induction es with
  | nil => simp [get?]
  | cons e es ih =>
    obtain ⟨hnot, hkeys⟩ := List.nodup_cons.mp hkeys
    by_cases he : e.1 = key
    · have hfound : get? (e :: es) key = some e.2 := by simp [get?, he]
      rw [hfound, List.mem_cons, Option.some_inj]
      constructor
      · rintro rfl
        exact .inl (Prod.ext he.symm rfl)
      · rintro (rfl | hmem)
        · rfl
        · exact absurd (List.mem_map.mpr ⟨_, hmem, he.symm⟩) hnot
    · have hfound : get? (e :: es) key = get? es key := by simp [get?, he]
      rw [hfound, ih hkeys, List.mem_cons]
      refine ⟨.inr, ?_⟩
      rintro (rfl | hmem)
      · exact absurd rfl he
      · exact hmem

theorem Orderly.found (h : es.Orderly) (hget : get? es key = some node) : node.Orderly :=
  h.nodes _ ((get?_eq_some_iff h.keys).mp hget)

/-! ## Changing a table -/

theorem Orderly.append (h : es.Orderly) (hnew : get? es key = none) (hnode : node.Orderly) :
    Orderly (es ++ [(key, node)]) where
  keys := by
    rw [List.map_append, List.nodup_append]
    refine ⟨h.keys, List.nodup_singleton _, ?_⟩
    rintro k hk _ hlast rfl
    rw [List.mem_singleton.mp hlast] at hk
    exact get?_eq_none_iff.mp hnew hk
  nodes e he := by
    rcases List.mem_append.mp he with he | he
    · exact h.nodes e he
    · rwa [List.mem_singleton.mp he]

/-- A node may be put under any key. -/
theorem Orderly.put (h : es.Orderly) (hnode : node.Orderly) (key : Key) :
    (put es key node).Orderly := by
  unfold Entries.put
  split
  · have hkeep : (es.map fun e => if e.1 = key then (key, node) else e).map Prod.fst
        = es.map Prod.fst := by
      rw [List.map_map]
      refine List.map_congr_left fun e _ => ?_
      by_cases he : e.1 = key <;> simp [he]
    refine ⟨hkeep ▸ h.keys, fun e he => ?_⟩
    obtain ⟨e', he', rfl⟩ := List.mem_map.mp he
    split
    · exact hnode
    · exact h.nodes e' he'
  next hany =>
    refine h.append (get?_eq_none_iff.mpr fun hmem => hany ?_) hnode
    obtain ⟨e, he, rfl⟩ := List.mem_map.mp hmem
    exact List.any_eq_true.mpr ⟨e, he, by simp⟩

theorem Orderly.putNew? (h : es.Orderly) (hnode : node.Orderly)
    (hput : putNew? es key node = some es') : es'.Orderly := by
  unfold Entries.putNew? at hput
  split at hput
  next hnew =>
    cases hput
    exact h.append hnew hnode
  next => cases hput

theorem orderly_of_table {origin : Origin} (h : (Node.table origin es).Orderly) : es.Orderly := by
  cases h with
  | table _ hkeys h => exact ⟨hkeys, h⟩

theorem Orderly.table (h : es.Orderly) (origin : Origin) : (Node.table origin es).Orderly :=
  .table origin h.keys h.nodes

section Tables

variable {latest : List (Key × Node)} {earlier : List (List (Key × Node))}

theorem orderly_of_tables (h : (Node.tables (latest :: earlier)).Orderly) :
    Orderly latest ∧ (Node.tables earlier).Orderly := by
  cases h with
  | tables hkeys h =>
    obtain ⟨hkey, hkeys⟩ := List.forall_mem_cons.mp hkeys
    obtain ⟨hlatest, h⟩ := List.forall_mem_cons.mp h
    exact ⟨⟨hkey, hlatest⟩, .tables hkeys h⟩

theorem Orderly.tables (h : Orderly latest) (hearlier : (Node.tables earlier).Orderly) :
    (Node.tables (latest :: earlier)).Orderly := by
  cases hearlier with
  | tables hkeys hnodes =>
    exact .tables (List.forall_mem_cons.mpr ⟨h.keys, hkeys⟩)
      (List.forall_mem_cons.mpr ⟨h.nodes, hnodes⟩)

end Tables

/-- **Down a path and back.** What keeps the keys apart in one table keeps them
apart in all the tables around it. -/
theorem Orderly.within {change : Entries → Option Entries}
    (hchange : ∀ {es es'}, es.Orderly → change es = some es' → es'.Orderly) {path : List Key}
    (h : es.Orderly) (hw : within change path es = some es') : es'.Orderly := by
  induction path generalizing es es' with
  | nil => exact hchange h hw
  | cons key path ih =>
    unfold Entries.within at hw
    split at hw
    next =>
      obtain ⟨sub, hsub, hw⟩ := Option.bind_eq_some_iff.mp hw
      cases hw
      exact h.put ((ih orderly_nil hsub).table _) key
    next origin sub hget =>
      obtain ⟨sub', hsub, hw⟩ := Option.bind_eq_some_iff.mp hw
      cases hw
      exact h.put ((ih (orderly_of_table (h.found hget)) hsub).table _) key
    next latest earlier hget =>
      obtain ⟨latest', hlatest, hw⟩ := Option.bind_eq_some_iff.mp hw
      obtain ⟨hold, hearlier⟩ := orderly_of_tables (h.found hget)
      cases hw
      exact h.put ((ih hold hlatest).tables hearlier) key
    next => cases hw

/-- **Along a dotted key,** whose last part must not be in use. -/
theorem Orderly.assign (hnode : node.Orderly) {path : List Key} (h : es.Orderly)
    (ha : assign key node path es = some es') : es'.Orderly := by
  induction path generalizing es es' with
  | nil => exact h.putNew? hnode ha
  | cons k path ih =>
    unfold Entries.assign at ha
    split at ha
    next =>
      obtain ⟨sub, hsub, ha⟩ := Option.bind_eq_some_iff.mp ha
      cases ha
      exact h.put ((ih orderly_nil hsub).table _) k
    next origin sub hget =>
      split at ha
      · cases ha
      · obtain ⟨sub', hsub, ha⟩ := Option.bind_eq_some_iff.mp ha
        cases ha
        exact h.put ((ih (orderly_of_table (h.found hget)) hsub).table _) k
    next latest earlier hget =>
      split at ha
      · cases ha
      · obtain ⟨latest', hlatest, ha⟩ := Option.bind_eq_some_iff.mp ha
        obtain ⟨hold, hearlier⟩ := orderly_of_tables (h.found hget)
        cases ha
        exact h.put ((ih hold hlatest).tables hearlier) k
    next => cases ha

theorem Orderly.openTable (h : es.Orderly) (ho : openTable key es = some es') : es'.Orderly := by
  unfold Entries.openTable at ho
  split at ho
  next =>
    cases ho
    exact h.put (orderly_nil.table _) key
  next sub hget =>
    cases ho
    exact h.put ((orderly_of_table (h.found hget)).table _) key
  next => cases ho

theorem Orderly.openNext (h : es.Orderly) (ho : openNext key es = some es') : es'.Orderly := by
  unfold Entries.openNext at ho
  split at ho
  next =>
    cases ho
    exact h.put (orderly_nil.tables (.tables (by simp) (by simp))) key
  next items hget =>
    cases ho
    exact h.put (orderly_nil.tables (h.found hget)) key
  next => cases ho

end Entries

/-- A list is worked through step by step, and each step keeps a property. -/
theorem keep_foldlM {α β : Type} {P : α → Prop} {Q : β → Prop} {step : α → β → Option α}
    (hstep : ∀ {a b a'}, P a → Q b → step a b = some a' → P a') {items : List β} {a a' : α}
    (ha : P a) (hitems : ∀ b ∈ items, Q b) (hf : items.foldlM step a = some a') : P a' := by
  induction items generalizing a with
  | nil =>
    cases hf
    exact ha
  | cons b items ih =>
    obtain ⟨hb, hitems⟩ := List.forall_mem_cons.mp hitems
    rw [List.foldlM_cons] at hf
    obtain ⟨next, hnext, hf⟩ := Option.bind_eq_some_iff.mp hf
    exact ih (hstep ha hb hnext) hitems hf

/-! ## Documents -/

/-- The value of an assignment is orderly. -/
def Statement.Orderly : Statement → Prop
  | .assignment _ _ node => node.Orderly
  | _ => True

namespace Document

variable {d d' : Document}

theorem orderly_perform {statement : Statement} (hs : statement.Orderly)
    (h : d.entries.Orderly) (hp : d.perform statement = some d') : d'.entries.Orderly := by
  cases statement with
  | header path key =>
    obtain ⟨entries, hentries, hp⟩ := Option.bind_eq_some_iff.mp hp
    cases hp
    exact h.within Entries.Orderly.openTable hentries
  | nextHeader path key =>
    obtain ⟨entries, hentries, hp⟩ := Option.bind_eq_some_iff.mp hp
    cases hp
    exact h.within Entries.Orderly.openNext hentries
  | assignment path key node =>
    obtain ⟨entries, hentries, hp⟩ := Option.bind_eq_some_iff.mp hp
    cases hp
    exact h.within (Entries.Orderly.assign hs) hentries

theorem orderly_ofStatements? {statements : List Statement}
    (hs : ∀ statement ∈ statements, statement.Orderly) (hd : ofStatements? statements = some d) :
    d.entries.Orderly := by
  have hfold : statements.foldlM perform empty = some d := hd
  exact keep_foldlM (P := fun d => d.entries.Orderly) (Q := Statement.Orderly)
    (fun h hs => orderly_perform hs h) Entries.orderly_nil hs hfold

end Document

/-! ## Values -/

/-- **Whatever is read has a property.** -/
def Yields {α : Type} (scan : Scan α) (P : α → Prop) : Prop :=
  ∀ s a rest, scan s = some (a, rest) → P a

namespace Number

theorem orderly_integer? {i : Int} {node : Node} (h : integer? i = some node) : node.Orderly := by
  unfold integer? at h
  split at h
  · cases h
    exact .integer i
  · cases h

theorem orderly_float? {x : Double} {node : Node} (h : float? x = some node) : node.Orderly := by
  unfold float? at h
  split at h
  · cases h
  · cases h
    exact .float x

theorem orderly_ofParts? {negative : Bool} {whole : List Char} {fraction : Option (List Char)}
    {exponent : Option Int} {node : Node} (h : ofParts? negative whole fraction exponent = some node) :
    node.Orderly := by
  unfold ofParts? at h
  split at h
  · exact orderly_integer? h
  · exact orderly_float? h

theorem yields_takeInBase {base : Nat} {isDigit : Char → Bool} :
    Yields (takeInBase base isDigit) Node.Orderly := by
  intro s node rest h
  obtain ⟨⟨digits, _⟩, -, h⟩ := Option.bind_eq_some_iff.mp h
  obtain ⟨_, hnode, h⟩ := Option.bind_eq_some_iff.mp h
  cases h
  exact orderly_integer? hnode

theorem yields_takeDecimal : Yields takeDecimal Node.Orderly := by
  intro s node rest h
  unfold takeDecimal at h
  split at h
  · cases h
    exact .float _
  · cases h
    exact .float _
  · obtain ⟨⟨whole, _⟩, -, h⟩ := Option.bind_eq_some_iff.mp h
    obtain ⟨⟨fraction, _⟩, -, h⟩ := Option.bind_eq_some_iff.mp h
    obtain ⟨⟨exponent, _⟩, -, h⟩ := Option.bind_eq_some_iff.mp h
    obtain ⟨_, hnode, h⟩ := Option.bind_eq_some_iff.mp h
    cases h
    exact orderly_ofParts? hnode

theorem yields_take : Yields take Node.Orderly := by
  intro s node rest h
  unfold take at h
  split at h
  · exact yields_takeInBase _ _ _ h
  · exact yields_takeInBase _ _ _ h
  · exact yields_takeInBase _ _ _ h
  · exact yields_takeDecimal _ _ _ h

end Number

theorem yields_takeScalar : Yields takeScalar Node.Orderly := by
  intro s node rest h
  unfold takeScalar at h
  split at h
  · cases h
    exact .boolean true
  · cases h
    exact .boolean false
  · obtain ⟨⟨text, _⟩, -, h⟩ := Option.map_eq_some_iff.mp h
    cases h
    exact .text text
  · obtain ⟨⟨text, _⟩, -, h⟩ := Option.map_eq_some_iff.mp h
    cases h
    exact .text text
  · split at h
    · cases h
      exact .moment
    · exact Number.yields_take _ _ _ h

section Values

variable {takeValue : Scan Node}

theorem yields_takeItems (hv : Yields takeValue Node.Orderly) (n : Nat) :
    Yields (takeItems takeValue n) fun items => ∀ item ∈ items, item.Orderly := by
  induction n with
  | zero => exact nofun
  | succ n ih =>
    intro s items rest h
    unfold takeItems at h
    split at h
    · cases h
      simp
    · obtain ⟨⟨item, _⟩, hitem, h⟩ := Option.bind_eq_some_iff.mp h
      dsimp only at h
      split at h
      · obtain ⟨⟨others, _⟩, hothers, h⟩ := Option.bind_eq_some_iff.mp h
        cases h
        exact List.forall_mem_cons.mpr ⟨hv _ _ _ hitem, ih _ _ _ hothers⟩
      · cases h
        exact List.forall_mem_singleton.mpr (hv _ _ _ hitem)
      · cases h

theorem yields_takeAssignment (hv : Yields takeValue Node.Orderly) :
    Yields (takeAssignment takeValue) fun assignment => assignment.2.2.Orderly := by
  intro s assignment rest h
  obtain ⟨⟨⟨path, key⟩, _⟩, -, h⟩ := Option.bind_eq_some_iff.mp h
  dsimp only at h
  split at h
  · obtain ⟨⟨node, _⟩, hnode, h⟩ := Option.bind_eq_some_iff.mp h
    cases h
    exact hv _ _ _ hnode
  · cases h

theorem yields_takeEntries (hv : Yields takeValue Node.Orderly) (n : Nat) :
    Yields (takeEntries takeValue n) fun assignments =>
      ∀ assignment ∈ assignments, assignment.2.2.Orderly := by
  induction n with
  | zero => exact nofun
  | succ n ih =>
    intro s assignments rest h
    unfold takeEntries at h
    obtain ⟨⟨entry, _⟩, hentry, h⟩ := Option.bind_eq_some_iff.mp h
    dsimp only at h
    split at h
    · obtain ⟨⟨others, _⟩, hothers, h⟩ := Option.bind_eq_some_iff.mp h
      cases h
      exact List.forall_mem_cons.mpr ⟨yields_takeAssignment hv _ _ _ hentry, ih _ _ _ hothers⟩
    · cases h
      exact List.forall_mem_singleton.mpr (yields_takeAssignment hv _ _ _ hentry)
    · cases h

/-- A table in braces is put together like one with a header. -/
theorem orderly_inline? {assignments : List (List Key × Key × Node)} {node : Node}
    (ha : ∀ assignment ∈ assignments, assignment.2.2.Orderly)
    (h : inline? assignments = some node) : node.Orderly := by
  obtain ⟨entries, hentries, rfl⟩ := Option.map_eq_some_iff.mp h
  have horderly : Entries.Orderly entries :=
    keep_foldlM (P := Entries.Orderly) (Q := fun assignment => assignment.2.2.Orderly)
      (fun h hb hstep => h.assign hb hstep) Entries.orderly_nil ha hentries
  exact .inline horderly.keys horderly.nodes

theorem yields_takeList (hv : Yields takeValue Node.Orderly) :
    Yields (takeList takeValue) Node.Orderly := by
  intro s node rest h
  obtain ⟨⟨items, _⟩, hitems, h⟩ := Option.map_eq_some_iff.mp h
  cases h
  exact .list (yields_takeItems hv _ _ _ _ hitems)

theorem yields_takeInline (hv : Yields takeValue Node.Orderly) :
    Yields (takeInline takeValue) Node.Orderly := by
  intro s node rest h
  unfold takeInline at h
  split at h
  · cases h
    exact .inline List.nodup_nil (by simp)
  · obtain ⟨⟨assignments, _⟩, hassignments, h⟩ := Option.bind_eq_some_iff.mp h
    obtain ⟨_, hnode, h⟩ := Option.bind_eq_some_iff.mp h
    cases h
    exact orderly_inline? (yields_takeEntries hv _ _ _ _ hassignments) hnode

end Values

/-- **Values** of any depth are orderly. -/
theorem yields_takeValue (depth : Nat) : Yields (takeValue depth) Node.Orderly := by
  induction depth with
  | zero => exact yields_takeScalar
  | succ depth ih =>
    intro s node rest h
    unfold takeValue at h
    split at h
    next => contradiction
    next hdepth =>
      cases hdepth
      exact yields_takeList ih _ _ _ h
    next hdepth =>
      cases hdepth
      exact yields_takeInline ih _ _ _ h
    next => exact yields_takeScalar _ _ _ h

/-! ## Documents that are read -/

theorem yields_takeHeader : Yields takeHeader Statement.Orderly := by
  intro s statement rest h
  unfold takeHeader at h
  split at h
  · obtain ⟨_, -, h⟩ := Option.bind_eq_some_iff.mp h
    split at h
    · cases h
      trivial
    · cases h
  · obtain ⟨_, -, h⟩ := Option.bind_eq_some_iff.mp h
    split at h
    · cases h
      trivial
    · cases h

theorem yields_takeStatement : Yields takeStatement Statement.Orderly := by
  intro s statement rest h
  unfold takeStatement at h
  split at h
  · exact yields_takeHeader _ _ _ h
  · obtain ⟨⟨⟨path, key, node⟩, _⟩, hassignment, h⟩ := Option.bind_eq_some_iff.mp h
    cases h
    exact yields_takeAssignment (yields_takeValue _) _ _ _ hassignment

theorem yields_takeLine :
    Yields takeLine fun statement => ∀ s ∈ statement, s.Orderly := by
  intro s statement rest h
  unfold takeLine at h
  split at h
  · cases h
    simp
  · split at h
    · cases h
      simp
    · obtain ⟨⟨statement, _⟩, hstatement, h⟩ := Option.map_eq_some_iff.mp h
      cases h
      rintro _ ⟨⟩
      exact yields_takeStatement _ _ _ hstatement

theorem orderly_takeLines {n : Nat} {s : List Char} {statements : List Statement}
    (h : takeLines n s = some statements) : ∀ statement ∈ statements, statement.Orderly := by
  induction n generalizing s statements with
  | zero =>
    unfold takeLines at h
    split at h
    · cases h
      simp
    · cases h
    · contradiction
  | succ n ih =>
    unfold takeLines at h
    split at h
    · cases h
      simp
    · contradiction
    next hlines _ =>
      cases hlines
      obtain ⟨⟨statement, _⟩, hline, h⟩ := Option.bind_eq_some_iff.mp h
      obtain ⟨_, -, h⟩ := Option.bind_eq_some_iff.mp h
      obtain ⟨others, hothers, h⟩ := Option.bind_eq_some_iff.mp h
      cases h
      refine List.forall_mem_append.mpr ⟨fun s hs => ?_, ih hothers⟩
      exact yields_takeLine _ _ _ hline s (Option.mem_toList.mp hs)

/-- **A document that is read is orderly.** -/
theorem orderly_read? {s : List Char} {document : Entries} (h : read? s = some document) :
    document.Orderly := by
  obtain ⟨statements, hstatements, h⟩ := Option.bind_eq_some_iff.mp h
  obtain ⟨d, hd, h⟩ := Option.bind_eq_some_iff.mp h
  cases h
  exact Document.orderly_ofStatements? (orderly_takeLines hstatements) hd

end Toml

end Tabletop
