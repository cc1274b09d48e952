import Tabletop.Binary.Basic

/-!
# The tree of a configuration document

A document is a table of nodes under keys. Tables come about in several ways,
and it matters which: a table with a header of its own is complete once the
next header comes, one that was only passed through on the way to another may
still get its header, and one made by a dotted key may only be extended by
more dotted keys. What is written in braces or brackets is complete as it
stands.

Two operations build the tree. A header opens a table, or one more table of a
list; an assignment puts a node under a dotted key, seen from the table that
was opened last. Both fail when they would define something twice.
-/

namespace Tabletop

namespace Toml

/-- A key, free of quotes and escapes. -/
abbrev Key := List Char

/-- How a table came about. -/
inductive Origin where
  /-- It has a header of its own. -/
  | header
  /-- It was passed through by the header of another table. -/
  | passage
  /-- It was made by a dotted key. -/
  | dotted
deriving DecidableEq

/-- What can stand under a key. -/
inductive Node where
  /-- A text. -/
  | text (s : List Char)
  /-- A whole number of 64 bits. -/
  | integer (i : Int)
  /-- A floating-point number. -/
  | float (x : Double)
  /-- A truth value. -/
  | boolean (b : Bool)
  /-- A date, a time or both. What it says is not kept. -/
  | moment
  /-- Values in brackets. -/
  | list (items : List Node)
  /-- A table in braces. -/
  | inline (entries : List (Key × Node))
  /-- A table outside braces. -/
  | table (origin : Origin) (entries : List (Key × Node))
  /-- Tables with the same header in double brackets, the latest first. -/
  | tables (items : List (List (Key × Node)))

/-- What a table holds, each key once. -/
abbrev Entries := List (Key × Node)

namespace Entries

/-- The node under a key. -/
def get? (es : Entries) (key : Key) : Option Node :=
  (es.find? fun e => e.1 = key).map Prod.snd

/-- Puts a node under a key, in place of the one that is there. -/
def put (es : Entries) (key : Key) (node : Node) : Entries :=
  if es.any fun e => e.1 = key then
    es.map fun e => if e.1 = key then (key, node) else e
  else
    es ++ [(key, node)]

/-- Puts a node under a key that is not in use. -/
def putNew? (es : Entries) (key : Key) (node : Node) : Option Entries :=
  match es.get? key with
  | none => some (es ++ [(key, node)])
  | some _ => none

/-- Changes the table at the end of a path of keys. Tables that are missing
on the way are made; of a list of tables, the latest one is on the way. -/
def within (change : Entries → Option Entries) : List Key → Entries → Option Entries
  | [], es => change es
  | key :: path, es =>
    match es.get? key with
    | none => do
      let sub ← within change path []
      return es.put key (.table .passage sub)
    | some (.table origin sub) => do
      let sub ← within change path sub
      return es.put key (.table origin sub)
    | some (.tables (latest :: earlier)) => do
      let latest ← within change path latest
      return es.put key (.tables (latest :: earlier))
    | some _ => none

/-- Opens a table under a key. It may have been passed through before. -/
def openTable (key : Key) (es : Entries) : Option Entries :=
  match es.get? key with
  | none => some (es.put key (.table .header []))
  | some (.table .passage sub) => some (es.put key (.table .header sub))
  | some _ => none

/-- Opens one more table of the list under a key. -/
def openNext (key : Key) (es : Entries) : Option Entries :=
  match es.get? key with
  | none => some (es.put key (.tables [[]]))
  | some (.tables items) => some (es.put key (.tables ([] :: items)))
  | some _ => none

/-- Puts a node under a dotted key: a path and the key at its end. The path
leads through tables that are not complete, and what it leads to was made by
a dotted key too. -/
def assign (key : Key) (node : Node) : List Key → Entries → Option Entries
  | [], es => es.putNew? key node
  | k :: path, es =>
    match es.get? k with
    | none => do
      let sub ← assign key node path []
      return es.put k (.table .dotted sub)
    | some (.table origin sub) =>
      if origin = .header ∨ (path = [] ∧ origin ≠ .dotted) then
        none
      else do
        let sub ← assign key node path sub
        return es.put k (.table origin sub)
    | some (.tables (latest :: earlier)) =>
      if path = [] then
        none
      else do
        let latest ← assign key node path latest
        return es.put k (.tables (latest :: earlier))
    | some _ => none

end Entries

/-- One line of a document that means something. -/
inductive Statement where
  /-- Opens the table under a key at the end of a path. -/
  | header (path : List Key) (key : Key)
  /-- Opens one more table of the list under a key at the end of a path. -/
  | nextHeader (path : List Key) (key : Key)
  /-- Puts a node under a dotted key. -/
  | assignment (path : List Key) (key : Key) (node : Node)

/-- A document that is being built: its entries and the path to the table
opened last. -/
structure Document where
  /-- What it holds so far. -/
  entries : Entries
  /-- The path to the table that assignments go to. -/
  current : List Key

namespace Document

/-- The document before its first statement. -/
def empty : Document := { entries := [], current := [] }

/-- Carries out a statement. -/
def perform (d : Document) : Statement → Option Document
  | .header path key => do
    let entries ← d.entries.within (Entries.openTable key) path
    return { entries, current := path ++ [key] }
  | .nextHeader path key => do
    let entries ← d.entries.within (Entries.openNext key) path
    return { entries, current := path ++ [key] }
  | .assignment path key node => do
    let entries ← d.entries.within (Entries.assign key node path) d.current
    return { d with entries }

/-- Carries out statements in order. -/
def ofStatements? (statements : List Statement) : Option Document :=
  statements.foldlM perform empty

end Document

end Toml

end Tabletop
