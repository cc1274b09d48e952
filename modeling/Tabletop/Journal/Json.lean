import Tabletop.Command.Json
import Tabletop.Journal

/-!
# Journals as JSON

A journal is a list of entries, and an entry a record of four fields.
-/

namespace Tabletop

namespace Phase

/-- The phases in the order of a command's life. -/
def all : List Phase := [started, finished, rejected, cancelled]

/-- The phase as a JSON value. -/
def toJson (p : Phase) : Json.Value := .text p.name

/-- Reads a phase. -/
def ofJson? (v : Json.Value) : Option Phase := do
  let name ← v.toName?
  all.find? fun p => p.name = name

end Phase

namespace Entry

/-- The names of the fields of an entry. -/
def fields : List (List Char) :=
  ["timestamp_ms".toList, "index".toList, "command".toList, "phase".toList]

/-- The entry as a JSON value. -/
def toJson (e : Entry) : Json.Value :=
  .object [
    ("timestamp_ms".toList, .ofInt e.time.toNat),
    ("index".toList, .ofInt e.index),
    ("command".toList, e.command.toJson),
    ("phase".toList, e.phase.toJson)]

/-- Reads an entry. Both numbers must fit into 64 bits. -/
def ofJson? (v : Json.Value) : Option Entry := do
  match ← v.toRecord? fields with
  | [time, index, command, phase] =>
    return {
      time := .ofNat (← time.toNatBelow? UInt64.size)
      index := ← index.toNatBelow? UInt64.size
      command := ← Command.ofJson? command
      phase := ← Phase.ofJson? phase }
  | _ => none

end Entry

namespace Journal

/-- The journal as a JSON value. -/
def toJson (j : Journal) : Json.Value := .ofList Entry.toJson j.entries.toList

/-- Reads a journal. -/
def ofJson? (v : Json.Value) : Option Journal :=
  (v.toList? Entry.ofJson?).map fun entries => ⟨entries.toArray⟩

/-- The journal as a document, spread out. -/
def document (j : Journal) : String := String.ofList (j.toJson.print .spread)

end Journal

end Tabletop
