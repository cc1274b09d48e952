import Tabletop.Simulation.Basic
import Tabletop.Toml.Reader

/-!
# Settings

Nine settings say how large the table is, how fast the robot and the clock
are, and what is shown of a run. A configuration document gives them in four
sections. Each setting is read on its own: one that is absent keeps its
default, and a key or a section that is not known is passed over. A setting
of the wrong type is a fault of the whole document.

There are two sets of defaults, one for settings that their section leaves out,
and one for those of a section that is absent itself.

A section is a table, or a list of its settings in their order. A whole
number will do for a floating-point one.
-/

namespace Tabletop

/-- How to set up a simulation and what to show of it. -/
structure Settings where
  /-- Number of columns of the table. -/
  width : Int32
  /-- Number of rows of the table. -/
  length : Int32
  /-- Distance between neighbouring cells where the table is drawn. -/
  cellSize : Single
  /-- Seconds for a quarter turn. -/
  turnDuration : Single
  /-- Seconds for a step. -/
  stepDuration : Single
  /-- Seconds that one frame of a run takes. -/
  frame : Single
  /-- Whether runs are at the speed of the clock on the wall. -/
  realtime : Bool
  /-- How much is traced. -/
  level : List Char
  /-- Whether the journal is shown after a run. -/
  showJournal : Bool
deriving DecidableEq

namespace Settings

/-- What holds where a section leaves a setting out. -/
def leftOut : Settings :=
  { width := 5
    length := 5
    cellSize := 1
    turnDuration := defaultDuration
    stepDuration := defaultDuration
    frame := Simulation.defaultFrame
    realtime := false
    level := "warn".toList
    showJournal := false }

/-- What holds where a section is absent. -/
def default : Settings :=
  { width := leftOut.width
    length := leftOut.length
    cellSize := leftOut.cellSize
    turnDuration := leftOut.turnDuration
    stepDuration := leftOut.stepDuration
    frame := leftOut.frame
    realtime := false
    level := leftOut.level
    showJournal := false }

instance : Inhabited Settings := ⟨default⟩

/-! ## From a configuration document -/

open Toml

/-- A section, by the place of a setting and by its key. -/
abbrev Section := Nat → Key → Option Node

/-- A node as a section. A table goes by keys and a list by places; a moment
has no settings. -/
def asSection? : Node → Option Section
  | .inline entries => some fun _ key => Entries.get? entries key
  | .table _ entries => some fun _ key => Entries.get? entries key
  | .list items => some fun place _ => items[place]?
  | .tables items => some fun place _ => items.reverse[place]?.map (.table .header)
  | .moment => some fun _ _ => none
  | _ => none

/-- The section under a key; it may be absent. -/
def sectionOf? (document : Entries) (key : Key) : Option (Option Section) :=
  match document.get? key with
  | none => some none
  | some node => (asSection? node).map some

/-- Reads an integer of 32 bits. -/
def int32? : Node → Option Int32
  | .integer i => Numeral.int32? i
  | _ => none

/-- Reads a number in single precision. A number with a point is rounded
twice: to double precision where it was written, and here. -/
def single? : Node → Option Single
  | .integer i => some (.ofInt i)
  | .float x => some x.convert
  | _ => none

/-- Reads a truth value. -/
def boolean? : Node → Option Bool
  | .boolean b => some b
  | _ => none

/-- Reads a text. -/
def text? : Node → Option (List Char)
  | .text s => some s
  | _ => none

/-- Reads a setting that may be absent. -/
def orDefault {α : Type} (read? : Node → Option α) (value : α) :
    Option Node → Option α
  | none => some value
  | some node => read? node

/-- Reads the setting that has a place and a key in a section. The field of the
settings says which of the defaults are its own. -/
def setting? {α : Type} (read? : Node → Option α) (field : Settings → α) (place : Nat)
    (key : Key) : Option Section → Option α
  | none => some (field default)
  | some s => orDefault read? (field leftOut) (s place key)

/-- The settings of a document. -/
def ofDocument? (document : Entries) : Option Settings := do
  let grid ← sectionOf? document "grid".toList
  let robot ← sectionOf? document "robot".toList
  let simulation ← sectionOf? document "simulation".toList
  let logging ← sectionOf? document "logging".toList
  return {
    width := ← setting? int32? width 0 "width".toList grid
    length := ← setting? int32? length 1 "length".toList grid
    cellSize := ← setting? single? cellSize 2 "cell_size".toList grid
    turnDuration := ← setting? single? turnDuration 0 "turn_duration".toList robot
    stepDuration := ← setting? single? stepDuration 1 "move_duration".toList robot
    frame := ← setting? single? frame 0 "frame_step".toList simulation
    realtime := ← setting? boolean? realtime 1 "realtime".toList simulation
    level := ← setting? text? level 0 "level".toList logging
    showJournal := ← setting? boolean? showJournal 1 "show_event_log".toList logging }

/-- Reads a configuration document. -/
def read? (text : List Char) : Option Settings :=
  (Toml.read? text).bind ofDocument?

/-! ## Setting up -/

/-- A simulation on a table and with a robot as the settings say. -/
def simulation (c : Settings) : Except TableError Simulation := do
  let table ← Table.make c.width c.length c.cellSize
  let s := Simulation.new table (.new c.turnDuration c.stepDuration)
  return (s.setFrame c.frame).setRealtime c.realtime

end Settings

end Tabletop
