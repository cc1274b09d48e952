import Tabletop.Text.Numeral

/-!
# The options of the command line

Arguments are read from the left. A long option takes its value after an
equals sign or from the next argument, the short one from what follows it in
the same argument or from the next. A next argument that itself looks like an
option is no value. Each option may be given once. After two dashes alone,
every argument names a file; one dash alone always does.

The first fault ends the reading, and so does the first question for the
version or for help.
-/

namespace Tabletop

namespace Console

/-- What a run is asked to do. -/
structure Options where
  /-- Files with commands, each of them one batch. With none, commands come
  from the standard input. -/
  files : List String
  /-- The configuration document. -/
  config : String
  /-- Number of columns, in place of the configured one. -/
  width : Option Int32
  /-- Number of rows, in place of the configured one. -/
  length : Option Int32
  /-- Show the run at the speed of the clock on the wall. -/
  realtime : Bool
  /-- Print the journal and its summary. -/
  showJournal : Bool
  /-- Print the journal as JSON. -/
  json : Bool
deriving DecidableEq

/-- What the arguments ask for. -/
inductive Request where
  /-- A run. -/
  | run (options : Options)
  /-- The version. -/
  | version
  /-- An explanation of the arguments. -/
  | help
  /-- Nothing that makes sense. -/
  | invalid
deriving DecidableEq

namespace Request

/-- The files that have to be opened. -/
def paths : Request → List String
  | run o => o.config :: o.files
  | _ => []

/-- The commands are to be read from the standard input. -/
def readsInput : Request → Bool
  | run o => o.files.isEmpty
  | _ => false

end Request

/-- The options given so far. The files are kept latest first. -/
structure Draft where
  /-- Files, the latest first. -/
  files : List String
  /-- The configuration document, if given. -/
  config : Option String
  /-- Number of columns, if given. -/
  width : Option Int32
  /-- Number of rows, if given. -/
  length : Option Int32
  /-- Whether a run at the speed of the clock on the wall was asked for. -/
  realtime : Bool
  /-- Whether the journal was asked for. -/
  showJournal : Bool
  /-- Whether the journal as JSON was asked for. -/
  json : Bool

namespace Draft

/-- Nothing given. -/
def empty : Draft :=
  { files := [], config := none, width := none, length := none
    realtime := false, showJournal := false, json := false }

/-- The configuration document where none is given. -/
def defaultConfig : String := "config.toml"

/-- The options, with defaults for those that are not given. -/
def options (d : Draft) : Options :=
  { files := d.files.reverse
    config := d.config.getD defaultConfig
    width := d.width
    length := d.length
    realtime := d.realtime
    showJournal := d.showJournal
    json := d.json }

/-- Adds a file; its name is not empty. -/
def addFile? (d : Draft) (name : String) : Option Draft :=
  if name = "" then none else some { d with files := name :: d.files }

/-- Adds files. -/
def addFiles? (d : Draft) (names : List String) : Option Draft :=
  names.foldlM addFile? d

end Draft

/-- The options that take a value. -/
inductive Valued where
  /-- The configuration document. -/
  | config
  /-- The number of columns. -/
  | width
  /-- The number of rows. -/
  | length

/-- Sets an option that takes a value, if the value is one for it and the
option was not set before. -/
def Valued.set? (value : String) (d : Draft) : Valued → Option Draft
  | config =>
    if d.config.isNone && value ≠ "" then some { d with config := some value } else none
  | width => do
    let n ← Numeral.toInt32? value.toList
    if d.width.isNone then some { d with width := some n } else none
  | length => do
    let n ← Numeral.toInt32? value.toList
    if d.length.isNone then some { d with length := some n } else none

/-- What one argument asks for. -/
inductive Argument where
  /-- A file. -/
  | file (name : String)
  /-- All arguments after this one are files. -/
  | rest
  /-- An option with its value, if the value is in the same argument. -/
  | valued (option : Valued) (value : Option String)
  /-- Show the run at the speed of the clock on the wall. -/
  | realtime
  /-- Print the journal and its summary. -/
  | showJournal
  /-- Print the journal as JSON. -/
  | json
  /-- The version. -/
  | version
  /-- An explanation. -/
  | help
  /-- No argument that is known. -/
  | unknown

namespace Argument

/-- A long option, by its name and the value after the equals sign. -/
def ofLong (name : String) (value : Option String) : Argument :=
  if name = "config" then valued .config value
  else if name = "width" then valued .width value
  else if name = "length" then valued .length value
  else if value.isSome then unknown
  else if name = "realtime" then realtime
  else if name = "event-log" then showJournal
  else if name = "json" then json
  else if name = "version" then version
  else if name = "help" then help
  else unknown

/-- A short option, by its letter and what follows it. -/
def ofShort : Char → List Char → Argument
  | 'c', [] => valued .config none
  | 'c', '=' :: value => valued .config (some (String.ofList value))
  | 'c', value => valued .config (some (String.ofList value))
  | 'V', _ => version
  | 'h', _ => help
  | _, _ => unknown

/-- What an argument asks for. -/
def read (s : String) : Argument :=
  match s.toList with
  | ['-', '-'] => rest
  | '-' :: '-' :: long =>
    let name := String.ofList (long.takeWhile (· ≠ '='))
    match long.dropWhile (· ≠ '=') with
    | [] => ofLong name none
    | _ :: value => ofLong name (some (String.ofList value))
  | '-' :: letter :: more => ofShort letter more
  | _ => file s

end Argument

/-- Reads arguments after those of a draft. -/
def requestFrom (d : Draft) : List String → Request
  | [] => .run d.options
  | s :: arguments =>
    match Argument.read s with
    | .file name =>
      match d.addFile? name with
      | some d => requestFrom d arguments
      | none => .invalid
    | .rest =>
      match d.addFiles? arguments with
      | some d => .run d.options
      | none => .invalid
    | .valued option (some value) =>
      match option.set? value d with
      | some d => requestFrom d arguments
      | none => .invalid
    | .valued option none =>
      match arguments with
      | [] => .invalid
      | next :: arguments =>
        match Argument.read next with
        | .file value =>
          match option.set? value d with
          | some d => requestFrom d arguments
          | none => .invalid
        | _ => .invalid
    | .realtime =>
      if d.realtime then .invalid else requestFrom { d with realtime := true } arguments
    | .showJournal =>
      if d.showJournal then .invalid
      else requestFrom { d with showJournal := true } arguments
    | .json => if d.json then .invalid else requestFrom { d with json := true } arguments
    | .version => .version
    | .help => .help
    | .unknown => .invalid

/-- What the arguments ask for. -/
def request (arguments : List String) : Request := requestFrom .empty arguments

end Console

end Tabletop
