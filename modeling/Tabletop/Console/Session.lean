import Tabletop.Console.Options
import Tabletop.Files
import Tabletop.Journal.Json
import Tabletop.Settings
import Tabletop.Simulation.Run

/-!
# A session on the command line

A session reads its configuration and all commands before it runs any of
them, so it either fails with nothing printed or prints the whole run:
the reports of all batches in order, then what was asked for of the journal.
Faults of commands do not make a session fail; they are listed apart.

There is one exception. At the speed of the clock on the wall, a session breaks
off where it would have to wait longer than any wait can be.
-/

namespace Tabletop

namespace Console

/-- Why a session cannot run. -/
inductive Failure where
  /-- The configuration document is there and cannot be read. -/
  | configUnreadable (path : String) (error : ReadError)
  /-- The configuration document is malformed. -/
  | configMalformed (path : String)
  /-- There is no table with the dimensions asked for. -/
  | table (error : TableError)
  /-- A file with commands cannot be read. -/
  | fileUnreadable (path : String) (error : ReadError)
  /-- The standard input cannot be read. -/
  | inputUnreadable (error : ReadError)
  /-- A batch was refused. -/
  | fault (fault : Fault)
deriving DecidableEq

/-- The wording of a failure. -/
def Failure.message : Failure → String
  | configUnreadable path error =>
    "load config " ++ path ++ ": failed to read " ++ path ++ ": " ++ error.message
      ++ ": " ++ error.message
  | configMalformed path =>
    "load config " ++ path ++ ": failed to parse configuration"
  | table error => "build table: " ++ error.message
  | fileUnreadable path error => "read " ++ path ++ ": " ++ error.message
  | inputUnreadable error => "read commands from stdin: " ++ error.message
  | fault f => f.message

/-- Why a configuration file gives no settings. -/
inductive SettingsError where
  /-- It cannot be read. -/
  | unreadable (path : String) (error : ReadError)
  /-- It is malformed. -/
  | malformed
deriving DecidableEq

/-- The wording of an error. -/
def SettingsError.message : SettingsError → String
  | unreadable path error => "failed to read " ++ path ++ ": " ++ error.message
  | malformed => "failed to parse configuration"

/-- The settings in a configuration file. -/
def loadSettings (w : Surroundings) (path : String) :
    Except SettingsError (Settings × Surroundings) :=
  match w.read path with
  | .error error => .error (.unreadable path error)
  | .ok (text, w) =>
    match Settings.read? text with
    | some settings => .ok (settings, w)
    | none => .error .malformed

/-- The settings with the options in place of them. -/
def Options.override (o : Options) (settings : Settings) : Settings :=
  { settings with
    width := o.width.getD settings.width
    length := o.length.getD settings.length
    realtime := o.realtime || settings.realtime }

/-- The settings of a session: those of the configuration file, or the
defaults if there is no such file, with the options in place of them. -/
def settingsOf (w : Surroundings) (o : Options) :
    Except Failure (Settings × Surroundings) :=
  if w.has o.config then
    match loadSettings w o.config with
    | .ok (settings, w) => .ok (o.override settings, w)
    | .error (.unreadable path error) => .error (.configUnreadable path error)
    | .error .malformed => .error (.configMalformed o.config)
  else
    .ok (o.override .default, w)

/-- The texts of files, read in order. -/
def readFiles (w : Surroundings) : List String → Except Failure (List (List Char))
  | [] => .ok []
  | path :: paths =>
    match w.read path with
    | .ok (text, w) => (readFiles w paths).map (text :: ·)
    | .error error => .error (.fileUnreadable path error)

/-- The texts whose commands a session runs, a batch each. -/
def textsOf (w : Surroundings) (o : Options) : Except Failure (List (List Char)) :=
  if o.files = [] then
    match w.readInput with
    | .ok (text, _) => .ok [text]
    | .error error => .error (.inputUnreadable error)
  else
    readFiles w o.files

/-- What a session runs and shows. -/
structure Plan where
  /-- The simulation at its beginning. -/
  simulation : Simulation
  /-- The texts whose commands are run, a batch each. -/
  texts : List (List Char)
  /-- Whether the journal and its summary are printed. -/
  showJournal : Bool
  /-- Whether the journal is printed as JSON. -/
  json : Bool

/-- What a session runs, if nothing is missing. -/
def plan (w : Surroundings) (o : Options) : Except Failure Plan := do
  let (settings, w) ← settingsOf w o
  let simulation ← settings.simulation.mapError .table
  let texts ← textsOf w o
  return {
    simulation, texts
    showJournal := o.showJournal || settings.showJournal
    json := o.json }

/-- Reports and faults of batches, in order. -/
structure Record where
  /-- The reports. -/
  reports : Array (List Char)
  /-- The faults. -/
  faults : Array Fault
deriving DecidableEq

namespace Record

/-- Nothing yet. -/
def empty : Record := { reports := #[], faults := #[] }

/-- Adds those of a batch. -/
def add (r : Record) (o : Outcome) : Record :=
  { reports := r.reports ++ o.reports, faults := r.faults ++ o.faults }

end Record

/-- What becomes of texts that are run one after another. -/
inductive Upshot where
  /-- All batches have ended. -/
  | through (s : Simulation) (record : Record)
  /-- After these reports and faults there was a wait that is too long. -/
  | brokenOff (record : Record)
  /-- A batch never ends. -/
  | endless
  /-- A batch was refused. -/
  | refused (fault : Fault)

/-- Runs the commands of texts, one batch after another. -/
def runTexts (s : Simulation) (record : Record) : List (List Char) → Upshot
  | [] => .through s record
  | text :: texts =>
    match s.perform text with
    | .ok (some (s, outcome)) => runTexts s (record.add outcome) texts
    | .ok none => if s.canWait then .endless else .brokenOff record
    | .error fault => .refused fault

/-- A line for each text. -/
def inLines (texts : List (List Char)) : String :=
  String.join (texts.map fun text => String.ofList text ++ "\n")

/-- What a plan prints after it has been run. -/
def Plan.output (p : Plan) (s : Simulation) (record : Record) : String :=
  inLines record.reports.toList
    ++ (if p.showJournal then s.journal.print ++ s.journal.summary ++ "\n" else "")
    ++ (if p.json then s.journal.document ++ "\n" else "")

/-- The line for a fault. -/
def faultLine (fault : Fault) : String := "error: " ++ fault.message ++ "\n"

/-- How a session ends. -/
inductive Ending where
  /-- The arguments make no sense. -/
  | refused
  /-- Something is missing; nothing is run. -/
  | failed (failure : Failure)
  /-- All is done: what is printed, and the faults of commands. -/
  | done (output : String) (faults : List Fault)
  /-- The run was broken off: what is printed by then, and the faults of
  commands. -/
  | brokenOff (output : String) (faults : List Fault)
deriving DecidableEq

namespace Ending

/-- The number that tells how a session ended. -/
def code : Ending → Nat
  | refused => 2
  | failed _ => 1
  | done .. => 0
  | brokenOff .. => 101

/-- What is printed. -/
def output : Ending → String
  | done output _ => output
  | brokenOff output _ => output
  | _ => ""

/-- What is printed apart from the output: a line for each fault, or what
is missing. -/
def complaint : Ending → String
  | refused => ""
  | failed failure => failure.message ++ "\n"
  | done _ faults => String.join (faults.map faultLine)
  | brokenOff _ faults => String.join (faults.map faultLine)

end Ending

/-- Runs a plan. The answer is `none` if a batch never ends. -/
def Plan.run (p : Plan) : Option Ending :=
  match runTexts p.simulation .empty p.texts with
  | .through s record => some (.done (p.output s record) record.faults.toList)
  | .brokenOff record =>
    some (.brokenOff (inLines record.reports.toList) record.faults.toList)
  | .endless => none
  | .refused fault => some (.failed (.fault fault))

/-- The answer to the question for the version. -/
def versionText : String := "toyrobot 0.1.0\n"

/-- The answer to the question for help. -/
def helpText : String :=
  "Usage: toyrobot [OPTIONS] [FILES]...\n\n"
    ++ "  -c, --config <CONFIG>  Configuration file [default: config.toml]\n"
    ++ "      --width <WIDTH>    Override the table width\n"
    ++ "      --length <LENGTH>  Override the table length\n"
    ++ "      --realtime         Play animations at wall-clock speed\n"
    ++ "      --event-log        Print the per-command timing log and a summary\n"
    ++ "      --json             Print the per-command timing log as JSON\n"
    ++ "  -h, --help             Print help\n"
    ++ "  -V, --version          Print version\n"

/-- What a request comes to: a plan to be run, or an end without a run. -/
def prepare (w : Surroundings) : Request → Except Ending Plan
  | .invalid => .error .refused
  | .version => .error (.done versionText [])
  | .help => .error (.done helpText [])
  | .run o => (plan w o).mapError .failed

/-- A whole session. The answer is `none` if a batch never ends. -/
def session (w : Surroundings) (arguments : List String) : Option Ending :=
  match prepare w (request arguments) with
  | .error ending => some ending
  | .ok p => p.run

end Console

end Tabletop
