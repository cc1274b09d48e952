import Tabletop.Toml.Moment
import Tabletop.Toml.Number
import Tabletop.Toml.Text
import Tabletop.Toml.Tree

/-!
# Reading a configuration document

A document is cut into statements, one to a line, and the statements are
carried out in order. A value in brackets may go over several lines and end
with a comma; one in braces may do neither. Values can be nested in each
other, and keys dotted, up to a fixed depth.
-/

namespace Tabletop

namespace Toml

/-- One more than the depth to which values can be nested, and one more than
the number of keys that can be joined by dots. -/
def depthLimit : Nat := 80

/-- May be part of a key without quotes. -/
def isBare (c : Char) : Bool := c.isAlphanum || c = '-' || c = '_'

/-- Takes one key. -/
def takeKey (s : List Char) : Option (Key × List Char) :=
  match s.span isBare with
  | ([], _) => Text.takeShort s
  | (key, rest) => some (key, rest)

/-- Takes keys joined by dots, blanks around each, up to some number of them:
the path to the last key, and that key. -/
def takeKeys : Nat → Scan (List Key × Key)
  | 0, _ => none
  | n + 1, s => do
    let (key, rest) ← takeKey (skipBlanks s)
    match skipBlanks rest with
    | '.' :: rest =>
      let ((path, last), rest) ← takeKeys n rest
      return ((key :: path, last), rest)
    | rest => return (([], key), rest)

/-- Takes a dotted key: the path to its last key, and that key. -/
def takePath : Scan (List Key × Key) := takeKeys (depthLimit - 1)

/-- Takes a dotted key, the equals sign and a value. -/
def takeAssignment (takeValue : Scan Node) : Scan (List Key × Key × Node) := fun s => do
  let ((path, key), rest) ← takePath s
  match rest with
  | '=' :: rest =>
    let (node, rest) ← takeValue (skipBlanks rest)
    return ((path, key, node), rest)
  | _ => none

/-- Takes the items of a list, up to the closing bracket. The number bounds
the steps: each takes a character at least. -/
def takeItems (takeValue : Scan Node) : Nat → Scan (List Node)
  | 0, _ => none
  | n + 1, s =>
    match skipTrivia false s with
    | ']' :: rest => some ([], rest)
    | s => do
      let (item, rest) ← takeValue s
      match skipTrivia false rest with
      | ',' :: rest =>
        let (items, rest) ← takeItems takeValue n rest
        return (item :: items, rest)
      | ']' :: rest => return ([item], rest)
      | _ => none

/-- Takes the assignments between braces, up to the closing brace: one at
least. The number bounds the steps: each takes a character at least. -/
def takeEntries (takeValue : Scan Node) : Nat → Scan (List (List Key × Key × Node))
  | 0, _ => none
  | n + 1, s => do
    let (entry, rest) ← takeAssignment takeValue s
    match skipBlanks rest with
    | ',' :: rest =>
      let (entries, rest) ← takeEntries takeValue n rest
      return (entry :: entries, rest)
    | '\x7d' :: rest => return ([entry], rest)
    | _ => none

/-- The table in braces with some assignments. -/
def inline? (assignments : List (List Key × Key × Node)) : Option Node :=
  (assignments.foldlM (fun es (path, key, node) => Entries.assign key node path es)
    []).map .inline

/-- Takes a list, after its opening bracket. -/
def takeList (takeValue : Scan Node) : Scan Node := fun s =>
  (takeItems takeValue s.length s).map fun (items, rest) => (.list items, rest)

/-- Takes a table, after its opening brace. -/
def takeInline (takeValue : Scan Node) : Scan Node := fun s =>
  match skipBlanks s with
  | '\x7d' :: rest => some (.inline [], rest)
  | s => do
    let (assignments, rest) ← takeEntries takeValue s.length s
    return (← inline? assignments, rest)

/-- Takes a value that holds no others. -/
def takeScalar : Scan Node
  | 't' :: 'r' :: 'u' :: 'e' :: rest => some (.boolean true, rest)
  | 'f' :: 'a' :: 'l' :: 's' :: 'e' :: rest => some (.boolean false, rest)
  | '"' :: rest => (Text.take ('"' :: rest)).map fun (s, rest) => (.text s, rest)
  | '\'' :: rest => (Text.take ('\'' :: rest)).map fun (s, rest) => (.text s, rest)
  | s =>
    match Moment.take s with
    | some rest => some (.moment, rest)
    | none => Number.take s

/-- Takes a value that holds others to some depth. -/
def takeValue : Nat → Scan Node
  | 0, s => takeScalar s
  | depth + 1, '[' :: rest => takeList (takeValue depth) rest
  | depth + 1, '\x7b' :: rest => takeInline (takeValue depth) rest
  | _ + 1, s => takeScalar s

/-- Takes a header, after its first bracket, without the line's end. -/
def takeHeader : Scan Statement
  | '[' :: rest => do
    match ← takePath rest with
    | ((path, key), ']' :: ']' :: rest) => return (.nextHeader path key, rest)
    | _ => none
  | s => do
    match ← takePath s with
    | ((path, key), ']' :: rest) => return (.header path key, rest)
    | _ => none

/-- Takes a statement, without the line's end. -/
def takeStatement : Scan Statement
  | '[' :: rest => takeHeader rest
  | s => do
    let ((path, key, node), rest) ← takeAssignment (takeValue (depthLimit - 1)) s
    return (.assignment path key node, rest)

/-- Takes what stands on a line, without the line's end: a statement or
nothing. -/
def takeLine (s : List Char) : Option (Option Statement × List Char) :=
  match skipBlanks s with
  | [] => some (none, [])
  | c :: s =>
    if c = '#' || c = '\n' || c = '\r' then
      some (none, c :: s)
    else
      (takeStatement (c :: s)).map fun (statement, rest) => (some statement, rest)

/-- Cuts a document into its statements. The number bounds the lines. -/
def takeLines : Nat → List Char → Option (List Statement)
  | _, [] => some []
  | 0, _ => none
  | n + 1, s => do
    let (statement, rest) ← takeLine s
    let rest ← finishLine rest
    return statement.toList ++ (← takeLines n rest)

/-- Cuts a document into its statements: it has no more lines than
characters. -/
def statements (s : List Char) : Option (List Statement) := takeLines s.length s

/-- Leaves out a byte order mark at the front. -/
def skipMark : List Char → List Char
  | '\ufeff' :: rest => rest
  | s => s

/-- Reads a document. -/
def read? (s : List Char) : Option Entries := do
  let statements ← statements (skipMark s)
  let document ← Document.ofStatements? statements
  return document.entries

end Toml

end Tabletop
