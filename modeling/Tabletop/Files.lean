/-!
# Files by name

What a program can ask of what is around it: the text under a path or on its
standard input, or why there is none. A path can lead to the standard input
too, and what is read from there once is gone, so reading also tells what is
around the program afterwards.
-/

namespace Tabletop

/-- Why a file cannot be read. -/
inductive ReadError where
  /-- Nothing has that name. -/
  | notFound
  /-- A file stands where the path needs a directory. -/
  | notADirectory
  /-- A directory has that name. -/
  | isADirectory
  /-- A name of the path is too long. -/
  | nameTooLong
  /-- A name of the path has a null character. -/
  | nullInName
  /-- The bytes are not a text. -/
  | notText
  /-- The system refuses it for a reason of its own, whether something has that
  name or not. -/
  | refused (isThere : Bool) (reason : String)
deriving DecidableEq

/-- The wording of an error. -/
def ReadError.message : ReadError → String
  | notFound => "No such file or directory (os error 2)"
  | notADirectory => "Not a directory (os error 20)"
  | isADirectory => "Is a directory (os error 21)"
  | nameTooLong => "File name too long (os error 36)"
  | nullInName => "file name contained an unexpected NUL byte"
  | notText => "stream did not contain valid UTF-8"
  | refused _ reason => reason

/-- Something has the name, even if it cannot be read. -/
def ReadError.isOfSomething : ReadError → Bool
  | isADirectory => true
  | notText => true
  | refused isThere _ => isThere
  | _ => false

/-- The text that bytes spell out. -/
def textOf (bytes : ByteArray) : Except ReadError (List Char) :=
  match String.fromUTF8? bytes with
  | some text => .ok text.toList
  | none => .error .notText

/-- What a path leads to. -/
inductive Source where
  /-- Bytes that are kept. -/
  | bytes (b : ByteArray)
  /-- The standard input. -/
  | input

/-- What is around a program: the files it can open by path, and what is
still to come on its standard input. -/
structure Surroundings where
  /-- What a path leads to. -/
  open? : String → Except ReadError Source
  /-- The bytes still to come on the standard input. -/
  input : ByteArray

namespace Surroundings

variable (w : Surroundings)

/-- Takes all bytes of a source. -/
def drain : Source → ByteArray × Surroundings
  | .bytes b => (b, w)
  | .input => (w.input, { w with input := .empty })

/-- Reads a source as a text. -/
def readSource (source : Source) : Except ReadError (List Char × Surroundings) :=
  let (bytes, rest) := w.drain source
  (textOf bytes).map fun text => (text, rest)

/-- Reads what a path leads to as a text. -/
def read (path : String) : Except ReadError (List Char × Surroundings) :=
  (w.open? path).bind w.readSource

/-- Reads the standard input as a text. -/
def readInput : Except ReadError (List Char × Surroundings) := w.readSource .input

/-- Something has this path, and it need not be possible to read it. -/
def has (path : String) : Bool :=
  match w.open? path with
  | .ok _ => true
  | .error e => e.isOfSomething

end Surroundings

end Tabletop
