import Tabletop.Files
import Tabletop.Text.Split

/-!
# A directory in a system of files

A `FileTree` is the directory in which a program runs, kept as a list of
files. A path is followed name by name, from that directory or from the root
of the system. Of the system only what is the same everywhere is known: the
null device, the names of the standard input, and some directories and files
that are never missing.
-/

namespace Tabletop

/-- The files below a directory, by the names on their paths. -/
structure FileTree where
  /-- Each file with its path and its bytes. -/
  files : List (List String × ByteArray)

namespace FileTree

/-- The names of a path. -/
def namesOf (path : String) : List String :=
  (Text.fields (· = '/') path.toList).map String.ofList

/-- The tree with a file for each path. -/
def ofList (files : List (String × ByteArray)) : FileTree :=
  ⟨files.map fun (path, bytes) =>
    ((namesOf path).filter fun name => name ≠ "" && name ≠ ".", bytes)⟩

variable (t : FileTree)

/-- A place to which a path can lead. -/
inductive Place where
  /-- Something to be read. -/
  | file (source : Source)
  /-- A directory of the tree. -/
  | directory (names : List String)
  /-- A directory so many levels above the tree. -/
  | above (levels : Nat)
  /-- A directory of the system, by its names from the root. -/
  | system (names : List String)

/-- Longest name that a directory keeps, in bytes. -/
def longestName : Nat := 255

/-- Longest path that can be asked for, in bytes. -/
def longestPath : Nat := 4095

/-- What there is under a name that a directory does not have: a name too
long to be kept is refused as such. -/
def absent (name : String) : Except ReadError Place :=
  if longestName < name.utf8ByteSize then .error .nameTooLong else .error .notFound

/-- What a name means in a directory of the tree. -/
def enter (names : List String) (name : String) : Except ReadError Place :=
  let path := names ++ [name]
  match t.files.find? fun f => f.1 = path with
  | some (_, bytes) => .ok (.file (.bytes bytes))
  | none =>
    if t.files.any fun f => path.isPrefixOf f.1 then .ok (.directory path)
    else absent name

/-- Directories that every system has. -/
def systemDirectories : List (List String) :=
  [["bin"], ["dev"], ["dev", "shm"], ["etc"], ["home"], ["lib"], ["media"], ["mnt"],
    ["opt"], ["proc"], ["proc", "self"], ["proc", "self", "fd"], ["run"], ["sbin"],
    ["srv"], ["sys"], ["tmp"], ["usr"], ["usr", "bin"], ["usr", "lib"],
    ["usr", "local"], ["usr", "sbin"], ["usr", "share"], ["var"], ["var", "cache"],
    ["var", "lib"], ["var", "log"], ["var", "tmp"]]

/-- A file of the system that holds a text. -/
def textFile (text : String) : Place := .file (.bytes text.toUTF8)

/-- What the system has under an absolute path, by its names. The null device
is empty. Three paths name the standard input, and the program itself is known
by its place and its root. The files of accounts, groups and hosts are as in a
system without any of its own. -/
def systemPlace? : List String → Option Place
  | ["dev", "null"] => some (textFile "")
  | ["dev", "stdin"] => some (.file .input)
  | ["dev", "fd"] => some (.system ["proc", "self", "fd"])
  | ["proc", "self", "fd", "0"] => some (.file .input)
  | ["proc", "self", "cwd"] => some (.directory [])
  | ["proc", "self", "root"] => some (.system [])
  | ["etc", "passwd"] => some (textFile "root:x:0:0:root:/root:/bin/sh\n")
  | ["etc", "group"] => some (textFile "root:x:0:\n")
  | ["etc", "hosts"] => some (textFile "127.0.0.1\tlocalhost\n")
  | ["etc", "hostname"] => some (textFile "localhost\n")
  | path => if path ∈ systemDirectories then some (.system path) else none

/-- What a name means in a directory of the system. -/
def enterSystem (names : List String) (name : String) : Except ReadError Place :=
  match systemPlace? (names ++ [name]) with
  | some place => .ok place
  | none => absent name

/-- So many levels above the tree there is only the root. -/
def heightOfRoot : Nat := 8

/-- The directory so many levels above the tree. -/
def above (levels : Nat) : Place :=
  if levels < heightOfRoot then .above levels else .system []

/-- Follows one name of a path. Nothing is above the root. -/
def follow : Place → String → Except ReadError Place
  | .file _, _ => .error .notADirectory
  | place, "" => .ok place
  | place, "." => .ok place
  | .directory [], ".." => .ok (.above 1)
  | .directory names, ".." => .ok (.directory names.dropLast)
  | .above levels, ".." => .ok (above (levels + 1))
  | .system names, ".." => .ok (.system names.dropLast)
  | .directory names, name => t.enter names name
  | .above _, name => absent name
  | .system names, name => enterSystem names name

/-- Where a path leads. A path with a slash in front begins at the root of
the system. -/
def find (path : String) : Except ReadError Place :=
  if path.toList.contains '\x00' then
    .error .nullInName
  else if path = "" then
    .error .notFound
  else if longestPath < path.utf8ByteSize then
    .error .nameTooLong
  else
    match namesOf path with
    | "" :: names => names.foldlM t.follow (.system [])
    | names => names.foldlM t.follow (.directory [])

/-- What a path leads to, if that can be read. -/
def open? (path : String) : Except ReadError Source :=
  match t.find path with
  | .ok (.file source) => .ok source
  | .ok _ => .error .isADirectory
  | .error e => .error e

/-- What is around a program that runs in the tree. -/
def surroundings (input : ByteArray) : Surroundings :=
  { open? := t.open?, input }

/-- The path names the standard input, wherever the program runs. -/
def namesInput (path : String) : Bool :=
  match (ofList []).open? path with
  | .ok .input => true
  | _ => false

end FileTree

end Tabletop
