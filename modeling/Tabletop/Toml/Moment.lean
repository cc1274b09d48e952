import Tabletop.Text.Numeral
import Tabletop.Toml.Lexical

/-!
# Dates and times of a configuration document

A moment is a date, a time of day, or a date with a time, and then perhaps
with its distance from universal time. Nothing asks what a moment says; it is
only asked whether there is one, and where it ends. A month has the days that
the calendar gives it, and a minute may have a sixty-first second.
-/

namespace Tabletop

namespace Toml

namespace Moment

/-- Takes two digits whose number lies between two bounds. -/
def takeTwo (low high : Nat) : Scan Nat
  | a :: b :: rest =>
    if a.isDigit && b.isDigit then
      let n := Numeral.value 10 [a, b]
      if low ≤ n && n ≤ high then some (n, rest) else none
    else
      none
  | _ => none

/-- Takes one given character. -/
def takeMark (mark : Char) : List Char → Option (List Char)
  | c :: rest => if c = mark then some rest else none
  | [] => none

/-- The year has a twenty-ninth of February. -/
def isLeap (year : Nat) : Bool := year % 4 = 0 && (year % 100 ≠ 0 || year % 400 = 0)

/-- The number of days of a month. -/
def daysOf (year month : Nat) : Nat :=
  if month = 2 then
    if isLeap year then 29 else 28
  else if month = 4 || month = 6 || month = 9 || month = 11 then
    30
  else
    31

/-- Takes a date: year, month and day. -/
def takeDate (s : List Char) : Option (List Char) := do
  let (century, s) ← takeTwo 0 99 s
  let (year, s) ← takeTwo 0 99 s
  let s ← takeMark '-' s
  let (month, s) ← takeTwo 1 12 s
  let s ← takeMark '-' s
  let (_, s) ← takeTwo 1 (daysOf (100 * century + year) month) s
  return s

/-- Takes a fraction of a second, if there is one. -/
def takeFraction : List Char → Option (List Char)
  | '.' :: c :: rest => if c.isDigit then some (rest.dropWhile Char.isDigit) else none
  | ['.'] => none
  | s => some s

/-- Takes a time of day: hour, minute and second. -/
def takeTime (s : List Char) : Option (List Char) := do
  let (_, s) ← takeTwo 0 23 s
  let s ← takeMark ':' s
  let (_, s) ← takeTwo 0 59 s
  let s ← takeMark ':' s
  let (_, s) ← takeTwo 0 60 s
  takeFraction s

/-- Takes hours and minutes. -/
def takeHours (s : List Char) : Option (List Char) := do
  let (_, s) ← takeTwo 0 23 s
  let s ← takeMark ':' s
  let (_, s) ← takeTwo 0 59 s
  return s

/-- Takes the distance from universal time, if there is one. -/
def takeOffset : List Char → Option (List Char)
  | 'Z' :: rest => some rest
  | 'z' :: rest => some rest
  | '+' :: rest => takeHours rest
  | '-' :: rest => takeHours rest
  | s => some s

/-- Takes a time of day after a date, if there is one. -/
def takeTimeOfDate : List Char → Option (List Char)
  | c :: rest =>
    if c = 'T' || c = 't' || c = ' ' then
      match takeTime rest with
      | some rest => takeOffset rest
      | none => some (c :: rest)
    else
      some (c :: rest)
  | [] => some []

/-- Takes a moment. -/
def take (s : List Char) : Option (List Char) :=
  match takeDate s with
  | some rest => takeTimeOfDate rest
  | none => takeTime s

end Moment

end Toml

end Tabletop
