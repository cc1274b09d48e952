import Tabletop.Json.Value

/-!
# Printing JSON

A value is printed on one line without blanks, or spread out: each item on a
line of its own, two blanks deeper than its brackets, and one blank after each
colon. Empty brackets stay together in both styles.
-/

namespace Tabletop

namespace Json

/-- How a value is laid out. -/
inductive Style where
  /-- On one line, without blanks. -/
  | compact
  /-- An item to a line, indented. -/
  | spread
deriving DecidableEq

/-- What goes between two items, and between an item and its bracket, at a
depth of nesting. -/
def Style.gap : Style → Nat → List Char
  | compact, _ => []
  | spread, depth => '\n' :: List.replicate (2 * depth) ' '

/-- What goes between a key and its value. -/
def Style.colon : Style → List Char
  | compact => [':']
  | spread => [':', ' ']

/-- A text between quotes. -/
def quoted (body : List Char) : List Char := '"' :: body ++ ['"']

namespace Value

mutual

/-- Prints a value at a depth of nesting. -/
def printAt (style : Style) (depth : Nat) : Value → List Char
  | null => "null".toList
  | boolean true => "true".toList
  | boolean false => "false".toList
  | number numeral => numeral
  | text body => quoted body
  | list [] => ['[', ']']
  | list (item :: items) =>
    '[' :: style.gap (depth + 1) ++ item.printAt style (depth + 1)
      ++ printItems style depth items
  | object [] => ['\x7b', '\x7d']
  | object ((key, value) :: fields) =>
    '\x7b' :: style.gap (depth + 1) ++ quoted key ++ style.colon
      ++ value.printAt style (depth + 1) ++ printFields style depth fields

/-- Prints the items after the first one, and the closing bracket. -/
def printItems (style : Style) (depth : Nat) : List Value → List Char
  | [] => style.gap depth ++ [']']
  | item :: items =>
    ',' :: style.gap (depth + 1) ++ item.printAt style (depth + 1)
      ++ printItems style depth items

/-- Prints the fields after the first one, and the closing brace. -/
def printFields (style : Style) (depth : Nat) :
    List (List Char × Value) → List Char
  | [] => style.gap depth ++ ['\x7d']
  | (key, value) :: fields =>
    ',' :: style.gap (depth + 1) ++ quoted key ++ style.colon
      ++ value.printAt style (depth + 1) ++ printFields style depth fields

end

/-- Prints a value. -/
def print (style : Style) (v : Value) : List Char := v.printAt style 0

end Value

end Json

end Tabletop
