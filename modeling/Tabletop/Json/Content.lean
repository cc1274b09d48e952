import Tabletop.Json.Value
import Tabletop.Text.Numeral

/-!
# What numerals, texts and objects say

A value keeps what was written; this module says what it means. Texts are
freed of their escapes, numerals without point and exponent are integers, an
object or a list is taken apart into the fields of a record, and a text or an
object with one field names a variant.
-/

namespace Tabletop

namespace Json

/-- The number that four digits of base sixteen stand for. -/
def codeUnit (a b c d : Char) : Nat := Numeral.value 16 [a, b, c, d]

/-- Takes the escapes out of a text. A character beyond the first plane is
escaped as two surrogates, high and low; a surrogate on its own is no
character. -/
def unescape : List Char → Option (List Char)
  | [] => some []
  | '\\' :: 'u' :: a :: b :: c :: d :: rest =>
    let unit := codeUnit a b c d
    if 0xd800 ≤ unit ∧ unit < 0xdc00 then
      match rest with
      | '\\' :: 'u' :: e :: f :: g :: h :: rest =>
        let low := codeUnit e f g h
        if 0xdc00 ≤ low ∧ low < 0xe000 then
          (unescape rest).map
            (Char.ofNat (0x10000 + (unit - 0xd800) * 0x400 + (low - 0xdc00)) :: ·)
        else
          none
      | _ => none
    else if 0xdc00 ≤ unit ∧ unit < 0xe000 then
      none
    else
      (unescape rest).map (Char.ofNat unit :: ·)
  | '\\' :: 'b' :: rest => (unescape rest).map ('\x08' :: ·)
  | '\\' :: 'f' :: rest => (unescape rest).map ('\x0c' :: ·)
  | '\\' :: 'n' :: rest => (unescape rest).map ('\n' :: ·)
  | '\\' :: 'r' :: rest => (unescape rest).map ('\r' :: ·)
  | '\\' :: 't' :: rest => (unescape rest).map ('\t' :: ·)
  | '\\' :: c :: rest => (unescape rest).map (c :: ·)
  | c :: rest => (unescape rest).map (c :: ·)

namespace Value

/-- A list of values, each made from an item. -/
def ofList {α : Type} (encode : α → Value) (items : List α) : Value :=
  list (items.map encode)

/-- Reads a list of values. -/
def toList? {α : Type} (decode : Value → Option α) : Value → Option (List α)
  | list items => items.mapM decode
  | _ => none

/-- An integer. -/
def ofInt (i : Int) : Value := number (Numeral.ofInt i)

/-- Reads an integer: a numeral with neither point nor exponent. Zero has no
sign. -/
def toInt? : Value → Option Int
  | number ['-', '0'] => none
  | number ('-' :: digits) => (Numeral.toNat? digits).map fun n => -(n : Int)
  | number digits => (Numeral.toNat? digits).map Int.ofNat
  | _ => none

/-- Reads a natural number below a bound. -/
def toNatBelow? (bound : Nat) (v : Value) : Option Nat :=
  match v.toInt? with
  | some i => if 0 ≤ i ∧ i < bound then some i.toNat else none
  | none => none

/-- Reads an integer of 32 bits. -/
def toInt32? (v : Value) : Option Int32 := v.toInt?.bind Numeral.int32?

/-- The values of an object that stand under a name. -/
def valuesOf (name : List Char) (fields : List (List Char × Value)) : List Value :=
  (fields.filter fun field => field.1 = name).map Prod.snd

/-- The one value of an object that stands under a name. -/
def onlyValueOf? (name : List Char) (fields : List (List Char × Value)) :
    Option Value :=
  match valuesOf name fields with
  | [v] => some v
  | _ => none

/-- The fields of a record, in the order of their names. They are written as
an object, in any order and among others, or as a list of just these. -/
def toRecord? (names : List (List Char)) : Value → Option (List Value)
  | list items => if items.length = names.length then some items else none
  | object fields => do
    let fields ← fields.mapM fun (key, v) => (unescape key).map (·, v)
    names.mapM fun name => onlyValueOf? name fields
  | _ => none

/-- The name of a variant, and what it holds if it is written as an object
with that one field. -/
def toVariant? : Value → Option (List Char × Option Value)
  | text body => (unescape body).map (·, none)
  | object [(key, v)] => (unescape key).map (·, some v)
  | _ => none

/-- The name of a variant that holds nothing. -/
def toName? (v : Value) : Option (List Char) :=
  match v.toVariant? with
  | some (name, none) => some name
  | some (name, some null) => some name
  | _ => none

end Value

end Json

end Tabletop
