import Tabletop.Json.Token
import Tabletop.Json.Value

/-!
# Reading JSON

Tokens are read one at a time against what is open: a list waits for its next
item, an object for the value of a key. What is open is kept as a stack of
frames, so nesting has no limit, and reading a token is one step between
states. A document is accepted if its last token leaves one value complete
and nothing open.
-/

namespace Tabletop

namespace Json

/-- A list or an object that is not closed yet, with what it holds so far,
latest first. -/
inductive Frame where
  /-- A list that waits for its next item. -/
  | list (items : List Value)
  /-- An object that waits for the value of a key. -/
  | object (fields : List (List Char × Value)) (key : List Char)

/-- What the reader waits for. -/
inductive State where
  /-- A value. -/
  | value (stack : List Frame)
  /-- The first item of a list, or its end. -/
  | firstItem (stack : List Frame)
  /-- The first key of an object, or its end. -/
  | firstKey (stack : List Frame)
  /-- The next key of an object. -/
  | key (fields : List (List Char × Value)) (stack : List Frame)
  /-- The colon after a key. -/
  | colon (fields : List (List Char × Value)) (key : List Char) (stack : List Frame)
  /-- What follows a complete value. -/
  | complete (v : Value) (stack : List Frame)

namespace State

/-- Reads the first token of a value. -/
def beginValue (stack : List Frame) : Token → Option State
  | .null => some (complete .null stack)
  | .boolean b => some (complete (.boolean b) stack)
  | .number numeral => some (complete (.number numeral) stack)
  | .text body => some (complete (.text body) stack)
  | .openList => some (firstItem stack)
  | .openObject => some (firstKey stack)
  | _ => none

/-- Reads one token. -/
def step : State → Token → Option State
  | value stack, token => beginValue stack token
  | firstItem stack, .closeList => some (complete (.list []) stack)
  | firstItem stack, token => beginValue (.list [] :: stack) token
  | firstKey stack, .closeObject => some (complete (.object []) stack)
  | firstKey stack, .text body => some (colon [] body stack)
  | key fields stack, .text body => some (colon fields body stack)
  | colon fields k stack, .colon => some (value (.object fields k :: stack))
  | complete v (.list items :: stack), .comma =>
    some (value (.list (v :: items) :: stack))
  | complete v (.list items :: stack), .closeList =>
    some (complete (.list (v :: items).reverse) stack)
  | complete v (.object fields k :: stack), .comma =>
    some (key ((k, v) :: fields) stack)
  | complete v (.object fields k :: stack), .closeObject =>
    some (complete (.object ((k, v) :: fields).reverse) stack)
  | _, _ => none

/-- Reads tokens in order. -/
def run (state : State) (tokens : List Token) : Option State :=
  tokens.foldlM step state

end State

/-- Reads tokens as one value. -/
def Value.ofTokens? (tokens : List Token) : Option Value :=
  match (State.value []).run tokens with
  | some (.complete v []) => some v
  | _ => none

/-- Reads a document. -/
def Value.read? (s : List Char) : Option Value :=
  (Token.all s).bind Value.ofTokens?

end Json

end Tabletop
