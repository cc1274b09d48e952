/-!
# JSON tokens

A document is cut into brackets, separators, words, numerals and quoted
texts, with blanks between them; only the blank, the tab, the line feed and
the carriage return count as blanks. A numeral has no zero in front and no
plus sign, and a digit on either side of its point. A quoted text has no
control characters, and its escapes have the right letters and digits: what
they stand for is not asked here.

**Nothing is lost**: a token's own characters and what follows it make up the
document again (`eq_append_of_takeBody`, `eq_append_of_takeNumber`), so each
token leaves a shorter document (`length_lt_of_take`), and cutting ends.
-/

namespace Tabletop

namespace Json

/-- The smallest piece of a document that has a meaning. -/
inductive Token where
  /-- Opens a list. -/
  | openList
  /-- Closes a list. -/
  | closeList
  /-- Opens an object. -/
  | openObject
  /-- Closes an object. -/
  | closeObject
  /-- Stands between a key and its value. -/
  | colon
  /-- Stands between items. -/
  | comma
  /-- The word `null`. -/
  | null
  /-- One of the words `true` and `false`. -/
  | boolean (b : Bool)
  /-- A numeral. -/
  | number (numeral : List Char)
  /-- A text, by what stands between the quotes. -/
  | text (body : List Char)
deriving DecidableEq

namespace Token

/-- Separates tokens. -/
def isBlank (c : Char) : Bool := c = ' ' || c = '\n' || c = '\t' || c = '\r'

/-- A digit of base sixteen. -/
def isHexDigit (c : Char) : Bool :=
  c.isDigit || ('a' ≤ c && c ≤ 'f') || ('A' ≤ c && c ≤ 'F')

/-- May stand after a backslash on its own. -/
def isEscapeLetter (c : Char) : Bool :=
  c = '"' || c = '\\' || c = '/' || c = 'b' || c = 'f' || c = 'n' || c = 'r' || c = 't'

/-- Takes a text up to its closing quote. The answer is what stands before
the quote, and what follows it. -/
def takeBody : List Char → Option (List Char × List Char)
  | [] => none
  | '"' :: rest => some ([], rest)
  | '\\' :: 'u' :: a :: b :: c :: d :: rest =>
    if isHexDigit a && isHexDigit b && isHexDigit c && isHexDigit d then
      (takeBody rest).map fun (body, rest) =>
        ('\\' :: 'u' :: a :: b :: c :: d :: body, rest)
    else
      none
  | '\\' :: c :: rest =>
    if isEscapeLetter c then
      (takeBody rest).map fun (body, rest) => ('\\' :: c :: body, rest)
    else
      none
  | c :: rest =>
    if c = '\\' || c < ' ' then
      none
    else
      (takeBody rest).map fun (body, rest) => (c :: body, rest)

/-- Takes digits, one at least. -/
def takeDigits (s : List Char) : Option (List Char × List Char) :=
  match s.takeWhile Char.isDigit with
  | [] => none
  | digits => some (digits, s.dropWhile Char.isDigit)

/-- Takes the digits before the point: no zero in front of another digit. -/
def takeWhole (s : List Char) : Option (List Char × List Char) :=
  match takeDigits s with
  | some ('0' :: _ :: _, _) => none
  | other => other

/-- Takes the point and the digits after it, if there is a point. -/
def takeFraction : List Char → Option (List Char × List Char)
  | '.' :: rest => (takeDigits rest).map fun (digits, rest) => ('.' :: digits, rest)
  | s => some ([], s)

/-- Takes an optional sign and digits. -/
def takeSigned : List Char → Option (List Char × List Char)
  | '+' :: rest => (takeDigits rest).map fun (digits, rest) => ('+' :: digits, rest)
  | '-' :: rest => (takeDigits rest).map fun (digits, rest) => ('-' :: digits, rest)
  | s => takeDigits s

/-- Takes the exponent, if there is one. -/
def takeExponent : List Char → Option (List Char × List Char)
  | 'e' :: rest => (takeSigned rest).map fun (digits, rest) => ('e' :: digits, rest)
  | 'E' :: rest => (takeSigned rest).map fun (digits, rest) => ('E' :: digits, rest)
  | s => some ([], s)

/-- Takes a numeral without its sign. -/
def takeUnsigned (s : List Char) : Option (List Char × List Char) := do
  let (whole, s) ← takeWhole s
  let (fraction, s) ← takeFraction s
  let (exponent, s) ← takeExponent s
  return (whole ++ fraction ++ exponent, s)

/-- Takes a numeral. -/
def takeNumber : List Char → Option (List Char × List Char)
  | '-' :: rest => (takeUnsigned rest).map fun (numeral, rest) => ('-' :: numeral, rest)
  | s => takeUnsigned s

/-- Takes one token from a document that does not begin with a blank. -/
def take : List Char → Option (Token × List Char)
  | '[' :: rest => some (openList, rest)
  | ']' :: rest => some (closeList, rest)
  | '\x7b' :: rest => some (openObject, rest)
  | '\x7d' :: rest => some (closeObject, rest)
  | ':' :: rest => some (colon, rest)
  | ',' :: rest => some (comma, rest)
  | '"' :: rest => (takeBody rest).map fun (body, rest) => (text body, rest)
  | 'n' :: 'u' :: 'l' :: 'l' :: rest => some (null, rest)
  | 't' :: 'r' :: 'u' :: 'e' :: rest => some (boolean true, rest)
  | 'f' :: 'a' :: 'l' :: 's' :: 'e' :: rest => some (boolean false, rest)
  | s => (takeNumber s).map fun (numeral, rest) => (number numeral, rest)

/-! ### Nothing is lost -/

/-- A text is what stands before its closing quote, the quote, and the rest. -/
theorem eq_append_of_takeBody {s body rest : List Char}
    (h : takeBody s = some (body, rest)) : s = body ++ '"' :: rest := by
  fun_induction takeBody s generalizing body rest with
  | case1 => simp at h
  | case2 => simp_all
  | case3 a b c d s _ ih =>
    obtain ⟨_, ht, he⟩ := Option.map_eq_some_iff.1 h
    cases he
    rw [ih ht]
    rfl
  | case4 => simp at h
  | case5 c s _ _ ih =>
    obtain ⟨_, ht, he⟩ := Option.map_eq_some_iff.1 h
    cases he
    rw [ih ht]
    rfl
  | case6 => simp at h
  | case7 => simp at h
  | case8 c s _ _ _ _ ih =>
    obtain ⟨_, ht, he⟩ := Option.map_eq_some_iff.1 h
    cases he
    rw [ih ht]
    rfl

/-- Digits and the rest are the whole, and there are digits. -/
theorem eq_append_of_takeDigits {s digits rest : List Char}
    (h : takeDigits s = some (digits, rest)) : s = digits ++ rest ∧ digits ≠ [] := by
  unfold takeDigits at h
  split at h
  · simp at h
  · rename_i hne
    cases h
    exact ⟨List.takeWhile_append_dropWhile.symm, hne⟩

/-- The digits before the point and the rest are the whole. -/
theorem eq_append_of_takeWhole {s digits rest : List Char}
    (h : takeWhole s = some (digits, rest)) : s = digits ++ rest ∧ digits ≠ [] := by
  unfold takeWhole at h
  split at h
  · simp at h
  · exact eq_append_of_takeDigits h

/-- A fraction, which may be missing, and the rest are the whole. -/
theorem eq_append_of_takeFraction {s fraction rest : List Char}
    (h : takeFraction s = some (fraction, rest)) : s = fraction ++ rest := by
  unfold takeFraction at h
  split at h
  · obtain ⟨_, ht, he⟩ := Option.map_eq_some_iff.1 h
    cases he
    exact congrArg _ (eq_append_of_takeDigits ht).1
  · cases h
    rfl

/-- A signed row of digits and the rest are the whole. -/
theorem eq_append_of_takeSigned {s digits rest : List Char}
    (h : takeSigned s = some (digits, rest)) : s = digits ++ rest := by
  unfold takeSigned at h
  split at h
  · obtain ⟨_, ht, he⟩ := Option.map_eq_some_iff.1 h
    cases he
    exact congrArg _ (eq_append_of_takeDigits ht).1
  · obtain ⟨_, ht, he⟩ := Option.map_eq_some_iff.1 h
    cases he
    exact congrArg _ (eq_append_of_takeDigits ht).1
  · exact (eq_append_of_takeDigits h).1

/-- An exponent, which may be missing, and the rest are the whole. -/
theorem eq_append_of_takeExponent {s exponent rest : List Char}
    (h : takeExponent s = some (exponent, rest)) : s = exponent ++ rest := by
  unfold takeExponent at h
  split at h
  · obtain ⟨_, ht, he⟩ := Option.map_eq_some_iff.1 h
    cases he
    exact congrArg _ (eq_append_of_takeSigned ht)
  · obtain ⟨_, ht, he⟩ := Option.map_eq_some_iff.1 h
    cases he
    exact congrArg _ (eq_append_of_takeSigned ht)
  · cases h
    rfl

/-- An unsigned numeral and the rest are the whole. -/
theorem eq_append_of_takeUnsigned {s numeral rest : List Char}
    (h : takeUnsigned s = some (numeral, rest)) : s = numeral ++ rest ∧ numeral ≠ [] := by
  obtain ⟨⟨whole, s₁⟩, h₁, h⟩ := Option.bind_eq_some_iff.1 h
  obtain ⟨⟨fraction, s₂⟩, h₂, h⟩ := Option.bind_eq_some_iff.1 h
  obtain ⟨⟨exponent, s₃⟩, h₃, h⟩ := Option.bind_eq_some_iff.1 h
  cases h
  obtain ⟨hw, hn⟩ := eq_append_of_takeWhole h₁
  rw [hw, eq_append_of_takeFraction h₂, eq_append_of_takeExponent h₃]
  simp [hn]

/-- A numeral and the rest are the whole, and a numeral is not empty. -/
theorem eq_append_of_takeNumber {s numeral rest : List Char}
    (h : takeNumber s = some (numeral, rest)) : s = numeral ++ rest ∧ numeral ≠ [] := by
  unfold takeNumber at h
  split at h
  · obtain ⟨_, ht, he⟩ := Option.map_eq_some_iff.1 h
    cases he
    exact ⟨congrArg _ (eq_append_of_takeUnsigned ht).1, List.cons_ne_nil _ _⟩
  · exact eq_append_of_takeUnsigned h

/-- Taking a token leaves a shorter document. -/
theorem length_lt_of_take {s rest : List Char} {token : Token}
    (h : take s = some (token, rest)) : rest.length < s.length := by
  unfold take at h
  split at h
  · cases h
    exact Nat.lt_succ_self _
  · cases h
    exact Nat.lt_succ_self _
  · cases h
    exact Nat.lt_succ_self _
  · cases h
    exact Nat.lt_succ_self _
  · cases h
    exact Nat.lt_succ_self _
  · cases h
    exact Nat.lt_succ_self _
  · obtain ⟨_, ht, he⟩ := Option.map_eq_some_iff.1 h
    cases he
    rw [eq_append_of_takeBody ht, List.length_cons, List.length_append, List.length_cons]
    omega
  · cases h
    simp only [List.length_cons]
    omega
  · cases h
    simp only [List.length_cons]
    omega
  · cases h
    simp only [List.length_cons]
    omega
  · obtain ⟨_, ht, he⟩ := Option.map_eq_some_iff.1 h
    cases he
    obtain ⟨hs, hn⟩ := eq_append_of_takeNumber ht
    have := List.length_pos_iff.2 hn
    rw [hs, List.length_append]
    omega

/-- Cuts a document into its tokens. -/
def all (s : List Char) : Option (List Token) :=
  match s with
  | [] => some []
  | c :: s' =>
    if isBlank c then
      all s'
    else
      match _h : take (c :: s') with
      | none => none
      | some (token, rest) => (all rest).map (token :: ·)
termination_by s.length
decreasing_by
  · exact Nat.lt_succ_self s'.length
  · exact length_lt_of_take _h

end Token

end Json

end Tabletop
