import Tabletop.Binary.Format

/-!
# Binary floating-point values

A value of a format is not a number, an infinity, or a signed magnitude. The
sign stands beside the magnitude, so zero has two forms that compare equal
and that arithmetic tells apart.

Two facts are kept by the type and never checked again: the magnitude of a
finite value is one of its format, and a value that is not a number carries
nothing else. Values are made by `Binary.ofUnits`, which rounds a quotient of
units to nearest and answers with an infinity when the result is past the
ceiling.
-/

namespace Tabletop

/-- A floating-point value of format `F`. -/
inductive Binary (F : Format) where
  /-- The answer of an operation that has none. -/
  | nan
  /-- Past every finite value on one side. -/
  | infinite (negative : Bool)
  /-- A signed whole number of units. -/
  | finite (negative : Bool) (units : Nat) (representable : F.Representable units)
deriving DecidableEq

/-- Values of single precision. -/
abbrev Single := Binary .single

/-- Values of double precision. -/
abbrev Double := Binary .double

namespace Binary

variable {F G : Format}

/-- The value nearest to `n / d` units with the given sign. -/
def ofUnits (negative : Bool) (n d : Nat) : Binary F :=
  let units := F.round n d
  if h : units < twoPow F.top then
    .finite negative units (F.representable_round h)
  else
    .infinite negative

/-- The value nearest to the fraction `n / d` with the given sign. -/
def ofRatio (negative : Bool) (n d : Nat) : Binary F :=
  ofUnits negative (n * twoPow F.scale) d

/-- The value nearest to an integer. -/
def ofInt (i : Int) : Binary F :=
  ofRatio (decide (i < 0)) i.natAbs 1

instance (n : Nat) : OfNat (Binary F) n := ⟨ofRatio false n 1⟩

instance : Inhabited (Binary F) := ⟨0⟩

/-- Zero with the given sign. -/
def zero (negative : Bool) : Binary F :=
  .finite negative 0 F.representable_zero

/-- Neither an infinity nor "not a number". -/
def isFinite : Binary F → Bool
  | finite .. => true
  | _ => false

/-- The same magnitude with the other sign. -/
def neg : Binary F → Binary F
  | nan => nan
  | infinite s => infinite !s
  | finite s u h => finite (!s) u h

instance : Neg (Binary F) := ⟨neg⟩

/-- The same value in another format, rounded to nearest. The units of one
format are a power of two of the units of the other, so one of the two
powers below is one. Nothing is lost on the way from single to double
precision. -/
def convert : Binary F → Binary G
  | nan => nan
  | infinite s => infinite s
  | finite s u _ => ofUnits s (u * twoPow (G.scale - F.scale)) (twoPow (F.scale - G.scale))

/-! ## Order

Values are compared by their place on the line, where the two zeros share a
place, the infinities stand at the ceiling and a value that is not a number
has no place: every comparison with it is false. -/

/-- The place of a value on the line, in units. -/
def place? : Binary F → Option Int
  | nan => none
  | infinite s => some (if s then -(twoPow F.top : Int) else twoPow F.top)
  | finite s u _ => some (if s then -(u : Int) else u)

/-- Holds of two values with places when the places are related. -/
def compareBy (r : Int → Int → Bool) (x y : Binary F) : Bool :=
  match x.place?, y.place? with
  | some a, some b => r a b
  | _, _ => false

/-- Strictly before on the line. -/
def less (x y : Binary F) : Bool := compareBy (fun a b => decide (a < b)) x y

/-- Before or at the same place. -/
def atMost (x y : Binary F) : Bool := compareBy (fun a b => decide (a ≤ b)) x y

/-- At the same place. Not reflexive: a value that is not a number differs
from itself. -/
def equals (x y : Binary F) : Bool := compareBy (fun a b => decide (a = b)) x y

instance : LT (Binary F) := ⟨fun x y => x.less y = true⟩

instance : LE (Binary F) := ⟨fun x y => x.atMost y = true⟩

instance (x y : Binary F) : Decidable (x < y) :=
  inferInstanceAs (Decidable (x.less y = true))

instance (x y : Binary F) : Decidable (x ≤ y) :=
  inferInstanceAs (Decidable (x.atMost y = true))

/-- The larger of two values; next to a value that is not a number, the other
one. -/
def larger : Binary F → Binary F → Binary F
  | nan, y => y
  | x, nan => x
  | x, y => if x < y then y else x

/-- A value outside the bounds is moved to the nearer bound; one that is not
a number stays as it is. -/
def clamp (low high x : Binary F) : Binary F :=
  let y := if x < low then low else x
  if high < y then high else y

end Binary

end Tabletop
