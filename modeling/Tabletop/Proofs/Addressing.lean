import Mathlib.Algebra.Order.Ring.Int
import Mathlib.Data.Set.Function
import Tabletop.Proofs.Obedience

/-!
# Cells under their numbers

A table is asked for a cell by its coordinates, while the cells stand in one
list, row after row, and are found there under a number. Two counts must
agree for that: the order in which the rows are laid out, and the number
that is worked out in machine words from column and row. Both are compared
here with the same count of integers, `x + y * width`.

Rows of equal length, joined, are one row, in which quotient and remainder
give row and column (`flatMap_rows`). The number in machine words is the
integer because the last of all numbers is one less than the count of the
cells, and that count was found to fit when the table was made; the product
`y * width` alone stays below the number (`index_exact`).

`Table.make_spec` says what comes of it for all sides and cell sizes: which
tables there are, and how every cell of them is found.
-/

namespace Tabletop

/-- Rows of equal length, joined, are one row: the quotient by that length
tells the row, the remainder the place in it. -/
theorem flatMap_rows {α : Type} (place : Nat → Nat → α) {width : Nat} (hw : 0 < width)
    (length : Nat) :
    ((List.range length).flatMap fun y => (List.range width).map (place y))
      = (List.range (width * length)).map fun n => place (n / width) (n % width) := by
  induction length with
  | zero => rfl
  | succ length ih =>
    rw [List.range_succ, List.flatMap_append, ih, Nat.mul_succ, List.range_add,
      List.map_append, List.map_map, List.flatMap_singleton]
    congr 1
    refine List.map_congr_left fun x hx => ?_
    have hx : x < width := List.mem_range.mp hx
    simp only [Function.comp_apply]
    rw [Nat.mul_add_div hw, Nat.mul_add_mod, Nat.div_eq_of_lt hx, Nat.mod_eq_of_lt hx,
      Nat.add_zero]

namespace Table

/-- Column and row are there when the sides are these. -/
structure Within (width length x y : Int32) : Prop where
  /-- Not west of the table. -/
  west : 0 ≤ x.toInt
  /-- Not east of it. -/
  east : x.toInt < width.toInt
  /-- Not south of it. -/
  south : 0 ≤ y.toInt
  /-- Not north of it. -/
  north : y.toInt < length.toInt

/-- The number of a cell, as an integer. -/
def number (width x y : Int32) : Int := x.toInt + y.toInt * width.toInt

/-- Column and row of the cell with a number. -/
def spot (width : Int32) (n : Int) : Int32 × Int32 :=
  (Int32.ofInt (n % width.toInt), Int32.ofInt (n / width.toInt))

variable {t : Table} {x y : Int32}

theorem contains_iff : t.contains x y = true ↔ Within t.width t.length x y := by
  simp only [contains, Bool.and_eq_true, decide_eq_true_eq, Int32.le_iff_toInt_le,
    Int32.lt_iff_toInt_lt, Int32.toInt_zero, and_assoc]
  exact ⟨fun ⟨hw, he, hs, hn⟩ => ⟨hw, he, hs, hn⟩, fun h => ⟨h.west, h.east, h.south, h.north⟩⟩

/-! ### Numbers -/

namespace Within

variable {width length : Int32}

/-- The row begins no later than at the number. -/
theorem row_nonneg (h : Within width length x y) : 0 ≤ y.toInt * width.toInt :=
  mul_nonneg h.south (h.west.trans h.east.le)

theorem number_nonneg (h : Within width length x y) : 0 ≤ number width x y :=
  add_nonneg h.west h.row_nonneg

theorem number_lt (h : Within width length x y) :
    number width x y < width.toInt * length.toInt := by
  have hrow : (y.toInt + 1) * width.toInt ≤ length.toInt * width.toInt :=
    mul_le_mul_of_nonneg_right h.north (h.west.trans h.east.le)
  have heast := h.east
  rw [number, mul_comm width.toInt]
  rw [add_mul, one_mul] at hrow
  omega

theorem mod_number (h : Within width length x y) : number width x y % width.toInt = x.toInt := by
  rw [number, Int.add_mul_emod_self_right]
  exact Int.emod_eq_of_lt h.west h.east

theorem div_number (h : Within width length x y) : number width x y / width.toInt = y.toInt := by
  have hw : 0 < width.toInt := h.west.trans_lt h.east
  rw [number, Int.add_mul_ediv_right _ _ hw.ne', Int.ediv_eq_zero_of_lt h.west h.east, zero_add]

theorem spot_number (h : Within width length x y) : spot width (number width x y) = (x, y) := by
  rw [spot, h.mod_number, h.div_number, Int32.ofInt_toInt, Int32.ofInt_toInt]

end Within

section Spots

variable {width length : Int32} {n : Int}

/-- Below the count of the cells, remainder and quotient are themselves
coordinates, so they survive being put into machine words. -/
theorem spot_spec (h0 : 0 ≤ n) (hn : n < width.toInt * length.toInt) (hw : 0 < width.toInt) :
    Within width length (spot width n).1 (spot width n).2
      ∧ number width (spot width n).1 (spot width n).2 = n := by
  have hm0 : 0 ≤ n % width.toInt := Int.emod_nonneg n hw.ne'
  have hm : n % width.toInt < width.toInt := Int.emod_lt_of_pos n hw
  have hd0 : 0 ≤ n / width.toInt := Int.ediv_nonneg h0 hw.le
  have hd : n / width.toInt < length.toInt := Int.ediv_lt_of_lt_mul hw (by rwa [mul_comm])
  have hwidth := width.toInt_lt
  have hlength := length.toInt_lt
  have hx : (spot width n).1.toInt = n % width.toInt :=
    Int32.toInt_ofInt_of_le (by omega) (by omega)
  have hy : (spot width n).2.toInt = n / width.toInt :=
    Int32.toInt_ofInt_of_le (by omega) (by omega)
  refine ⟨⟨?_, ?_, ?_, ?_⟩, ?_⟩
  · rwa [hx]
  · rwa [hx]
  · rwa [hy]
  · rwa [hy]
  · rw [number, hx, hy, Int.emod_add_ediv_mul]

/-- **Numbers and coordinates.** Counting the cells row by row names each of
them once and leaves no number out. -/
theorem bijOn_number (hw : 0 < width.toInt) :
    Set.BijOn (fun p : Int32 × Int32 => number width p.1 p.2)
      {p | Within width length p.1 p.2} {n | 0 ≤ n ∧ n < width.toInt * length.toInt} := by
  have hinv : Set.InvOn (spot width) (fun p : Int32 × Int32 => number width p.1 p.2)
      {p | Within width length p.1 p.2} {n | 0 ≤ n ∧ n < width.toInt * length.toInt} := by
    refine ⟨?_, ?_⟩
    · rintro ⟨x, y⟩ h
      exact Within.spot_number h
    · rintro n ⟨h0, hn⟩
      exact (spot_spec h0 hn hw).2
  refine hinv.bijOn ?_ ?_
  · rintro ⟨x, y⟩ h
    exact ⟨Within.number_nonneg h, Within.number_lt h⟩
  · rintro n ⟨h0, hn⟩
    exact (spot_spec h0 hn hw).1

end Spots

/-! ### Numbers in machine words -/

/-- Neither the product that counts the rows before a cell nor the number of
the cell leaves the range of a machine word. -/
theorem index_exact (h : t.contains x y = true) :
    (y * t.width).toInt = y.toInt * t.width.toInt
      ∧ (t.index x y).toInt = number t.width x y := by
  have hin := contains_iff.mp h
  have hlt := hin.number_lt
  have hrow := hin.row_nonneg
  have hfits := t.valid.2.2
  have hwest := hin.west
  rw [number] at hlt ⊢
  have hproduct : (y * t.width).toInt = y.toInt * t.width.toInt := by
    rw [Int32.toInt_mul]
    exact Int.bmod_eq_of_le (by omega) (by omega)
  refine ⟨hproduct, ?_⟩
  rw [index, Int32.toInt_add, hproduct]
  exact Int.bmod_eq_of_le (by omega) (by omega)

/-! ### The list of the cells -/

/-- The cell that stands under a number in the list of the cells: none under
a negative number, and none past the last. -/
def stored? (t : Table) (n : Int32) : Option Cell :=
  if 0 ≤ n.toInt then t.cells[n.toInt.toNat]? else none

/-- In the list of the cells a place holds the cell whose coordinates are
counted under its number. -/
theorem cells_eq (t : Table) :
    t.cells = (List.range (t.width.toInt.toNat * t.length.toInt.toNat)).map fun n : Nat =>
      t.cellAt (spot t.width n).1 (spot t.width n).2 := by
  have hw : 0 < t.width.toInt.toNat := Int.lt_toNat.mpr t.valid.1
  have hspot : ∀ n : Nat, spot t.width n
      = (Int32.ofNat (n % t.width.toInt.toNat), Int32.ofNat (n / t.width.toInt.toNat)) := by
    intro n
    rw [spot, ← Int32.ofInt_eq_ofNat, ← Int32.ofInt_eq_ofNat, Int.natCast_emod, Int.natCast_ediv,
      Int.toNat_of_nonneg t.valid.1.le]
  simp only [cells, coordinates, List.flatMap_map, List.map_map, hspot]
  exact flatMap_rows (fun y x => t.cellAt (Int32.ofNat x) (Int32.ofNat y)) hw _

/-- There are as many cells as the sides say. -/
theorem length_cells (t : Table) : (t.cells.length : Int) = t.width.toInt * t.length.toInt := by
  rw [cells_eq, List.length_map, List.length_range, Int.natCast_mul,
    Int.toNat_of_nonneg t.valid.1.le, Int.toNat_of_nonneg t.valid.2.1.le]

/-- **Storing and numbering agree.** Under the number of a pair of coordinates
stands the cell with these coordinates. -/
theorem stored?_index (h : t.contains x y = true) :
    t.stored? (t.index x y) = some (t.cellAt x y) := by
  have hin := contains_iff.mp h
  obtain ⟨n, hn⟩ := Int.eq_ofNat_of_zero_le hin.number_nonneg
  have hlt : n < t.width.toInt.toNat * t.length.toInt.toNat := by
    have hnumber := hin.number_lt
    rwa [hn, ← Int.toNat_of_nonneg t.valid.1.le, ← Int.toNat_of_nonneg t.valid.2.1.le,
      ← Int.natCast_mul, Int.ofNat_lt] at hnumber
  rw [stored?, (index_exact h).2, if_pos hin.number_nonneg, cells_eq, List.getElem?_map, hn,
    Int.toNat_natCast, List.getElem?_range hlt, Option.map_some, ← hn, hin.spot_number]

/-! ### Tables of given sides -/

/-- What a table has that was made with the given sides and cell size. -/
structure Laid (t : Table) (width length : Int32) (cellSize : Single) : Prop where
  /-- The sides are those asked for, and so is the size of a cell. -/
  measures : t.width = width ∧ t.length = length ∧ t.cellSize = cellSize
  /-- The cells are counted by the product of the sides. -/
  count : (t.cells.length : Int) = width.toInt * length.toInt
  /-- Numbering the cells never leaves the range of a machine word, neither in
  the product nor in the sum. -/
  fits : ∀ x y, Within width length x y →
    (y * t.width).toInt = y.toInt * width.toInt
      ∧ (t.index x y).toInt = x.toInt + y.toInt * width.toInt
  /-- The numbers go through all from zero up to the count of the cells, each
  of them once. -/
  numbering : Set.BijOn (fun p : Int32 × Int32 => (t.index p.1 p.2).toInt)
    {p | Within width length p.1 p.2} {n | 0 ≤ n ∧ n < width.toInt * length.toInt}
  /-- Under its number stands the cell, at the multiples of the cell size. -/
  stored : ∀ x y, Within width length x y →
    t.stored? (t.index x y) = some {
      x, y
      point := {
        x := Binary.ofInt x.toInt * cellSize
        y := 0
        z := Binary.ofInt y.toInt * cellSize } }
  /-- Asked for a cell, the table gives the one that stands under the number,
  and it does so for its own coordinates alone. -/
  found : ∀ x y c, t.cell x y = .ok c ↔
    Within width length x y ∧ t.stored? (t.index x y) = some c
  /-- All other coordinates are told to be off the table. -/
  missing : ∀ x y e, t.cell x y = .error e ↔
    ¬ Within width length x y ∧ e = .offTable x y

theorem found_iff (t : Table) (x y : Int32) (c : Cell) :
    t.cell x y = .ok c ↔
      Within t.width t.length x y ∧ t.stored? (t.index x y) = some c := by
  rw [← contains_iff]
  cases h : t.contains x y with
  | true => simp [cell_eq_ok h, stored?_index h]
  | false => simp [cell_eq_error h]

theorem missing_iff (t : Table) (x y : Int32) (e : TableError) :
    t.cell x y = .error e ↔ ¬ Within t.width t.length x y ∧ e = .offTable x y := by
  rw [← contains_iff]
  cases h : t.contains x y with
  | true => simp [cell_eq_ok h]
  | false => simp [cell_eq_error h, eq_comm]

theorem laid (t : Table) : t.Laid t.width t.length t.cellSize where
  measures := ⟨rfl, rfl, rfl⟩
  count := length_cells t
  fits _ _ h := index_exact (contains_iff.mpr h)
  numbering := (bijOn_number t.valid.1).congr fun _ h =>
    (index_exact (contains_iff.mpr h)).2.symm
  stored _ _ h := stored?_index (contains_iff.mpr h)
  found := found_iff t
  missing := missing_iff t

/-- **Making a table and finding its cells.** A table is made exactly if both
sides are positive and their product is no greater than a coordinate can be;
otherwise the answer names the two sides. On every table that is made, the
cells are counted by the product, their numbers fit and reach each of them,
and a cell is found under its coordinates and no others. -/
theorem make_spec (width length : Int32) (cellSize : Single) :
    ((∃ t, make width length cellSize = .ok t) ↔
        0 < width.toInt ∧ 0 < length.toInt
          ∧ width.toInt * length.toInt ≤ Int32.maxValue.toInt)
      ∧ (∀ t, make width length cellSize = .ok t → t.Laid width length cellSize)
      ∧ (∀ e, make width length cellSize = .error e → e = .badDimensions width length) := by
  have hmax : Int32.maxValue.toInt = 2147483647 := Int32.toInt_maxValue
  rw [hmax, make]
  by_cases h : ValidDimensions width length
  · rw [dif_pos h]
    refine ⟨⟨fun _ => ⟨h.1, h.2.1, Int.le_of_lt_add_one h.2.2⟩, fun _ => ⟨_, rfl⟩⟩, ?_, ?_⟩
    · rintro t ⟨⟩
      exact laid _
    · rintro e ⟨⟩
  · rw [dif_neg h]
    refine ⟨⟨?_, ?_⟩, ?_, ?_⟩
    · rintro ⟨t, ⟨⟩⟩
    · rintro ⟨hw, hl, hle⟩
      exact absurd ⟨hw, hl, Int.lt_add_one_of_le hle⟩ h
    · rintro t ⟨⟩
    · rintro e ⟨⟩
      rfl

end Table

end Tabletop
