import Tabletop.Proofs.Edge
import Tabletop.Proofs.Walking

/-!
# Neighbours

Looking one step ahead is asked of a table about a cell that may be of another
one, so the coordinates it starts from are bounded by the sides of that other
table. That is enough for the sums not to leave the range of a machine word,
since a table ends before the range does; what is then looked up is bounded by
the sides of the first table (`Table.looksAhead`).

On one table, to be ahead in some direction is a relation between cells, once
the edges are left out, where a cell is ahead of itself. The relation is that of
the sums (`Table.ahead_samePlace_iff`), so it is turned round by half a turn, and
it holds for one direction or another exactly between cells whose coordinates
differ by one in all. `Table.neighbours` states both, for all pairs of tables.
-/

namespace Tabletop

/-- **The same place:** the coordinates of two cells agree, whatever points they
are drawn at. -/
def Cell.SamePlace (c d : Cell) : Prop := c.x = d.x ∧ c.y = d.y

namespace Cell

/-- How many steps apart two cells are. -/
def stepsTo (c d : Cell) : Nat :=
  (c.x.toInt - d.x.toInt).natAbs + (c.y.toInt - d.y.toInt).natAbs

end Cell

/-- One step is to be taken exactly if there is a direction for it. -/
theorem Direction.exists_step_iff (i j : Int) :
    (∃ d : Direction, i = d.step.1.toInt ∧ j = d.step.2.toInt) ↔ i.natAbs + j.natAbs = 1 := by
  constructor
  · rintro ⟨d, rfl, rfl⟩
    cases d <;> decide
  · intro h
    have hcases : i = 0 ∧ j = 1 ∨ i = 1 ∧ j = 0 ∨ i = 0 ∧ j = -1 ∨ i = -1 ∧ j = 0 := by omega
    rcases hcases with ⟨rfl, rfl⟩ | ⟨rfl, rfl⟩ | ⟨rfl, rfl⟩ | ⟨rfl, rfl⟩
    · exact ⟨.north, by decide, by decide⟩
    · exact ⟨.east, by decide, by decide⟩
    · exact ⟨.south, by decide, by decide⟩
    · exact ⟨.west, by decide, by decide⟩

namespace Table

variable {t u : Table} {c d : Cell}

/-- **What looking ahead comes to,** from a cell in a direction. -/
structure LooksAhead (t : Table) (c : Cell) (d : Direction) : Prop where
  /-- The column looked at is the sum of the integers. -/
  column : (c.x + d.step.1).toInt = c.x.toInt + d.step.1.toInt
  /-- So is the row. -/
  row : (c.y + d.step.2).toInt = c.y.toInt + d.step.2.toInt
  /-- If the table has such a cell, neither the product nor the sum that make
  its number leave the range of a machine word. -/
  counted : Within t.width t.length (c.x + d.step.1) (c.y + d.step.2) →
    ((c.y + d.step.2) * t.width).toInt = (c.y + d.step.2).toInt * t.width.toInt
      ∧ (t.index (c.x + d.step.1) (c.y + d.step.2)).toInt
        = (c.x + d.step.1).toInt + (c.y + d.step.2).toInt * t.width.toInt
  /-- The cell ahead is then the table's own cell, and it stands in the list of
  the cells under that number. -/
  onward : Within t.width t.length (c.x + d.step.1) (c.y + d.step.2) →
    t.cell (c.x + d.step.1) (c.y + d.step.2) = .ok (t.ahead c d)
      ∧ t.stored? (t.index (c.x + d.step.1) (c.y + d.step.2)) = some (t.ahead c d)
  /-- Otherwise the cell ahead is the given one. -/
  stays : ¬ Within t.width t.length (c.x + d.step.1) (c.y + d.step.2) → t.ahead c d = c

/-- The sums are those of integers if the cell is one of any table. -/
theorem toInt_step (hc : u.Has c) (d : Direction) :
    (c.x + d.step.1).toInt = c.x.toInt + d.step.1.toInt
      ∧ (c.y + d.step.2).toInt = c.y.toInt + d.step.2.toInt := by
  obtain ⟨hwest, heast, hsouth, hnorth⟩ := contains_iff.mp (contains_of_has hc)
  obtain ⟨hx, hx', hy, hy', -⟩ := d.step_bounds
  exact ⟨Pose.toInt_add_step hwest heast hx hx', Pose.toInt_add_step hsouth hnorth hy hy'⟩

/-- **Looking ahead is safe** from the cells of all tables. -/
theorem looksAhead (hc : u.Has c) (d : Direction) : t.LooksAhead c d where
  column := (toInt_step hc d).1
  row := (toInt_step hc d).2
  counted hin := index_exact (contains_iff.mpr hin)
  onward hin := by
    have hcontains := contains_iff.mpr hin
    rw [ahead_of_contains hcontains]
    exact ⟨cell_eq_ok hcontains, stored?_index hcontains⟩
  stays hout := ahead_of_not_contains (Bool.eq_false_iff.mpr (mt contains_iff.mp hout))

/-- Ahead is a cell other than the first if and only if the sums say so. The
edges are no exception: the sums are not those of a cell there. -/
theorem ahead_samePlace_iff (hc : t.Has c) (hd : t.Has d) (hne : ¬ c.SamePlace d)
    (f : Direction) :
    (t.ahead c f).SamePlace d
      ↔ d.x.toInt - c.x.toInt = f.step.1.toInt ∧ d.y.toInt - c.y.toInt = f.step.2.toInt := by
  obtain ⟨hx, hy⟩ := toInt_step hc f
  have hsums : (c.x + f.step.1 = d.x ∧ c.y + f.step.2 = d.y)
      ↔ d.x.toInt - c.x.toInt = f.step.1.toInt ∧ d.y.toInt - c.y.toInt = f.step.2.toInt := by
    rw [← Int32.toInt_inj, ← Int32.toInt_inj, hx, hy]
    omega
  rw [← hsums]
  cases ht : t.contains (c.x + f.step.1) (c.y + f.step.2) with
  | true =>
    rw [ahead_of_contains ht]
    rfl
  | false =>
    rw [ahead_of_not_contains ht]
    refine iff_of_false hne ?_
    rintro ⟨hdx, hdy⟩
    rw [hdx, hdy, contains_of_has hd] at ht
    cases ht

/-- **Neighbours.** To look ahead on one table from a cell of another one never
leaves the range of a machine word nor the list of the cells, and gives the
table's cell at the sums or else the cell itself. Between different places of
one table, what is ahead in a direction is behind in the opposite one, and two
places are neighbours in some direction exactly if they are one step apart. -/
theorem neighbours (t u : Table) :
    (∀ c, u.Has c → ∀ f, t.LooksAhead c f)
      ∧ ∀ c d, t.Has c → t.Has d → ¬ c.SamePlace d →
        (∀ f : Direction, (t.ahead c f).SamePlace d ↔ (t.ahead d f.right.right).SamePlace c)
          ∧ ((∃ f, (t.ahead c f).SamePlace d) ↔ c.stepsTo d = 1) := by
  refine ⟨fun c hc f => looksAhead hc f, fun c d hc hd hne => ⟨fun f => ?_, ?_⟩⟩
  · have hne' : ¬ d.SamePlace c := fun h => hne ⟨h.1.symm, h.2.symm⟩
    obtain ⟨hback₁, hback₂⟩ := f.step_back
    rw [ahead_samePlace_iff hc hd hne, ahead_samePlace_iff hd hc hne', hback₁, hback₂]
    omega
  · simp only [ahead_samePlace_iff hc hd hne]
    rw [Direction.exists_step_iff, Cell.stepsTo]
    omega

/-- The last cell of the longest row there can be, looked at from a table of six
cells, which has nothing east of it. On that table a cell is a neighbour of the
one north of it, and not of the one to the north-west. -/
theorem neighbours_past_longest_row :
    let t : Table := ⟨2, 3, 1, by decide⟩
    let u : Table := ⟨2147483647, 1, .nan, by decide⟩
    u.Has (u.cellAt 2147483646 0)
      ∧ t.ahead (u.cellAt 2147483646 0) .east = u.cellAt 2147483646 0
      ∧ t.Has (t.cellAt 1 0) ∧ t.Has (t.cellAt 1 1) ∧ t.Has (t.cellAt 0 1)
      ∧ ¬ (t.cellAt 1 0).SamePlace (t.cellAt 1 1) ∧ ¬ (t.cellAt 1 0).SamePlace (t.cellAt 0 1)
      ∧ (∃ f, (t.ahead (t.cellAt 1 0) f).SamePlace (t.cellAt 1 1))
      ∧ ¬ ∃ f, (t.ahead (t.cellAt 1 0) f).SamePlace (t.cellAt 0 1) := by
  intro t u
  have hfar : u.Has (u.cellAt 2147483646 0) := has_cellAt (by decide)
  have hfirst : t.Has (t.cellAt 1 0) := has_cellAt (by decide)
  have hnorth : t.Has (t.cellAt 1 1) := has_cellAt (by decide)
  have hslant : t.Has (t.cellAt 0 1) := has_cellAt (by decide)
  have hne : ¬ (t.cellAt 1 0).SamePlace (t.cellAt 1 1) := fun h => absurd h.2 (by decide)
  have hne' : ¬ (t.cellAt 1 0).SamePlace (t.cellAt 0 1) := fun h => absurd h.2 (by decide)
  obtain ⟨hlooks, hpairs⟩ := neighbours t u
  have hstays := (hlooks _ hfar .east).stays fun h => absurd h.east (by decide)
  have hahead := (hpairs _ _ hfirst hnorth hne).2.mpr (by decide)
  have hnone := mt (hpairs _ _ hfirst hslant hne').2.mp (by decide)
  exact ⟨hfar, hstays, hfirst, hnorth, hslant, hne, hne', hahead, hnone⟩

end Table

end Tabletop
