import Tabletop.Proofs.Addressing
import Tabletop.Proofs.Completion
import Tabletop.Proofs.Placement

/-!
# Walking

Where a robot comes to that walks straight ahead is known without walking: the
steps are added up as integers, and the sum is brought back onto the table in
the end. Bringing it back after each step comes to the same only because the
steps of a walk all go one way, so that a coordinate which has been brought back
once is brought back to the same place ever after. A coordinate never leaves
the range of a machine word, as the table ends before that range does.

The table can be crossed in this way, along a row and then along a column, and
a robot can turn to any side. So each pose on the table leads to each other
(`Pose.exists_leads`), by commands that depend on the table and on the two
poses alone. `Simulation.walks_and_reaches` puts both together for batches.
-/

namespace Tabletop

/-- The coordinate on a side of the table that is nearest to an integer. -/
def Table.nearest (side : Int32) (i : Int) : Int := min (max i 0) (side.toInt - 1)

/-- A command that changes the pose of a placed robot from what it is: a turn
to one side or to the other, or a step. -/
def Command.IsDrive (command : Command) : Prop :=
  command = .left ∨ command = .right ∨ command = .move

namespace Direction

/-- A direction is that of one coordinate, and a step adds no more than one to it. -/
theorem step_bounds (d : Direction) :
    -1 ≤ d.step.1.toInt ∧ d.step.1.toInt ≤ 1 ∧ -1 ≤ d.step.2.toInt ∧ d.step.2.toInt ≤ 1
      ∧ (d.step.1.toInt = 0 ∨ d.step.2.toInt = 0) := by
  cases d <;> decide

/-- A step back undoes a step. -/
theorem step_back (d : Direction) :
    d.right.right.step.1.toInt = -d.step.1.toInt
      ∧ d.right.right.step.2.toInt = -d.step.2.toInt := by
  cases d <;> decide

/-- To any side it is no turn, one to the left or to the right, or two. -/
theorem eq_turned (d d' : Direction) :
    d' = d ∨ d' = d.left ∨ d' = d.right ∨ d' = d.right.right := by
  cases d <;> cases d' <;> decide

end Direction

namespace Pose

/-- **On the table:** its coordinates are those of a cell. -/
def On (p : Pose) (t : Table) : Prop := t.contains p.x p.y = true

/-- **Commands that lead from one pose to another.** They are turns and steps,
and nothing else comes of them, neither a report nor a fault. -/
structure Leads (t : Table) (commands : List Command) (p q : Pose) : Prop where
  /-- There are only turns and steps among them. -/
  drives : ∀ command ∈ commands, command.IsDrive
  /-- In the first pose they mean the second one. -/
  obeyed : ∀ r : Reckoning, r.pose = some p →
    r.obeyAll t commands = { r with pose := some q }

variable {t : Table} {p q : Pose}

/-- A pose is its two integers and its direction. -/
theorem eq_of_toInt (hx : p.x.toInt = q.x.toInt) (hy : p.y.toInt = q.y.toInt)
    (hfacing : p.facing = q.facing) : p = q := by
  obtain ⟨x, y, d⟩ := p
  cases Int32.toInt_inj.mp hx
  cases Int32.toInt_inj.mp hy
  cases hfacing
  rfl

/-! ## Straight ahead -/

/-- A step from a coordinate of the table stays within a machine word. -/
theorem toInt_add_step {i side e : Int32} (h : 0 ≤ i.toInt) (hside : i.toInt < side.toInt)
    (hlow : -1 ≤ e.toInt) (hhigh : e.toInt ≤ 1) : (i + e).toInt = i.toInt + e.toInt := by
  have hmax := side.toInt_lt
  rw [Int32.toInt_add]
  exact Int.bmod_eq_of_le (by omega) (by omega)

/-- **One step:** one is added, and the sum is brought back onto the table. -/
theorem step_spec (h : p.On t) :
    (p.step t).On t ∧ (p.step t).facing = p.facing
      ∧ (p.step t).x.toInt = Table.nearest t.width (p.x.toInt + p.facing.step.1.toInt)
      ∧ (p.step t).y.toInt = Table.nearest t.length (p.y.toInt + p.facing.step.2.toInt) := by
  obtain ⟨hwest, heast, hsouth, hnorth⟩ := Table.contains_iff.mp h
  obtain ⟨hx, hx', hy, hy', hone⟩ := p.facing.step_bounds
  have hsumx := toInt_add_step hwest heast hx hx'
  have hsumy := toInt_add_step hsouth hnorth hy hy'
  unfold Table.nearest
  -- Only one coordinate is to change. If the step leads off the table, it is
  -- the one that stops.
  cases ht : t.contains (p.x + p.facing.step.1) (p.y + p.facing.step.2) with
  | true =>
    obtain ⟨hwest', heast', hsouth', hnorth'⟩ := Table.contains_iff.mp ht
    rw [show p.step t = _ from if_pos ht]
    exact ⟨ht, rfl, by dsimp only; omega, by dsimp only; omega⟩
  | false =>
    have hoff := mt Table.contains_iff.mpr (Bool.eq_false_iff.mp ht)
    rw [show p.step t = p from if_neg (Bool.eq_false_iff.mp ht)]
    have hstops : ¬ (0 ≤ p.x.toInt + p.facing.step.1.toInt
        ∧ p.x.toInt + p.facing.step.1.toInt < t.width.toInt
        ∧ 0 ≤ p.y.toInt + p.facing.step.2.toInt
        ∧ p.y.toInt + p.facing.step.2.toInt < t.length.toInt) := by
      rintro ⟨hw, he, hs, hn⟩
      exact hoff ⟨by omega, by omega, by omega, by omega⟩
    exact ⟨h, rfl, by omega, by omega⟩

/-- Bringing a sum back before the last step and after it is bringing it back
after it: the steps before went the same way. -/
theorem nearest_nearest {side : Int32} (hside : 0 < side.toInt) {i e : Int} (n : Nat)
    (h : 0 ≤ i) (hi : i < side.toInt) (hlow : -1 ≤ e) (hhigh : e ≤ 1) :
    Table.nearest side (Table.nearest side (i + n * e) + e)
      = Table.nearest side (i + (n + 1 : Nat) * e) := by
  have hcases : e = -1 ∨ e = 0 ∨ e = 1 := by omega
  unfold Table.nearest
  rcases hcases with rfl | rfl | rfl <;> omega

/-- **A walk straight ahead** comes to where the sum of its steps is nearest on
the table. -/
theorem walk_spec (h : p.On t) (n : Nat) :
    ((step t)^[n] p).On t ∧ ((step t)^[n] p).facing = p.facing
      ∧ ((step t)^[n] p).x.toInt
        = Table.nearest t.width (p.x.toInt + n * p.facing.step.1.toInt)
      ∧ ((step t)^[n] p).y.toInt
        = Table.nearest t.length (p.y.toInt + n * p.facing.step.2.toInt) := by
  obtain ⟨hwest, heast, hsouth, hnorth⟩ := Table.contains_iff.mp h
  obtain ⟨hx, hx', hy, hy', -⟩ := p.facing.step_bounds
  induction n with
  | zero =>
    refine ⟨h, rfl, ?_, ?_⟩
    · show p.x.toInt = min (max (p.x.toInt + 0 * _) 0) (t.width.toInt - 1)
      omega
    · show p.y.toInt = min (max (p.y.toInt + 0 * _) 0) (t.length.toInt - 1)
      omega
  | succ n ih =>
    obtain ⟨hon, hfacing, hsumx, hsumy⟩ := ih
    obtain ⟨hon', hfacing', hsumx', hsumy'⟩ := step_spec hon
    rw [hfacing] at hfacing' hsumx' hsumy'
    rw [Function.iterate_succ_apply']
    refine ⟨hon', hfacing', ?_, ?_⟩
    · rw [hsumx', hsumx, nearest_nearest t.valid.1 n hwest heast hx hx']
    · rw [hsumy', hsumy, nearest_nearest t.valid.2.1 n hsouth hnorth hy hy']

/-- Steps mean the walk. -/
theorem obeyAll_moves {r : Reckoning} (hp : r.pose = some p) (n : Nat) :
    r.obeyAll t (List.replicate n .move) = { r with pose := some ((step t)^[n] p) } := by
  induction n generalizing r p with
  | zero =>
    obtain ⟨pose, reports, faults⟩ := r
    cases hp
    rfl
  | succ n ih =>
    show (r.obey t .move).obeyAll t (List.replicate n .move) = _
    rw [Reckoning.obey_move hp, ih rfl, Function.iterate_succ_apply]

/-! ## From pose to pose -/

namespace Leads

variable {commands others : List Command} {p' : Pose}

theorem nil (t : Table) (p : Pose) : Leads t [] p p where
  drives := by simp
  obeyed := by
    rintro ⟨pose, reports, faults⟩ ⟨⟩
    rfl

/-- One way after another. -/
theorem append (h : Leads t commands p p') (hmore : Leads t others p' q) :
    Leads t (commands ++ others) p q where
  drives := List.forall_mem_append.mpr ⟨h.drives, hmore.drives⟩
  obeyed r hp := by
    have hsplit : r.obeyAll t (commands ++ others) = (r.obeyAll t commands).obeyAll t others :=
      List.foldl_append
    rw [hsplit, h.obeyed r hp, hmore.obeyed _ rfl]

theorem right (t : Table) (p : Pose) : Leads t [.right] p { p with facing := p.facing.right } where
  drives := List.forall_mem_singleton.mpr (.inr (.inl rfl))
  obeyed _ hp := Reckoning.obey_right hp

theorem left (t : Table) (p : Pose) : Leads t [.left] p { p with facing := p.facing.left } where
  drives := List.forall_mem_singleton.mpr (.inl rfl)
  obeyed _ hp := Reckoning.obey_left hp

theorem walk (t : Table) (p : Pose) (n : Nat) :
    Leads t (List.replicate n .move) p ((step t)^[n] p) where
  drives _ hcommand := .inr (.inr (List.eq_of_mem_replicate hcommand))
  obeyed _ hp := obeyAll_moves hp n

end Leads

/-- A robot can turn to any side. -/
theorem exists_turn (t : Table) (p : Pose) (d : Direction) :
    ∃ commands, Leads t commands p { p with facing := d } := by
  rcases p.facing.eq_turned d with rfl | rfl | rfl | rfl
  · exact ⟨_, .nil t p⟩
  · exact ⟨_, .left t p⟩
  · exact ⟨_, .right t p⟩
  · exact ⟨_, (Leads.right t p).append (.right t _)⟩

/-- A place on the table so many steps ahead in a direction can be walked to. -/
theorem exists_straight (h : p.On t) (hq : q.On t) (n : Nat)
    (hx : q.x.toInt = p.x.toInt + n * q.facing.step.1.toInt)
    (hy : q.y.toInt = p.y.toInt + n * q.facing.step.2.toInt) :
    ∃ commands, Leads t commands p q := by
  obtain ⟨commands, hturn⟩ := exists_turn t p q.facing
  obtain ⟨hwest, heast, hsouth, hnorth⟩ := Table.contains_iff.mp hq
  obtain ⟨-, hfacing, hx', hy'⟩ := walk_spec (p := { p with facing := q.facing }) h n
  have hwalked : (step t)^[n] { p with facing := q.facing } = q := by
    refine eq_of_toInt ?_ ?_ hfacing
    · rw [hx', ← hx, Table.nearest]
      omega
    · rw [hy', ← hy, Table.nearest]
      omega
  exact ⟨_, hwalked ▸ hturn.append (.walk t _ n)⟩

/-- A place on the table so many steps ahead or behind can be walked to. -/
theorem exists_line (h : p.On t) (hq : q.On t) (d : Direction) (k : Int)
    (hx : q.x.toInt = p.x.toInt + k * d.step.1.toInt)
    (hy : q.y.toInt = p.y.toInt + k * d.step.2.toInt) :
    ∃ commands d', Leads t commands p { q with facing := d' } := by
  obtain ⟨hback₁, hback₂⟩ := d.step_back
  obtain ⟨n, rfl | rfl⟩ := k.eq_nat_or_neg
  · obtain ⟨commands, hleads⟩ := exists_straight (q := { q with facing := d }) h hq n hx hy
    exact ⟨commands, d, hleads⟩
  · rw [Int.neg_mul, ← Int.mul_neg, ← hback₁] at hx
    rw [Int.neg_mul, ← Int.mul_neg, ← hback₂] at hy
    obtain ⟨commands, hleads⟩ :=
      exists_straight (q := { q with facing := d.right.right }) h hq n hx hy
    exact ⟨commands, d.right.right, hleads⟩

/-- **From everywhere to everywhere.** First the robot goes along its row, then
along the column of its goal, and at last it turns. -/
theorem exists_leads (h : p.On t) (hq : q.On t) : ∃ commands, Leads t commands p q := by
  obtain ⟨hwest, heast, -, -⟩ := Table.contains_iff.mp hq
  obtain ⟨-, -, hsouth, hnorth⟩ := Table.contains_iff.mp h
  have hcorner : ({ q with y := p.y } : Pose).On t :=
    Table.contains_iff.mpr ⟨hwest, heast, hsouth, hnorth⟩
  obtain ⟨row, d, hrow⟩ := exists_line h hcorner .east (q.x.toInt - p.x.toInt)
    (by show q.x.toInt = _ + _ * 1; omega) (by show p.y.toInt = _ + _ * 0; omega)
  obtain ⟨column, d', hcolumn⟩ := exists_line (p := { q with y := p.y, facing := d }) hcorner hq
    .north (q.y.toInt - p.y.toInt) (by show q.x.toInt = q.x.toInt + _ * 0; omega)
    (by show q.y.toInt = p.y.toInt + _ * 1; omega)
  obtain ⟨turns, hturns⟩ := exists_turn t { q with facing := d' } q.facing
  exact ⟨_, (hrow.append hcolumn).append hturns⟩

end Pose

namespace Simulation

variable {s s' : Simulation} {amounts : List Single} {o : Outcome} {p q : Pose}
  {commands : List Command}

/-- A batch that leads from the pose of the robot to another one does so
whatever the amounts of time. -/
theorem pose_of_leads (h : Pose.Leads s.table commands p q) (hm : s.robot.motion = none)
    (hp : s.robot.pose = some p) (hc : s.Completes commands amounts s' o) :
    s'.robot.pose = some q ∧ o = .empty := by
  obtain ⟨houtcome, hpose⟩ := outcome_of_rest hm hc
  rw [hp, show Reckoning.of s.table (some p) commands = _ from h.obeyed _ rfl] at houtcome hpose
  exact ⟨hpose, houtcome⟩

/-- A placement and steps after it, whatever the robot was doing before. -/
theorem pose_of_walk (hp : p.On s.table) {n : Nat}
    (hc : s.Completes (.place p.x p.y p.facing :: List.replicate n .move) amounts s' o) :
    s'.robot.pose = some ((Pose.step s.table)^[n] p) ∧ o = .empty := by
  obtain ⟨houtcome, hpose⟩ := outcome_of_place hp hc
  have hwalk : Reckoning.of s.table (some p) (List.replicate n .move) = _ :=
    Pose.obeyAll_moves rfl n
  rw [hwalk] at houtcome hpose
  exact ⟨hpose, houtcome⟩

/-- **Walking, and where it leads.** On every table: a batch that places the
robot on a cell and has it step some times ends, if it completes, where the sum
of the steps is nearest on the table, with the direction kept and with neither
report nor fault. And from each pose to each other there are turns and steps
that lead there: whenever a robot at rest has the first pose, the batch of them
can be completed, and it always ends in the second. -/
theorem walks_and_reaches (t : Table) :
    (∀ {s s' : Simulation} {x y : Int32} {facing : Direction} {m : Nat}
        {amounts : List Single} {o : Outcome},
      s.table = t → t.contains x y = true →
      s.Completes (.place x y facing :: List.replicate m .move) amounts s' o →
      ∃ x' y' : Int32, s'.robot.pose = some { x := x', y := y', facing }
        ∧ x'.toInt = min (max (x.toInt + m * facing.step.1.toInt) 0) (t.width.toInt - 1)
        ∧ y'.toInt = min (max (y.toInt + m * facing.step.2.toInt) 0) (t.length.toInt - 1)
        ∧ o = .empty)
      ∧ ∀ p q : Pose, p.On t → q.On t →
        ∃ commands, (∀ command ∈ commands, command.IsDrive)
          ∧ ∀ s : Simulation, s.table = t → s.batch = none → s.robot.motion = none →
            s.robot.pose = some p →
            (∃ amounts s' o, s.Completes commands amounts s' o)
              ∧ ∀ amounts s' o, s.Completes commands amounts s' o →
                s'.robot.pose = some q ∧ o = .empty := by
  refine ⟨?_, fun p q hp hq => ?_⟩
  · rintro s s' x y facing m amounts o rfl ht hc
    obtain ⟨-, hfacing, hx, hy⟩ := Pose.walk_spec (p := { x, y, facing }) ht m
    obtain ⟨hpose, hempty⟩ := pose_of_walk (p := { x, y, facing }) ht hc
    generalize (Pose.step s.table)^[m] { x, y, facing } = p at *
    cases hfacing
    exact ⟨p.x, p.y, hpose, hx, hy, hempty⟩
  · obtain ⟨commands, hleads⟩ := Pose.exists_leads hp hq
    refine ⟨commands, hleads.drives, fun s ht hb hm hpose => ⟨exists_completes hb hm commands, ?_⟩⟩
    intro amounts s' o hc
    exact pose_of_leads (ht ▸ hleads) hm hpose hc

/-- Four steps to the east on a table with three columns, where a cell has no
point to be drawn at; the robot was in the middle of a turn before. And on the
same table a way from one corner to the opposite one. -/
theorem walks_to_eastern_edge :
    ∃ s s' o,
      s = Simulation.new ⟨3, 2, .nan, by decide⟩
        (((Robot.new 2 1).place ⟨7, 3, 0, 0, 0⟩ .south).setOut (.turn 180 90 .east))
      ∧ s.Completes (.place 1 1 .east :: List.replicate 4 .move)
        [.ofRatio false 5 2, .infinite false, .nan, .infinite false, .infinite false,
          .infinite false] s' o
      ∧ (∃ x' y' : Int32, s'.robot.pose = some { x := x', y := y', facing := .east }
        ∧ x'.toInt = min (max (1 + (4 : Nat) * 1) 0) (3 - 1)
        ∧ y'.toInt = min (max (1 + (4 : Nat) * 0) 0) (2 - 1) ∧ o = .empty)
      ∧ ∃ commands amounts s₁ o₁,
        (Simulation.new s.table ((Robot.new 2 1).place (s.table.cellAt 0 1) .south)).Completes
            commands amounts s₁ o₁
          ∧ s₁.robot.pose = some { x := 2, y := 0, facing := .west } ∧ o₁ = .empty := by
  obtain ⟨s, hs⟩ : ∃ s, s = Simulation.new ⟨3, 2, .nan, by decide⟩
      (((Robot.new 2 1).place ⟨7, 3, 0, 0, 0⟩ .south).setOut (.turn 180 90 .east)) := ⟨_, rfl⟩
  have he : s.endsWithin (.place 1 1 .east :: List.replicate 4 .move)
      [.ofRatio false 5 2, .infinite false, .nan, .infinite false, .infinite false,
        .infinite false] = true := by
    subst hs
    decide +kernel
  obtain ⟨s', o, hc⟩ := completes_of_endsWithin he
  have hcontains : s.table.contains 1 1 = true := by rw [hs]; decide
  have hfrom : ({ x := 0, y := 1, facing := .south } : Pose).On s.table := by
    rw [hs, Pose.On]
    decide
  have hto : ({ x := 2, y := 0, facing := .west } : Pose).On s.table := by
    rw [hs, Pose.On]
    decide
  obtain ⟨commands, -, hleads⟩ := (walks_and_reaches s.table).2 _ _ hfrom hto
  obtain ⟨⟨amounts, s₁, o₁, hc₁⟩, hends⟩ := hleads
    (Simulation.new s.table ((Robot.new 2 1).place (s.table.cellAt 0 1) .south)) rfl rfl rfl rfl
  have hwalk := (walks_and_reaches s.table).1 rfl hcontains hc
  refine ⟨s, s', o, hs, hc, ?_, commands, amounts, s₁, o₁, hc₁, hends amounts s₁ o₁ hc₁⟩
  subst hs
  exact hwalk

end Simulation

end Tabletop
