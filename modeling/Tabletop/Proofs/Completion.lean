import Tabletop.Proofs.Kept

/-!
# Batches can be completed

What is said about the end of a batch is worth something only if the end can
be reached. It can be, for every batch that begins with the robot at rest:
`Simulation.exists_completes`. In a frame that never ends a motion is over, so
each such frame brings at least one command to its end; when there are as many
of them as there are commands, the batch is over at the latest in the frame
after them.

The times of the motions do not matter here. They have been made sound when
the motion began, and a sound time is over after an infinite one.
-/

namespace Tabletop

namespace Binary

variable {F G : Format} {x y : Binary F}

theorem ofUnits_ne_nan (negative : Bool) (n d : Nat) :
    (ofUnits negative n d : Binary F) ≠ nan := by
  rw [ofUnits]
  split
  · nofun
  · nofun

theorem ofNat_ne_nan (n : Nat) : (OfNat.ofNat n : Binary F) ≠ nan := by
  show ofUnits false (n * twoPow F.scale) 1 ≠ nan
  exact ofUnits_ne_nan _ _ _

theorem convert_ne_nan (h : x ≠ nan) : (x.convert : Binary G) ≠ nan := by
  cases x with
  | nan => exact absurd rfl h
  | infinite s => nofun
  | finite s u hu => exact ofUnits_ne_nan _ _ _

theorem larger_ne_nan (h : y ≠ nan) : x.larger y ≠ nan := by
  unfold larger
  split
  · exact h
  · assumption
  · split
    · exact h
    · assumption

/-- Nothing on the line is past its upper end. -/
theorem atMost_infinite (h : x ≠ nan) : x.atMost (infinite false) = true := by
  cases x with
  | nan => exact absurd rfl h
  | infinite s =>
    refine decide_eq_true ?_
    show (if s then -(twoPow F.top : Int) else twoPow F.top) ≤ twoPow F.top
    split <;> omega
  | finite s u hu =>
    have hlt : u < twoPow F.top := hu.1
    refine decide_eq_true ?_
    show (if s then -(u : Int) else u) ≤ twoPow F.top
    split <;> omega

end Binary

/-- A sound time is a number. -/
theorem soundDuration_ne_nan (seconds : Single) : soundDuration seconds ≠ .nan := by
  unfold soundDuration
  split
  · exact Binary.larger_ne_nan (Binary.ofNat_ne_nan _)
  · exact Binary.ofNat_ne_nan _

namespace Motion

/-- Of a motion that has just begun no time has been played. -/
def Fresh (m : Motion) : Prop := m.elapsed = 0 ∧ m.duration ≠ .nan

variable {m : Motion}

theorem fresh_along (path : Path) (seconds : Single) : (along path seconds).Fresh :=
  ⟨rfl, soundDuration_ne_nan seconds⟩

/-- It is over after a time that never ends. -/
theorem Fresh.isOver_play (h : m.Fresh) : (m.play (.infinite false)).isOver = true := by
  have hplayed : (m.play (.infinite false)).elapsed = .infinite false := by
    show m.elapsed + _ = _
    rw [h.1]
    decide +kernel
  rw [isOver, hplayed]
  exact Binary.atMost_infinite (Binary.convert_ne_nan h.2)

/-- It is as fresh as before after no time at all. -/
theorem Fresh.play_zero (h : m.Fresh) : (m.play 0).Fresh := by
  refine ⟨?_, h.2⟩
  show m.elapsed + _ = _
  rw [h.1]
  decide +kernel

end Motion

namespace Robot

/-- If the robot moves, it has just begun. -/
def Fresh (r : Robot) : Prop := ∀ motion, r.motion = some motion → motion.Fresh

variable {r r' : Robot}

theorem fresh_of_rest (h : r.motion = none) : r.Fresh :=
  fun _ hm => nomatch h.symm.trans hm

/-- A frame that never ends brings it to the end of its motion. -/
theorem Fresh.advance_infinite (h : r.Fresh) (ha : r.advance (.infinite false) = (r', false)) :
    False := by
  unfold advance at ha
  split at ha
  · cases ha
  next motion hm =>
    dsimp only at ha
    rw [if_pos (h motion hm).isOver_play] at ha
    cases ha

theorem Fresh.advance_zero (h : r.Fresh) (ha : r.advance 0 = (r', false)) : r'.Fresh := by
  obtain ⟨motion, hm, rfl⟩ := playing_of_advance ha
  intro motion' hm'
  cases hm'
  exact (h motion hm).play_zero

theorem Fresh.obey {t : Table} {command : Command} {effect : Effect} (h : r.Fresh)
    (ho : r.obey t command = .ok (r', effect)) : r'.Fresh := by
  cases obeyed_of_eq ho with
  | placed => exact fresh_of_rest rfl
  | reported => exact h
  | blocked => exact h
  | begun =>
    intro motion hm
    cases hm
    exact Motion.fresh_along ..

end Robot

namespace Simulation

/-- The commands of the batch that have not ended: those that wait, and the
one in flight. -/
def pending (s : Simulation) : Nat := s.waiting.length + s.inFlight.toList.length

section Completion

variable {s s' : Simulation} {b : Batch} {d d' : Single}

theorem pending_of_rest (hf : s.inFlight = none) : s.pending = s.waiting.length := by
  rw [pending, hf]
  rfl

theorem pending_of_flight {current : Nat × Command} (hf : s.inFlight = some current) :
    s.pending = s.waiting.length + 1 := by
  rw [pending, hf]
  rfl

/-- A command that is taken up and ends at once was pending. -/
theorem pending_of_settled {command : Command} {rest : List Command}
    (hf : s.inFlight = none) (hw : s.waiting = command :: rest) (hf' : s'.inFlight = none)
    (hw' : s'.waiting = rest) : s'.pending < s.pending := by
  rw [pending_of_rest hf, pending_of_rest hf', hw, hw']
  exact Nat.lt_succ_self _

/-- A stride brings a command to its end, or a motion begins in it; it uses
up the time only in the first case. -/
theorem pending_of_stride (h : Stride (s, d) (s', d')) :
    s'.pending < s.pending ∧ (d' = d ∨ d' = 0) ∨ s'.pending = s.pending ∧ d' = d := by
  cases h with
  | done hb hc hw ho =>
    have hf := (inFlight_of_batch hb).trans hc
    exact .inl ⟨pending_of_settled hf ((waiting_of_batch hb).trans hw) hc rfl, .inl rfl⟩
  | begun hb hc hw ho =>
    refine .inr ⟨?_, rfl⟩
    rw [pending_of_rest ((inFlight_of_batch hb).trans hc), waiting_of_batch hb, hw]
    exact pending_of_flight rfl
  | rejected hb hc hw ho =>
    have hf := (inFlight_of_batch hb).trans hc
    exact .inl ⟨pending_of_settled hf ((waiting_of_batch hb).trans hw) hc rfl, .inl rfl⟩
  | finished hb hc ha =>
    refine .inl ⟨?_, .inr rfl⟩
    rw [pending_of_flight ((inFlight_of_batch hb).trans hc), waiting_of_batch hb]
    exact Nat.lt_succ_self _

theorem fresh_of_stride (h : Stride (s, d) (s', d')) (hr : s.robot.Fresh) :
    s'.robot.Fresh := by
  cases h with
  | done hb hc hw ho => exact hr.obey ho
  | begun hb hc hw ho => exact hr.obey ho
  | rejected => exact hr
  | finished hb hc ha =>
    rw [Robot.arrived_of_advance ha]
    exact Robot.fresh_of_rest Robot.arrived_motion

/-- In the middle of a frame that never ends: its time is there for the next
motion as long as no command has ended. -/
structure Lasting (n : Nat) (p : Simulation × Single) : Prop where
  fresh : p.1.robot.Fresh
  pending : p.1.pending ≤ n
  time : p.2 = .infinite false ∨ p.2 = 0 ∧ p.1.pending < n

theorem Lasting.strides {n : Nat} {p q : Simulation × Single} (h : Strides p q)
    (hp : Lasting n p) : Lasting n q := by
  induction h with
  | refl => exact hp
  | @tail p q _ hlast ih =>
    obtain ⟨s, d⟩ := p
    obtain ⟨s', d'⟩ := q
    have hpending := ih.pending
    have htime := ih.time
    refine ⟨fresh_of_stride hlast ih.fresh, ?_, ?_⟩
    · obtain ⟨hlt, -⟩ | ⟨heq, -⟩ := pending_of_stride hlast
      · exact Nat.le_trans (Nat.le_of_lt hlt) hpending
      · exact Nat.le_trans (Nat.le_of_eq heq) hpending
    · show d' = _ ∨ d' = 0 ∧ s'.pending < n
      obtain ⟨hlt, hd | hd⟩ | ⟨heq, hd⟩ := pending_of_stride hlast
      · rw [hd]
        exact htime.imp_right fun h => ⟨h.1, Nat.lt_trans hlt h.2⟩
      · exact .inr ⟨hd, Nat.lt_of_lt_of_le hlt hpending⟩
      · rw [hd, heq]
        exact htime

/-- **A frame that never ends** ends the batch or one of its commands. -/
theorem advance_infinite (hb : s.batch = some b) (hr : s.robot.Fresh) :
    (∃ s' o, s.advance (.infinite false) = (s', some o))
      ∨ ∃ s' b', s.advance (.infinite false) = (s', none) ∧ s'.batch = some b'
        ∧ s'.robot.Fresh ∧ s'.pending < s.pending := by
  obtain ⟨⟨s₁, d⟩, hs, he⟩ := advance_ends (.infinite false) hb
  have htime : (Binary.infinite false : Single).larger 0 = .infinite false := by
    decide +kernel
  rw [htime] at hs
  have h₁ := Lasting.strides hs ⟨hr, Nat.le_refl s.pending, .inl rfl⟩
  generalize s.advance (.infinite false) = q at he
  cases he with
  | concluded => exact .inl ⟨_, _, rfl⟩
  | playing hb₁ hc ha =>
    -- With its time still there, the frame would have ended this motion.
    obtain hd | ⟨hd, hlt⟩ := h₁.time
    · rw [show d = .infinite false from hd] at ha
      exact (h₁.fresh.advance_infinite ha).elim
    · rw [show d = 0 from hd] at ha
      exact .inr ⟨_, _, rfl, hb₁, h₁.fresh.advance_zero ha, hlt⟩

theorem exists_advanceAll (hb : s.batch = some b) (hr : s.robot.Fresh) :
    ∃ amounts s' o, s.advanceAll amounts = (s', some o) := by
  induction hn : s.pending using Nat.strongRecOn generalizing s b with
  | ind n ih =>
    obtain ⟨s', o, hf⟩ | ⟨s', b', hf, hb', hr', hlt⟩ := advance_infinite hb hr
    · refine ⟨[.infinite false], s', o, ?_⟩
      rw [advanceAll, hf]
    · obtain ⟨amounts, s'', o, ha⟩ := ih s'.pending (hn ▸ hlt) hb' hr' rfl
      refine ⟨.infinite false :: amounts, s'', o, ?_⟩
      rw [advanceAll, hf]
      exact ha

/-- **Every batch can be completed,** once the robot is at rest. -/
theorem exists_completes (hb : s.batch = none) (hm : s.robot.motion = none)
    (commands : List Command) : ∃ amounts s' o, s.Completes commands amounts s' o := by
  have ha := accept_of_idle hb commands none
  obtain ⟨amounts, s', o, hf⟩ := exists_advanceAll (s := { s with
    batch := some { waiting := commands, current := none, outcome := .empty, watcher := none } })
    rfl (Robot.fresh_of_rest hm)
  exact ⟨amounts, s', o, none, _, ha, hf⟩

end Completion

end Simulation

end Tabletop
