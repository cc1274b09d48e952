import Tabletop.Proofs.Consistency

/-!
# Moments of a frame

Between the tick of a frame and its end the simulation passes through a
moment after each stride. `Moment` says that a simulation, with the time that
the next motion gets, is one of them: strides lead to it from the tick, and
from it strides lead to what the frame answers. So what is said about moments
is said about the frame as it is.

From one moment to the next a motion may begin (`Begins`) or finish
(`Finishes`). A motion that begins gets the time of the frame or none, and
`Moment.share` says which: none if a motion has finished in the frame before.
While a motion is in flight, the frame ends with it or the motion finishes
(`Moment.flight`); while none is, the next command that waits is taken up in
the same frame (`Moment.prompt`).
-/

namespace Tabletop

namespace Simulation

/-- **A moment of the frame** that lets some time pass. -/
structure Moment (s : Simulation) (seconds : Single) (p : Simulation × Single) : Prop where
  /-- Strides lead to it from the tick. -/
  reached : Strides (s.tick seconds, seconds.larger 0) p
  /-- From it strides lead to the end of the frame. -/
  left : ∃ q, Strides p q ∧ Ends q (s.advance seconds)

/-- The motion of a command begins between two moments of a frame. -/
structure Begins (s : Simulation) (seconds : Single) (p q : Simulation × Single)
    (index : Nat) (command : Command) : Prop where
  before : s.Moment seconds p
  after : s.Moment seconds q
  stride : Stride p q
  idle : p.1.inFlight = none
  flight : q.1.inFlight = some (index, command)

/-- The motion of a command finishes between two moments of a frame. -/
structure Finishes (s : Simulation) (seconds : Single) (p q : Simulation × Single)
    (index : Nat) (command : Command) : Prop where
  before : s.Moment seconds p
  after : s.Moment seconds q
  stride : Stride p q
  flight : p.1.inFlight = some (index, command)
  idle : q.1.inFlight = none

/-- A motion has finished in the frame before the moment. -/
def FinishedBefore (s : Simulation) (seconds : Single) (p : Simulation × Single) : Prop :=
  ∃ u v index command, s.Finishes seconds u v index command ∧ Strides v p

variable {s : Simulation} {seconds : Single} {p q : Simulation × Single} {b : Batch}
  {index : Nat} {command : Command}

/-- While a batch is being worked through, a frame begins with its tick. -/
theorem moment_tick (seconds : Single) (hb : s.batch = some b) :
    s.Moment seconds (s.tick seconds, seconds.larger 0) :=
  ⟨.refl, advance_ends seconds hb⟩

/-- What leads to a moment from the tick is a moment. -/
theorem Moment.earlier (h : s.Moment seconds q)
    (hp : Strides (s.tick seconds, seconds.larger 0) p) (hq : Strides p q) :
    s.Moment seconds p := by
  obtain ⟨e, hs, he⟩ := h.left
  exact ⟨hp, e, hq.trans hs, he⟩

theorem strides_clock (h : Strides p q) : q.1.clock = p.1.clock := by
  induction h with
  | refl => rfl
  | tail _ hlast ih =>
    refine Eq.trans ?_ ih
    cases hlast <;> rfl

/-- No time passes but in the tick. -/
theorem Moment.clock (h : s.Moment seconds p) :
    p.1.clock = (s.advance seconds).1.clock := by
  obtain ⟨e, hs, he⟩ := h.left
  rw [← strides_clock hs]
  generalize s.advance seconds = result at he
  cases he <;> rfl

/-! ## In flight or not -/

/-- **While a motion is in flight** the frame ends with it, or the motion
finishes. -/
theorem Moment.flight (h : s.Moment seconds p) (hb : p.1.batch = some b)
    (hc : b.current = some (index, command)) :
    (∃ robot, p.1.robot.advance p.2 = (robot, false)
        ∧ s.advance seconds = ({ p.1 with robot }, none))
      ∨ ∃ robot, p.1.robot.advance p.2 = (robot, true)
        ∧ s.Finishes seconds p
          ({ p.1 with
            robot
            batch := some { b with current := none }
            journal := p.1.journal.record p.1.clock index command .finished }, 0)
          index command := by
  obtain ⟨s₁, d⟩ := p
  have hflight : s₁.inFlight = some (index, command) := (inFlight_of_batch hb).trans hc
  obtain ⟨e, hs, he⟩ := h.left
  obtain rfl | ⟨v, hv, hs⟩ := hs.cases_head
  · refine .inl ?_
    generalize s.advance seconds = result at he
    cases he with
    | playing hb' hc' ha => exact ⟨_, ha, rfl⟩
    | concluded hb' hc' =>
      cases hb.symm.trans hb'
      cases hc.symm.trans hc'
  · refine .inr ?_
    have hafter : s.Moment seconds v := ⟨h.reached.tail hv, e, hs, he⟩
    have hstride := hv
    cases hv with
    | done hb' hc' =>
      cases hb.symm.trans hb'
      cases hc.symm.trans hc'
    | begun hb' hc' =>
      cases hb.symm.trans hb'
      cases hc.symm.trans hc'
    | rejected hb' hc' =>
      cases hb.symm.trans hb'
      cases hc.symm.trans hc'
    | finished hb' hc' ha =>
      cases hb.symm.trans hb'
      cases hc.symm.trans hc'
      exact ⟨_, ha, h, hafter, hstride, hflight, rfl⟩

/-- **While nothing is in flight** the next command is taken up in the same
frame. -/
theorem Moment.prompt {rest : List Command} (h : s.Moment seconds p)
    (hf : p.1.inFlight = none) (hw : p.1.waiting = command :: rest) :
    ∃ q, s.Moment seconds q ∧ Stride p q ∧ q.1.waiting = rest := by
  obtain ⟨s₁, d⟩ := p
  obtain ⟨e, hs, he⟩ := h.left
  obtain rfl | ⟨q, hq, hs⟩ := hs.cases_head
  · generalize s.advance seconds = result at he
    cases he with
    | playing hb hc => cases hf.symm.trans ((inFlight_of_batch hb).trans hc)
    | concluded hb _ hw' => cases hw.symm.trans ((waiting_of_batch hb).trans hw')
  · refine ⟨q, ⟨h.reached.tail hq, e, hs, he⟩, hq, ?_⟩
    cases hq with
    | done hb _ hw' =>
      cases hw.symm.trans ((waiting_of_batch hb).trans hw')
      rfl
    | begun hb _ hw' =>
      cases hw.symm.trans ((waiting_of_batch hb).trans hw')
      rfl
    | rejected hb _ hw' =>
      cases hw.symm.trans ((waiting_of_batch hb).trans hw')
      rfl
    | finished hb hc => cases hf.symm.trans ((inFlight_of_batch hb).trans hc)

/-- What is in flight after a frame was in flight before it, or has begun in
it. -/
theorem begins_of_inFlight (hb : s.batch = some b)
    (hf : (s.advance seconds).1.inFlight = some (index, command))
    (hnew : s.inFlight ≠ some (index, command)) :
    ∃ p q, s.Begins seconds p q index command := by
  obtain ⟨e, hs, he⟩ := advance_ends seconds hb
  have hflight : e.1.inFlight = some (index, command) := by
    generalize s.advance seconds = result at he hf
    cases he with
    | playing => exact hf
    | concluded => cases hf
  obtain rfl | ⟨p, hp, hlast⟩ := hs.cases_tail
  · exact absurd hflight hnew
  · have hafter : s.Moment seconds e := ⟨hs, e, .refl, he⟩
    have hbefore := hafter.earlier hp (.single hlast)
    have hstride := hlast
    -- Of the strides only one puts a command in flight.
    cases hlast with
    | done hb' hc' => cases hc'.symm.trans hflight
    | begun hb' hc' =>
      exact ⟨_, _, hbefore, hafter, hstride, (inFlight_of_batch hb').trans hc', hflight⟩
    | rejected hb' hc' => cases hc'.symm.trans hflight
    | finished => cases hflight

/-! ## The time that a motion gets -/

theorem strides_zero (h : Strides p q) (hp : p.2 = 0) : q.2 = 0 := by
  induction h with
  | refl => exact hp
  | tail _ hlast ih =>
    cases hlast with
    | done => exact ih
    | begun => exact ih
    | rejected => exact ih
    | finished => rfl

/-- **The next motion gets the time of the frame,** or none if a motion has
finished in the frame before. -/
theorem Moment.share (h : s.Moment seconds p) :
    (s.FinishedBefore seconds p → p.2 = 0)
      ∧ (¬ s.FinishedBefore seconds p → p.2 = seconds.larger 0) := by
  constructor
  · rintro ⟨⟨s₁, d₁⟩, v, index, command, hfinish, hs⟩
    refine strides_zero hs ?_
    have hflight := hfinish.flight
    have hidle := hfinish.idle
    cases hfinish.stride with
    | done hb hc => cases ((inFlight_of_batch hb).trans hc).symm.trans hflight
    | begun => cases hidle
    | rejected hb hc => cases ((inFlight_of_batch hb).trans hc).symm.trans hflight
    | finished => rfl
  · intro hnever
    have hreached := h.reached
    induction hreached with
    | refl => rfl
    | @tail u v hu hlast ih =>
      have hmoment := h.earlier hu (.single hlast)
      have hshare := ih hmoment fun ⟨u', v', index, command, hfinish, hs⟩ =>
        hnever ⟨u', v', index, command, hfinish, hs.tail hlast⟩
      have hstride := hlast
      cases hlast with
      | done => exact hshare
      | begun => exact hshare
      | rejected => exact hshare
      | finished hb hc =>
        exact absurd ⟨_, _, _, _, ⟨hmoment, h, hstride, (inFlight_of_batch hb).trans hc, rfl⟩,
          .refl⟩ hnever

end Simulation

/-- What frames keep holds at each of their moments. -/
theorem KeptByFrames.moment {P : Simulation → Prop} (k : KeptByFrames P) {s : Simulation}
    {seconds : Single} {p : Simulation × Single} (h : s.Moment seconds p) (hs : P s) :
    P p.1 :=
  k.strides h.reached (k.ticked _ hs)

/-- What every call keeps holds at the end of a frame if it holds at one of
its moments. -/
theorem Kept.advance_of_moment {P : Simulation → Prop} (k : Kept P) {s : Simulation}
    {seconds : Single} {p : Simulation × Single} (h : s.Moment seconds p) (hp : P p.1) :
    P (s.advance seconds).1 := by
  obtain ⟨e, hs, he⟩ := h.left
  have he' := k.strides hs hp
  generalize s.advance seconds = result at he
  cases he with
  | playing hb hc ha => exact k.played hb hc ha he'
  | concluded hb hc hw => exact k.concluded hb hc hw he'

end Tabletop
