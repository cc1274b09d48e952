import Tabletop.Proofs.Completion
import Tabletop.Proofs.Progress

/-!
# Calling a batch off

A batch can be called off in any frame, also while a motion is being played.
It then stands between two commands, never inside one: the commands that were
done by then have brought about what they bring about as a batch of their own,
and the motion in flight leaves nothing behind but a line in the journal.

`CalledOff` spells this out, and `cancel_between_commands` proves it for every
batch, every sequence of frames and every moment between them. The comparison
is with the batch of the commands that were done. That batch can be completed
(`exists_completes`), and which frames complete it makes no difference.
-/

namespace Tabletop

namespace Simulation

/-- The first commands of a batch that began on the simulation `s` have been
done, `k` of them, when it is called off on `s₂`: this is what is left, the
simulation `s₃` and the outcome `o`. -/
structure CalledOff (s s₂ s₃ : Simulation) (commands : List Command) (k : Nat)
    (o : Outcome) : Prop where
  /-- The outcome says that the batch was called off. -/
  cancelled : o.cancelled = true
  /-- No batch is running. -/
  batch : s₃.batch = none
  /-- The robot is at rest. -/
  motion : s₃.robot.motion = none
  /-- No time passes. -/
  clock : s₃.clock = s₂.clock
  /-- The journal has one line more if a command is in flight, and else none. -/
  journal : s₃.journal = s₂.inFlight.elim s₂.journal fun (index, command) =>
    s₂.journal.record s₂.clock index command .cancelled
  /-- The command in flight is the one after those that are done. -/
  flight : ∀ {index : Nat} {command : Command}, s₂.inFlight = some (index, command) →
    index = s.nextIndex + k ∧ commands[k]? = some command
  /-- The commands that are done are a batch that can be completed. -/
  completable : ∃ amounts s' o', s.Completes (commands.take k) amounts s' o'
  /-- They give the same reports, the same faults and the same robot. -/
  same : ∀ {amounts : List Single} {s' : Simulation} {o' : Outcome},
    s.Completes (commands.take k) amounts s' o' →
    o.reports = o'.reports ∧ o.faults = o'.faults ∧ s₃.robot = s'.robot
  /-- Every later batch can be completed. -/
  usable : ∀ later : List Command, ∃ amounts s₄ o₄, s₃.Completes later amounts s₄ o₄
  /-- It gives what it gives after the commands that are done. -/
  later : ∀ {amounts amounts₄ amounts₅ : List Single} {s' s₄ s₅ : Simulation}
    {o' o₄ o₅ : Outcome} {later : List Command},
    s.Completes (commands.take k) amounts s' o' → s₃.Completes later amounts₄ s₄ o₄ →
    s'.Completes later amounts₅ s₅ o₅ → s₄.robot = s₅.robot ∧ o₄ = o₅

variable {s s₁ s₂ : Simulation} {commands done : List Command} {b : Batch}

/-- What calling off does to a batch, whatever is in flight. -/
theorem Progress.cancel (h : Progress s s₂ commands done b) :
    ∃ s₃, s₂.cancel = (s₃, some { b.outcome with cancelled := true })
      ∧ s₃.batch = none ∧ s₃.table = s₂.table ∧ s₃.robot = s₂.robot.halt
      ∧ s₃.clock = s₂.clock
      ∧ s₃.journal = s₂.inFlight.elim s₂.journal fun (index, command) =>
        s₂.journal.record s₂.clock index command .cancelled := by
  rw [inFlight_of_batch h.batch]
  cases hc : b.current with
  | none =>
    rw [cancel_of_waiting h.batch hc]
    exact ⟨_, rfl, rfl, rfl, (h.halt_of_waiting hc).symm, rfl, rfl⟩
  | some current =>
    rw [cancel_of_playing h.batch hc]
    exact ⟨_, rfl, rfl, rfl, rfl, rfl, rfl⟩

/-- The commands that are done are the first ones of the batch. -/
theorem Progress.take (h : Progress s s₂ commands done b) :
    commands.take done.length = done := by
  rw [h.commands]
  exact List.take_left

/-- The command in flight is the next one. -/
theorem Progress.flight (h : Progress s s₂ commands done b) {index : Nat}
    {command : Command} (hf : s₂.inFlight = some (index, command)) :
    index = s.nextIndex + done.length ∧ commands[done.length]? = some command := by
  rw [inFlight_of_batch h.batch] at hf
  refine ⟨(h.arrival hf).1, ?_⟩
  rw [h.commands, hf, List.getElem?_append_right (Nat.le_refl _), Nat.sub_self]
  rfl

/-- How many commands are done is in the journal. -/
theorem Progress.length (h : Progress s s₂ commands done b) :
    s₂.journal.settledCount - s.journal.settledCount = done.length := by
  rw [h.settled, Nat.add_sub_cancel_left]

/-- The batch of the commands that are done has the standing of this one. -/
theorem Progress.completes (h : Progress s s₂ commands done b) (hm : s.robot.motion = none)
    {amounts : List Single} {s' : Simulation} {o' : Outcome}
    (hc : s.Completes done amounts s' o') :
    b.outcome = o' ∧ s₂.robot.halt = s'.robot := by
  obtain ⟨hstanding, -, -⟩ := standing_of_completes hm hc
  rw [h.standing] at hstanding
  obtain ⟨hrobot, houtcome⟩ := Standing.mk.inj hstanding
  exact ⟨houtcome, hrobot⟩

/-- **Calling off in the middle of a batch.** -/
theorem Progress.calledOff (h : Progress s s₂ commands done b) (hb : s.batch = none)
    (hm : s.robot.motion = none) :
    ∃ s₃ o, s₂.cancel = (s₃, some o) ∧ CalledOff s s₂ s₃ commands done.length o := by
  obtain ⟨s₃, hcancel, hbatch, htable, hrobot, hclock, hjournal⟩ := h.cancel
  have hmotion : s₃.robot.motion = none := by
    rw [hrobot]
    rfl
  refine ⟨s₃, _, hcancel, ?_⟩
  exact {
    cancelled := rfl
    batch := hbatch
    motion := hmotion
    clock := hclock
    journal := hjournal
    flight := h.flight
    completable := exists_completes hb hm _
    same := by
      intro amounts s' o' hc
      rw [h.take] at hc
      obtain ⟨rfl, hr⟩ := h.completes hm hc
      exact ⟨rfl, rfl, hrobot.trans hr⟩
    usable := exists_completes hbatch hmotion
    later := by
      intro amounts amounts₄ amounts₅ s' s₄ s₅ o' o₄ o₅ later hc h₄ h₅
      rw [h.take] at hc
      have hr : s₃.robot = s'.robot := hrobot.trans (h.completes hm hc).2
      have ht : s₃.table = s'.table := by
        rw [htable, h.table, (kept_table s.table).completes hc rfl]
      exact completes_congr ht hr (hr ▸ hmotion) h₅ h₄ }

/-- **A batch is called off between two commands.** After any history, a batch
is begun, and time advances by any amounts that do not end it. Calling it off
then leaves what its first commands alone would have brought about: those that
have finished or have been rejected since it was begun. -/
theorem cancel_between_commands {s₀ : Simulation} {calls : List Call}
    {history : List Event} {watcher : Option String} {amounts : List Single}
    (h₀ : s₀.Initial) (hm : s₀.robot.motion = none)
    (hs : s₀.follow calls = some (s, history))
    (ha : s.accept commands watcher = .ok s₁) (hf : s₁.advanceAll amounts = (s₂, none)) :
    ∃ s₃ o, s₂.cancel = (s₃, some o)
      ∧ CalledOff s s₂ s₃ commands (s₂.journal.settledCount - s.journal.settledCount) o := by
  have hb := (accept_eq_ok ha).1
  have hrest := motion_of_follow h₀ hm hs hb
  obtain ⟨done, b, h⟩ := (keptByFrames_progress s commands).advanceAll_none hf
    ⟨_, _, progress_of_accept hrest ha⟩
  rw [h.length]
  exact h.calledOff hb hrest

/-- The second command is rejected, and most of the step after it is played
when the batch is called off. -/
theorem cancel_during_step :
    ∃ s s₁ s₂ s₃ o,
      s = Simulation.new ⟨2, 2, 1, by decide⟩ (.new 1 1)
      ∧ s.accept [.place 0 0 .east, .place 5 5 .north, .move, .report] none = .ok s₁
      ∧ s₁.advanceAll [0, .ofRatio false 1 2, .ofRatio false 1 4] = (s₂, none)
      ∧ s₂.inFlight = some (2, .move)
      ∧ s₂.cancel = (s₃, some o)
      ∧ CalledOff s s₂ s₃ [.place 0 0 .east, .place 5 5 .north, .move, .report] 2 o := by
  obtain ⟨s, hnew⟩ : ∃ s, s = Simulation.new ⟨2, 2, 1, by decide⟩ (.new 1 1) := ⟨_, rfl⟩
  have hs : s.follow [] = some (s, []) := rfl
  obtain ⟨s₁, ha⟩ : ∃ s₁, s.accept [.place 0 0 .east, .place 5 5 .north, .move, .report]
      none = .ok s₁ := ⟨_, accept_of_idle (hnew ▸ rfl) _ _⟩
  have hf : (s₁.advanceAll [0, .ofRatio false 1 2, .ofRatio false 1 4]).2 = none
      ∧ (s₁.advanceAll [0, .ofRatio false 1 2, .ofRatio false 1 4]).1.inFlight
        = some (2, .move)
      ∧ (s₁.advanceAll [0, .ofRatio false 1 2, .ofRatio false 1 4]).1.journal.settledCount
        - s.journal.settledCount = 2 := by
    obtain ⟨-, rfl⟩ := accept_eq_ok ha
    subst hnew
    decide +kernel
  obtain ⟨s₃, o, hcancel, hoff⟩ := cancel_between_commands (hnew ▸ .new _ _) (hnew ▸ rfl) hs
    ha (Prod.ext rfl hf.1)
  rw [hf.2.2] at hoff
  exact ⟨s, s₁, _, s₃, o, hnew, ha, Prod.ext rfl hf.1, hf.2.1, hcancel, hoff⟩

end Simulation

end Tabletop
