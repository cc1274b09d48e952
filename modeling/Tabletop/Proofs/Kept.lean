import Tabletop.Proofs.Stride

/-!
# What is kept

A property of simulations that survives a tick, a stride and a motion that
goes on survives any number of frames, as long as the batch lasts
(`KeptByFrames`). One that also survives the beginning of a batch, its
conclusion, its cancellation and the two settings is true throughout every
history that begins with it (`Kept`). What is said of a simulation between its
frames and need not hold in the middle of one is true throughout every history
too, if each frame as a whole keeps it (`KeptByCalls`). The inductions over
strides, frames, runs and histories are made here and nowhere else.

A run is no case of its own: one that comes back has begun its batch and let
equal frames pass until the batch ended (`Simulation.completes_of_run`).
-/

namespace Tabletop

open Simulation

/-- **Survives frames**, as long as the batch lasts. -/
structure KeptByFrames (P : Simulation → Prop) : Prop where
  /-- The clock does not matter. -/
  ticked : ∀ {s} (clock : Double), P s → P { s with clock }
  /-- No stride ends it. -/
  stride : ∀ {s d s' d'}, Stride (s, d) (s', d') → P s → P s'
  /-- A motion that goes on does not end it. -/
  played : ∀ {s b d index command robot}, s.batch = some b →
    b.current = some (index, command) → s.robot.advance d = (robot, false) →
    P s → P { s with robot }

/-- **Survives every call.** -/
structure Kept (P : Simulation → Prop) : Prop extends KeptByFrames P where
  /-- It holds again when the batch is concluded. -/
  concluded : ∀ {s b}, s.batch = some b → b.current = none → b.waiting = [] →
    P s → P (s.conclude b).1
  /-- It holds when a batch begins. -/
  accepted : ∀ {s s'} {commands : List Command} {watcher : Option String},
    s.accept commands watcher = .ok s' → P s → P s'
  /-- It holds when a batch is called off. -/
  cancelled : ∀ {s b}, s.batch = some b → P s → P s.cancel.1
  /-- Setting the time of a frame does not end it. -/
  framed : ∀ {s} (seconds : Single), P s → P (s.setFrame seconds)
  /-- The pace of runs does not matter. -/
  paced : ∀ {s} (realtime : Bool), P s → P { s with realtime }

/-- **Survives every call,** with a frame taken as a whole. -/
structure KeptByCalls (P : Simulation → Prop) : Prop where
  /-- It holds after a frame. -/
  advanced : ∀ {s} (seconds : Single), P s → P (s.advance seconds).1
  /-- It holds when a batch begins. -/
  accepted : ∀ {s s'} {commands : List Command} {watcher : Option String},
    s.accept commands watcher = .ok s' → P s → P s'
  /-- It holds when a batch is called off, and if there is none. -/
  cancelled : ∀ {s}, P s → P s.cancel.1
  /-- Setting the time of a frame does not end it. -/
  framed : ∀ {s} (seconds : Single), P s → P (s.setFrame seconds)
  /-- The pace of runs does not matter. -/
  paced : ∀ {s} (realtime : Bool), P s → P { s with realtime }

/-- The last simulation before a batch is concluded. -/
structure Concluding (s : Simulation) (b : Batch) : Prop where
  /-- The batch is the one being worked through. -/
  batch : s.batch = some b
  /-- No motion is being played for it. -/
  current : b.current = none
  /-- All its commands have been taken up. -/
  waiting : b.waiting = []

namespace KeptByFrames

variable {P : Simulation → Prop} (k : KeptByFrames P) {s s' : Simulation}
include k

theorem strides {p q : Simulation × Single} (h : Strides p q) (hp : P p.1) : P q.1 := by
  induction h with
  | refl => exact hp
  | tail _ hlast ih => exact k.stride hlast ih

/-- It holds after a frame that does not end the batch. -/
theorem advance_none {seconds : Single} (h : s.advance seconds = (s', none)) (hp : P s) :
    P s' := by
  cases hb : s.batch with
  | none =>
    rw [advance_of_idle seconds hb] at h
    cases h
    exact hp
  | some b =>
    obtain ⟨p, hs, he⟩ := advance_ends seconds hb
    rw [h] at he
    cases he with
    | playing hb' hc ha => exact k.played hb' hc ha (k.strides hs (k.ticked _ hp))

/-- It holds when the batch is concluded, if a frame ends it. -/
theorem advance_some {seconds : Single} {o : Outcome}
    (h : s.advance seconds = (s', some o)) (hp : P s) :
    ∃ s₁ b, P s₁ ∧ Concluding s₁ b ∧ s₁.conclude b = (s', o) := by
  cases hb : s.batch with
  | none =>
    rw [advance_of_idle seconds hb] at h
    cases h
  | some b =>
    obtain ⟨p, hs, he⟩ := advance_ends seconds hb
    rw [h] at he
    cases he with
    | concluded hb' hc hw =>
      exact ⟨_, _, k.strides hs (k.ticked _ hp), ⟨hb', hc, hw⟩, rfl⟩

theorem advanceAll_none {amounts : List Single}
    (h : s.advanceAll amounts = (s', none)) (hp : P s) : P s' := by
  induction amounts generalizing s with
  | nil =>
    cases h
    exact hp
  | cons seconds rest ih =>
    rw [advanceAll] at h
    split at h
    next s₁ hf => exact ih h (k.advance_none hf hp)
    next => cases h

theorem advanceAll_some {amounts : List Single} {o : Outcome}
    (h : s.advanceAll amounts = (s', some o)) (hp : P s) :
    ∃ s₁ b, P s₁ ∧ Concluding s₁ b ∧ s₁.conclude b = (s', o) := by
  induction amounts generalizing s with
  | nil => cases h
  | cons seconds rest ih =>
    rw [advanceAll] at h
    split at h
    next s₁ hf => exact ih h (k.advance_none hf hp)
    next s₁ o' hf =>
      cases h
      exact k.advance_some hf hp

end KeptByFrames

/-! ## Runs -/

namespace Simulation

theorem accept_of_idle {s : Simulation} (hb : s.batch = none) (commands : List Command)
    (watcher : Option String) :
    s.accept commands watcher = .ok { s with
      batch := some { waiting := commands, current := none, outcome := .empty, watcher } } := by
  rw [accept, isRunning, hb]
  rfl

/-- A batch begins on a simulation that has none. -/
theorem accept_eq_ok {s s' : Simulation} {commands : List Command}
    {watcher : Option String} (h : s.accept commands watcher = .ok s') :
    s.batch = none ∧ s' = { s with
      batch := some { waiting := commands, current := none, outcome := .empty, watcher } } := by
  cases hb : s.batch with
  | none =>
    rw [accept_of_idle hb] at h
    cases h
    exact ⟨rfl, rfl⟩
  | some b =>
    rw [accept, isRunning, hb] at h
    cases h

/-- What frames keep is kept by every call if it is about the table, the
robot, the journal and the time of a frame alone, and neither calling off a
motion nor setting the time of a frame ends it. -/
theorem kept_of_frames {P : Simulation → Prop} (k : KeptByFrames P)
    (hsame : ∀ {s s' : Simulation}, P s → s'.table = s.table → s'.robot = s.robot →
      s'.journal = s.journal → s'.frame = s.frame → P s')
    (hhalt : ∀ {s : Simulation} {index : Nat} {command : Command}, P s →
      P (({ s with robot := s.robot.halt }).record s.clock index command .cancelled))
    (hframe : ∀ {s : Simulation} (seconds : Single), P s → P (s.setFrame seconds)) :
    Kept P where
  toKeptByFrames := k
  concluded _ _ _ h := hsame h rfl rfl rfl rfl
  accepted ha h := by
    obtain ⟨-, rfl⟩ := accept_eq_ok ha
    exact hsame h rfl rfl rfl rfl
  cancelled {s b} hb h := by
    cases hc : b.current with
    | none =>
      rw [cancel_of_waiting hb hc]
      exact hsame h rfl rfl rfl rfl
    | some current =>
      rw [cancel_of_playing hb hc]
      exact hsame (hhalt h) rfl rfl rfl rfl
  framed := hframe
  paced _ h := hsame h rfl rfl rfl rfl

/-- A simulation stays on its table. -/
theorem kept_table (t : Table) : Kept fun s => s.table = t :=
  kept_of_frames
    { ticked := fun _ h => h
      stride := fun hs h => by cases hs <;> exact h
      played := fun _ _ _ h => h }
    (fun h ht _ _ _ => ht.trans h) (fun h => h) (fun _ h => h)

/-- No frame changes the time of a frame. -/
theorem keptByFrames_frame (frame : Single) : KeptByFrames fun s => s.frame = frame where
  ticked _ h := h
  stride hs h := by cases hs <;> exact h
  played _ _ _ h := h

/-- No frame changes the pace of a run. -/
theorem keptByFrames_realtime (realtime : Bool) :
    KeptByFrames fun s => s.realtime = realtime where
  ticked _ h := h
  stride hs h := by cases hs <;> exact h
  played _ _ _ h := h

/-- A run that comes back has let equal frames pass until the batch ended. -/
theorem advanceAll_of_playOut {s s' : Simulation} {o : Outcome}
    (h : s.playOut = some (s', o)) :
    ∃ n, s.advanceAll (List.replicate n s.frame) = (s', some o) := by
  fun_induction playOut s with
  | case1 s s₁ o₁ hf =>
    cases h
    refine ⟨1, ?_⟩
    rw [List.replicate_one, advanceAll, hf]
  | case2 s s₁ hf _ ih =>
    obtain ⟨n, hn⟩ := ih h
    refine ⟨n + 1, ?_⟩
    rw [(keptByFrames_frame s.frame).advance_none hf rfl] at hn
    rw [List.replicate_succ, advanceAll, hf]
    exact hn
  | case3 => cases h

/-- A run begins a batch that nobody watches and plays it out. -/
theorem run_of_accept {s s₁ : Simulation} {commands : List Command}
    (ha : s.accept commands none = .ok s₁) : s.run commands = .ok s₁.playOut := by
  rw [run, ha]
  rfl

/-- A run that comes back has begun a batch that nobody watches. -/
theorem frames_of_run {s s' : Simulation} {commands : List Command} {o : Outcome}
    (h : s.run commands = .ok (some (s', o))) :
    ∃ s₁ n, s.accept commands none = .ok s₁
      ∧ s₁.advanceAll (List.replicate n s.frame) = (s', some o) := by
  cases ha : s.accept commands none with
  | error fault =>
    rw [run, ha] at h
    cases h
  | ok s₁ =>
    rw [run_of_accept ha] at h
    obtain ⟨-, rfl⟩ := accept_eq_ok ha
    obtain ⟨n, hn⟩ := advanceAll_of_playOut (Except.ok.inj h)
    exact ⟨_, n, rfl, hn⟩

/-- **A run is a batch and its frames.** -/
theorem completes_of_run {s s' : Simulation} {commands : List Command} {o : Outcome}
    (h : s.run commands = .ok (some (s', o))) :
    ∃ n, s.Completes commands (List.replicate n s.frame) s' o := by
  obtain ⟨s₁, n, ha, hf⟩ := frames_of_run h
  exact ⟨n, none, s₁, ha, hf⟩

/-- What comes back from a run: a refusal that changes nothing, or the
outcome of the batch. -/
theorem call_run {s s' : Simulation} {commands : List Command} {answer : Answer}
    (h : s.call (.run commands) = some (s', answer)) :
    ((∃ fault, answer = .refused fault) ∧ s' = s) ∨
      ∃ n o, answer = .ended o ∧ s.Completes commands (List.replicate n s.frame) s' o := by
  cases hr : s.run commands with
  | error fault =>
    rw [call, hr] at h
    cases h
    exact .inl ⟨⟨fault, rfl⟩, rfl⟩
  | ok result =>
    obtain - | ⟨s₁, o⟩ := result
    · rw [call, hr] at h
      cases h
    · rw [call, hr] at h
      cases h
      obtain ⟨n, hc⟩ := completes_of_run hr
      exact .inr ⟨n, o, rfl, hc⟩

end Simulation

/-! ## Histories -/

namespace KeptByCalls

variable {P : Simulation → Prop} (k : KeptByCalls P) {s s' : Simulation}
include k

theorem advanceAll (amounts : List Single) (hp : P s) : P (s.advanceAll amounts).1 := by
  induction amounts generalizing s with
  | nil => exact hp
  | cons seconds rest ih =>
    have hframe := k.advanced seconds hp
    rw [Simulation.advanceAll]
    split
    next s₁ hf =>
      rw [hf] at hframe
      exact ih hframe
    next s₁ o hf =>
      rw [hf] at hframe
      exact hframe

theorem completes {commands : List Command} {amounts : List Single} {o : Outcome}
    (h : s.Completes commands amounts s' o) (hp : P s) : P s' := by
  obtain ⟨watcher, s₁, ha, hf⟩ := h
  have hend := k.advanceAll amounts (k.accepted ha hp)
  rwa [hf] at hend

theorem run {commands : List Command} {answer : Answer}
    (h : s.call (.run commands) = some (s', answer)) (hp : P s) : P s' := by
  obtain ⟨-, rfl⟩ | ⟨n, o, -, hc⟩ := call_run h
  · exact hp
  · exact k.completes hc hp

theorem call {call : Call} {answer : Answer} (h : s.call call = some (s', answer))
    (hp : P s) : P s' := by
  cases call with
  | accept commands watcher =>
    rw [Simulation.call] at h
    split at h
    · cases h
      exact hp
    next s₁ ha =>
      cases h
      exact k.accepted ha hp
  | advance seconds =>
    cases h
    exact k.advanced seconds hp
  | run commands => exact k.run h hp
  | perform text =>
    -- A text is the batch of the commands that it says.
    have hr : s.call (.run (Command.readAll text)) = some (s', answer) := h
    exact k.run hr hp
  | cancel =>
    cases h
    exact k.cancelled hp
  | setFrame seconds =>
    cases h
    exact k.framed _ hp
  | setRealtime realtime =>
    cases h
    exact k.paced _ hp

/-- **What survives every call is true throughout every history** that begins
with it. -/
theorem follow {calls : List Call} {history : List Event}
    (h : s.follow calls = some (s', history)) (hp : P s) : P s' := by
  induction calls generalizing s history with
  | nil =>
    cases h
    exact hp
  | cons call calls ih =>
    obtain ⟨⟨s₁, answer⟩, hc, h⟩ := Option.bind_eq_some_iff.mp h
    obtain ⟨⟨s₂, rest⟩, hr, h⟩ := Option.bind_eq_some_iff.mp h
    cases h
    exact ih hr (k.call hc hp)

end KeptByCalls

namespace Kept

variable {P : Simulation → Prop} (k : Kept P) {s s' : Simulation}
include k

theorem advance (seconds : Single) (hp : P s) : P (s.advance seconds).1 := by
  cases h : s.advance seconds with
  | mk s₁ outcome =>
    cases outcome with
    | none => exact k.advance_none h hp
    | some o =>
      obtain ⟨s₂, b, hp₂, hc, he⟩ := k.advance_some h hp
      have := k.concluded hc.batch hc.current hc.waiting hp₂
      rwa [he] at this

/-- What survives all that a call is made of survives the call. -/
theorem byCalls : KeptByCalls P where
  advanced := k.advance
  accepted := k.accepted
  cancelled {s} hp := by
    cases hb : s.batch with
    | none => rwa [Simulation.cancel, hb]
    | some b => exact k.cancelled hb hp
  framed := k.framed
  paced := k.paced

theorem completes {commands : List Command} {amounts : List Single} {o : Outcome}
    (h : s.Completes commands amounts s' o) (hp : P s) : P s' :=
  k.byCalls.completes h hp

theorem call {call : Call} {answer : Answer} (h : s.call call = some (s', answer))
    (hp : P s) : P s' :=
  k.byCalls.call h hp

theorem follow {calls : List Call} {history : List Event}
    (h : s.follow calls = some (s', history)) (hp : P s) : P s' :=
  k.byCalls.follow h hp

/-- Before a batch ended it held, and the outcome is that of the batch as it
was then, called off or not. -/
theorem ended {call : Call} {o : Outcome} (h : s.call call = some (s', .ended o))
    (hp : P s) :
    ∃ s₁ b, P s₁ ∧ s₁.batch = some b
      ∧ o = { b.outcome with cancelled := o.cancelled } := by
  have hrun : ∀ commands, s.call (.run commands) = some (s', .ended o) →
      ∃ s₁ b, P s₁ ∧ s₁.batch = some b
        ∧ o = { b.outcome with cancelled := o.cancelled } := by
    intro commands hr
    obtain ⟨⟨fault, hrefused⟩, -⟩ | ⟨n, o', ho, watcher, s₁, ha, hf⟩ := call_run hr
    · cases hrefused
    · cases ho
      obtain ⟨s₂, b, hp₂, hc, he⟩ := k.advanceAll_some hf (k.accepted ha hp)
      cases he
      exact ⟨s₂, b, hp₂, hc.batch, rfl⟩
  cases call with
  | accept commands watcher =>
    rw [Simulation.call] at h
    split at h
    · cases h
    · cases h
  | advance seconds =>
    cases hf : s.advance seconds with
    | mk s₁ outcome =>
      rw [Simulation.call, hf] at h
      cases outcome with
      | none => cases h
      | some o' =>
        cases h
        obtain ⟨s₂, b, hp₂, hc, he⟩ := k.advance_some hf hp
        cases he
        exact ⟨s₂, b, hp₂, hc.batch, rfl⟩
  | run commands => exact hrun commands h
  | perform text => exact hrun (Command.readAll text) h
  | cancel =>
    cases hb : s.batch with
    | none =>
      rw [Simulation.call, cancel_of_idle hb] at h
      cases h
    | some b =>
      refine ⟨s, b, hp, hb, ?_⟩
      cases hc : b.current with
      | none =>
        rw [Simulation.call, cancel_of_waiting hb hc] at h
        cases h
        rfl
      | some current =>
        rw [Simulation.call, cancel_of_playing hb hc] at h
        cases h
        rfl
  | setFrame seconds => cases h
  | setRealtime realtime => cases h

/-- What is said of every batch while it lasts is said of every outcome in a
history. -/
theorem ended_of_follow {calls : List Call} {history : List Event} {e : Event} {o : Outcome}
    (h : s.follow calls = some (s', history)) (he : e ∈ history) (ho : e.answer = .ended o)
    (hp : P s) :
    ∃ s₁ b, P s₁ ∧ s₁.batch = some b
      ∧ o = { b.outcome with cancelled := o.cancelled } := by
  obtain ⟨before, rest, rfl⟩ := List.append_of_mem he
  obtain ⟨earlier, later, -, -, hbefore, hcall, -⟩ := follow_split h
  rw [ho] at hcall
  exact k.ended hcall (k.follow hbefore hp)

end Kept

end Tabletop
