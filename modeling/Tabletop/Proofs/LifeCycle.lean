import Tabletop.Proofs.Consistency

/-!
# The life of a batch

A batch is begun by one call and ended by another, with frames, refusals and
changes of settings in between; a run does both at once. This module follows
batches through a history by what the calls answered. A call that begins a
batch and a call that ends one leave a `Mark` each, and a `Life` is one batch
with its watcher and its outcome.

`lives_of_follow` is the main statement. The marks of a history are the marks
of lives, one after the other, with a lone beginning at the end exactly when a
batch is still unfinished: so every batch ends once, and before the next one
begins. A batch is refused exactly while another is unfinished, and the
history without the refused call is a history too, with all the other answers
as they were. A watcher gets its one notice from the very call that answers
with the outcome, and it says the same.
-/

namespace Tabletop

/-- The call asks for a batch to be begun. -/
def Call.asks : Call → Bool
  | .accept .. | .run _ | .perform _ => true
  | _ => false

/-- What a call does to batches. -/
inductive Mark where
  /-- A batch was begun for a watcher, if one was given. -/
  | begun (watcher : Option String)
  /-- A batch has ended. -/
  | ended (outcome : Outcome)

/-- A batch that has been begun and has ended. -/
structure Life where
  /-- Who was to get a copy of the outcome. -/
  watcher : Option String
  /-- What it brought about. -/
  outcome : Outcome

namespace Life

/-- Its beginning and its end. -/
def marks (l : Life) : List Mark := [.begun l.watcher, .ended l.outcome]

/-- What the watcher is told. -/
def notice (l : Life) : Option (String × Outcome) := l.watcher.map (·, l.outcome)

end Life

/-- The watcher of the batch that has been begun and has not ended, if there
is such a batch. -/
def Mark.unfinished (marks : List Mark) : Option (Option String) :=
  match marks.getLast? with
  | some (.begun watcher) => some watcher
  | _ => none

namespace Event

/-- The beginnings and the ends of batches that an answer tells of. -/
def marks (e : Event) : List Mark :=
  match e.call, e.answer with
  | .accept _ watcher, .nothing => [.begun watcher]
  | .run _, .ended o => [.begun none, .ended o]
  | .perform _, .ended o => [.begun none, .ended o]
  | _, .ended o => [.ended o]
  | _, _ => []

/-- The notices that are due in a call, if a batch for a watcher was
unfinished before it: its outcome, if it has ended now. -/
def noticesDue (e : Event) (unfinished : Option (Option String)) :
    List (String × Outcome) :=
  match e.answer with
  | .ended o => (unfinished.join.map (·, o)).toList
  | _ => []

/-- **A call in its turn,** when a batch may be unfinished. -/
structure InTurn (e : Event) (unfinished : Option (Option String)) : Prop where
  /-- What asks for a batch is refused exactly while one is unfinished. -/
  refused : e.call.asks = true → ((∃ fault, e.answer = .refused fault) ↔ unfinished.isSome)
  /-- Nothing else is refused, it is for this reason, and nothing changes. -/
  unchanged : ∀ {fault : Fault}, e.answer = .refused fault →
    e.call.asks = true ∧ fault = .batchRunning ∧ e.after = e.before
  /-- A batch that was unfinished ends in a frame or is called off. -/
  ended : ∀ {o : Outcome}, e.answer = .ended o → e.call.asks = false → unfinished.isSome
  /-- Exactly the notices that are due are left. -/
  notices : e.after.notices.toList = e.before.notices.toList ++ e.noticesDue unfinished

end Event

namespace Simulation

variable {s s' : Simulation}

/-- The watcher of the batch that is being worked through. -/
def watched (s : Simulation) : Option (Option String) := s.batch.map Batch.watcher

theorem watched_of_batch {b : Batch} (hb : s.batch = some b) :
    s.watched = some b.watcher := by
  rw [watched, hb]
  rfl

theorem watched_of_idle (hb : s.batch = none) : s.watched = none := by
  rw [watched, hb]
  rfl

/-! ## One call -/

/-- What a call does to the lives of batches: with the beginning of the batch
that was unfinished before it and the one that is unfinished after it, the
marks are those of whole lives, and the notices are theirs. -/
def Passes (s s' : Simulation) (marks : List Mark) : Prop :=
  ∃ lives : List Life,
    (s.watched.map Mark.begun).toList ++ marks
        = lives.flatMap Life.marks ++ (s'.watched.map Mark.begun).toList
      ∧ s'.notices.toList = s.notices.toList ++ lives.filterMap Life.notice

theorem passes_refl (hw : s'.watched = s.watched) (hn : s'.notices = s.notices) :
    Passes s s' [] := by
  refine ⟨[], ?_, ?_⟩
  · rw [hw]
    exact List.append_nil _
  · rw [hn]
    exact (List.append_nil _).symm

theorem Passes.trans {s'' : Simulation} {marks marks' : List Mark}
    (h : Passes s s' marks) (h' : Passes s' s'' marks') :
    Passes s s'' (marks ++ marks') := by
  obtain ⟨lives, hm, hn⟩ := h
  obtain ⟨lives', hm', hn'⟩ := h'
  refine ⟨lives ++ lives', ?_, ?_⟩
  · rw [← List.append_assoc, hm, List.append_assoc, hm', List.flatMap_append,
      List.append_assoc]
  · rw [hn', hn, List.filterMap_append, List.append_assoc]

/-- A batch is begun. -/
theorem passes_of_accept {commands : List Command} {watcher : Option String}
    (ha : s.accept commands watcher = .ok s') : Passes s s' [.begun watcher] := by
  obtain ⟨hb, rfl⟩ := accept_eq_ok ha
  refine ⟨[], ?_, (List.append_nil _).symm⟩
  rw [watched_of_idle hb]
  rfl

/-- A batch ends: the notice for its watcher is left. -/
theorem passes_of_ended {watcher : Option String} {o : Outcome}
    (hw : s.watched = some watcher) (hb : s'.batch = none)
    (hn : s'.notices.toList = s.notices.toList ++ (watcher.map (·, o)).toList) :
    Passes s s' [.ended o] := by
  refine ⟨[{ watcher, outcome := o }], ?_, ?_⟩
  · rw [hw, watched_of_idle hb]
    rfl
  · rw [hn]
    cases watcher <;> rfl

theorem conclude_notices (b : Batch) :
    (s.conclude b).1.notices.toList
      = s.notices.toList ++ (b.watcher.map (·, b.outcome)).toList := by
  rw [conclude]
  cases b.watcher with
  | none => exact (List.append_nil _).symm
  | some watcher => exact Array.toList_push ..

/-- No frame changes the watcher of a batch, nor does it leave a notice
before the batch ends. -/
theorem keptByFrames_watched (watcher : Option String) (notices : Array (String × Outcome)) :
    KeptByFrames fun s => s.watched = some watcher ∧ s.notices = notices where
  ticked _ h := h
  stride hs h := by
    cases hs with
    | done hb => exact ⟨(watched_of_batch hb).symm.trans h.1, h.2⟩
    | begun hb => exact ⟨(watched_of_batch hb).symm.trans h.1, h.2⟩
    | rejected hb => exact ⟨(watched_of_batch hb).symm.trans h.1, h.2⟩
    | finished hb => exact ⟨(watched_of_batch hb).symm.trans h.1, h.2⟩
  played _ _ _ h := h

/-- The conclusion of the batch that was being worked through. -/
theorem conclude_watched {s₁ : Simulation} {b : Batch} {watcher : Option String}
    {o : Outcome} (h : s₁.watched = some watcher ∧ s₁.notices = s.notices)
    (hc : Concluding s₁ b) (he : s₁.conclude b = (s', o)) :
    s'.batch = none
      ∧ s'.notices.toList = s.notices.toList ++ (watcher.map (·, o)).toList := by
  obtain ⟨hw, hn⟩ := h
  cases (watched_of_batch hc.batch).symm.trans hw
  have hnotices := conclude_notices (s := s₁) b
  cases he
  exact ⟨rfl, hn ▸ hnotices⟩

/-- What calling off does to a batch. -/
theorem cancel_watched {b : Batch} (hb : s.batch = some b) :
    ∃ o, s.cancel.2 = some o ∧ s.cancel.1.batch = none
      ∧ s.cancel.1.notices.toList = s.notices.toList ++ (b.watcher.map (·, o)).toList := by
  cases hc : b.current with
  | none =>
    rw [cancel_of_waiting hb hc]
    exact ⟨_, rfl, rfl, conclude_notices ..⟩
  | some current =>
    rw [cancel_of_playing hb hc]
    exact ⟨_, rfl, rfl, conclude_notices ..⟩

/-- A batch is refused while one is being worked through. -/
theorem accept_of_running {b : Batch} (hb : s.batch = some b) (commands : List Command)
    (watcher : Option String) : s.accept commands watcher = .error .batchRunning := by
  rw [accept, isRunning, hb]
  rfl

section Call

variable {call : Call} {o : Outcome}

/-- A refused call is in its turn while a batch is unfinished. -/
theorem inTurn_of_refused {b : Batch} (hb : s.batch = some b) (hasks : call.asks = true) :
    Event.InTurn { before := s, call, answer := .refused .batchRunning, after := s }
      s.watched where
  refused _ := by
    rw [watched_of_batch hb]
    exact ⟨fun _ => rfl, fun _ => ⟨_, rfl⟩⟩
  unchanged h := by
    cases h
    exact ⟨hasks, rfl, rfl⟩
  ended h := nomatch h
  notices := (List.append_nil _).symm

/-- A call that has nothing to say begins a batch or leaves batches alone. -/
theorem inTurn_of_nothing (hasks : call.asks = true → s.batch = none)
    (hn : s'.notices = s.notices) :
    Event.InTurn { before := s, call, answer := .nothing, after := s' } s.watched where
  refused h := by
    rw [watched_of_idle (hasks h)]
    exact ⟨fun ⟨_, hr⟩ => (nomatch hr), fun hr => (nomatch hr)⟩
  unchanged h := nomatch h
  ended h := nomatch h
  notices := by
    rw [hn]
    exact (List.append_nil _).symm

/-- A batch ends in a call that did not begin it. -/
theorem inTurn_of_ended {watcher : Option String} (hasks : call.asks = false)
    (hw : s.watched = some watcher)
    (hn : s'.notices.toList = s.notices.toList ++ (watcher.map (·, o)).toList) :
    Event.InTurn { before := s, call, answer := .ended o, after := s' } s.watched where
  refused h := nomatch hasks.symm.trans h
  unchanged h := nomatch h
  ended _ _ := by
    rw [hw]
    rfl
  notices := by
    rw [hw]
    exact hn

/-- A batch begins and ends in one call. -/
theorem inTurn_of_whole (hasks : call.asks = true) (hb : s.batch = none)
    (hn : s'.notices = s.notices) :
    Event.InTurn { before := s, call, answer := .ended o, after := s' } s.watched where
  refused _ := by
    rw [watched_of_idle hb]
    exact ⟨fun ⟨_, hr⟩ => (nomatch hr), fun hr => (nomatch hr)⟩
  unchanged h := nomatch h
  ended _ h := nomatch hasks.symm.trans h
  notices := by
    rw [watched_of_idle hb, hn]
    exact (List.append_nil _).symm

end Call

/-- What a frame does to a batch: it goes on, or it ends. -/
theorem advance_watched {b : Batch} (hb : s.batch = some b) (seconds : Single) :
    (∃ s', s.advance seconds = (s', none) ∧ s'.watched = some b.watcher
        ∧ s'.notices = s.notices)
      ∨ ∃ s' o, s.advance seconds = (s', some o) ∧ s'.batch = none
        ∧ s'.notices.toList = s.notices.toList ++ (b.watcher.map (·, o)).toList := by
  have hw : s.watched = some b.watcher ∧ s.notices = s.notices := ⟨watched_of_batch hb, rfl⟩
  cases hf : s.advance seconds with
  | mk s' outcome =>
    cases outcome with
    | none => exact .inl ⟨s', rfl, (keptByFrames_watched _ _).advance_none hf hw⟩
    | some o =>
      obtain ⟨s₁, b', h, hc, he⟩ := (keptByFrames_watched _ _).advance_some hf hw
      exact .inr ⟨s', o, rfl, conclude_watched h hc he⟩

/-- What a run does to batches: it is refused, or it works through one that
nobody watches. -/
theorem run_watched {commands : List Command} {answer : Answer}
    (h : s.comeBack (s.run commands) = some (s', answer)) :
    (∃ b, s.batch = some b ∧ answer = .refused .batchRunning ∧ s' = s)
      ∨ ∃ o, answer = .ended o ∧ s.batch = none ∧ s'.notices = s.notices
        ∧ Passes s s' [.begun none, .ended o] := by
  cases hb : s.batch with
  | some b =>
    have hr : s.run commands = .error .batchRunning := by
      rw [run, accept_of_running hb]
      rfl
    rw [hr] at h
    cases h
    exact .inl ⟨b, rfl, rfl, rfl⟩
  | none =>
    obtain ⟨s₁, ha⟩ : ∃ s₁, s.accept commands none = .ok s₁ := ⟨_, accept_of_idle hb _ _⟩
    have hr := run_of_accept ha
    cases hp : s₁.playOut with
    | none =>
      rw [hr, hp] at h
      cases h
    | some result =>
      obtain ⟨s₂, o⟩ := result
      rw [hr, hp] at h
      cases h
      obtain ⟨n, hf⟩ := advanceAll_of_playOut hp
      obtain ⟨-, rfl⟩ := accept_eq_ok ha
      obtain ⟨s₃, b, hw, hc, he⟩ := (keptByFrames_watched none s.notices).advanceAll_some hf
        ⟨rfl, rfl⟩
      obtain ⟨hb₂, hn⟩ := conclude_watched hw hc he
      refine .inr ⟨o, rfl, rfl, ?_, (passes_of_accept ha).trans (passes_of_ended rfl hb₂ hn)⟩
      exact Array.toList_inj.mp (hn.trans (List.append_nil _))

/-- **Every call is in its turn,** and its marks and notices are those of
lives. -/
theorem inTurn_of_call {call : Call} {answer : Answer}
    (hc : s.call call = some (s', answer)) :
    Event.InTurn { before := s, call, answer, after := s' } s.watched
      ∧ Passes s s' (Event.marks { before := s, call, answer, after := s' }) := by
  cases call with
  | accept commands watcher =>
    cases hb : s.batch with
    | none =>
      have ha := accept_of_idle hb commands watcher
      rw [Simulation.call, ha] at hc
      cases hc
      exact ⟨inTurn_of_nothing (fun _ => hb) rfl, passes_of_accept ha⟩
    | some b =>
      rw [Simulation.call, accept_of_running hb] at hc
      cases hc
      exact ⟨inTurn_of_refused hb rfl, passes_refl rfl rfl⟩
  | advance seconds =>
    cases hb : s.batch with
    | none =>
      rw [Simulation.call, advance_of_idle seconds hb] at hc
      cases hc
      exact ⟨inTurn_of_nothing (by intro h; cases h) rfl, passes_refl rfl rfl⟩
    | some b =>
      have hw := watched_of_batch hb
      obtain ⟨s₁, hf, hw₁, hn⟩ | ⟨s₁, o, hf, hb₁, hn⟩ := advance_watched hb seconds
      · rw [Simulation.call, hf] at hc
        cases hc
        exact ⟨inTurn_of_nothing (by intro h; cases h) hn, passes_refl (hw₁.trans hw.symm) hn⟩
      · rw [Simulation.call, hf] at hc
        cases hc
        exact ⟨inTurn_of_ended rfl hw hn, passes_of_ended hw hb₁ hn⟩
  | run commands =>
    obtain ⟨b, hb, rfl, rfl⟩ | ⟨o, rfl, hb, hn, hp⟩ := run_watched hc
    · exact ⟨inTurn_of_refused hb rfl, passes_refl rfl rfl⟩
    · exact ⟨inTurn_of_whole rfl hb hn, hp⟩
  | perform text =>
    obtain ⟨b, hb, rfl, rfl⟩ | ⟨o, rfl, hb, hn, hp⟩ := run_watched hc
    · exact ⟨inTurn_of_refused hb rfl, passes_refl rfl rfl⟩
    · exact ⟨inTurn_of_whole rfl hb hn, hp⟩
  | cancel =>
    cases hb : s.batch with
    | none =>
      rw [Simulation.call, cancel_of_idle hb] at hc
      cases hc
      exact ⟨inTurn_of_nothing (by intro h; cases h) rfl, passes_refl rfl rfl⟩
    | some b =>
      obtain ⟨o, ho, hb₁, hn⟩ := cancel_watched hb
      have hcancel : s.cancel = (s.cancel.1, some o) := Prod.ext rfl ho
      rw [Simulation.call, hcancel] at hc
      cases hc
      have hw := watched_of_batch hb
      exact ⟨inTurn_of_ended rfl hw hn, passes_of_ended hw hb₁ hn⟩
  | setFrame seconds =>
    cases hc
    exact ⟨inTurn_of_nothing (by intro h; cases h) rfl, passes_refl rfl rfl⟩
  | setRealtime realtime =>
    cases hc
    exact ⟨inTurn_of_nothing (by intro h; cases h) rfl, passes_refl rfl rfl⟩

/-! ## Histories -/

variable {s₀ : Simulation} {calls : List Call} {history : List Event}

theorem passes_of_follow (hs : s₀.follow calls = some (s, history)) :
    Passes s₀ s (history.flatMap Event.marks) := by
  induction calls generalizing s₀ history with
  | nil =>
    cases hs
    exact passes_refl rfl rfl
  | cons call calls ih =>
    obtain ⟨⟨s₁, answer⟩, hc, hs⟩ := Option.bind_eq_some_iff.mp hs
    obtain ⟨⟨s₂, rest⟩, hr, hs⟩ := Option.bind_eq_some_iff.mp hs
    cases hs
    rw [List.flatMap_cons]
    exact (inTurn_of_call hc).2.trans (ih hr)

end Simulation

/-- Of whole lives and a lone beginning after them, the beginning is
unfinished, and of whole lives nothing is. -/
theorem Mark.unfinished_append (lives : List Life) (watched : Option (Option String)) :
    Mark.unfinished (lives.flatMap Life.marks ++ (watched.map Mark.begun).toList)
      = watched := by
  cases watched with
  | some watcher => rw [unfinished, Option.map_some, Option.toList_some, List.getLast?_concat]
  | none =>
    rw [Option.map_none, Option.toList_none, List.append_nil]
    obtain rfl | ⟨earlier, life, rfl⟩ := List.eq_nil_or_concat lives
    · rfl
    · rw [unfinished, List.concat_eq_append, List.flatMap_append, List.flatMap_singleton,
        Life.marks, ← List.singleton_append, ← List.append_assoc, List.getLast?_concat]

namespace Simulation

variable {s₀ s : Simulation} {calls : List Call} {history : List Event}

/-- **The lives of the batches of a history.** -/
structure Lived (s₀ s : Simulation) (calls : List Call) (history : List Event) : Prop where
  /-- Batches live one after the other, and their watchers have been told. -/
  lives : ∃ lives : List Life,
    history.flatMap Event.marks
        = lives.flatMap Life.marks ++ (s.watched.map Mark.begun).toList
      ∧ s.notices.toList = lives.filterMap Life.notice
  /-- Each call was in its turn, by what the calls before it did. -/
  inTurn : ∀ {before rest : List Event} {e : Event}, history = before ++ e :: rest →
    e.InTurn (Mark.unfinished (before.flatMap Event.marks))
  /-- Without a call that was refused, all other answers are the same. -/
  spared : ∀ {before rest : List Event} {e : Event} {fault : Fault},
    history = before ++ e :: rest → e.answer = .refused fault →
    s₀.follow (calls.eraseIdx before.length) = some (s, before ++ rest)

theorem Initial.notices {s : Simulation} (h : s.Initial) : s.notices = #[] :=
  h.untouched.notices

/-- To begin with there is no batch and no notice, so the marks and the
notices of a history are all there are. -/
theorem Initial.passes (h₀ : s₀.Initial) (hs : s₀.follow calls = some (s, history)) :
    ∃ lives : List Life,
      history.flatMap Event.marks
          = lives.flatMap Life.marks ++ (s.watched.map Mark.begun).toList
        ∧ s.notices.toList = lives.filterMap Life.notice := by
  obtain ⟨lives, hm, hn⟩ := passes_of_follow hs
  rw [watched_of_idle h₀.idle] at hm
  rw [h₀.notices] at hn
  exact ⟨lives, hm, hn⟩

/-- What is unfinished by the marks of a history is the batch that is being
worked through. -/
theorem unfinished_of_follow (h₀ : s₀.Initial) (hs : s₀.follow calls = some (s, history)) :
    Mark.unfinished (history.flatMap Event.marks) = s.watched := by
  obtain ⟨lives, hm, -⟩ := h₀.passes hs
  rw [hm, Mark.unfinished_append]

/-- **Every batch lives once.** However calls follow each other, batches are
begun and ended in turn, refused while one is unfinished, and their watchers
are told once, by the call that ends the batch. -/
theorem lives_of_follow (h₀ : s₀.Initial) (hs : s₀.follow calls = some (s, history)) :
    Lived s₀ s calls history where
  lives := h₀.passes hs
  inTurn := by
    rintro before rest e rfl
    obtain ⟨earlier, later, -, -, hbefore, hcall, -⟩ := follow_split hs
    rw [unfinished_of_follow h₀ hbefore]
    exact (inTurn_of_call hcall).1
  spared := by
    rintro before rest e fault rfl hrefused
    obtain ⟨earlier, later, rfl, hlength, hbefore, hcall, hrest⟩ := follow_split hs
    -- The refused call has left the simulation as it was, so the rest follows without it.
    obtain ⟨-, -, hafter⟩ := (inTurn_of_call hcall).1.unchanged hrefused
    rw [show e.after = e.before from hafter] at hrest
    rw [← hlength, List.eraseIdx_append_of_length_le (Nat.le_refl _), Nat.sub_self]
    exact follow_append hbefore hrest

/-- The second batch is refused while the first is being worked through, the
first is called off, and the third is for the same watcher. -/
theorem lives_with_refusal :
    ∃ s history,
      (Simulation.new ⟨3, 3, 1, by decide⟩ (.new 1 1)).follow
          [.accept [.place 0 0 .north, .report, .left] (some "a"), .advance 0,
            .accept [.report] (some "b"), .cancel, .accept [.report] (some "a"), .advance 0]
        = some (s, history)
      ∧ s.notices.map Prod.fst = #["a", "a"]
      ∧ Lived (Simulation.new ⟨3, 3, 1, by decide⟩ (.new 1 1)) s
          [.accept [.place 0 0 .north, .report, .left] (some "a"), .advance 0,
            .accept [.report] (some "b"), .cancel, .accept [.report] (some "a"), .advance 0]
          history := by
  have hany : ((Simulation.new ⟨3, 3, 1, by decide⟩ (.new 1 1)).follow
      [.accept [.place 0 0 .north, .report, .left] (some "a"), .advance 0,
        .accept [.report] (some "b"), .cancel, .accept [.report] (some "a"), .advance 0]).any
      (fun p => p.1.notices.map Prod.fst = #["a", "a"]) = true := by
    decide +kernel
  obtain ⟨⟨s, history⟩, hs, hn⟩ := (Option.any_eq_true _ _).mp hany
  exact ⟨s, history, hs, of_decide_eq_true hn, lives_of_follow (.new _ _) hs⟩

end Simulation

end Tabletop
