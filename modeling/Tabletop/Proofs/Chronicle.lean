import Tabletop.Proofs.Consistency

/-!
# What the journal tells

A journal is written in three places: where a command is taken up, where its
motion ends and where it is called off. Read without the times, it is still
the story of one command after the other. Every command that was taken up has
a number, and its entries stand together: it was begun and finished, or it was
rejected, or it was begun and called off. Only the last one may have been begun
and nothing more, and that is the command in flight.

`Chronicled` says this of one simulation, for the commands that have been taken
up and for those that were in flight when a batch was called off.
`chronicled_of_follow` is the main statement: it holds after every history,
for the commands that the calls of that history took up and the ones they
called off. Commands that wait when their batch is called off, and those of a
batch that is refused, are not among them.
-/

namespace Tabletop

/-- Whether a command can take time. -/
def Command.takesTime : Command → Bool
  | .move | .left | .right => true
  | .place .. | .report => false

/-- How a command that was taken up has ended. -/
inductive Fate where
  /-- It took effect. -/
  | finished
  /-- It was refused. -/
  | rejected
  /-- It was called off while its motion was being played. -/
  | cancelled
deriving DecidableEq

/-- What the journal has of a command that has ended. -/
def Fate.phases : Fate → List Phase
  | finished => [.started, .finished]
  | rejected => [.rejected]
  | cancelled => [.started, .cancelled]

namespace Journal

/-- The entries without their times. -/
def untimed (j : Journal) : List (Nat × Command × Phase) :=
  j.entries.toList.map fun e => (e.index, e.command, e.phase)

/-- The entries of commands that have ended, up to their times: the group of
each, under its number. -/
def told (ended : List (Command × Fate)) : List (Nat × Command × Phase) :=
  ended.zipIdx.flatMap fun ((command, fate), index) => fate.phases.map (index, command, ·)

/-- Those that were called off, with their numbers. -/
def calledOff (ended : List (Command × Fate)) : List (Nat × Command) :=
  ended.zipIdx.filterMap fun ((command, fate), index) =>
    if fate = .cancelled then some (index, command) else none

theorem untimed_record (j : Journal) (clock : Double) (index : Nat) (command : Command)
    (phase : Phase) :
    (j.record clock index command phase).untimed = j.untimed ++ [(index, command, phase)] := by
  rw [untimed, untimed, record, Array.toList_push, List.map_append]
  rfl

theorem told_concat (ended : List (Command × Fate)) (command : Command) (fate : Fate) :
    told (ended ++ [(command, fate)])
      = told ended ++ fate.phases.map (ended.length, command, ·) := by
  rw [told, told, List.zipIdx_append, List.flatMap_append, List.zipIdx_singleton,
    List.flatMap_singleton, Nat.zero_add]

theorem calledOff_concat (ended : List (Command × Fate)) (command : Command) (fate : Fate) :
    calledOff (ended ++ [(command, fate)])
      = calledOff ended ++ if fate = .cancelled then [(ended.length, command)] else [] := by
  rw [calledOff, calledOff, List.zipIdx_append, List.filterMap_append,
    List.zipIdx_singleton, Nat.zero_add]
  congr 1
  split <;> simp [*]

end Journal

/-- A motion is begun only for a command that can take time. -/
theorem Robot.takesTime_of_begun {r r' : Robot} {t : Table} {command : Command}
    (ho : r.obey t command = .ok (r', .begun)) : command.takesTime = true := by
  cases Robot.obeyed_of_eq ho with
  | begun _ _ hu => cases hu <;> rfl

/-- All the commands of a batch that has ended, and none of one that was
refused. -/
def Answer.taken (commands : List Command) : Answer → List Command
  | .ended _ => commands
  | _ => []

namespace Event

/-- The commands that a call takes off the queue: in a frame, the first of
those that waited, as many as wait no longer; in a run, all of them. -/
def taken (e : Event) : List Command :=
  match e.call with
  | .advance _ => e.before.waiting.take (e.before.waiting.length - e.after.waiting.length)
  | .run commands => e.answer.taken commands
  | .perform text => e.answer.taken (Command.readAll text)
  | _ => []

/-- The command in flight, with its number, if the batch is called off. -/
def calledOff (e : Event) : List (Nat × Command) :=
  match e.call with
  | .cancel => e.before.inFlight.toList
  | _ => []

/-- What a frame takes and what it leaves is the queue that it found. -/
theorem taken_of_advance {s s' : Simulation} {seconds : Single} {answer : Answer}
    {passed : List Command} (hq : passed ++ s'.waiting = s.waiting) :
    taken { before := s, call := .advance seconds, answer, after := s' } = passed := by
  show s.waiting.take (s.waiting.length - s'.waiting.length) = passed
  rw [← hq, List.length_append, Nat.add_sub_cancel]
  exact List.take_left

end Event

namespace Simulation

open Journal (told calledOff)

/-- **The journal is the story of the commands,** those that were taken up,
some of them called off. -/
structure Chronicled (s : Simulation) (taken : List Command) (off : List (Nat × Command))
    (ended : List (Command × Fate)) : Prop where
  /-- A group of entries for each command that has ended, in the order of their
  numbers; then a lone beginning if, and only if, a command is in flight. -/
  entries : s.journal.untimed
    = told ended ++ s.inFlight.toList.map fun (index, command) => (index, command, .started)
  /-- These are the commands that were taken up, each in its place. -/
  commands : ended.map Prod.fst ++ s.inFlight.toList.map Prod.snd = taken
  /-- The next number is how many they are. -/
  nextIndex : s.nextIndex = taken.length
  /-- The command in flight has the last number, and can take time. -/
  flight : ∀ {index : Nat} {command : Command}, s.inFlight = some (index, command) →
    index = ended.length ∧ command.takesTime = true
  /-- The groups with a cancellation are those of the commands called off. -/
  cancelled : calledOff ended = off
  /-- They, too, can take time. -/
  lasting : ∀ {command : Command}, (command, Fate.cancelled) ∈ ended →
    command.takesTime = true

section Chronicled

variable {s s' : Simulation} {taken : List Command} {off off' : List (Nat × Command)}
  {ended : List (Command × Fate)} {command : Command} {fate : Fate}

/-- Only the journal, the next number and the command in flight matter. -/
theorem Chronicled.congr (h : Chronicled s taken off ended)
    (hj : s'.journal = s.journal) (hn : s'.nextIndex = s.nextIndex)
    (hf : s'.inFlight = s.inFlight) : Chronicled s' taken off ended where
  entries := by rw [hj, hf, h.entries]
  commands := by rw [hf, h.commands]
  nextIndex := hn.trans h.nextIndex
  flight hc := h.flight (hf.symm.trans hc)
  cancelled := h.cancelled
  lasting := h.lasting

/-- With nothing in flight, all commands that were taken up have ended. -/
theorem Chronicled.commands_of_rest (h : Chronicled s taken off ended)
    (hf : s.inFlight = none) : ended.map Prod.fst = taken := by
  have hcommands := h.commands
  rw [hf] at hcommands
  exact (List.append_nil _).symm.trans hcommands

theorem Chronicled.entries_of_rest (h : Chronicled s taken off ended)
    (hf : s.inFlight = none) : s.journal.untimed = told ended := by
  rw [h.entries, hf]
  exact List.append_nil _

theorem Chronicled.nextIndex_of_rest (h : Chronicled s taken off ended)
    (hf : s.inFlight = none) : s.nextIndex = ended.length := by
  rw [h.nextIndex, ← h.commands_of_rest hf, List.length_map]

theorem lasting_concat
    (h : ∀ {command : Command}, (command, Fate.cancelled) ∈ ended → command.takesTime = true)
    (hc : fate = .cancelled → command.takesTime = true) {command' : Command}
    (hmem : (command', Fate.cancelled) ∈ ended ++ [(command, fate)]) :
    command'.takesTime = true := by
  rcases List.mem_append.mp hmem with hmem | hmem
  · exact h hmem
  · cases List.mem_singleton.mp hmem
    exact hc rfl

/-- **A command is taken up and ends at once.** -/
theorem Chronicled.settle (h : Chronicled s taken off ended) (fate : Fate)
    (hf : s.inFlight = none) (hf' : s'.inFlight = none) (hfate : fate ≠ .cancelled)
    (hj : s'.journal.untimed
      = s.journal.untimed ++ fate.phases.map (s.nextIndex, command, ·))
    (hn : s'.nextIndex = s.nextIndex + 1) :
    Chronicled s' (taken ++ [command]) off (ended ++ [(command, fate)]) where
  entries := by
    rw [hj, h.entries_of_rest hf, h.nextIndex_of_rest hf, Journal.told_concat, hf']
    exact (List.append_nil _).symm
  commands := by
    rw [hf', List.map_append, h.commands_of_rest hf]
    exact List.append_nil _
  nextIndex := by
    rw [hn, h.nextIndex, List.length_append]
    rfl
  flight hc := nomatch hf'.symm.trans hc
  cancelled := by
    rw [Journal.calledOff_concat, if_neg hfate, h.cancelled]
    exact List.append_nil _
  lasting := lasting_concat h.lasting fun hc => absurd hc hfate

/-- **A command is taken up and its motion begins.** -/
theorem Chronicled.begin (h : Chronicled s taken off ended) (hf : s.inFlight = none)
    (hf' : s'.inFlight = some (s.nextIndex, command)) (hc : command.takesTime = true)
    (hj : s'.journal.untimed = s.journal.untimed ++ [(s.nextIndex, command, .started)])
    (hn : s'.nextIndex = s.nextIndex + 1) :
    Chronicled s' (taken ++ [command]) off ended where
  entries := by
    rw [hj, h.entries_of_rest hf, hf']
    rfl
  commands := by
    rw [hf', h.commands_of_rest hf]
    rfl
  nextIndex := by
    rw [hn, h.nextIndex, List.length_append]
    rfl
  flight hflight := by
    cases hf'.symm.trans hflight
    exact ⟨h.nextIndex_of_rest hf, hc⟩
  cancelled := h.cancelled
  lasting := h.lasting

/-- **The command in flight ends,** because its motion is over or because it is
called off. -/
theorem Chronicled.ends (h : Chronicled s taken off ended) (fate : Fate) {index : Nat}
    {phase : Phase} (hf : s.inFlight = some (index, command)) (hf' : s'.inFlight = none)
    (hfate : fate.phases = [.started, phase])
    (hoff : off' = off ++ if fate = .cancelled then [(index, command)] else [])
    (hj : s'.journal.untimed = s.journal.untimed ++ [(index, command, phase)])
    (hn : s'.nextIndex = s.nextIndex) :
    Chronicled s' taken off' (ended ++ [(command, fate)]) := by
  obtain ⟨rfl, hc⟩ := h.flight hf
  exact {
    entries := by
      rw [hj, h.entries, Journal.told_concat, hfate, hf, hf', List.append_assoc]
      exact (List.append_nil _).symm
    commands := by
      rw [← h.commands, hf, hf', List.map_append]
      exact List.append_nil _
    nextIndex := hn.trans h.nextIndex
    flight := fun hflight => nomatch hf'.symm.trans hflight
    cancelled := by rw [Journal.calledOff_concat, h.cancelled, hoff]
    lasting := lasting_concat h.lasting fun _ => hc }

/-! ## Frames -/

/-- In the middle of a queue: its first commands have been taken up. -/
def Takes (queue taken : List Command) (off : List (Nat × Command)) (s : Simulation) :
    Prop :=
  ∃ passed ended, passed ++ s.waiting = queue ∧ Chronicled s (taken ++ passed) off ended

variable {queue : List Command}

/-- One command more has been taken from the queue. -/
theorem takes_of_waiting {rest passed : List Command} {ended' : List (Command × Fate)}
    (hq : passed ++ s.waiting = queue) (hw : s.waiting = command :: rest)
    (hw' : s'.waiting = rest)
    (h : Chronicled s' (taken ++ passed ++ [command]) off ended') :
    Takes queue taken off s' := by
  refine ⟨passed ++ [command], ended', ?_, ?_⟩
  · rw [← hq, hw, hw', List.append_assoc]
    rfl
  · rwa [← List.append_assoc]

theorem takes_of_stride {d d' : Single} (hs : Stride (s, d) (s', d'))
    (h : Takes queue taken off s) : Takes queue taken off s' := by
  obtain ⟨passed, ended, hq, h⟩ := h
  cases hs with
  | done hb hc hw ho =>
    refine takes_of_waiting hq ((waiting_of_batch hb).trans hw) rfl
      (h.settle .finished ((inFlight_of_batch hb).trans hc) hc nofun ?_ rfl)
    show (Journal.record (Journal.record ..) ..).untimed = _
    rw [Journal.untimed_record, Journal.untimed_record, List.append_assoc]
    rfl
  | begun hb hc hw ho =>
    exact takes_of_waiting hq ((waiting_of_batch hb).trans hw) rfl
      (h.begin ((inFlight_of_batch hb).trans hc) rfl (Robot.takesTime_of_begun ho)
        (Journal.untimed_record ..) rfl)
  | rejected hb hc hw ho =>
    exact takes_of_waiting hq ((waiting_of_batch hb).trans hw) rfl
      (h.settle .rejected ((inFlight_of_batch hb).trans hc) hc nofun
        (Journal.untimed_record ..) rfl)
  | finished hb hc ha =>
    exact ⟨passed, _, waiting_of_batch hb ▸ hq,
      h.ends .finished ((inFlight_of_batch hb).trans hc) rfl rfl (List.append_nil off).symm
        (Journal.untimed_record ..) rfl⟩

theorem keptByFrames_takes (queue taken : List Command) (off : List (Nat × Command)) :
    KeptByFrames (Takes queue taken off) where
  ticked _ := fun ⟨_, _, hq, h⟩ => ⟨_, _, hq, h.congr rfl rfl rfl⟩
  stride := takes_of_stride
  played _ _ _ := fun ⟨_, _, hq, h⟩ => ⟨_, _, hq, h.congr rfl rfl rfl⟩

/-- Before its first frame nothing has been taken from a queue. -/
theorem Chronicled.takes (h : Chronicled s taken off ended) :
    Takes s.waiting taken off s := by
  refine ⟨[], ended, rfl, ?_⟩
  rw [List.append_nil]
  exact h

/-- When a batch is concluded, its queue has been taken. -/
theorem chronicled_of_conclude {b : Batch} {o : Outcome} (h : Takes queue taken off s)
    (hc : Concluding s b) (he : s.conclude b = (s', o)) :
    s'.waiting = [] ∧ ∃ ended, Chronicled s' (taken ++ queue) off ended := by
  obtain ⟨passed, ended, hq, h⟩ := h
  cases he
  rw [waiting_of_batch hc.batch, hc.waiting, List.append_nil] at hq
  subst hq
  exact ⟨rfl, ended, h.congr rfl rfl ((inFlight_of_batch hc.batch).trans hc.current).symm⟩

/-- A frame takes the first commands of the queue. -/
theorem takes_of_advance (seconds : Single) (h : Chronicled s taken off ended) :
    Takes s.waiting taken off (s.advance seconds).1 := by
  cases hf : s.advance seconds with
  | mk s₁ outcome =>
    cases outcome with
    | none => exact (keptByFrames_takes ..).advance_none hf h.takes
    | some o =>
      obtain ⟨s₂, b, ht, hc, he⟩ := (keptByFrames_takes ..).advance_some hf h.takes
      obtain ⟨hw, ended, h⟩ := chronicled_of_conclude ht hc he
      refine ⟨s.waiting, ended, ?_, h⟩
      rw [hw]
      exact List.append_nil _

/-! ## Calls and histories -/

theorem chronicled_of_completes {amounts : List Single} {commands : List Command}
    {o : Outcome} (hc : s.Completes commands amounts s' o) (h : Chronicled s taken off ended) :
    ∃ ended, Chronicled s' (taken ++ commands) off ended := by
  obtain ⟨watcher, s₁, ha, hf⟩ := hc
  obtain ⟨hb, rfl⟩ := accept_eq_ok ha
  have h₁ : Chronicled { s with
      batch := some { waiting := commands, current := none, outcome := .empty, watcher } }
      taken off ended := h.congr rfl rfl (inFlight_of_idle hb).symm
  obtain ⟨s₂, b, ht, hc, he⟩ := (keptByFrames_takes ..).advanceAll_some hf h₁.takes
  exact (chronicled_of_conclude ht hc he).2

theorem chronicled_of_cancel (h : Chronicled s taken off ended) :
    ∃ ended, Chronicled s.cancel.1 taken (off ++ s.inFlight.toList) ended := by
  cases hb : s.batch with
  | none =>
    rw [cancel_of_idle hb, inFlight_of_idle hb, Option.toList_none, List.append_nil]
    exact ⟨ended, h⟩
  | some b =>
    cases hc : b.current with
    | none =>
      rw [cancel_of_waiting hb hc, inFlight_of_batch hb, hc, Option.toList_none,
        List.append_nil]
      exact ⟨ended, h.congr rfl rfl ((inFlight_of_batch hb).trans hc).symm⟩
    | some current =>
      rw [cancel_of_playing hb hc, inFlight_of_batch hb, hc]
      exact ⟨_, h.ends .cancelled ((inFlight_of_batch hb).trans hc) rfl rfl rfl
        (Journal.untimed_record ..) rfl⟩

theorem chronicled_of_run {commands : List Command} {answer : Answer}
    (hc : s.call (.run commands) = some (s', answer)) (h : Chronicled s taken off ended) :
    ∃ ended, Chronicled s' (taken ++ answer.taken commands) off ended := by
  obtain ⟨⟨fault, rfl⟩, rfl⟩ | ⟨n, o, rfl, hcompletes⟩ := call_run hc
  · show ∃ ended, Chronicled s' (taken ++ []) off ended
    rw [List.append_nil]
    exact ⟨ended, h⟩
  · exact chronicled_of_completes hcompletes h

/-- **Every call adds to the story** the commands it takes up and those it
calls off. -/
theorem chronicled_of_call {call : Call} {answer : Answer}
    (hc : s.call call = some (s', answer)) (h : Chronicled s taken off ended) :
    ∃ ended, Chronicled s'
      (taken ++ Event.taken { before := s, call, answer, after := s' })
      (off ++ Event.calledOff { before := s, call, answer, after := s' }) ended := by
  cases call with
  | accept commands watcher =>
    show ∃ ended, Chronicled s' (taken ++ []) (off ++ []) ended
    rw [List.append_nil, List.append_nil]
    rw [Simulation.call] at hc
    split at hc
    · cases hc
      exact ⟨ended, h⟩
    next s₁ ha =>
      cases hc
      obtain ⟨hb, rfl⟩ := accept_eq_ok ha
      exact ⟨ended, h.congr rfl rfl (inFlight_of_idle hb).symm⟩
  | advance seconds =>
    show ∃ ended, Chronicled s' (taken ++ _) (off ++ []) ended
    rw [List.append_nil]
    obtain rfl : (s.advance seconds).1 = s' := congrArg Prod.fst (Option.some.inj hc)
    obtain ⟨passed, ended, hq, h⟩ := takes_of_advance seconds h
    rw [Event.taken_of_advance hq]
    exact ⟨ended, h⟩
  | run commands =>
    show ∃ ended, Chronicled s' (taken ++ answer.taken commands) (off ++ []) ended
    rw [List.append_nil]
    exact chronicled_of_run hc h
  | perform text =>
    -- A text is the batch of the commands that it says.
    show ∃ ended, Chronicled s' (taken ++ answer.taken (Command.readAll text))
      (off ++ []) ended
    rw [List.append_nil]
    exact chronicled_of_run hc h
  | cancel =>
    show ∃ ended, Chronicled s' (taken ++ []) (off ++ s.inFlight.toList) ended
    rw [List.append_nil]
    obtain rfl : s.cancel.1 = s' := congrArg Prod.fst (Option.some.inj hc)
    exact chronicled_of_cancel h
  | setFrame seconds =>
    show ∃ ended, Chronicled s' (taken ++ []) (off ++ []) ended
    rw [List.append_nil, List.append_nil]
    cases hc
    exact ⟨ended, h.congr rfl rfl rfl⟩
  | setRealtime realtime =>
    show ∃ ended, Chronicled s' (taken ++ []) (off ++ []) ended
    rw [List.append_nil, List.append_nil]
    cases hc
    exact ⟨ended, h.congr rfl rfl rfl⟩

theorem Chronicled.follow {calls : List Call} {history : List Event}
    (hs : s.follow calls = some (s', history)) (h : Chronicled s taken off ended) :
    ∃ ended, Chronicled s' (taken ++ history.flatMap Event.taken)
      (off ++ history.flatMap Event.calledOff) ended := by
  induction calls generalizing s taken off ended history with
  | nil =>
    cases hs
    rw [List.flatMap_nil, List.flatMap_nil, List.append_nil, List.append_nil]
    exact ⟨ended, h⟩
  | cons call calls ih =>
    obtain ⟨⟨s₁, answer⟩, hc, hs⟩ := Option.bind_eq_some_iff.mp hs
    obtain ⟨⟨s₂, rest⟩, hr, hs⟩ := Option.bind_eq_some_iff.mp hs
    cases hs
    obtain ⟨ended₁, h₁⟩ := chronicled_of_call hc h
    obtain ⟨ended₂, h₂⟩ := ih hr h₁
    refine ⟨ended₂, ?_⟩
    rw [List.flatMap_cons, List.flatMap_cons, ← List.append_assoc, ← List.append_assoc]
    exact h₂

end Chronicled

/-- A story without commands to begin with. -/
theorem Initial.chronicled {s : Simulation} (h : s.Initial) : Chronicled s [] [] [] := by
  have hf : s.inFlight = none := inFlight_of_idle h.idle
  exact {
    entries := by
      rw [h.untouched.journal, hf]
      rfl
    commands := by
      rw [hf]
      rfl
    nextIndex := h.untouched.nextIndex
    flight := fun hflight => nomatch hf.symm.trans hflight
    cancelled := rfl
    lasting := (nomatch ·) }

/-- **The journal tells what became of every command.** However calls follow
each other, and whatever state the robot was in to begin with, the journal is
the story of the commands that the calls have taken up and called off. -/
theorem chronicled_of_follow {s₀ s : Simulation} {calls : List Call} {history : List Event}
    (h₀ : s₀.Initial) (hs : s₀.follow calls = some (s, history)) :
    ∃ ended, Chronicled s (history.flatMap Event.taken) (history.flatMap Event.calledOff)
      ended :=
  h₀.chronicled.follow hs

/-- A step is called off in the middle, with a turn still waiting; a batch is
refused; and at the end another turn is being played. -/
theorem chronicled_during_turn :
    ∃ s history ended,
      (Simulation.new ⟨3, 3, 1, by decide⟩ (.new 1 1)).follow
          [.accept [.place 0 0 .north, .move, .right] none, .advance (.ofRatio false 1 2),
            .run [.report], .cancel, .accept [.report, .left, .move] none, .advance 0]
        = some (s, history)
      ∧ s.inFlight = some (3, .left)
      ∧ history.flatMap Event.calledOff = [(1, .move)]
      ∧ Chronicled s (history.flatMap Event.taken) (history.flatMap Event.calledOff)
        ended := by
  have hany : ((Simulation.new ⟨3, 3, 1, by decide⟩ (.new 1 1)).follow
      [.accept [.place 0 0 .north, .move, .right] none, .advance (.ofRatio false 1 2),
        .run [.report], .cancel, .accept [.report, .left, .move] none, .advance 0]).any
      (fun p => p.1.inFlight = some (3, .left)
        && p.2.flatMap Event.calledOff = [(1, .move)]) = true := by
    decide +kernel
  obtain ⟨⟨s, history⟩, hs, hp⟩ := (Option.any_eq_true _ _).mp hany
  obtain ⟨hf, hoff⟩ := Bool.and_eq_true_iff.mp hp
  obtain ⟨ended, h⟩ := chronicled_of_follow (.new _ _) hs
  exact ⟨s, history, ended, hs, of_decide_eq_true hf, of_decide_eq_true hoff, h⟩

end Simulation

end Tabletop
