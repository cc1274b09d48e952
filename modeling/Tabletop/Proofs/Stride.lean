import Mathlib.Logic.Relation
import Tabletop.Proofs.History
import Tabletop.Proofs.Obedience

/-!
# The strides of a frame

Within one frame many commands can be taken up and many motions can end. A
**stride** is the smallest part of that work: one waiting command is done,
begun or rejected, or the motion being played ends. A stride carries along
the time that the next motion gets, which is the time of the frame until a
motion ends in it and zero from then on.

`Simulation.advance_ends` says that a frame is a tick of the clock, some
strides, and an end, which is either a motion that outlasts the frame or the
conclusion of the batch. So whatever a tick, a stride, a motion that goes on
and each of the other calls keep is true throughout every history
(`Simulation.Kept.follow`), and that is how the facts about histories are
proved here: one short case for each of these, and never the loop again.
-/

namespace Tabletop

namespace Simulation

/-- One piece of the work of a frame, on a simulation with the time that the
next motion gets. -/
inductive Stride : Simulation × Single → Simulation × Single → Prop
  /-- A command that takes no time is done. -/
  | done {s : Simulation} {d : Single} {b : Batch} {command : Command}
      {rest : List Command} {robot : Robot} {report : Option (List Char)}
      (hb : s.batch = some b) (hc : b.current = none) (hw : b.waiting = command :: rest)
      (ho : s.robot.obey s.table command = .ok (robot, .done report)) :
      Stride (s, d)
        ({ s with
          robot
          nextIndex := s.nextIndex + 1
          batch := some { b with waiting := rest, outcome := b.outcome.addReport report }
          journal := (s.journal.record (s.clock - d.convert) s.nextIndex command
            .started).record (s.clock - d.convert) s.nextIndex command .finished }, d)
  /-- A motion begins. -/
  | begun {s : Simulation} {d : Single} {b : Batch} {command : Command}
      {rest : List Command} {robot : Robot}
      (hb : s.batch = some b) (hc : b.current = none) (hw : b.waiting = command :: rest)
      (ho : s.robot.obey s.table command = .ok (robot, .begun)) :
      Stride (s, d)
        ({ s with
          robot
          nextIndex := s.nextIndex + 1
          batch := some { b with waiting := rest, current := some (s.nextIndex, command) }
          journal := s.journal.record (s.clock - d.convert) s.nextIndex command
            .started }, d)
  /-- A command is passed over. -/
  | rejected {s : Simulation} {d : Single} {b : Batch} {command : Command}
      {rest : List Command} {fault : Fault}
      (hb : s.batch = some b) (hc : b.current = none) (hw : b.waiting = command :: rest)
      (ho : s.robot.obey s.table command = .error fault) :
      Stride (s, d)
        ({ s with
          nextIndex := s.nextIndex + 1
          batch := some { b with waiting := rest, outcome := b.outcome.addFault fault }
          journal := s.journal.record (s.clock - d.convert) s.nextIndex command
            .rejected }, d)
  /-- The motion being played ends, and no time is left for the next one. -/
  | finished {s : Simulation} {d : Single} {b : Batch} {index : Nat} {command : Command}
      {robot : Robot} (hb : s.batch = some b) (hc : b.current = some (index, command))
      (ha : s.robot.advance d = (robot, true)) :
      Stride (s, d)
        ({ s with
          robot
          batch := some { b with current := none }
          journal := s.journal.record s.clock index command .finished }, 0)

/-- Any number of strides. -/
abbrev Strides : Simulation × Single → Simulation × Single → Prop :=
  Relation.ReflTransGen Stride

/-- How a frame ends: a motion outlasts it, or the batch is concluded. -/
inductive Ends : Simulation × Single → Simulation × Option Outcome → Prop
  | playing {s : Simulation} {d : Single} {b : Batch} {index : Nat} {command : Command}
      {robot : Robot} (hb : s.batch = some b) (hc : b.current = some (index, command))
      (ha : s.robot.advance d = (robot, false)) : Ends (s, d) ({ s with robot }, none)
  | concluded {s : Simulation} {d : Single} {b : Batch} (hb : s.batch = some b)
      (hc : b.current = none) (hw : b.waiting = []) :
      Ends (s, d) ((s.conclude b).1, some (s.conclude b).2)

/-- The clock of a frame. -/
def tick (s : Simulation) (seconds : Single) : Simulation :=
  { s with clock := s.clock + (seconds.larger 0).convert }

section Work

variable {s : Simulation} {b : Batch} {d : Single} {command : Command}
  {rest : List Command} {robot : Robot}

theorem work_of_done {report : Option (List Char)}
    (ho : s.robot.obey s.table command = .ok (robot, .done report)) :
    s.work b d (command :: rest)
      = ((({ s with nextIndex := s.nextIndex + 1, robot }).record (s.clock - d.convert)
          s.nextIndex command .started).record (s.clock - d.convert) s.nextIndex command
          .finished).work { b with outcome := b.outcome.addReport report } d rest := by
  rw [work, takeUp, ho]

theorem work_of_rejected {fault : Fault}
    (ho : s.robot.obey s.table command = .error fault) :
    s.work b d (command :: rest)
      = (({ s with nextIndex := s.nextIndex + 1 }).record (s.clock - d.convert)
          s.nextIndex command .rejected).work
          { b with outcome := b.outcome.addFault fault } d rest := by
  rw [work, takeUp, ho]

theorem work_of_over {robot' : Robot}
    (ho : s.robot.obey s.table command = .ok (robot, .begun))
    (ha : robot.advance d = (robot', true)) :
    s.work b d (command :: rest)
      = ((({ s with nextIndex := s.nextIndex + 1, robot := robot' }).record
          (s.clock - d.convert) s.nextIndex command .started).record s.clock s.nextIndex
          command .finished).work b 0 rest := by
  rw [work, takeUp, ho]
  simp only [record, ha]

theorem work_of_playing {robot' : Robot}
    (ho : s.robot.obey s.table command = .ok (robot, .begun))
    (ha : robot.advance d = (robot', false)) :
    s.work b d (command :: rest)
      = ({ ({ s with nextIndex := s.nextIndex + 1 }).record (s.clock - d.convert)
          s.nextIndex command .started with
          robot := robot'
          batch := some { b with waiting := rest, current := some (s.nextIndex, command) } },
        none) := by
  rw [work, takeUp, ho]
  simp only [record, ha]

end Work

/-- The work on waiting commands is made of strides. It looks at no field of
the batch but the outcome and the watcher, so the other two are given here as
they stand in the strides. -/
theorem work_ends (s : Simulation) (b : Batch) (d : Single) (waiting : List Command) :
    ∃ p, Strides ({ s with batch := some { b with waiting, current := none } }, d) p
      ∧ Ends p (s.work b d waiting) := by
  induction waiting generalizing s b d with
  | nil =>
    exact ⟨_, .refl, .concluded (b := { b with waiting := [], current := none }) rfl rfl rfl⟩
  | cons command rest ih =>
    cases ho : s.robot.obey s.table command with
    | error fault =>
      rw [work_of_rejected ho]
      obtain ⟨p, hs, he⟩ := ih (({ s with nextIndex := s.nextIndex + 1 }).record
        (s.clock - d.convert) s.nextIndex command .rejected)
        { b with outcome := b.outcome.addFault fault } d
      exact ⟨p, .head (.rejected rfl rfl rfl ho) hs, he⟩
    | ok result =>
      obtain ⟨robot, report | _⟩ := result
      · rw [work_of_done ho]
        obtain ⟨p, hs, he⟩ := ih ((({ s with nextIndex := s.nextIndex + 1, robot }).record
          (s.clock - d.convert) s.nextIndex command .started).record (s.clock - d.convert)
          s.nextIndex command .finished) { b with outcome := b.outcome.addReport report } d
        exact ⟨p, .head (.done rfl rfl rfl ho) hs, he⟩
      · cases ha : robot.advance d with
        | mk robot' ended =>
          cases ended with
          | true =>
            -- Begun and finished in one frame: two strides, and no time is left.
            rw [work_of_over ho ha]
            obtain ⟨p, hs, he⟩ := ih ((({ s with
              nextIndex := s.nextIndex + 1, robot := robot' }).record (s.clock - d.convert)
              s.nextIndex command .started).record s.clock s.nextIndex command .finished) b 0
            exact ⟨p, .head (.begun rfl rfl rfl ho) (.head (.finished rfl rfl ha) hs), he⟩
          | false =>
            rw [work_of_playing ho ha]
            exact ⟨_, .single (.begun rfl rfl rfl ho), .playing rfl rfl ha⟩

section Advance

variable {s : Simulation} {b : Batch} (seconds : Single)

theorem advance_of_idle (hb : s.batch = none) : s.advance seconds = (s, none) := by
  rw [advance, hb]

theorem advance_of_waiting (hb : s.batch = some b) (hc : b.current = none) :
    s.advance seconds = (s.tick seconds).work b (seconds.larger 0) b.waiting := by
  cases s
  cases b
  cases hb
  cases hc
  rfl

variable {seconds} {index : Nat} {command : Command} {robot : Robot}

theorem advance_of_over (hb : s.batch = some b) (hc : b.current = some (index, command))
    (ha : s.robot.advance (seconds.larger 0) = (robot, true)) :
    s.advance seconds
      = (({ s.tick seconds with robot }).record (s.tick seconds).clock index command
        .finished).work { b with current := none } 0 b.waiting := by
  cases s
  cases b
  cases hb
  cases hc
  simp only [advance, ha]
  rfl

theorem advance_of_playing (hb : s.batch = some b) (hc : b.current = some (index, command))
    (ha : s.robot.advance (seconds.larger 0) = (robot, false)) :
    s.advance seconds = ({ s.tick seconds with robot }, none) := by
  cases s
  cases b
  cases hb
  cases hc
  simp only [advance, ha]
  rfl

variable (seconds)

/-- **A frame is a tick, some strides and an end.** -/
theorem advance_ends (hb : s.batch = some b) :
    ∃ p, Strides (s.tick seconds, seconds.larger 0) p ∧ Ends p (s.advance seconds) := by
  cases hc : b.current with
  | none =>
    -- The work begins with the batch as it stands: nothing was in flight.
    have hs : { s.tick seconds with batch := some { b with current := none } }
        = s.tick seconds := by
      cases s
      cases b
      cases hb
      cases hc
      rfl
    rw [advance_of_waiting seconds hb hc]
    obtain ⟨p, hp, he⟩ := work_ends (s.tick seconds) b (seconds.larger 0) b.waiting
    exact ⟨p, hs ▸ hp, he⟩
  | some current =>
    obtain ⟨index, command⟩ := current
    cases ha : s.robot.advance (seconds.larger 0) with
    | mk robot ended =>
      cases ended with
      | true =>
        rw [advance_of_over hb hc ha]
        obtain ⟨p, hp, he⟩ := work_ends (({ s.tick seconds with robot }).record
          (s.tick seconds).clock index command .finished) { b with current := none } 0
          b.waiting
        exact ⟨p, .head (.finished hb hc ha) hp, he⟩
      | false =>
        rw [advance_of_playing hb hc ha]
        exact ⟨_, .refl, .playing (s := s.tick seconds) hb hc ha⟩

end Advance

section Cancel

variable {s : Simulation} {b : Batch}

theorem cancel_of_idle (hb : s.batch = none) : s.cancel = (s, none) := by
  rw [cancel, hb]

theorem cancel_of_waiting (hb : s.batch = some b) (hc : b.current = none) :
    s.cancel = ((s.conclude { b with outcome := { b.outcome with cancelled := true } }).1,
      some { b.outcome with cancelled := true }) := by
  simp only [cancel, hb, hc]
  rfl

theorem cancel_of_playing {index : Nat} {command : Command} (hb : s.batch = some b)
    (hc : b.current = some (index, command)) :
    s.cancel = (((({ s with robot := s.robot.halt }).record s.clock index command
        .cancelled).conclude { b with outcome := { b.outcome with cancelled := true } }).1,
      some { b.outcome with cancelled := true }) := by
  simp only [cancel, hb, hc]
  rfl

end Cancel

end Simulation

end Tabletop
