import Tabletop.Proofs.Meaning
import Tabletop.Proofs.Moment

/-!
# When motions end

A turn or a step takes the time that the robot was set up with. It begins
somewhere in a frame, often between two other commands, and ends in the first
frame after which all of its time has been played (`AllPlayed`). Until then
the robot keeps its pose and no further command is taken up.

How much has been played is a sum of doubles that is rounded after each
frame, so the frames must be counted with that sum and not with the exact
one: `playedAfter` adds in the order of the frames. The first amount in it is
the time of the frame in which the motion begins, or none if another motion
has ended in that frame before.

The main statement is `Simulation.timed_of_follow`. It is about every
sequence of frames after any history, and `Timed` lists what it says.
-/

namespace Tabletop

/-- The time that the motion of a command takes. -/
def Robot.timeFor (r : Robot) : Command → Single
  | .move => soundDuration r.stepDuration
  | _ => soundDuration r.turnDuration

/-- The time played of a motion, as it is kept: what it gets of the frame in
which it begins, and then the time of each further frame. -/
def playedAfter (first : Single) (further : Nat → Single) : Nat → Double
  | 0 => 0 + first.convert
  | n + 1 => playedAfter first further n + ((further n).larger 0).convert

/-- All the time of a motion has been played, so many frames after the one in
which it began. -/
def AllPlayed (duration first : Single) (further : Nat → Single) (n : Nat) : Prop :=
  (duration.convert : Double) ≤ playedAfter first further n

namespace Binary

theorem larger_self {F : Format} (x : Binary F) : x.larger x = x := by
  cases x with
  | nan => rfl
  | infinite | finite => exact ite_self _

theorem larger_eq_or {F : Format} (x y : Binary F) : x.larger y = x ∨ x.larger y = y := by
  unfold larger
  split
  · exact .inr rfl
  · exact .inl rfl
  · split
    · exact .inr rfl
    · exact .inl rfl

theorem larger_larger {F : Format} (x y : Binary F) :
    (x.larger y).larger y = x.larger y := by
  obtain h | h := larger_eq_or x y
  · rw [h, h]
  · rw [h, larger_self]

end Binary

namespace Robot

variable {r : Robot} {t : Table} {command : Command} {path : Path}

/-- The times of a robot stay what they were. -/
theorem timeFor_of_obey {r' : Robot} {effect : Effect}
    (ho : r.obey t command = .ok (r', effect)) : r'.timeFor = r.timeFor := by
  cases obeyed_of_eq ho with
  | placed => rfl
  | reported => rfl
  | blocked => rfl
  | begun => rfl

theorem timeFor_arrived : r.arrived.timeFor = r.timeFor := by
  unfold arrived
  split
  · rfl
  next motion _ =>
    cases motion.path <;> rfl

theorem timeFor_of_undertakes (hu : r.Undertakes t command path) :
    r.timeFor command = soundDuration (r.durationOf path) := by
  cases hu <;> rfl

/-- What a robot settles on does not depend on how far it has come. -/
theorem settle_with_motion (motion : Option Motion) (path : Path) :
    ({ r with motion } : Robot).settle path = r.settle path := by
  cases path <;> rfl

theorem advance_of_moving {motion : Motion} (hm : r.motion = some motion) (d : Single) :
    r.advance d = if (motion.play d).isOver then (r.settle motion.path, true)
      else ({ r with motion := some (motion.play d) }, false) := by
  rw [advance, hm]
  rfl

end Robot

namespace Simulation

/-- The simulation before each frame of a sequence of frames. -/
def frames (s : Simulation) (seconds : Nat → Single) : Nat → Simulation
  | 0 => s
  | n + 1 => ((s.frames seconds n).advance (seconds n)).1

/-- A motion that began between two moments outlasts a frame: the robot keeps
its pose and no further command is taken up. -/
structure Outlasts (s : Simulation) (seconds : Single) (p q : Simulation × Single)
    (index : Nat) (command : Command) : Prop where
  outcome : (s.advance seconds).2 = none
  flight : (s.advance seconds).1.inFlight = some (index, command)
  robot : (s.advance seconds).1.robot.halt = p.1.robot
  waiting : (s.advance seconds).1.waiting = q.1.waiting
  journal : (s.advance seconds).1.journal = q.1.journal

/-- A motion that began between two moments ends between two others, at the
end of a frame: the robot takes the pose which the command means, and nothing
has happened in between. -/
structure Lands (s : Simulation) (seconds : Single) (p q u v : Simulation × Single)
    (index : Nat) (command : Command) : Prop where
  finishes : s.Finishes seconds u v index command
  robot : u.1.robot.halt = p.1.robot
  waiting : u.1.waiting = q.1.waiting
  journal : u.1.journal = q.1.journal
  pose : v.1.robot.pose = ((Reckoning.start p.1.robot.pose).obey s.table command).pose
  entered : v.1.journal
    = q.1.journal.record (s.advance seconds).1.clock index command .finished

/-- **A motion ends on time.** It begins between two moments of the frame
`k`. -/
structure OnTime (s : Simulation) (seconds : Nat → Single) (k : Nat)
    (p q : Simulation × Single) (index : Nat) (command : Command) (duration : Single) :
    Prop where
  /-- It gets no time of the frame in which it begins if another motion has
  ended in that frame before. -/
  none : (s.frames seconds k).FinishedBefore (seconds k) p → p.2 = 0
  /-- Otherwise it gets all of it. -/
  whole : ¬ (s.frames seconds k).FinishedBefore (seconds k) p → p.2 = (seconds k).larger 0
  /-- It is entered in the journal with the time at which it begins. -/
  entered : q.1.journal
    = p.1.journal.record ((s.frames seconds (k + 1)).clock - p.2.convert) index command
      .started
  /-- It outlasts every frame after which some of its time is left. -/
  lasts : ∀ n, (∀ m ≤ n, ¬ AllPlayed duration p.2 (fun i => seconds (k + 1 + i)) m) →
    (s.frames seconds (k + n)).Outlasts (seconds (k + n)) p q index command
  /-- It ends in the first frame after which none is left. -/
  ends : ∀ n, (∀ m < n, ¬ AllPlayed duration p.2 (fun i => seconds (k + 1 + i)) m) →
    AllPlayed duration p.2 (fun i => seconds (k + 1 + i)) n →
    ∃ u v, (s.frames seconds (k + n)).Lands (seconds (k + n)) p q u v index command

/-! ## While a motion goes on -/

section Held

variable {s : Simulation} {seconds : Single} {p q : Simulation × Single} {index : Nat}
  {command : Command}

/-- The simulation at another time of the clock, with its robot on the way. -/
def held (s : Simulation) (clock : Double) (m : Motion) : Simulation :=
  { s with clock, robot := { s.robot with motion := some m } }

theorem held_self {m : Motion} (hm : s.robot.motion = some m) : s.held s.clock m = s := by
  obtain ⟨table, ⟨position, facing, motion, turnDuration, stepDuration⟩, frame, realtime,
    clock, nextIndex, batch, journal, notices⟩ := s
  subst hm
  rfl

/-- The frame ends with a motion that is not over at its end. -/
theorem Moment.held_lasts {clock : Double} {m : Motion} {d : Single}
    (h : s.Moment seconds (q.1.held clock m, d)) (hf : q.1.inFlight = some (index, command))
    (ho : (m.play d).isOver = false) :
    s.advance seconds = (q.1.held clock (m.play d), none) := by
  obtain ⟨b, hb, hc⟩ := Option.bind_eq_some_iff.mp hf
  have hadvance := Robot.advance_of_moving (r := (q.1.held clock m).robot) rfl d
  rw [ho] at hadvance
  obtain ⟨robot, ha, he⟩ | ⟨robot, ha, -⟩ := h.flight hb hc
  · cases hadvance.symm.trans ha
    exact he
  · cases hadvance.symm.trans ha

/-- One that is over ends with the frame. -/
theorem Moment.held_ends {clock : Double} {m : Motion} {d : Single}
    (h : s.Moment seconds (q.1.held clock m, d)) (hf : q.1.inFlight = some (index, command))
    (ho : (m.play d).isOver = true) :
    ∃ v, s.Finishes seconds (q.1.held clock m, d) v index command
      ∧ v.1.robot = q.1.robot.settle m.path
      ∧ v.1.journal = q.1.journal.record clock index command .finished := by
  obtain ⟨b, hb, hc⟩ := Option.bind_eq_some_iff.mp hf
  have hadvance := Robot.advance_of_moving (r := (q.1.held clock m).robot) rfl d
  rw [ho, if_pos rfl] at hadvance
  obtain ⟨robot, ha, -⟩ | ⟨robot, ha, hfinish⟩ := h.flight hb hc
  · cases hadvance.symm.trans ha
  · cases hadvance.symm.trans ha
    exact ⟨_, hfinish, Robot.settle_with_motion _ _, rfl⟩

/-- A motion begins with a resting robot that sets out on the way which the
command sends it. -/
theorem Begins.setOut (h : s.Begins seconds p q index command) :
    ∃ path, p.1.robot.motion = none ∧ p.1.robot.isPlaced = true
      ∧ p.1.robot.Undertakes p.1.table command path
      ∧ q.1.robot = p.1.robot.setOut path ∧ q.2 = p.2
      ∧ q.1.journal
        = p.1.journal.record (p.1.clock - p.2.convert) index command .started := by
  have hflight := h.flight
  cases h.stride with
  | done hb hc => cases hc.symm.trans hflight
  | rejected hb hc => cases hc.symm.trans hflight
  | finished => cases hflight
  | begun hb hc hw ho =>
    cases hflight
    cases Robot.obeyed_of_eq ho with
    | begun hm hp hu => exact ⟨_, hm, hp, hu, rfl, rfl, rfl⟩

/-- In a frame so many frames later the motion goes on, with the time played
that the frames up to this one make up. -/
structure Aloft (s : Simulation) (seconds : Nat → Single) (k : Nat) (q : Simulation × Single)
    (begun : Motion) (n : Nat) (clock : Double) (m : Motion) (d : Single) : Prop where
  moment : (s.frames seconds (k + n)).Moment (seconds (k + n)) (q.1.held clock m, d)
  path : m.path = begun.path
  duration : m.duration = begun.duration
  elapsed : (m.play d).elapsed = playedAfter q.2 (fun i => seconds (k + 1 + i)) n

variable {amounts : Nat → Single} {k n : Nat} {begun m : Motion} {clock : Double} {d : Single}

/-- The motion is over at the end of the frame when all its time has been
played. -/
theorem Aloft.isOver_iff (h : Aloft s amounts k q begun n clock m d) :
    (m.play d).isOver = true
      ↔ AllPlayed begun.duration q.2 (fun i => amounts (k + 1 + i)) n := by
  rw [AllPlayed, ← h.elapsed, ← h.duration]
  rfl

theorem Aloft.next (h : Aloft s amounts k q begun n clock m d)
    (hf : q.1.inFlight = some (index, command))
    (hn : ¬ AllPlayed begun.duration q.2 (fun i => amounts (k + 1 + i)) n) :
    Aloft s amounts k q begun (n + 1)
      (clock + ((amounts (k + (n + 1))).larger 0).convert) (m.play d)
      ((amounts (k + (n + 1))).larger 0) where
  moment := by
    have ho := Bool.eq_false_iff.mpr (mt h.isOver_iff.mp hn)
    have hframe : s.frames amounts (k + (n + 1)) = q.1.held clock (m.play d) :=
      congrArg Prod.fst (h.moment.held_lasts hf ho)
    obtain ⟨b, hb, -⟩ := Option.bind_eq_some_iff.mp hf
    rw [hframe]
    exact moment_tick _ hb
  path := h.path
  duration := h.duration
  elapsed := by
    have hframe : k + (n + 1) = k + 1 + n := by omega
    show (m.play d).elapsed + _ = _
    rw [h.elapsed, Binary.larger_larger, playedAfter, hframe]

/-- **A motion goes on until all its time has been played.** -/
theorem exists_aloft (hq : (s.frames amounts k).Moment (amounts k) q)
    (hf : q.1.inFlight = some (index, command)) (hm : q.1.robot.motion = some begun)
    (he : (begun.play q.2).elapsed = 0 + q.2.convert)
    (hn : ∀ i < n, ¬ AllPlayed begun.duration q.2 (fun i => amounts (k + 1 + i)) i) :
    ∃ clock m d, Aloft s amounts k q begun n clock m d := by
  induction n with
  | zero =>
    refine ⟨q.1.clock, begun, q.2, ?_, rfl, rfl, he⟩
    rw [held_self hm]
    exact hq
  | succ n ih =>
    obtain ⟨clock, m, d, h⟩ := ih fun i hi => hn i (Nat.lt_succ_of_lt hi)
    exact ⟨_, _, _, h.next hf (hn n (Nat.lt_succ_self n))⟩

end Held

/-! ## Any number of frames -/

/-- The robot takes the times that it was set up with. -/
theorem kept_timeFor (time : Command → Single) : Kept fun s => s.robot.timeFor = time := by
  refine kept_of_frames ⟨fun _ h => h, fun hs h => ?_, fun _ _ ha h => ?_⟩
    (fun h _ hr _ _ => hr ▸ h) (fun h => h) (fun _ h => h)
  · cases hs with
    | done _ _ _ ho => exact (Robot.timeFor_of_obey ho).trans h
    | begun _ _ _ ho => exact (Robot.timeFor_of_obey ho).trans h
    | rejected => exact h
    | finished _ _ ha =>
      rw [Robot.arrived_of_advance ha]
      exact Robot.timeFor_arrived.trans h
  · obtain ⟨motion, -, rfl⟩ := Robot.playing_of_advance ha
    exact h

theorem entries_record (j : Journal) (clock : Double) (index : Nat) (command : Command)
    (phase : Phase) :
    j.entries.toList <+: (j.record clock index command phase).entries.toList := by
  rw [Journal.record, Array.toList_push]
  exact List.prefix_append _ _

/-- What is entered in the journal stays there. -/
theorem kept_entries (entries : List Entry) :
    Kept fun s => entries <+: s.journal.entries.toList := by
  refine kept_of_frames ⟨fun _ h => h, fun hs h => ?_, fun _ _ _ h => h⟩
    (fun h _ _ hj _ => hj ▸ h) (fun h => h.trans (entries_record ..)) (fun _ h => h)
  cases hs with
  | done => exact (h.trans (entries_record ..)).trans (entries_record ..)
  | begun => exact h.trans (entries_record ..)
  | rejected => exact h.trans (entries_record ..)
  | finished => exact h.trans (entries_record ..)

theorem frames_kept {P : Simulation → Prop} (k : Kept P) {s : Simulation} (hs : P s)
    (seconds : Nat → Single) (n : Nat) : P (s.frames seconds n) := by
  induction n with
  | zero => exact hs
  | succ n ih => exact k.advance _ ih

theorem frames_add (s : Simulation) (seconds : Nat → Single) (m n : Nat) :
    s.frames seconds (m + n) = (s.frames seconds m).frames (fun i => seconds (m + i)) n := by
  induction n with
  | zero => rfl
  | succ n ih =>
    show ((s.frames seconds (m + n)).advance _).1 = _
    rw [ih]
    rfl

/-- A frame ends with a motion that goes on exactly if it is a frame of a
batch and comes back with nothing. -/
theorem isMoving_advance_iff {s : Simulation} (hs : s.Steady) (seconds : Single) :
    (s.advance seconds).1.robot.isMoving = true
      ↔ s.isRunning = true ∧ (s.advance seconds).2 = none := by
  cases hb : s.batch with
  | none =>
    have hrest := Robot.isMoving_eq_false (hs.rest (inFlight_of_idle hb))
    rw [advance_of_idle seconds hb, isRunning, hb]
    exact iff_of_false (Bool.eq_false_iff.mp hrest) fun h => by cases h.1
  | some b =>
    have hrunning : s.isRunning = true := by rw [isRunning, hb]; rfl
    obtain ⟨p, hp, he⟩ := advance_ends seconds hb
    have hsteady := kept_steady.strides hp (kept_steady.ticked _ hs)
    generalize s.advance seconds = result at he
    cases he with
    | playing hb' hc ha =>
      obtain ⟨motion, -, rfl⟩ := Robot.playing_of_advance ha
      exact iff_of_true rfl ⟨hrunning, rfl⟩
    | concluded hb' hc =>
      have hrest := Robot.isMoving_eq_false (hsteady.rest_of_current hb' hc)
      exact iff_of_false (Bool.eq_false_iff.mp hrest) fun h => by cases h.2

/-! ## On time -/

/-- **When things happen** in a sequence of frames, in which the robot takes
some time for each command. -/
structure Timed (s : Simulation) (seconds : Nat → Single) (time : Command → Single) :
    Prop where
  /-- Every motion that begins ends on time. -/
  onTime : ∀ {k p q index command},
    (s.frames seconds k).Begins (seconds k) p q index command →
      s.OnTime seconds k p q index command (time command)
  /-- What a frame ends with has begun, in this frame or before. -/
  begun : ∀ {n index command},
    (s.frames seconds (n + 1)).inFlight = some (index, command) →
      (s.frames seconds n).inFlight = some (index, command)
        ∨ ∃ p q, (s.frames seconds n).Begins (seconds n) p q index command
  /-- While no motion is in flight, the next command is taken up in the same
  frame. -/
  prompt : ∀ {n p command rest}, (s.frames seconds n).Moment (seconds n) p →
    p.1.inFlight = none → p.1.waiting = command :: rest →
      ∃ q, (s.frames seconds n).Moment (seconds n) q ∧ Stride p q ∧ q.1.waiting = rest
  /-- What has been entered at a moment is in the journal after every later
  frame. -/
  entered : ∀ {n p m}, (s.frames seconds n).Moment (seconds n) p → n < m →
    p.1.journal.entries.toList <+: (s.frames seconds m).journal.entries.toList
  /-- A frame ends with a motion that goes on exactly if it is a frame of a
  batch and comes back with nothing. -/
  outcome : ∀ n, (s.frames seconds (n + 1)).robot.isMoving = true
    ↔ (s.frames seconds n).isRunning = true
      ∧ ((s.frames seconds n).advance (seconds n)).2 = none
  /-- The clock adds up the frames of batches. -/
  clock : ∀ n, (s.frames seconds n).isRunning = true →
    (s.frames seconds (n + 1)).clock
      = (s.frames seconds n).clock + ((seconds n).larger 0).convert
  /-- Without a batch, nothing changes. -/
  idle : ∀ n, (s.frames seconds n).isRunning = false →
    (s.frames seconds n).advance (seconds n) = (s.frames seconds n, none)

section OnTime

variable {s : Simulation} {seconds : Nat → Single} {k : Nat} {p q : Simulation × Single}
  {index : Nat} {command : Command}

/-- Whatever the next motion gets, it is no less than no time. -/
theorem Moment.larger_zero {amount : Single} (h : s.Moment amount p) : p.2.larger 0 = p.2 := by
  obtain ⟨hnone, hwhole⟩ := h.share
  by_cases hf : s.FinishedBefore amount p
  · rw [hnone hf, Binary.larger_self]
  · rw [hwhole hf, Binary.larger_larger]

/-- What a motion is sent along leads to the pose which the command means. -/
theorem pose_of_undertakes {r : Robot} {t : Table} {path : Path} (hp : r.isPlaced = true)
    (hu : r.Undertakes t command path) :
    ((r.setOut path).settle path).pose = ((Reckoning.start r.pose).obey t command).pose :=
  congrArg Reckoning.pose
    (Standing.reckoning_of_begun (a := { robot := r, outcome := .empty }) hp hu)

/-- The robot sets out between two moments, on the way that the command sends
it, for as long as it has been set up to take. -/
structure SetsOut (s : Simulation) (p q : Simulation × Single) (command : Command)
    (path : Path) : Prop where
  rest : p.1.robot.motion = none
  placed : p.1.robot.isPlaced = true
  way : p.1.robot.Undertakes s.table command path
  duration : soundDuration (p.1.robot.durationOf path) = s.robot.timeFor command
  robot : q.1.robot = p.1.robot.setOut path
  share : q.2 = p.2

theorem exists_setsOut (h : (s.frames seconds k).Begins (seconds k) p q index command) :
    ∃ path, s.SetsOut p q command path := by
  obtain ⟨path, hm, hp, hu, hrobot, hshare, -⟩ := h.setOut
  have htime : p.1.robot.timeFor = s.robot.timeFor :=
    (kept_timeFor _).moment h.before (frames_kept (kept_timeFor s.robot.timeFor) rfl _ _)
  have htable : p.1.table = s.table :=
    (kept_table _).moment h.before (frames_kept (kept_table s.table) rfl _ _)
  refine ⟨path, hm, hp, htable ▸ hu, ?_, hrobot, hshare⟩
  rw [← htime]
  exact (Robot.timeFor_of_undertakes hu).symm

theorem SetsOut.halt {path : Path} (h : s.SetsOut p q command path) :
    q.1.robot.halt = p.1.robot := by
  rw [h.robot]
  exact Robot.halt_of_rest h.rest

/-- The motion goes on until the time that its command takes has been
played. -/
theorem SetsOut.aloft {path : Path} (h : s.SetsOut p q command path)
    (hq : (s.frames seconds k).Moment (seconds k) q)
    (hf : q.1.inFlight = some (index, command)) {n : Nat}
    (hn : ∀ i < n, ¬ AllPlayed (s.robot.timeFor command) p.2 (fun i => seconds (k + 1 + i)) i) :
    ∃ clock m d,
      Aloft s seconds k q (.along path (p.1.robot.durationOf path)) n clock m d := by
  refine exists_aloft hq hf ?_ ?_ ?_
  · rw [h.robot]
    rfl
  · show 0 + (q.2.larger 0).convert = _
    rw [hq.larger_zero]
  · show ∀ i < n, ¬ AllPlayed (soundDuration (p.1.robot.durationOf path)) _ _ i
    rw [h.duration, h.share]
    exact hn

/-- It is over at the end of a frame when that time has been played. -/
theorem SetsOut.isOver_iff {path : Path} (h : s.SetsOut p q command path) {n : Nat}
    {clock : Double} {m : Motion} {d : Single}
    (ha : Aloft s seconds k q (.along path (p.1.robot.durationOf path)) n clock m d) :
    (m.play d).isOver = true
      ↔ AllPlayed (s.robot.timeFor command) p.2 (fun i => seconds (k + 1 + i)) n := by
  rw [ha.isOver_iff, h.share, ← h.duration]
  rfl

/-- **Every motion that begins ends on time.** -/
theorem onTime_of_begins (h : (s.frames seconds k).Begins (seconds k) p q index command) :
    s.OnTime seconds k p q index command (s.robot.timeFor command) := by
  obtain ⟨path, hset⟩ := exists_setsOut h
  obtain ⟨-, -, -, -, -, -, hjournal⟩ := h.setOut
  refine ⟨h.before.share.1, h.before.share.2, ?_, fun n hn => ?_, fun n hn hall => ?_⟩
  · rw [hjournal, h.before.clock]
    rfl
  · obtain ⟨clock, m, d, ha⟩ := hset.aloft h.after h.flight fun i hi => hn i (Nat.le_of_lt hi)
    have ho := Bool.eq_false_iff.mpr (mt (hset.isOver_iff ha).mp (hn n (Nat.le_refl n)))
    have hend := ha.moment.held_lasts h.flight ho
    constructor <;> rw [hend]
    · exact h.flight
    · exact hset.halt
    · rfl
    · rfl
  · obtain ⟨clock, m, d, ha⟩ := hset.aloft h.after h.flight hn
    obtain ⟨v, hfinish, hsettle, hentered⟩ :=
      ha.moment.held_ends h.flight ((hset.isOver_iff ha).mpr hall)
    refine ⟨_, v, hfinish, hset.halt, rfl, rfl, ?_, ?_⟩
    · rw [hsettle, ha.path, hset.robot, frames_kept (kept_table s.table) rfl]
      exact pose_of_undertakes hset.placed hset.way
    · rw [hentered, ← ha.moment.clock]
      rfl

end OnTime

/-- What a frame ends with has begun, in this frame or before. -/
theorem inFlight_of_advance {s : Simulation} {seconds : Single} {index : Nat}
    {command : Command} (h : (s.advance seconds).1.inFlight = some (index, command)) :
    s.inFlight = some (index, command) ∨ ∃ p q, s.Begins seconds p q index command := by
  cases hb : s.batch with
  | none =>
    rw [advance_of_idle seconds hb] at h
    exact .inl h
  | some b => exact Classical.or_iff_not_imp_left.mpr (begins_of_inFlight hb h)

/-- **Motions begin and end on time,** in every sequence of frames after any
history, and the commands between them take none. -/
theorem timed_of_follow {s₀ s : Simulation} {calls : List Call} {history : List Event}
    (h₀ : s₀.Initial) (hm : s₀.robot.motion = none)
    (hs : s₀.follow calls = some (s, history)) (seconds : Nat → Single) :
    s.Timed seconds s₀.robot.timeFor where
  onTime h := by
    rw [← (kept_timeFor s₀.robot.timeFor).follow hs rfl]
    exact onTime_of_begins h
  begun := inFlight_of_advance
  prompt h hf hw := h.prompt hf hw
  entered {n p m} h hlt := by
    obtain ⟨i, rfl⟩ := Nat.exists_eq_add_of_lt hlt
    have hn := (kept_entries p.1.journal.entries.toList).advance_of_moment h List.prefix_rfl
    rw [Nat.add_right_comm, frames_add]
    exact frames_kept (kept_entries _) hn _ _
  outcome n := by
    have hsteady := kept_steady.follow hs (h₀.steady hm)
    exact isMoving_advance_iff (frames_kept kept_steady hsteady _ _) _
  clock n hrun := by
    obtain ⟨b, hb⟩ := Option.isSome_iff_exists.mp hrun
    exact (moment_tick (seconds n) hb).clock.symm
  idle n hrun := advance_of_idle _ (Option.not_isSome_iff_eq_none.mp (Bool.eq_false_iff.mp hrun))

/-- The robot turns for a second, in four frames of a quarter, and sets out at
the end of the last of them. -/
theorem timed_step_after_turn :
    ∃ s history p q,
      (Simulation.new ⟨3, 3, 1, by decide⟩ (.new 1 2)).follow
          [.accept [.place 0 0 .east, .left, .move, .report] none]
        = some (s, history)
      ∧ (s.frames (fun _ => .ofRatio false 1 4) 3).Begins (.ofRatio false 1 4) p q 2 .move
      ∧ s.OnTime (fun _ => .ofRatio false 1 4) 3 p q 2 .move
        ((Simulation.new ⟨3, 3, 1, by decide⟩ (.new 1 2)).robot.timeFor .move) := by
  have hany : ((Simulation.new ⟨3, 3, 1, by decide⟩ (.new 1 2)).follow
      [.accept [.place 0 0 .east, .left, .move, .report] none]).any
      (fun p => (p.1.frames (fun _ => .ofRatio false 1 4) 3).inFlight = some (1, .left)
        && (p.1.frames (fun _ => .ofRatio false 1 4) 4).inFlight = some (2, .move)) = true := by
    decide +kernel
  obtain ⟨⟨s, history⟩, hs, hflight⟩ := (Option.any_eq_true _ _).mp hany
  obtain ⟨hbefore, hafter⟩ := (Bool.and_eq_true _ _).mp hflight
  have htimed := timed_of_follow (.new _ _) rfl hs (fun _ => .ofRatio false 1 4)
  obtain hsame | ⟨p, q, hbegins⟩ := htimed.begun (of_decide_eq_true hafter)
  · cases (of_decide_eq_true hbefore).symm.trans hsame
  · exact ⟨s, history, p, q, hs, hbegins, htimed.onTime hbegins⟩

end Simulation

end Tabletop
