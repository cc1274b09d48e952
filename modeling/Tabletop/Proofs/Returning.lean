import Tabletop.Proofs.Attaining

/-!
# Which runs come back

A run comes back when its batch ends, and that ends if each of its motions does.
Frames of a run are equal, so a motion ends if its duration is attained by the
frame (`Attains`), and goes on for ever if it is not. Which motions a batch
has is known before its first frame: `Standing.motions`.

Hence the main statement, `Simulation.perform_returns_iff`: a batch ends exactly
if the durations of its motions are attained. They are, up to 2^52 frames, and
they are not beyond 2^54: there the time of a frame is rounded away beside the
time played. A step may be asked to take that long, so there are settings under
which a run never comes back (`Simulation.endless_step`). Otherwise it does,
unless it has to wait for a frame that is too long to be waited for.
-/

namespace Tabletop

namespace Standing

/-- The commands among these that send the robot on its way. -/
def motions (t : Table) (a : Standing) : List Command → List Command
  | [] => []
  | command :: rest =>
    match a.robot.obey t command with
    | .ok (_, .begun) => command :: (a.obey t command).motions t rest
    | _ => (a.obey t command).motions t rest

variable {t : Table} {a : Standing} {command : Command} {robot : Robot}

theorem motions_of_done {report : Option (List Char)}
    (ho : a.robot.obey t command = .ok (robot, .done report)) (rest : List Command) :
    a.motions t (command :: rest)
      = ({ robot, outcome := a.outcome.addReport report } : Standing).motions t rest := by
  rw [motions, ho, obey_of_done ho]

theorem motions_of_begun (ho : a.robot.obey t command = .ok (robot, .begun))
    (rest : List Command) :
    a.motions t (command :: rest)
      = command :: ({ a with robot := robot.arrived } : Standing).motions t rest := by
  rw [motions, ho, obey_of_begun ho]

theorem motions_of_rejected {fault : Fault} (ho : a.robot.obey t command = .error fault)
    (rest : List Command) :
    a.motions t (command :: rest)
      = ({ a with outcome := a.outcome.addFault fault } : Standing).motions t rest := by
  rw [motions, ho, obey_of_rejected ho]

end Standing

namespace Simulation

/-! ## The frames of a run -/

/-- Every frame that a run can have is positive. -/
theorem kept_frame : Kept fun s => s.frame.Positive :=
  kept_of_frames
    { ticked := fun _ h => h
      stride := fun hs h => by cases hs <;> exact h
      played := fun _ _ _ h => h }
    (fun h _ _ _ hf => hf ▸ h) (fun h => h) (fun seconds _ => positive_soundFrame seconds)

theorem Initial.frame {s : Simulation} (h : s.Initial) : s.frame.Positive := by
  cases h with
  | new t r =>
    simp only [Simulation.new]
    exact positive_frames.1
  | settings h =>
    obtain ⟨t, rfl⟩ := eq_of_settings h
    exact positive_soundFrame _

/-! ## In the middle of a run -/

/-- **A run on its course** to end `whole`, the motions of its batch: some of
them have ended, one may go on, the others are still to begin. -/
structure Course (frame : Single) (time : Command → Single) (whole : List Command)
    (s : Simulation) (past : List Command) (b : Batch) : Prop where
  steady : s.Steady
  times : s.robot.timeFor = time
  batch : s.batch = some b
  /-- No motion is lost. -/
  whole : past ++ ((b.current.map Prod.snd).toList
    ++ ({ robot := s.robot.arrived, outcome := b.outcome } : Standing).motions s.table b.waiting)
      = whole
  /-- A motion ends only if its duration is attained. -/
  attained : ∀ command ∈ past, Attains frame (time command)
  /-- The one that goes on has been played for some frames. -/
  played : ∀ {index : Nat} {command : Command}, b.current = some (index, command) →
    ∃ motion n, s.robot.motion = some motion ∧ motion.duration = time command
      ∧ motion.elapsed = playedAfter 0 (fun _ => frame) n

/-- A run on its course, when the next motion gets the time of the frame or
none. -/
def OnCourse (frame : Single) (time : Command → Single) (whole : List Command)
    (p : Simulation × Single) : Prop :=
  (p.2 = frame ∨ p.2 = 0) ∧ ∃ past b, Course frame time whole p.1 past b

section Course

variable {frame : Single} {time : Command → Single} {whole past : List Command}
  {s s' : Simulation} {b : Batch} {d : Single} {command : Command}

/-- With nothing in flight, what is left are the motions of the commands that
wait. -/
theorem Course.whole_of_waiting (h : Course frame time whole s past b)
    (hc : b.current = none) :
    past ++ ({ robot := s.robot, outcome := b.outcome } : Standing).motions s.table b.waiting
      = whole := by
  rw [← h.whole, hc, Robot.arrived_of_rest (h.steady.rest_of_current h.batch hc)]
  rfl

/-- A motion plays a whole frame or nothing at all. -/
theorem elapsed_play (hf : frame.Positive) (hd : d = frame ∨ d = 0) {motion : Motion}
    {n : Nat} (he : motion.elapsed = playedAfter 0 (fun _ => frame) n) :
    ∃ m, (motion.play d).elapsed = playedAfter 0 (fun _ => frame) m := by
  obtain hd | hd := hd
  · exact ⟨n + 1, by rw [hd, playedAfter, ← he]; rfl⟩
  · refine ⟨n, ?_⟩
    show motion.elapsed + (d.larger 0).convert = _
    rw [hd, he, Binary.larger_self, playedAfter_add_zero hf]

/-- A motion that ends has been played for as long as it takes. -/
theorem attains_of_advance (hf : frame.Positive) (hd : d = frame ∨ d = 0) {r r' : Robot}
    {motion : Motion} {n : Nat} (hm : r.motion = some motion)
    (he : motion.elapsed = playedAfter 0 (fun _ => frame) n)
    (ha : r.advance d = (r', true)) : Attains frame motion.duration := by
  obtain ⟨m, hplayed⟩ := elapsed_play hf hd he
  rw [Robot.advance_of_moving hm] at ha
  split at ha
  next hover =>
    refine ⟨m, ?_⟩
    rw [AllPlayed, ← hplayed]
    exact hover
  · cases ha

/-- At its beginning, a run has all its motions ahead of it. -/
theorem course_of_accept {commands : List Command} {watcher : Option String} {s₁ : Simulation}
    (hm : s.robot.motion = none) (ha : s.accept commands watcher = .ok s₁) :
    Course frame s.robot.timeFor
      (({ robot := s.robot, outcome := .empty } : Standing).motions s.table commands) s₁ []
      { waiting := commands, current := none, outcome := .empty, watcher } := by
  obtain ⟨-, rfl⟩ := accept_eq_ok ha
  exact {
    steady := steady_of_rest rfl hm
    times := rfl
    batch := rfl
    whole := by
      rw [Robot.arrived_of_rest hm]
      rfl
    attained := nofun
    played := nofun }

/-- **Every stride keeps a run on its course.** -/
theorem onCourse_of_stride {p q : Simulation × Single} (hf : frame.Positive) (hs : Stride p q)
    (h : OnCourse frame time whole p) : OnCourse frame time whole q := by
  obtain ⟨hd, past, b, h⟩ := h
  have hbatch := h.batch
  have hsteady := steady_of_stride hs h.steady
  cases hs with
  | done hb hc hw ho =>
    cases hbatch.symm.trans hb
    refine ⟨hd, past, _, hsteady, (Robot.timeFor_of_obey ho).trans h.times, rfl, ?_,
      h.attained, fun hflight => by cases hc.symm.trans hflight⟩
    have hwhole := h.whole_of_waiting hc
    rw [hw, Standing.motions_of_done ho] at hwhole
    rw [← hwhole, hc, Robot.arrived_of_rest (hsteady.rest hc)]
    rfl
  | begun hb hc hw ho =>
    cases hbatch.symm.trans hb
    refine ⟨hd, past, _, hsteady, (Robot.timeFor_of_obey ho).trans h.times, rfl, ?_,
      h.attained, ?_⟩
    · have hwhole := h.whole_of_waiting hc
      rw [hw, Standing.motions_of_begun ho] at hwhole
      exact hwhole
    · intro index command hflight
      cases hflight
      cases Robot.obeyed_of_eq ho with
      | begun hm hp hu =>
        refine ⟨_, 0, rfl, ?_, ?_⟩
        · rw [← h.times]
          exact (Robot.timeFor_of_undertakes hu).symm
        · rw [playedAfter, Binary.convert_zero, Binary.zero_add_zero]
          rfl
  | rejected hb hc hw ho =>
    cases hbatch.symm.trans hb
    refine ⟨hd, past, _, hsteady, h.times, rfl, ?_, h.attained,
      fun hflight => by cases hc.symm.trans hflight⟩
    have hwhole := h.whole_of_waiting hc
    rw [hw, Standing.motions_of_rejected ho] at hwhole
    rw [← hwhole, hc, Robot.arrived_of_rest (hsteady.rest hc)]
    rfl
  | @finished _ _ _ _ command _ hb hc ha =>
    cases hbatch.symm.trans hb
    obtain ⟨motion, n, hm, hduration, he⟩ := h.played hc
    have hattains := attains_of_advance hf hd hm he ha
    obtain rfl := Robot.arrived_of_advance ha
    refine ⟨.inr rfl, past ++ [command], _, hsteady, Robot.timeFor_arrived.trans h.times, rfl,
      ?_, ?_, fun hflight => by cases hflight⟩
    · rw [← h.whole, hc, Robot.arrived_of_rest Robot.arrived_motion, List.append_assoc]
      rfl
    · intro command' hmem
      obtain hmem | hmem := List.mem_append.mp hmem
      · exact h.attained command' hmem
      · rw [List.mem_singleton.mp hmem, ← hduration]
        exact hattains

theorem onCourse_of_strides {p q : Simulation × Single} (hf : frame.Positive)
    (hs : Strides p q) (h : OnCourse frame time whole p) : OnCourse frame time whole q := by
  induction hs with
  | refl => exact h
  | tail _ hlast ih => exact onCourse_of_stride hf hlast ih

/-- The frame of a run begins on its course. -/
theorem Course.tick (hf : frame.Positive) (h : Course frame time whole s past b) :
    OnCourse frame time whole (s.tick frame, frame.larger 0) := by
  refine ⟨.inl hf.larger_zero, past, b, ?_⟩
  exact { h with steady := kept_steady.ticked _ h.steady }

theorem waiting_of_stride {p q : Simulation × Single} (h : Stride p q) :
    q.1.waiting.length < p.1.waiting.length
      ∨ q.1.inFlight = none ∧ q.1.waiting.length = p.1.waiting.length := by
  cases h with
  | done hb _ hw =>
    rw [waiting_of_batch hb, hw]
    exact .inl (Nat.lt_succ_self _)
  | begun hb _ hw =>
    rw [waiting_of_batch hb, hw]
    exact .inl (Nat.lt_succ_self _)
  | rejected hb _ hw =>
    rw [waiting_of_batch hb, hw]
    exact .inl (Nat.lt_succ_self _)
  | finished hb =>
    rw [waiting_of_batch hb]
    exact .inr ⟨rfl, rfl⟩

/-- After strides a command in flight has waited before, unless there was no
stride at all. -/
theorem waiting_of_strides {p q : Simulation × Single} (h : Strides p q) :
    q = p ∨ q.1.waiting.length < p.1.waiting.length
      ∨ q.1.inFlight = none ∧ q.1.waiting.length = p.1.waiting.length := by
  induction h with
  | refl => exact .inl rfl
  | @tail u v _ hlast ih =>
    refine .inr ?_
    have hle : u.1.waiting.length ≤ p.1.waiting.length := by
      obtain rfl | hlt | ⟨-, heq⟩ := ih
      · exact Nat.le_refl _
      · exact Nat.le_of_lt hlt
      · exact Nat.le_of_eq heq
    obtain hlt | ⟨hnone, heq⟩ := waiting_of_stride hlast
    · exact .inl (Nat.lt_of_lt_of_le hlt hle)
    · obtain hlt | heq' := Nat.lt_or_eq_of_le hle
      · exact .inl (heq ▸ hlt)
      · exact .inr ⟨hnone, heq.trans heq'⟩

/-- **A frame that does not end the batch** keeps the run on its course. It
takes up a command, or it is all played by the motion in flight. -/
theorem Course.advance_none (hf : frame.Positive) (h : Course frame time whole s past b)
    (ha : s.advance frame = (s', none)) :
    ∃ past' b' motion n, Course frame time whole s' past' b'
      ∧ s'.robot.motion = some motion ∧ motion.elapsed = playedAfter 0 (fun _ => frame) n
      ∧ motion.isOver = false
      ∧ (b'.waiting.length < b.waiting.length
        ∨ b' = b ∧ b.current ≠ none ∧ s.robot.motion.map (·.play frame) = some motion) := by
  obtain ⟨⟨s₁, d⟩, hs, he⟩ := advance_ends frame h.batch
  obtain ⟨hd, past₁, b₁, h₁⟩ := onCourse_of_strides hf hs (h.tick hf)
  rw [ha] at he
  cases he with
  | @playing _ _ _ index command robot hb hc hplay =>
    cases h₁.batch.symm.trans hb
    obtain ⟨motion, n, hm, hduration, helapsed⟩ := h₁.played hc
    obtain ⟨m, hplayed⟩ := elapsed_play hf hd helapsed
    have hsteady := steady_of_played hb hc hplay h₁.steady
    rw [Robot.advance_of_moving hm] at hplay
    split at hplay
    · cases hplay
    next hover =>
      cases hplay
      refine ⟨past₁, b₁, motion.play d, m, ⟨hsteady, h₁.times, hb, ?_, h₁.attained, ?_⟩, rfl,
        hplayed, Bool.eq_false_iff.mpr hover, ?_⟩
      · rw [← h₁.whole, Robot.arrived, Robot.arrived, hm]
        rfl
      · intro index' command' hflight
        cases hc.symm.trans hflight
        exact ⟨_, m, rfl, hduration, hplayed⟩
      · obtain heq | hlt | ⟨hnone, -⟩ := waiting_of_strides hs
        · obtain ⟨rfl, rfl⟩ := Prod.mk.inj heq
          cases h.batch.symm.trans hb
          have hm' : s.robot.motion = some motion := hm
          refine .inr ⟨rfl, Option.ne_none_iff_exists'.mpr ⟨_, hc⟩, ?_⟩
          rw [hm', hf.larger_zero]
          rfl
        · rw [waiting_of_batch hb] at hlt
          exact .inl (Nat.lt_of_lt_of_eq hlt (congrArg List.length (waiting_of_batch h.batch)))
        · cases hc.symm.trans ((inFlight_of_batch hb).symm.trans hnone)

/-- **A frame that ends the batch** shows that all its motions have been
attained. -/
theorem Course.attained_of_some (hf : frame.Positive) (h : Course frame time whole s past b)
    {o : Outcome} (ha : s.advance frame = (s', some o)) :
    ∀ command ∈ whole, Attains frame (time command) := by
  obtain ⟨⟨s₁, d⟩, hs, he⟩ := advance_ends frame h.batch
  obtain ⟨-, past₁, b₁, h₁⟩ := onCourse_of_strides hf hs (h.tick hf)
  rw [ha] at he
  cases he with
  | concluded hb hc hw =>
    cases h₁.batch.symm.trans hb
    have hwhole := h₁.whole_of_waiting hc
    rw [hw, Standing.motions, List.append_nil] at hwhole
    rw [← hwhole]
    exact h₁.attained

theorem Course.attained_of_ends (hf : frame.Positive) (h : Course frame time whole s past b)
    {n : Nat} {o : Outcome} (ha : s.advanceAll (List.replicate n frame) = (s', some o)) :
    ∀ command ∈ whole, Attains frame (time command) := by
  induction n generalizing s past b with
  | zero => cases ha
  | succ n ih =>
    rw [List.replicate_succ, advanceAll] at ha
    split at ha
    next s₁ hframe =>
      obtain ⟨past₁, b₁, -, -, h₁, -⟩ := h.advance_none hf hframe
      exact ih h₁ ha
    next s₁ o₁ hframe => exact h.attained_of_some hf hframe

/-! ## Every frame counts -/

theorem distance_of_flight {motion : Motion} (hb : s.batch = some b)
    (hm : s.robot.motion = some motion) :
    s.distance = b.waiting.length * (farthest + 1) + motion.toPlay := by
  rw [distance, hb, hm]

theorem le_distance (hb : s.batch = some b) :
    b.waiting.length * (farthest + 1) ≤ s.distance := by
  rw [distance, hb]
  exact Nat.le_add_right _ _

/-- One command less to wait for counts for more than any motion. -/
theorem distance_lt_of_waiting {motion : Motion} {n : Nat} {b' : Batch} (hf : frame.Positive)
    (hb : s.batch = some b) (hb' : s'.batch = some b') (hm : s'.robot.motion = some motion)
    (he : motion.elapsed = playedAfter 0 (fun _ => frame) n)
    (hlt : b'.waiting.length < b.waiting.length) : s'.distance < s.distance := by
  have htoPlay : motion.toPlay ≤ farthest := by
    have htop := twoPow_succ Format.double.top
    rw [toPlay_eq hf he, farthest]
    omega
  have hmul := Nat.mul_le_mul_right (farthest + 1) hlt
  have hle := le_distance hb
  rw [Nat.succ_mul] at hmul
  rw [distance_of_flight hb' hm]
  omega

/-- **Every frame that does not end the batch brings the end nearer,** if all
durations are attained. -/
theorem Course.distance_lt (hf : frame.Positive) (h : Course frame time whole s past b)
    (hall : ∀ command ∈ whole, Attains frame (time command))
    (ha : s.advance frame = (s', none)) : s'.distance < s.distance := by
  obtain ⟨past', b', motion, n, h', hm', he', hover, hlt | ⟨rfl, hc, hm⟩⟩ := h.advance_none hf ha
  · exact distance_lt_of_waiting hf h.batch h'.batch hm' he' hlt
  · obtain ⟨⟨index, command⟩, hc⟩ := Option.ne_none_iff_exists'.mp hc
    obtain ⟨motion₀, n₀, hm₀, hduration, he₀⟩ := h.played hc
    rw [hm₀] at hm
    cases hm
    have hmem : command ∈ whole := by
      rw [← h.whole, hc]
      exact List.mem_append_right _ (List.mem_append_left _ (List.mem_singleton_self _))
    have hsound : motion₀.duration.Sound := by
      rw [hduration, ← h.times]
      exact s.robot.sound_timeFor command
    rw [distance_of_flight h'.batch hm', distance_of_flight h.batch hm₀]
    exact Nat.add_lt_add_left (toPlay_lt hf hsound he₀ (hduration ▸ hall command hmem) hover) _

/-- **Some number of frames ends the batch** if all its durations are attained,
and a run that can wait for its frames is played to that end. -/
theorem Course.exists_ends (hf : s.frame.Positive) (h : Course s.frame time whole s past b)
    (hall : ∀ command ∈ whole, Attains s.frame (time command)) :
    ∃ n s' o, s.advanceAll (List.replicate n s.frame) = (s', some o)
      ∧ (s.canWait = true → s.playOut = some (s', o)) := by
  induction hd : s.distance using Nat.strongRecOn generalizing s past b with
  | ind distance ih =>
    cases ha : s.advance s.frame with
    | mk s₁ outcome =>
      cases outcome with
      | some o =>
        refine ⟨1, s₁, o, ?_, fun _ => ?_⟩
        · rw [List.replicate_one, advanceAll, ha]
        · rw [playOut, ha]
      | none =>
        have hframe : s₁.frame = s.frame := (keptByFrames_frame s.frame).advance_none ha rfl
        have hrealtime : s₁.realtime = s.realtime :=
          (keptByFrames_realtime s.realtime).advance_none ha rfl
        have hlt := h.distance_lt hf hall ha
        obtain ⟨past', b', -, -, h', -⟩ := h.advance_none hf ha
        rw [← hframe] at hf h' hall
        obtain ⟨n, s', o, hends, hplay⟩ := ih _ (hd ▸ hlt) hf h' hall rfl
        refine ⟨n + 1, s', o, ?_, fun hwait => ?_⟩
        · rw [List.replicate_succ, advanceAll, ha, ← hframe]
          exact hends
        · rw [playOut, ha]
          refine (if_pos ⟨hwait, hlt⟩).trans (hplay ?_)
          rw [canWait, hrealtime, hframe]
          exact hwait

end Course

/-! ## Coming back -/

section Runs

variable {s₀ s : Simulation} {calls : List Call} {history : List Event}

/-- Some number of frames ends the batch of some commands. -/
def Drains (s : Simulation) (commands : List Command) : Prop :=
  ∃ n s' o, s.Completes commands (List.replicate n s.frame) s' o

/-- The first frame of a run of commands ends their batch, so that there is
nothing to wait for. -/
def endsAtOnce (s : Simulation) (commands : List Command) : Bool :=
  match s.accept commands none with
  | .ok s => (s.advance s.frame).2.isSome
  | .error _ => true

theorem drains_of_run {s' : Simulation} {commands : List Command} {o : Outcome}
    (h : s.run commands = .ok (some (s', o))) : s.Drains commands := by
  obtain ⟨n, hc⟩ := completes_of_run h
  exact ⟨n, s', o, hc⟩

/-- A batch that ends with its first frame is run to its end. -/
theorem run_of_endsAtOnce (hb : s.batch = none) {commands : List Command}
    (h : s.endsAtOnce commands = true) : ∃ s' o, s.run commands = .ok (some (s', o)) := by
  obtain ⟨s₁, ha⟩ : ∃ s₁, s.accept commands none = .ok s₁ := ⟨_, accept_of_idle hb commands none⟩
  rw [endsAtOnce, ha] at h
  obtain ⟨o, ho⟩ := Option.isSome_iff_exists.mp h
  have hfirst : s₁.advance s₁.frame = ((s₁.advance s₁.frame).1, some o) := Prod.ext rfl ho
  refine ⟨(s₁.advance s₁.frame).1, o, ?_⟩
  rw [run_of_accept ha, playOut, hfirst]

/-- The durations of the motions are what it takes for a batch to end. -/
theorem drains_iff (hf : s.frame.Positive) (hb : s.batch = none) (hm : s.robot.motion = none)
    (commands : List Command) :
    s.Drains commands ↔ ∀ command ∈ ({ robot := s.robot, outcome := .empty } : Standing).motions
      s.table commands, Attains s.frame (s.robot.timeFor command) := by
  constructor
  · rintro ⟨n, s', o, watcher, s₁, haccept, hends⟩
    exact (course_of_accept hm haccept).attained_of_ends hf hends
  · intro hall
    obtain ⟨s₁, ha, hframe⟩ : ∃ s₁, s.accept commands none = .ok s₁ ∧ s₁.frame = s.frame :=
      ⟨_, accept_of_idle hb commands none, rfl⟩
    rw [← hframe] at hf hall
    obtain ⟨n, s', o, hends, -⟩ := (course_of_accept hm ha).exists_ends hf hall
    rw [hframe] at hends
    exact ⟨n, s', o, none, s₁, ha, hends⟩

/-- A batch that ends is run to its end, unless there is a wait on the way and
it is too long. -/
theorem run_returns_iff (hf : s.frame.Positive) (hb : s.batch = none)
    (hm : s.robot.motion = none) (commands : List Command) :
    (∃ s' o, s.run commands = .ok (some (s', o)))
      ↔ s.Drains commands ∧ (s.canWait = true ∨ s.endsAtOnce commands = true) := by
  obtain ⟨s₁, ha, hframe, hwait⟩ : ∃ s₁, s.accept commands none = .ok s₁ ∧ s₁.frame = s.frame
      ∧ s₁.canWait = s.canWait := ⟨_, accept_of_idle hb commands none, rfl, rfl⟩
  have hrun := run_of_accept ha
  have hatOnce : s.endsAtOnce commands = (s₁.advance s₁.frame).2.isSome := by
    rw [endsAtOnce, ha]
  rw [hrun, hatOnce, ← hwait]
  constructor
  · rintro ⟨s', o, hplay⟩
    refine ⟨drains_of_run (hrun.trans hplay), ?_⟩
    -- A first frame that does not end the batch is waited for.
    rw [playOut] at hplay
    split at hplay
    next hfirst => exact .inr (congrArg (fun p => Option.isSome p.2) hfirst)
    next hfirst =>
      split at hplay
      next hon => exact .inl hon.1
      · cases hplay
  · rintro ⟨hdrains, hcan | hends⟩
    · have hall := (drains_iff hf hb hm commands).mp hdrains
      rw [← hframe] at hf hall
      obtain ⟨n, s', o, -, hplay⟩ := (course_of_accept hm ha).exists_ends hf hall
      exact ⟨s', o, congrArg Except.ok (hplay hcan)⟩
    · obtain ⟨s', o, hreturns⟩ := run_of_endsAtOnce hb (hatOnce.trans hends)
      exact ⟨s', o, hrun.symm.trans hreturns⟩

theorem motion_of_settings {c : Settings} (h : c.simulation = .ok s) :
    s.robot.motion = none := by
  obtain ⟨t, rfl⟩ := eq_of_settings h
  rfl

theorem exists_of_settings {c : Settings} {p : Simulation → Bool}
    (h : c.simulation.toOption.any p = true) : ∃ s, c.simulation = .ok s ∧ p s = true := by
  cases hc : c.simulation with
  | error e =>
    rw [hc] at h
    cases h
  | ok s =>
    rw [hc] at h
    exact ⟨s, rfl, h⟩

/-- **A batch ends exactly if the durations of its motions are attained,** in the
frames of the simulation and after any history. Its run comes back exactly if it
ends, and if no wait on the way is too long. A duration of less than `twoPow 52`
frames, with one to spare, is attained, and one of more than `twoPow 54` frames
is not. -/
theorem perform_returns_iff (h₀ : s₀.Initial) (hm : s₀.robot.motion = none)
    (hs : s₀.follow calls = some (s, history)) (hb : s.batch = none) (text : List Char) :
    (s.Drains (Command.readAll text)
        ↔ ∀ command ∈ ({ robot := s.robot, outcome := .empty } : Standing).motions s₀.table
          (Command.readAll text), Attains s.frame (s₀.robot.timeFor command))
      ∧ ((∃ s' o, s.perform text = .ok (some (s', o)))
        ↔ s.Drains (Command.readAll text)
          ∧ (s.canWait = true ∨ s.endsAtOnce (Command.readAll text) = true))
      ∧ ∀ command,
        ((s₀.robot.timeFor command).units + s.frame.units ≤ twoPow 52 * s.frame.units →
            Attains s.frame (s₀.robot.timeFor command))
          ∧ (twoPow 54 * s.frame.units < (s₀.robot.timeFor command).units →
            ¬ Attains s.frame (s₀.robot.timeFor command)) := by
  have hf := kept_frame.follow hs h₀.frame
  have hrest := motion_of_follow h₀ hm hs hb
  have hdrains := drains_iff hf hb hrest (Command.readAll text)
  rw [(kept_table s₀.table).follow hs rfl, (kept_timeFor s₀.robot.timeFor).follow hs rfl]
    at hdrains
  refine ⟨hdrains, run_returns_iff hf hb hrest (Command.readAll text), fun command => ⟨?_, ?_⟩⟩
  · exact attains_of_le hf (s₀.robot.sound_timeFor command)
  · exact not_attains_of_lt hf (s₀.robot.sound_timeFor command)

/-- A step of 2^55 seconds comes back in frames of a minute. -/
theorem perform_returns_of_long_step :
    ∃ s₀ s history,
      ({ Settings.default with stepDuration := .ofRatio false (twoPow 55) 1 } : Settings).simulation
        = .ok s₀
      ∧ s₀.follow [.setFrame 60] = some (s, history)
      ∧ ∃ s' o, s.perform "PLACE 0,0,NORTH\nMOVE\nREPORT".toList = .ok (some (s', o)) := by
  obtain ⟨s₀, h₀, hall⟩ := exists_of_settings
    (c := { Settings.default with stepDuration := .ofRatio false (twoPow 55) 1 })
    (p := fun s => (s.setFrame 60).canWait
      && (({ robot := s.robot, outcome := .empty } : Standing).motions s.table
        (Command.readAll "PLACE 0,0,NORTH\nMOVE\nREPORT".toList)).all fun command =>
          (s.robot.timeFor command).units + (s.setFrame 60).frame.units
            ≤ twoPow 52 * (s.setFrame 60).frame.units)
    (by decide +kernel)
  obtain ⟨hwait, hall⟩ := Bool.and_eq_true_iff.mp hall
  have hreturns := perform_returns_iff (.settings h₀) (motion_of_settings h₀)
    (rfl : s₀.follow [.setFrame 60] = _) (Initial.settings h₀).idle
    "PLACE 0,0,NORTH\nMOVE\nREPORT".toList
  refine ⟨s₀, _, _, h₀, rfl, hreturns.2.1.mpr ⟨hreturns.1.mpr fun command hmem => ?_, .inl hwait⟩⟩
  exact (hreturns.2.2 command).1 (of_decide_eq_true (List.all_eq_true.mp hall command hmem))

/-- **A run that never comes back.** A step of 2^60 seconds, in frames of a
minute: however many of them pass, the batch does not end. -/
theorem endless_step :
    ∃ s s₁,
      ({ Settings.default with
          stepDuration := .ofRatio false (twoPow 60) 1
          frame := 60 } : Settings).simulation = .ok s
      ∧ s.accept (Command.readAll "PLACE 0,0,NORTH\nMOVE\nREPORT".toList) none = .ok s₁
      ∧ ∀ n, (s₁.advanceAll (List.replicate n s₁.frame)).2 = none := by
  obtain ⟨s, hs, hany⟩ := exists_of_settings
    (c := { Settings.default with stepDuration := .ofRatio false (twoPow 60) 1, frame := 60 })
    (p := fun s => (({ robot := s.robot, outcome := .empty } : Standing).motions s.table
      (Command.readAll "PLACE 0,0,NORTH\nMOVE\nREPORT".toList)).any fun command =>
        twoPow 54 * s.frame.units < (s.robot.timeFor command).units)
    (by decide +kernel)
  have hidle := (Initial.settings hs).idle
  have hrest := motion_of_settings hs
  have hframe := (Initial.settings hs).frame
  refine ⟨s, _, hs, accept_of_idle hidle _ _, fun n => ?_⟩
  -- Frames that ended the batch would attain the duration of its step.
  refine Option.eq_none_iff_forall_not_mem.mpr fun o ho => ?_
  obtain ⟨command, hmem, hlong⟩ := List.any_eq_true.mp hany
  have hends := (course_of_accept hrest (accept_of_idle hidle _ none)).attained_of_ends hframe
    (Prod.ext rfl ho)
  exact not_attains_of_lt hframe (s.robot.sound_timeFor command) (of_decide_eq_true hlong)
    (hends command hmem)

end Runs

end Simulation

end Tabletop
