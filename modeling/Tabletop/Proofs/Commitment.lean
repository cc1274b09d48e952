import Tabletop.Proofs.Obedience

/-!
# What a robot settles on

A robot by itself, without a simulation around it, can be placed, sent along
paths, played, halted and given other durations, in any order. It settles on a
cell and on a direction. A motion under way is about them and does not touch
them: it leads away from where the robot is settled, and what it leads to is
settled on when its time is over, or never, if it is halted or the robot is put
elsewhere before that (`Robot.Whole`).

So only two kinds of actions count for what is settled, the placements and
those that play a motion to its end. They can be told from the answers, without
a look at times and durations (`Deed.commit?`). `Robot.commits_whole` says that
to replay them is to know what the robot has settled on, whatever was done in
between.
-/

namespace Tabletop

namespace Robot

/-- What can be done with a robot. -/
inductive Action where
  /-- Put it on a cell. -/
  | place (cell : Cell) (facing : Direction)
  /-- Have it turn towards a direction. -/
  | turn (target : Direction)
  /-- Have it turn a quarter counter-clockwise. -/
  | left
  /-- Have it turn a quarter clockwise. -/
  | right
  /-- Have it go to a cell. -/
  | goTo (target : Cell)
  /-- Play its motion for a while. -/
  | advance (seconds : Single)
  /-- Call its motion off. -/
  | halt
  /-- Change the time of a turn. -/
  | setTurnDuration (seconds : Single)
  /-- Change the time of a step. -/
  | setStepDuration (seconds : Single)

/-- The action asks for a motion. -/
def Action.begins : Action → Bool
  | .turn _ => true
  | .left => true
  | .right => true
  | .goTo _ => true
  | _ => false

/-- What an action answers. -/
inductive Reply where
  /-- There is nothing to say. -/
  | nothing
  /-- The robot refuses. -/
  | refused (refusal : Refusal)
  /-- Whether the robot is at rest now. -/
  | atRest (rest : Bool)
  /-- The motion that was called off, if there was one. -/
  | dropped (motion : Option Motion)

/-- A robot that is asked for a motion begins it, or refuses and stays as it
is. -/
def attempt (r : Robot) : Except Refusal Robot → Robot × Reply
  | .ok r' => (r', .nothing)
  | .error refusal => (r, .refused refusal)

/-- The robot after an action, and the answer. -/
def act (r : Robot) : Action → Robot × Reply
  | .place cell facing => (r.place cell facing, .nothing)
  | .turn target => r.attempt (r.turn target)
  | .left => r.attempt r.left
  | .right => r.attempt r.right
  | .goTo target => r.attempt (r.goTo target)
  | .advance seconds => (r.advance seconds).map id .atRest
  | .halt => (r.halt, .dropped r.motion)
  | .setTurnDuration seconds => ({ r with turnDuration := seconds }, .nothing)
  | .setStepDuration seconds => ({ r with stepDuration := seconds }, .nothing)

/-- One action, with the robot before and after it. -/
structure Deed where
  /-- The robot before it. -/
  before : Robot
  /-- The action. -/
  action : Action
  /-- Its answer. -/
  reply : Reply
  /-- The robot after it. -/
  after : Robot

/-- The robot after some actions, and what came of each of them. -/
def actAll (r : Robot) : List Action → Robot × List Deed
  | [] => (r, [])
  | action :: actions =>
    let next := r.act action
    let rest := next.1.actAll actions
    (rest.1, { before := r, action, reply := next.2, after := next.1 } :: rest.2)

/-! ## What can come of an action -/

/-- The path along which an action sends a robot. -/
inductive SentAlong (r : Robot) : Action → Path → Prop
  | turn (target : Direction) : SentAlong r (.turn target) (Motion.turnPath r.facing target)
  | left : SentAlong r .left (Motion.turnPath r.facing r.facing.left)
  | right : SentAlong r .right (Motion.turnPath r.facing r.facing.right)
  | goTo {here : Cell} (hp : r.position = some here) (target : Cell) :
      SentAlong r (.goTo target) (.step here target)

/-- **Everything that can come of an action.** -/
inductive ComesTo (r : Robot) : Action → Robot × Reply → Prop
  | placed (cell : Cell) (facing : Direction) :
      ComesTo r (.place cell facing) (r.place cell facing, .nothing)
  | unplaced {action : Action} (ha : action.begins = true) (hp : r.position = none) :
      ComesTo r action (r, .refused .unplaced)
  | busy {action : Action} (ha : action.begins = true) (hp : r.position ≠ none)
      (hm : r.motion ≠ none) : ComesTo r action (r, .refused .moving)
  | begun {action : Action} {path : Path} (ha : action.begins = true) (hp : r.position ≠ none)
      (hm : r.motion = none) (hs : r.SentAlong action path) :
      ComesTo r action (r.setOut path, .nothing)
  | idle (seconds : Single) (hm : r.motion = none) :
      ComesTo r (.advance seconds) (r, .atRest true)
  | playing {motion : Motion} (seconds : Single) (hm : r.motion = some motion) :
      ComesTo r (.advance seconds)
        ({ r with motion := some (motion.play seconds) }, .atRest false)
  | arrived {motion : Motion} (seconds : Single) (hm : r.motion = some motion) :
      ComesTo r (.advance seconds) (r.settle motion.path, .atRest true)
  | halted : ComesTo r .halt (r.halt, .dropped r.motion)
  | turnTimed (seconds : Single) :
      ComesTo r (.setTurnDuration seconds) ({ r with turnDuration := seconds }, .nothing)
  | stepTimed (seconds : Single) :
      ComesTo r (.setStepDuration seconds) ({ r with stepDuration := seconds }, .nothing)

variable {r : Robot} {action : Action} {path : Path}

/-- A robot that is asked for a motion is free to begin it, stands nowhere, or
is moving. -/
theorem comesTo_of_begins (ha : action.begins = true)
    (hs : ∀ here, r.position = some here → r.SentAlong action path)
    (hact : r.act action = r.attempt (do let _ ← r.ready; return r.setOut path)) :
    r.ComesTo action (r.act action) := by
  rw [hact]
  cases hp : r.position with
  | none =>
    -- Whether there is a motion is not asked then.
    rw [ready, hp]
    exact .unplaced ha hp
  | some here =>
    have hplaced : r.position ≠ none := by simp [hp]
    cases hm : r.motion with
    | none =>
      rw [ready_of_rest hp hm]
      exact .begun ha hplaced hm (hs here hp)
    | some motion =>
      rw [ready_of_moving hp (by simp [isMoving, hm])]
      exact .busy ha hplaced (by simp [hm])

theorem comesTo_goTo (r : Robot) (target : Cell) :
    r.ComesTo (.goTo target) (r.act (.goTo target)) := by
  cases hp : r.position with
  | none =>
    have hact : r.act (.goTo target) = (r, .refused .unplaced) := by
      rw [act, goTo, ready, hp]
      rfl
    rw [hact]
    exact .unplaced rfl hp
  | some here =>
    have hsent : ∀ cell, r.position = some cell →
        r.SentAlong (.goTo target) (.step here target) := fun _ _ => .goTo hp target
    exact comesTo_of_begins rfl hsent (by rw [act, goTo_eq hp])

theorem comesTo_advance (r : Robot) (seconds : Single) :
    r.ComesTo (.advance seconds) (r.act (.advance seconds)) := by
  show r.ComesTo (.advance seconds) ((r.advance seconds).map id .atRest)
  rw [advance]
  split
  next hm => exact .idle seconds hm
  next motion hm =>
    dsimp only
    split
    · exact (ComesTo.arrived seconds hm :)
    · exact .playing seconds hm

/-- **The list is complete.** -/
theorem comesTo_act (r : Robot) (action : Action) : r.ComesTo action (r.act action) := by
  cases action with
  | place cell facing => exact .placed cell facing
  | turn target => exact comesTo_of_begins rfl (fun _ _ => .turn target) rfl
  | left => exact comesTo_of_begins rfl (fun _ _ => .left) rfl
  | right => exact comesTo_of_begins rfl (fun _ _ => .right) rfl
  | goTo target => exact comesTo_goTo r target
  | advance seconds => exact comesTo_advance r seconds
  | halt => exact .halted
  | setTurnDuration seconds => exact .turnTimed seconds
  | setStepDuration seconds => exact .stepTimed seconds

/-- What is kept by each thing that an action can come to is kept by all actions. -/
theorem keep_actAll {P : Robot → Prop}
    (hkeep : ∀ {r action next}, P r → r.ComesTo action next → P next.1)
    (h : P r) (actions : List Action) : P (r.actAll actions).1 := by
  induction actions generalizing r with
  | nil => exact h
  | cons action actions ih => exact ih (hkeep h (comesTo_act r action))

/-! ## What is settled -/

/-- What a robot has settled on. -/
structure Settled where
  /-- The cell, if there is one. -/
  position : Option Cell
  /-- The direction. -/
  facing : Direction
deriving DecidableEq

/-- What the robot has settled on. -/
def settled (r : Robot) : Settled :=
  { position := r.position, facing := r.facing }

/-- What a robot settles on something new by. -/
inductive Commit where
  /-- It is put on a cell. -/
  | placement (cell : Cell) (facing : Direction)
  /-- It comes to the end of a path. -/
  | completion (path : Path)
deriving DecidableEq

/-- What is settled on then. The end of a turn is a direction and the end of a
step is a cell. -/
def Settled.after (s : Settled) : Commit → Settled
  | .placement cell facing => { position := some cell, facing }
  | .completion (.turn _ _ target) => { s with facing := target }
  | .completion (.step _ stop) => { s with position := some stop }

/-- What was settled by a deed, if anything was: by a placement, and by playing
a motion when the answer is that the robot is at rest now. -/
def Deed.commit? (e : Deed) : Option Commit :=
  match e.action, e.reply, e.before.motion with
  | .place cell facing, _, _ => some (.placement cell facing)
  | .advance _, .atRest true, some motion => some (.completion motion.path)
  | _, _, _ => none

/-- The laws of a single deed. -/
structure Deed.Lawful (e : Deed) : Prop where
  /-- What is settled changes by what the deed settles, and not otherwise. -/
  settled : e.after.settled = e.commit?.elim e.before.settled e.before.settled.after
  /-- A motion is refused for want of a cell if and only if there is none. -/
  unplaced : e.action.begins = true →
    (e.reply = .refused .unplaced ↔ e.before.position = none)
  /-- Otherwise it is refused if and only if there is a motion already. -/
  moving : e.action.begins = true → e.before.position ≠ none →
    (e.reply = .refused .moving ↔ e.before.motion ≠ none)
  /-- A refusal leaves the robot as it is, in every respect. -/
  refused : ∀ refusal, e.reply = .refused refusal → e.after = e.before
  /-- To play a motion is to be told whether there is none left. -/
  atRest : ∀ seconds, e.action = .advance seconds →
    ∃ rest, e.reply = .atRest rest ∧ (rest = true ↔ e.after.motion = none)

theorem settled_settle (r : Robot) (path : Path) :
    (r.settle path).settled = r.settled.after (.completion path) := by
  cases path <;> rfl

/-- To ask for a motion settles nothing. -/
theorem Deed.commit?_of_begins {e : Deed} (ha : e.action.begins = true) : e.commit? = none := by
  obtain ⟨before, action, reply, after⟩ := e
  cases action <;> first | rfl | cases ha

/-- A robot that is asked for a motion refuses for one of two reasons or begins
it, and has settled on nothing new. -/
theorem lawful_of_begins {e : Deed} (ha : e.action.begins = true)
    (hs : e.after.settled = e.before.settled)
    (hu : e.reply = .refused .unplaced ↔ e.before.position = none)
    (hb : e.before.position ≠ none → (e.reply = .refused .moving ↔ e.before.motion ≠ none))
    (hr : ∀ refusal, e.reply = .refused refusal → e.after = e.before) : e.Lawful where
  settled := by rw [Deed.commit?_of_begins ha, hs]; rfl
  unplaced _ := hu
  moving _ := hb
  refused := hr
  atRest seconds h := by rw [h] at ha; cases ha

/-- To play a motion is never refused. -/
theorem lawful_of_advance {e : Deed} {seconds : Single} {rest : Bool}
    (ha : e.action = .advance seconds)
    (hs : e.after.settled = e.commit?.elim e.before.settled e.before.settled.after)
    (hr : e.reply = .atRest rest) (hm : rest = true ↔ e.after.motion = none) : e.Lawful where
  settled := hs
  unplaced h := by rw [ha] at h; cases h
  moving h := by rw [ha] at h; cases h
  refused _ h := by rw [hr] at h; cases h
  atRest _ _ := ⟨rest, hr, hm⟩

theorem lawful_of_comesTo {next : Robot × Reply} (h : r.ComesTo action next) :
    ({ before := r, action, reply := next.2, after := next.1 } : Deed).Lawful := by
  cases h with
  | placed cell facing => exact ⟨rfl, nofun, nofun, nofun, nofun⟩
  | unplaced ha hp =>
    exact lawful_of_begins ha rfl (by simp [hp]) (fun h => absurd hp h) (fun _ _ => rfl)
  | busy ha hp hm =>
    exact lawful_of_begins ha rfl (by simp [hp]) (fun _ => by simp [hm]) (fun _ _ => rfl)
  | begun ha hp hm hs =>
    exact lawful_of_begins ha rfl (by simp [hp]) (fun _ => by simp [hm]) nofun
  | idle seconds hm =>
    exact lawful_of_advance rfl (by rw [Deed.commit?, hm]; rfl) rfl (by simp [hm])
  | playing seconds hm =>
    exact lawful_of_advance rfl rfl rfl (by simp)
  | arrived seconds hm =>
    refine lawful_of_advance rfl ?_ rfl (by simp [settle_motion])
    rw [Deed.commit?, hm]
    exact settled_settle r _
  | halted => exact ⟨rfl, nofun, nofun, nofun, nofun⟩
  | turnTimed seconds => exact ⟨rfl, nofun, nofun, nofun, nofun⟩
  | stepTimed seconds => exact ⟨rfl, nofun, nofun, nofun, nofun⟩

/-- The placements and the motions that were played to their end, in their
order. -/
def commits (deeds : List Deed) : List Commit := deeds.filterMap Deed.commit?

/-- What a robot has settled on follows from what it settled on before and from
the commits since. -/
theorem settled_actAll (r : Robot) (actions : List Action) :
    (r.actAll actions).1.settled
      = (commits (r.actAll actions).2).foldl Settled.after r.settled := by
  induction actions generalizing r with
  | nil => rfl
  | cons action actions ih =>
    have hs := (lawful_of_comesTo (comesTo_act r action)).settled
    rw [actAll]
    dsimp only at hs ⊢
    rw [ih, hs, commits, commits, List.filterMap_cons]
    cases Deed.commit? _ <;> rfl

/-! ## What a motion is about -/

/-- The path leads away from what the robot has settled on: a turn from its
direction, along the shorter way, and a step from its cell. -/
def LeavesBy (r : Robot) : Path → Prop
  | .turn start stop target =>
    start = r.facing.degrees ∧ Path.turn start stop target = Motion.turnPath r.facing target
  | .step start _ => r.position = some start

/-- A robot is never between two things it could settle on. -/
structure Whole (r : Robot) : Prop where
  /-- A robot that stands nowhere does not move. -/
  unplaced : r.position = none → r.motion = none
  /-- A motion leads away from what is settled. -/
  leaves : ∀ motion, r.motion = some motion → r.LeavesBy motion.path

/-- A robot at rest is whole. -/
theorem whole_of_rest (hm : r.motion = none) : r.Whole where
  unplaced _ := hm
  leaves _ h := by rw [hm] at h; cases h

/-- A robot is only sent along paths that lead away from where it is. -/
theorem leavesBy_of_sentAlong (hs : r.SentAlong action path) : r.LeavesBy path := by
  cases hs with
  | turn => exact ⟨rfl, rfl⟩
  | left => exact ⟨rfl, rfl⟩
  | right => exact ⟨rfl, rfl⟩
  | goTo hp => exact hp

theorem whole_setOut (hp : r.position ≠ none) (hl : r.LeavesBy path) : (r.setOut path).Whole where
  unplaced h := absurd h hp
  leaves motion h := by
    cases h
    exact hl

/-- A motion that is played leads away from where it led away from before. -/
theorem Whole.playing (h : r.Whole) {motion : Motion} (hm : r.motion = some motion)
    (seconds : Single) : ({ r with motion := some (motion.play seconds) } : Robot).Whole where
  unplaced hp := by rw [h.unplaced hp] at hm; cases hm
  leaves _ hm' := by
    cases hm'
    exact h.leaves motion hm

theorem Whole.comesTo (h : r.Whole) {next : Robot × Reply} (hn : r.ComesTo action next) :
    next.1.Whole := by
  cases hn with
  | placed => exact whole_of_rest rfl
  | unplaced => exact h
  | busy => exact h
  | begun _ hp _ hs => exact whole_setOut hp (leavesBy_of_sentAlong hs)
  | idle => exact h
  | playing seconds hm => exact h.playing hm seconds
  | arrived => exact whole_of_rest (settle_motion _)
  | halted => exact whole_of_rest rfl
  | turnTimed => exact ⟨h.unplaced, h.leaves⟩
  | stepTimed => exact ⟨h.unplaced, h.leaves⟩

theorem Whole.actAll (h : r.Whole) (actions : List Action) : (r.actAll actions).1.Whole :=
  keep_actAll (P := Whole) (fun h hn => h.comesTo hn) h actions

theorem lawful_actAll (r : Robot) (actions : List Action) :
    ∀ e ∈ (r.actAll actions).2, e.Lawful := by
  induction actions generalizing r with
  | nil => exact fun _ he => nomatch he
  | cons action actions ih =>
    intro e he
    rcases List.mem_cons.mp he with rfl | he
    · exact lawful_of_comesTo (comesTo_act r action)
    · exact ih _ e he

/-! ## The history of a robot -/

/-- A robot as it is made. -/
inductive Made : Robot → Prop
  | new (turnDuration stepDuration : Single) : Made (.new turnDuration stepDuration)
  | default : Made default

theorem Made.rests (h : r.Made) : r.motion = none := by
  cases h <;> rfl

theorem Made.settled (h : r.Made) : r.settled = { position := none, facing := .north } := by
  cases h <;> rfl

/-- **A robot commits whole motions only.** Whatever is done with it, a motion
under way leads away from what it has settled on, each deed settles what its
answer says and refuses what it must, and what the robot has settled on in the
end is known from its placements and the motions that came to their end. -/
theorem commits_whole (h : r.Made) (actions : List Action) :
    (r.actAll actions).1.Whole ∧ (∀ e ∈ (r.actAll actions).2, e.Lawful) ∧
      (r.actAll actions).1.settled
        = (commits (r.actAll actions).2).foldl Settled.after
            { position := none, facing := .north } := by
  refine ⟨(whole_of_rest h.rests).actAll actions, lawful_actAll r actions, ?_⟩
  rw [settled_actAll, h.settled]

/-- A robot is asked to turn before it stands anywhere, turns on a cell far from
any table, is asked to step in the midst of it, and is stopped in a step. -/
theorem commits_whole_when_stopped :
    let actions : List Action :=
      [.left, .place ⟨7, 3, 0, 0, 0⟩ .north, .left, .advance (1 / 2), .setTurnDuration .nan,
        .goTo ⟨0, 0, 0, 0, 0⟩, .advance (1 / 2), .goTo ⟨0, 0, 0, 0, 0⟩, .advance (1 / 2), .halt, .right]
    let run := (default : Robot).actAll actions
    (default : Robot).Made ∧
      commits run.2
        = [.placement ⟨7, 3, 0, 0, 0⟩ .north, .completion (.turn 0 (-90) .west)] ∧
      run.1.settled = { position := some ⟨7, 3, 0, 0, 0⟩, facing := .west } ∧
      run.1.motion.isSome = true ∧ run.1.Whole ∧ ∀ e ∈ run.2, e.Lawful := by
  intro actions run
  obtain ⟨whole, lawful, settled⟩ := commits_whole .default actions
  refine ⟨.default, by decide +kernel, ?_, by decide +kernel, whole, lawful⟩
  rw [settled]
  decide +kernel

end Robot

end Tabletop
