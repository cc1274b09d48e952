import Tabletop.Proofs.Chronicle
import Tabletop.Proofs.Placement
import Tabletop.Proofs.Rereading

/-!
# Reports that are placed again

A report is made of two coordinates and the name of a direction, with commas
between them, and after the keyword of a placement the same is read: the name
of a direction may be written in any letter case there. So a report is a record
of a pose. It can be handed back to a simulation, which has the robot stand
there again, and no other pose has the same report.

Neither a placement nor a report takes time, so a batch of them ends in the
first frame, however long frames are (`run_of_instant`). What it comes to can
then be reckoned, from no pose at all as it begins with a placement. The main
statement is `Simulation.replays_of_idle`.
-/

namespace Tabletop

namespace Simulation

variable {s : Simulation} {x y : Int32} {d : Direction} {rest commands : List Command}

/-- Commands that take no time are worked through at once. -/
theorem work_of_instant (h : ∀ command ∈ commands, command.takesTime = false) (s : Simulation)
    (b : Batch) (seconds : Single) : ∃ s' o, s.work b seconds commands = (s', some o) := by
  induction commands generalizing s b with
  | nil => exact ⟨_, _, rfl⟩
  | cons command rest ih =>
    have hrest := fun c hc => h c (List.mem_cons_of_mem command hc)
    cases ho : s.robot.obey s.table command with
    | error fault =>
      rw [work_of_rejected ho]
      exact ih hrest _ _
    | ok result =>
      obtain ⟨robot, report | _⟩ := result
      · rw [work_of_done ho]
        exact ih hrest _ _
      · -- A motion could outlast the frame, but there is none.
        have htime := Robot.takesTime_of_begun ho
        rw [h command List.mem_cons_self] at htime
        cases htime

/-- A batch of such commands is over with the first frame. -/
theorem run_of_instant (hb : s.batch = none) (h : ∀ command ∈ commands, command.takesTime = false) :
    ∃ s' o, s.run commands = .ok (some (s', o)) := by
  obtain ⟨s₁, hs₁⟩ : ∃ s₁, s.accept commands none = .ok s₁ := ⟨_, accept_of_idle hb _ _⟩
  obtain ⟨-, rfl⟩ := accept_eq_ok hs₁
  obtain ⟨s', o, hwork⟩ := work_of_instant h _ _ _
  refine ⟨s', o, ?_⟩
  rw [run_of_accept hs₁, playOut, advance_of_waiting _ rfl rfl, hwork]

/-- **A placement, and what follows it without taking time.** The rest of the
batch can be reckoned from the pose that the robot is placed in. -/
theorem run_of_place (hb : s.batch = none) (ht : s.table.contains x y = true)
    (h : ∀ command ∈ rest, command.takesTime = false) :
    ∃ s', s.run (.place x y d :: rest)
        = .ok (some (s', (Reckoning.of s.table (some { x, y, facing := d }) rest).outcome))
      ∧ s'.robot.pose = (Reckoning.of s.table (some { x, y, facing := d }) rest).pose := by
  have hinstant : ∀ command ∈ Command.place x y d :: rest, command.takesTime = false :=
    List.forall_mem_cons.mpr ⟨rfl, h⟩
  obtain ⟨s', o, hrun⟩ := run_of_instant hb hinstant
  obtain ⟨n, hcompletes⟩ := completes_of_run hrun
  obtain ⟨rfl, hpose⟩ := outcome_of_place ht hcompletes
  exact ⟨s', hrun, hpose⟩

end Simulation

/-! ## What a report says -/

namespace Command

variable {x y : Int32} {d : Direction} {word : List Char}

theorem read?_placement (x y : Int32) (h : Direction.Spells word d) :
    read? ("PLACE ".toList ++ placementWith x y word) = some (.place x y d) := by
  have hsaid : Says ([] ++ ("PLACE ".toList ++ placementWith x y word) ++ [])
      (.ok (.place x y d)) :=
    says_of_placement x y h (by decide) (by simp)
  rw [List.nil_append, List.append_nil] at hsaid
  unfold read?
  rw [hsaid.read_eq]
  rfl

theorem readAll_placement (x y : Int32) (h : Direction.Spells word d) :
    readAll ("PLACE ".toList ++ placementWith x y word) = [.place x y d] := by
  rw [readAll_of_line (feed_not_mem_placement x y h), read?_placement x y h]
  rfl

end Command

/-- A direction is spelled by its name. -/
theorem Direction.spells_name (d : Direction) : Direction.Spells d.name d := rfl

namespace Robot

variable {r r' : Robot} {here : Cell} {report : List Char}

theorem report_of_position (hp : r.position = some here) :
    r.report = .ok (Command.placementWith here.x here.y r.facing.name) := by
  rw [Robot.report, hp]
  rfl

/-- A report is read back as the pose that it was made of. -/
theorem exists_pose_of_report (h : r.report = .ok report) :
    ∃ p, r.pose = some p
      ∧ Command.read? ("PLACE ".toList ++ report) = some (.place p.x p.y p.facing) := by
  cases hp : r.position with
  | none =>
    rw [Robot.report, hp] at h
    cases h
  | some here =>
    rw [report_of_position hp] at h
    cases h
    exact ⟨_, pose_of_position hp, Command.read?_placement here.x here.y r.facing.spells_name⟩

/-- **Reports tell poses apart.** -/
theorem pose_of_report (h : r.report = .ok report) (h' : r'.report = .ok report) :
    r.pose = r'.pose := by
  obtain ⟨p, hp, hread⟩ := exists_pose_of_report h
  obtain ⟨p', hp', hread'⟩ := exists_pose_of_report h'
  obtain ⟨hx, hy, hfacing⟩ := Command.place.inj (Option.some.inj (hread.symm.trans hread'))
  obtain ⟨x, y, facing⟩ := p
  obtain ⟨x', y', facing'⟩ := p'
  cases hx
  cases hy
  cases hfacing
  exact hp.trans hp'.symm

end Robot

namespace Simulation

variable {s : Simulation}

/-- Reports can be placed again, and placements are reported. -/
structure Replays (s : Simulation) : Prop where
  /-- A placement on the table, with the direction in any letter case, is what
  is reported after it, and all that is. -/
  placed : ∀ {x y : Int32} {d : Direction} {word : List Char},
    s.table.contains x y = true → Direction.Spells word d →
    ∃ s', s.perform ("PLACE ".toList ++ Command.placementWith x y word ++ "\nREPORT".toList)
        = .ok (some (s', { reports := #[({ x, y, facing := d } : Pose).text]
                           faults := #[]
                           cancelled := false }))
      ∧ s'.robot.pose = some { x, y, facing := d }
  /-- To place the robot where it is reported to stand changes nothing. -/
  replayed : ∀ {here : Cell}, s.robot.position = some here →
    s.table.contains here.x here.y = true →
    ∃ report s', s.robot.report = .ok report
      ∧ s.perform ("PLACE ".toList ++ report) = .ok (some (s', .empty))
      ∧ s'.robot.pose = s.robot.pose

/-- **A report is a record that can be replayed,** by any simulation that has
no batch to work through, and it is the report of one pose only. -/
theorem replays_of_idle (hb : s.batch = none) :
    s.Replays ∧ ∀ {r r' : Robot} {report : List Char},
      r.report = .ok report → r'.report = .ok report → r.pose = r'.pose := by
  refine ⟨⟨?_, ?_⟩, Robot.pose_of_report⟩
  · intro x y d word ht hword
    have hreport : ∀ command ∈ [Command.report], command.takesTime = false :=
      List.forall_mem_singleton.mpr rfl
    obtain ⟨s', hrun, hpose⟩ := run_of_place hb ht hreport
    refine ⟨s', ?_, hpose⟩
    rw [perform, show "\nREPORT".toList = '\n' :: "REPORT".toList from rfl,
      Command.readAll_append, Command.readAll_placement x y hword]
    exact hrun
  · intro here hp ht
    obtain ⟨s', hrun, hpose⟩ := run_of_place hb ht (List.forall_mem_nil _)
    refine ⟨_, s', Robot.report_of_position hp, ?_, ?_⟩
    · rw [perform, Command.readAll_placement here.x here.y s.robot.facing.spells_name]
      exact hrun
    · rw [hpose, Robot.pose_of_position hp]
      rfl

/-- On a table where no cell has a point to be drawn at, a robot in the midst of
a turn is placed on a corner, or once more where it stands. -/
theorem replays_during_turn :
    ∃ s s₁ s₂,
      s = Simulation.new ⟨12, 5, .nan, by decide⟩
        (((Robot.new 2 1).place ⟨10, 3, 0, 0, 0⟩ .south).setOut (.turn 180 90 .east))
      ∧ s.perform "PLACE 0,4,wEsT\nREPORT".toList
        = .ok (some (s₁, { reports := #["0,4,West".toList], faults := #[], cancelled := false }))
      ∧ s.robot.report = .ok "10,3,South".toList
      ∧ s.perform "PLACE 10,3,South".toList = .ok (some (s₂, .empty))
      ∧ s₂.robot.pose = some { x := 10, y := 3, facing := .south } := by
  obtain ⟨s, hs⟩ : ∃ s, s = Simulation.new ⟨12, 5, .nan, by decide⟩
      (((Robot.new 2 1).place ⟨10, 3, 0, 0, 0⟩ .south).setOut (.turn 180 90 .east)) := ⟨_, rfl⟩
  have hidle : s.batch = none := by rw [hs]; rfl
  have hcorner : s.table.contains 0 4 = true := by rw [hs]; decide
  have hhere : s.table.contains 10 3 = true := by rw [hs]; decide
  have hposition : s.robot.position = some ⟨10, 3, 0, 0, 0⟩ := by rw [hs]; rfl
  have hword : Direction.Spells "wEsT".toList .west := by
    unfold Direction.Spells
    decide
  have hreport : s.robot.report = .ok "10,3,South".toList := by
    rw [Robot.report_of_position hposition, hs]
    exact congrArg Except.ok (by decide +kernel)
  have hpose : s.robot.pose = some { x := 10, y := 3, facing := .south } := by rw [hs]; rfl
  obtain ⟨⟨placed, replayed⟩, -⟩ := replays_of_idle hidle
  obtain ⟨s₁, hplaced, -⟩ := placed hcorner hword
  obtain ⟨report, s₂, hreport', hreplayed, hsame⟩ := replayed hposition hhere
  cases hreport.symm.trans hreport'
  refine ⟨s, s₁, s₂, hs, ?_, hreport, hreplayed, hsame.trans hpose⟩
  have htext : "PLACE ".toList ++ Command.placementWith 0 4 "wEsT".toList
      ++ "\nREPORT".toList = "PLACE 0,4,wEsT\nREPORT".toList := by decide +kernel
  have hwest : ({ x := 0, y := 4, facing := .west } : Pose).text = "0,4,West".toList := by
    decide +kernel
  rw [htext, hwest] at hplaced
  exact hplaced

end Simulation

end Tabletop
