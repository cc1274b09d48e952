import Tabletop.Proofs.Consecutive
import Tabletop.Proofs.Planning

/-!
# What a session does

A session that lacks nothing runs its texts one after another on one
simulation. `Runs` says so as a relation; it settles what the program computes
(`runTexts_of_runs`), and where it ends before the last text, the reason is known
(`Ready.runs_or_stops`). Together with what a session needs, this gives the main
statement, `session_conducted`, for all arguments that ask for a run and for all
that can be around it.

A session that lacks nothing is not always done. It may run a batch that never
ends, and at the speed of the clock on the wall it is broken off if its frames
are 2^64 seconds or more and a batch outlasts its first frame: what it has
printed stays, and what was asked for of the journal is not shown
(`session_broken_off`).
-/

namespace Tabletop

namespace Console

/-! ## What a session runs -/

/-- Texts that are run one after another on one simulation, each of them as a
batch, with the outcomes of the batches. -/
inductive Runs : Simulation → List (List Char) → Simulation → List Outcome → Prop
  /-- No text. -/
  | nil (s : Simulation) : Runs s [] s []
  /-- A text, and then others. -/
  | cons {s s₁ s₂ : Simulation} {text : List Char} {texts : List (List Char)} {o : Outcome}
      {outcomes : List Outcome}
      (perform : s.perform text = .ok (some (s₁, o))) (rest : Runs s₁ texts s₂ outcomes) :
      Runs s (text :: texts) s₂ (o :: outcomes)

/-- How a plan may end, and what is told at its end. -/
inductive Plan.Answers (p : Plan) : Option Ending → Prop
  /-- All texts are run. The reports stand first, in order, and what was asked for
  of the journal stands after them; the faults are listed apart, in order. -/
  | through {s : Simulation} {outcomes : List Outcome} {e : Ending}
      (runs : Runs p.simulation p.texts s outcomes) (code : e.code = 0)
      (output : e.output = inLines (Outcome.allReports outcomes)
        ++ (if p.showJournal then s.journal.print ++ s.journal.summary ++ "\n" else "")
        ++ (if p.json then s.journal.document ++ "\n" else ""))
      (complaint : e.complaint = String.join ((Outcome.allFaults outcomes).map faultLine)) :
      Answers p (some e)
  /-- The time of a frame cannot be waited for, and a batch outlasts its first
  frame. The texts before it are run, and of the journal nothing is shown. -/
  | brokenOff {s : Simulation} {before after : List (List Char)} {text : List Char}
      {outcomes : List Outcome} {e : Ending} (texts : p.texts = before ++ text :: after)
      (runs : Runs p.simulation before s outcomes) (wait : p.simulation.canWait = false)
      (lasts : s.endsAtOnce (Command.readAll text) = false) (code : e.code = 101)
      (output : e.output = inLines (Outcome.allReports outcomes))
      (complaint : e.complaint = String.join ((Outcome.allFaults outcomes).map faultLine)) :
      Answers p (some e)
  /-- After the texts before it a batch never ends, however many frames pass. -/
  | endless {s : Simulation} {before after : List (List Char)} {text : List Char}
      {outcomes : List Outcome} (texts : p.texts = before ++ text :: after)
      (runs : Runs p.simulation before s outcomes) (wait : p.simulation.canWait = true)
      (endless : ¬ s.Drains (Command.readAll text)) : Answers p none

/-- The texts of a plan compared with one text, in which they are lines after
lines. -/
structure Plan.Joins (p : Plan) : Prop where
  /-- If both are run, the reports and the faults are the same. -/
  same : ∀ {s s₁ : Simulation} {outcomes : List Outcome} {o : Outcome},
    Runs p.simulation p.texts s outcomes →
    Runs p.simulation [['\n'].intercalate p.texts] s₁ [o] →
      o.reports.toList = Outcome.allReports outcomes
        ∧ o.faults.toList = Outcome.allFaults outcomes
  /-- Unless there is a wait that is too long, both are run or neither is. -/
  returns : p.simulation.canWait = true →
    ((∃ s outcomes, Runs p.simulation p.texts s outcomes)
      ↔ ∃ s o, Runs p.simulation [['\n'].intercalate p.texts] s [o])

section Running

variable {s s₁ s₂ : Simulation} {text : List Char} {texts before after : List (List Char)}
  {o : Outcome} {outcomes : List Outcome} {p : Plan}

/-- A run can begin. -/
structure Ready (s : Simulation) : Prop where
  /-- No batch is being worked through. -/
  batch : s.batch = none
  /-- The robot is at rest. -/
  rest : s.robot.motion = none
  /-- The frames are as long as frames can be. -/
  frame : s.frame.Positive

theorem ready_of_settings {settings : Settings} (h : settings.simulation = .ok s) : Ready s where
  batch := (Simulation.Initial.settings h).idle
  rest := Simulation.motion_of_settings h
  frame := (Simulation.Initial.settings h).frame

theorem Ready.resumed (h : Ready s) (hrun : s.perform text = .ok (some (s₁, o))) :
    s.Resumed s₁ :=
  Simulation.resumed_of_run h.rest hrun

/-- After a run another can begin. -/
theorem Ready.next (h : Ready s) (hrun : s.perform text = .ok (some (s₁, o))) : Ready s₁ where
  batch := (h.resumed hrun).batch
  rest := (h.resumed hrun).rest
  frame := (h.resumed hrun).frame ▸ h.frame

theorem Runs.ready (h : Runs s texts s₂ outcomes) (hs : Ready s) :
    Ready s₂ ∧ s₂.canWait = s.canWait := by
  induction h with
  | nil => exact ⟨hs, rfl⟩
  | cons hrun _ ih =>
    obtain ⟨hready, hwait⟩ := ih (hs.next hrun)
    exact ⟨hready, hwait.trans (hs.resumed hrun).canWait⟩

/-! ### The run of a plan -/

/-- Why a run does not come back: the time of a frame cannot be waited for and
its batch outlasts the first one, or the batch never ends. -/
def Stops (s : Simulation) (text : List Char) : Prop :=
  s.canWait = false ∧ s.endsAtOnce (Command.readAll text) = false
    ∨ s.canWait = true ∧ ¬ s.Drains (Command.readAll text)

/-- A run comes back, or it is known why not. -/
theorem Ready.returns_or_stops (hs : Ready s) (text : List Char) :
    (∃ s₁ o, s.perform text = .ok (some (s₁, o)))
      ∨ s.perform text = .ok none ∧ Stops s text := by
  have hreturns := Simulation.run_returns_iff hs.frame hs.batch hs.rest (Command.readAll text)
  cases hperform : s.perform text with
  | error fault =>
    rw [Simulation.perform, Simulation.run, Simulation.accept_of_idle hs.batch] at hperform
    cases hperform
  | ok result =>
    cases result with
    | some result => exact .inl ⟨_, _, rfl⟩
    | none =>
      have hnot : ¬ ∃ s₁ o, s.run (Command.readAll text) = .ok (some (s₁, o)) := by
        rintro ⟨s₁, o, hrun⟩
        cases hperform.symm.trans hrun
      refine .inr ⟨rfl, ?_⟩
      cases hwait : s.canWait with
      | false =>
        refine .inl ⟨hwait, Bool.eq_false_iff.mpr fun hends => hnot ?_⟩
        exact Simulation.run_of_endsAtOnce hs.batch hends
      | true =>
        exact .inr ⟨hwait, fun hdrains => hnot (hreturns.mpr ⟨hdrains, .inl hwait⟩)⟩

/-- Texts are run, or there is a first that does not come back. -/
theorem Ready.runs_or_stops (hs : Ready s) (texts : List (List Char)) :
    (∃ s₁ outcomes, Runs s texts s₁ outcomes)
      ∨ ∃ before text after s₁ outcomes, texts = before ++ text :: after
        ∧ Runs s before s₁ outcomes ∧ s₁.perform text = .ok none ∧ Stops s₁ text := by
  induction texts generalizing s with
  | nil => exact .inl ⟨s, [], .nil s⟩
  | cons text texts ih =>
    obtain ⟨s₁, o, hrun⟩ | hstops := hs.returns_or_stops text
    · obtain ⟨s₂, outcomes, hruns⟩ | ⟨before, text', after, s₂, outcomes, rfl, hruns, hstops⟩ :=
        ih (hs.next hrun)
      · exact .inl ⟨s₂, o :: outcomes, .cons hrun hruns⟩
      · exact .inr ⟨text :: before, text', after, s₂, o :: outcomes, rfl, .cons hrun hruns,
          hstops⟩
    · exact .inr ⟨[], text, texts, s, [], rfl, .nil s, hstops⟩

theorem runTexts_of_runs (h : Runs s texts s₂ outcomes) (record : Record)
    (more : List (List Char)) :
    runTexts s record (texts ++ more) = runTexts s₂ (outcomes.foldl Record.add record) more := by
  induction h generalizing record with
  | nil => rfl
  | cons hrun _ ih =>
    rw [List.cons_append, runTexts, hrun]
    exact ih _

/-- What is on record after outcomes. -/
theorem toList_foldl_add (record : Record) (outcomes : List Outcome) :
    (outcomes.foldl Record.add record).reports.toList
        = record.reports.toList ++ Outcome.allReports outcomes
      ∧ (outcomes.foldl Record.add record).faults.toList
        = record.faults.toList ++ Outcome.allFaults outcomes := by
  induction outcomes generalizing record with
  | nil => exact ⟨(List.append_nil _).symm, (List.append_nil _).symm⟩
  | cons o outcomes ih =>
    obtain ⟨hreports, hfaults⟩ := ih (record.add o)
    rw [List.foldl_cons, hreports, hfaults, Record.add, Array.toList_append, Array.toList_append,
      List.append_assoc, List.append_assoc]
    exact ⟨rfl, rfl⟩

/-- **A plan is run to its end, broken off, or endless,** and it tells just
that. -/
theorem Plan.answers (hs : Ready p.simulation) : p.Answers p.run := by
  have hrecord : ∀ outcomes : List Outcome,
      (outcomes.foldl Record.add .empty).reports.toList = Outcome.allReports outcomes
        ∧ (outcomes.foldl Record.add .empty).faults.toList = Outcome.allFaults outcomes :=
    fun outcomes => toList_foldl_add .empty outcomes
  obtain ⟨s₁, outcomes, hruns⟩ | ⟨before, text, after, s₁, outcomes, htexts, hruns, hnone,
    ⟨hwait, hlasts⟩ | ⟨hwait, hendless⟩⟩ := hs.runs_or_stops p.texts
  · have hrun := runTexts_of_runs hruns .empty []
    rw [List.append_nil, runTexts] at hrun
    rw [Plan.run, hrun]
    refine .through hruns rfl ?_ ?_
    · show p.output s₁ _ = _
      rw [Plan.output, (hrecord outcomes).1]
    · show String.join (List.map faultLine _) = _
      rw [(hrecord outcomes).2]
  · have hrun := runTexts_of_runs hruns .empty (text :: after)
    rw [← htexts, runTexts, hnone] at hrun
    simp only [hwait, Bool.false_eq_true, if_false] at hrun
    rw [Plan.run, hrun]
    refine .brokenOff htexts hruns ((hruns.ready hs).2.symm.trans hwait) hlasts rfl ?_ ?_
    · show inLines _ = _
      rw [(hrecord outcomes).1]
    · show String.join (List.map faultLine _) = _
      rw [(hrecord outcomes).2]
  · have hrun := runTexts_of_runs hruns .empty (text :: after)
    rw [← htexts, runTexts, hnone] at hrun
    simp only [hwait, if_true] at hrun
    rw [Plan.run, hrun]
    exact .endless htexts hruns ((hruns.ready hs).2.symm.trans hwait) hendless

/-! ### Several texts or one -/

/-- What the commands of texts have made of a simulation, one text after
another. -/
theorem Runs.performed (h : Runs s texts s₂ outcomes) (hs : Ready s) :
    Simulation.Performed s s₂ (texts.flatMap Command.readAll) (.all outcomes) := by
  induction h with
  | nil => exact Simulation.performed_nil hs.rest
  | cons hrun _ ih =>
    exact (Simulation.performed_of_run hs.rest hrun).trans (ih (hs.next hrun))

/-- **Texts are run one after another** exactly if a run of all their commands
comes back, given that waiting is no hindrance. -/
theorem Ready.runs_iff (hs : Ready s) (hwait : s.canWait = true) (texts : List (List Char)) :
    (∃ s₁ outcomes, Runs s texts s₁ outcomes)
      ↔ ∃ s₁ o, s.run (texts.flatMap Command.readAll) = .ok (some (s₁, o)) := by
  induction texts generalizing s with
  | nil =>
    refine ⟨fun _ => ?_, fun _ => ⟨s, [], .nil s⟩⟩
    exact (Simulation.run_returns_iff_attains hs.frame hs.batch hs.rest hwait []).mpr nofun
  | cons text texts ih =>
    rw [List.flatMap_cons]
    constructor
    · rintro ⟨s₂, _, _ | ⟨hrun, hruns⟩⟩
      refine (Simulation.run_append_returns hs.frame hs.batch hs.rest hwait hrun).mp ?_
      exact (ih (hs.next hrun) ((hs.resumed hrun).canWait.trans hwait)).mp ⟨_, _, hruns⟩
    · rintro ⟨s₂, o, hall⟩
      obtain ⟨s₁, o₁, hrun⟩ :=
        Simulation.run_returns_of_append hs.frame hs.batch hs.rest hwait hall
      have hrest := (Simulation.run_append_returns hs.frame hs.batch hs.rest hwait hrun).mpr
        ⟨s₂, o, hall⟩
      obtain ⟨s₃, outcomes, hruns⟩ :=
        (ih (hs.next hrun) ((hs.resumed hrun).canWait.trans hwait)).mpr hrest
      exact ⟨s₃, o₁ :: outcomes, .cons hrun hruns⟩

/-- **Several texts or one:** it makes no difference to reports and faults. -/
theorem Plan.joins (hs : Ready p.simulation) : p.Joins where
  same hruns hjoined := by
    have hone := hjoined.performed hs
    rw [List.flatMap_singleton, Command.readAll_intercalate] at hone
    obtain ⟨heq, -⟩ := hone.unique (hruns.performed hs)
    rw [Outcome.all, List.foldr_cons, List.foldr_nil, Outcome.append_empty] at heq
    rw [heq]
    exact ⟨Outcome.reports_all _, Outcome.faults_all _⟩
  returns hwait := by
    have hperform : p.simulation.perform (['\n'].intercalate p.texts)
        = p.simulation.run (p.texts.flatMap Command.readAll) := by
      rw [Simulation.perform, Command.readAll_intercalate]
    rw [hs.runs_iff hwait p.texts, ← hperform]
    constructor
    · rintro ⟨s₁, o, hrun⟩
      exact ⟨s₁, o, .cons hrun (.nil s₁)⟩
    · rintro ⟨s₁, o, _ | ⟨hrun, -⟩⟩
      exact ⟨_, _, hrun⟩

end Running

/-! ## Sessions -/

section Sessions

variable {w : Surroundings} {o : Options} {p : Plan} {arguments : List String}

theorem session_of_plan (h : request arguments = .run o) (hplan : plan w o = .ok p) :
    session w arguments = p.run := by
  rw [session, h, prepare, hplan]
  rfl

theorem session_of_failure {failure : Failure} (h : request arguments = .run o)
    (hplan : plan w o = .error failure) : session w arguments = some (.failed failure) := by
  rw [session, h, prepare, hplan]
  rfl

theorem Planned.ready (h : Planned w o p) : Ready p.simulation := by
  obtain ⟨-, hsimulation, -, -, -⟩ := h
  exact ready_of_settings hsimulation

/-- What is said of the answer of a session. -/
structure Conducted (w : Surroundings) (o : Options) (answer : Option Ending) : Prop where
  /-- It fails exactly if something is missing. -/
  fails_iff : (∃ e, answer = some e ∧ e.code = 1) ↔ Wanting w o
  /-- Then nothing is printed. -/
  silent : ∀ e, answer = some e → e.code = 1 → e.output = ""
  /-- Otherwise it has a plan, and answers as that is run; several texts come to
  the same as one. -/
  planned : ¬ Wanting w o → ∃ p, Planned w o p ∧ p.Answers answer ∧ p.Joins

/-- **What a session does.** It fails, and prints nothing, exactly if something
is missing: its configuration, its table, or one of its texts. Otherwise it runs
all its texts in order on one simulation. If it is not broken off in a wait that
is too long, and if all batches end, it prints all reports, then what was asked
for of the journal, and lists all faults apart; the reports and the faults are
those of one text in which the texts are joined by line feeds. -/
theorem session_conducted (h : request arguments = .run o) :
    Conducted w o (session w arguments) := by
  obtain ⟨p, hp⟩ | hwanting := planned_or_wanting w o
  · have hplan := plan_of_planned hp
    have hanswers := Plan.answers hp.ready
    rw [session_of_plan h hplan]
    have hcode : ∀ e, p.run = some e → e.code ≠ 1 := by
      intro e he hone
      rw [he] at hanswers
      cases hanswers with
      | through _ hcode => cases hone.symm.trans hcode
      | brokenOff _ _ _ _ hcode => cases hone.symm.trans hcode
    refine ⟨⟨?_, ?_⟩, ?_, ?_⟩
    · rintro ⟨e, he, hone⟩
      exact absurd hone (hcode e he)
    · intro hwanting
      exact absurd hwanting (not_wanting_of_plan hplan)
    · intro e he hone
      exact absurd hone (hcode e he)
    · intro _
      exact ⟨p, hp, hanswers, Plan.joins hp.ready⟩
  · obtain ⟨failure, hfailure⟩ := plan_of_wanting hwanting
    rw [session_of_failure h hfailure]
    refine ⟨⟨fun _ => hwanting, fun _ => ⟨_, rfl, rfl⟩⟩, ?_, fun hnot => absurd hwanting hnot⟩
    rintro e ⟨⟩ -
    rfl

/-- One of two files is missing: the report that the other asks for is not
printed either. -/
theorem session_with_missing_file :
    ∃ w o,
      w.read "a.txt" = .ok ("PLACE 0,0,NORTH\nREPORT".toList, w)
      ∧ request ["a.txt", "b.txt"] = .run o
      ∧ ∃ e, session w ["a.txt", "b.txt"] = some e ∧ e.code = 1 ∧ e.output = "" := by
  obtain ⟨w, hw⟩ : ∃ w : Surroundings, w = {
      open? := fun path =>
        if path = "a.txt" then .ok (.bytes "PLACE 0,0,NORTH\nREPORT".toUTF8)
        else .error .notFound
      input := .empty } := ⟨_, rfl⟩
  have hread : w.read "a.txt" = .ok ("PLACE 0,0,NORTH\nREPORT".toList, w) := by
    have htext : textOf "PLACE 0,0,NORTH\nREPORT".toUTF8
        = .ok "PLACE 0,0,NORTH\nREPORT".toList := by decide +kernel
    refine read_of_bytes ?_ htext
    subst hw
    rfl
  have hmissing : w.read "b.txt" = .error .notFound := by
    subst hw
    rfl
  have hdefaults : w.has "config.toml" = false := by
    subst hw
    rfl
  obtain ⟨o, ho, hconfig, hfiles⟩ : ∃ o, request ["a.txt", "b.txt"] = .run o
      ∧ o.config = "config.toml" ∧ o.files = ["a.txt"] ++ "b.txt" :: [] := by
    refine ⟨Draft.options { Draft.empty with files := ["b.txt", "a.txt"] }, ?_, rfl, rfl⟩
    decide +kernel
  have hwanting : Wanting w o := .file (.absent (hconfig ▸ hdefaults)) hfiles
    (.cons hread (.nil w)) hmissing
  have hconducted := session_conducted (w := w) ho
  obtain ⟨e, he, hone⟩ := hconducted.fails_iff.mpr hwanting
  exact ⟨w, o, hread, ho, e, he, hone, hconducted.silent e he hone⟩

/-- Two files, and a configuration with frames of 10^30 seconds. -/
def longFrames : Surroundings :=
  { open? := fun path =>
      if path = "config.toml" then .ok (.bytes "[simulation]\nframe_step = 1e30\n".toUTF8)
      else if path = "a.txt" then .ok (.bytes "PLACE 0,0,NORTH\nREPORT".toUTF8)
      else if path = "b.txt" then .ok (.bytes "MOVE\nMOVE\nREPORT".toUTF8)
      else .error .notFound
    input := .empty }

/-- **A session that is broken off.** Nothing is missing, and without waiting
there would be two reports. At the speed of the clock on the wall the first file
is run and its report printed; the second step of the other file outlasts the
first frame, and the wait after it is too long. -/
theorem session_broken_off :
    (∃ o, request ["--realtime", "a.txt", "b.txt"] = .run o ∧ ¬ Wanting longFrames o)
      ∧ session longFrames ["--realtime", "a.txt", "b.txt"] = some (.brokenOff "0,0,North\n" [])
      ∧ (Ending.brokenOff "0,0,North\n" []).code = 101
      ∧ session longFrames ["a.txt", "b.txt"] = some (.done "0,0,North\n0,2,North\n" []) := by
  refine ⟨⟨Draft.options { Draft.empty with files := ["b.txt", "a.txt"], realtime := true },
    by decide +kernel, ?_⟩, by decide +kernel, rfl, by decide +kernel⟩
  have hplan : (plan longFrames (Draft.options { Draft.empty with
      files := ["b.txt", "a.txt"], realtime := true })).toOption.isSome = true := by
    decide +kernel
  cases hp : plan longFrames (Draft.options { Draft.empty with
      files := ["b.txt", "a.txt"], realtime := true }) with
  | error failure =>
    rw [hp] at hplan
    cases hplan
  | ok p => exact not_wanting_of_plan hp

end Sessions

end Console

end Tabletop
