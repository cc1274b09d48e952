import Tabletop.Console.Session

/-!
# What a session needs

Before anything is run, a session reads its configuration, makes its table and
reads its texts, and it stops at the first of these that fails. Here the same is
said without the order in which they are tried: `Wanting` lists what can be
missing, and `Planned` says where the parts of a plan come from. One of the two
holds (`planned_or_wanting`), and each settles what the program computes: with
something missing there is no plan (`plan_of_wanting`), and otherwise it is the
plan described (`plan_of_planned`).

Reading changes what is around a session, as a path may lead to the standard
input, and what is read from there is gone. So the relations carry the
surroundings along, in the order of the reading.
-/

namespace Tabletop

namespace Console

/-! ## What a session is given -/

/-- The settings under a path, and what is around the session once they are
read. Where nothing has the path, the defaults hold. -/
inductive Configured (w : Surroundings) (path : String) : Settings → Surroundings → Prop
  /-- Nothing has the path. -/
  | absent (has : w.has path = false) : Configured w path .default w
  /-- A document is there, and it is well-formed. -/
  | present {text : List Char} {settings : Settings} {w' : Surroundings}
      (read : w.read path = .ok (text, w')) (settings? : Settings.read? text = some settings) :
      Configured w path settings w'

/-- The texts of files that are read one after another. -/
inductive Reads : Surroundings → List String → List (List Char) → Surroundings → Prop
  /-- No file. -/
  | nil (w : Surroundings) : Reads w [] [] w
  /-- A file, and then others. -/
  | cons {w w₁ w₂ : Surroundings} {path : String} {paths : List String} {text : List Char}
      {texts : List (List Char)} (read : w.read path = .ok (text, w₁))
      (rest : Reads w₁ paths texts w₂) : Reads w (path :: paths) (text :: texts) w₂

/-- The texts that a session is given: those of the files it names, or that of
the standard input if it names none. -/
inductive Supplied (w : Surroundings) : List String → List (List Char) → Prop
  /-- No file is named. -/
  | input {text : List Char} {w' : Surroundings} (read : w.readInput = .ok (text, w')) :
      Supplied w [] [text]
  /-- Files are named. -/
  | files {paths : List String} {texts : List (List Char)} {w' : Surroundings}
      (named : paths ≠ []) (reads : Reads w paths texts w') : Supplied w paths texts

/-- What can be missing for a session. -/
inductive Wanting (w : Surroundings) (o : Options) : Prop
  /-- The configuration document is there and cannot be read. -/
  | unreadable {error : ReadError} (has : w.has o.config = true)
      (read : w.read o.config = .error error)
  /-- The configuration document is malformed. -/
  | malformed {text : List Char} {w' : Surroundings}
      (read : w.read o.config = .ok (text, w')) (settings? : Settings.read? text = none)
  /-- There is no table with the sides configured, or given in place of them. -/
  | table {settings : Settings} {w' : Surroundings}
      (configured : Configured w o.config settings w')
      (sides : ¬ ValidDimensions (o.width.getD settings.width) (o.length.getD settings.length))
  /-- A file that is named cannot be read, after those before it. -/
  | file {settings : Settings} {w' w'' : Surroundings} {before after : List String}
      {path : String} {texts : List (List Char)} {error : ReadError}
      (configured : Configured w o.config settings w') (named : o.files = before ++ path :: after)
      (reads : Reads w' before texts w'') (read : w''.read path = .error error)
  /-- No file is named, and the standard input cannot be read. -/
  | input {settings : Settings} {w' : Surroundings} {error : ReadError}
      (configured : Configured w o.config settings w') (named : o.files = [])
      (read : w'.readInput = .error error)

/-- The plan of a session that lacks nothing. -/
inductive Planned (w : Surroundings) (o : Options) (p : Plan) : Prop
  /-- The table and the robot are as configured, the options taking the place of
  the settings; the texts are those given; and the journal is shown if an option
  or the configuration asks for it. -/
  | intro {settings : Settings} {w' : Surroundings}
      (configured : Configured w o.config settings w')
      (simulation : (o.override settings).simulation = .ok p.simulation)
      (supplied : Supplied w' o.files p.texts)
      (showJournal : p.showJournal = (o.showJournal || settings.showJournal))
      (json : p.json = o.json)

section Plans

variable {w w' : Surroundings} {o : Options} {p : Plan} {path : String} {paths : List String}
  {text : List Char} {texts : List (List Char)} {settings : Settings}

/-- What can be read is there. -/
theorem has_of_read (h : w.read path = .ok (text, w')) : w.has path = true := by
  rw [Surroundings.read] at h
  rw [Surroundings.has]
  cases hopen : w.open? path with
  | error error =>
    rw [hopen] at h
    cases h
  | ok source => rfl

/-- Bytes that are kept can be read as often as one likes. -/
theorem read_of_bytes {bytes : ByteArray} (hopen : w.open? path = .ok (.bytes bytes))
    (htext : textOf bytes = .ok text) : w.read path = .ok (text, w) := by
  rw [Surroundings.read, hopen]
  show (textOf bytes).map _ = _
  rw [htext]
  rfl

theorem settingsOf_of_configured (h : Configured w o.config settings w') :
    settingsOf w o = .ok (o.override settings, w') := by
  rw [settingsOf]
  cases h with
  | absent hhas => rw [hhas]; rfl
  | present hread hsettings =>
    rw [has_of_read hread, if_pos rfl, loadSettings, hread]
    simp only [hsettings]

/-- **The configuration** gives settings, or a session lacks something. -/
theorem configured_or_wanting (w : Surroundings) (o : Options) :
    (∃ settings w', Configured w o.config settings w') ∨ Wanting w o := by
  cases hhas : w.has o.config with
  | false => exact .inl ⟨_, _, .absent hhas⟩
  | true =>
    cases hread : w.read o.config with
    | error error => exact .inr (.unreadable hhas hread)
    | ok result =>
      cases hsettings : Settings.read? result.1 with
      | none => exact .inr (.malformed hread hsettings)
      | some settings => exact .inl ⟨_, _, .present hread hsettings⟩

theorem readFiles_of_reads (h : Reads w paths texts w') : readFiles w paths = .ok texts := by
  induction h with
  | nil => rfl
  | cons hread _ ih =>
    rw [readFiles, hread]
    simp only [ih]
    rfl

/-- Reading stops at the first file that cannot be read. -/
theorem readFiles_of_error {before after : List String} {error : ReadError}
    (h : Reads w before texts w') (hread : w'.read path = .error error) :
    readFiles w (before ++ path :: after) = .error (.fileUnreadable path error) := by
  induction h with
  | nil => rw [List.nil_append, readFiles, hread]
  | cons hbefore _ ih =>
    rw [List.cons_append, readFiles, hbefore]
    simp only [ih hread]
    rfl

/-- All files can be read, or there is a first that cannot. -/
theorem reads_or_error (w : Surroundings) (paths : List String) :
    (∃ texts w', Reads w paths texts w')
      ∨ ∃ before path after texts w' error, paths = before ++ path :: after
        ∧ Reads w before texts w' ∧ w'.read path = .error error := by
  induction paths generalizing w with
  | nil => exact .inl ⟨[], w, .nil w⟩
  | cons path paths ih =>
    cases hread : w.read path with
    | error error => exact .inr ⟨[], path, paths, [], w, error, rfl, .nil w, hread⟩
    | ok result =>
      obtain ⟨text, w₁⟩ := result
      obtain ⟨texts, w', hreads⟩ | ⟨before, path', after, texts, w', error, rfl, hreads, herror⟩ :=
        ih w₁
      · exact .inl ⟨text :: texts, w', .cons hread hreads⟩
      · exact .inr ⟨path :: before, path', after, text :: texts, w', error, rfl,
          .cons hread hreads, herror⟩

theorem textsOf_of_supplied (h : Supplied w o.files texts) : textsOf w o = .ok texts := by
  rw [textsOf]
  generalize o.files = files at h
  cases h with
  | input hread =>
    rw [if_pos rfl, hread]
  | files hnamed hreads =>
    rw [if_neg hnamed]
    exact readFiles_of_reads hreads

theorem simulation_eq_error {settings : Settings}
    (h : ¬ ValidDimensions settings.width settings.length) :
    settings.simulation = .error (.badDimensions settings.width settings.length) := by
  rw [Settings.simulation, Table.make, dif_neg h]
  rfl

theorem exists_simulation {settings : Settings}
    (h : ValidDimensions settings.width settings.length) : ∃ s, settings.simulation = .ok s := by
  obtain ⟨t, ht⟩ : ∃ t, Table.make settings.width settings.length settings.cellSize = .ok t :=
    ⟨_, dif_pos h⟩
  refine ⟨((Simulation.new t (.new settings.turnDuration settings.stepDuration)).setFrame
    settings.frame).setRealtime settings.realtime, ?_⟩
  rw [Settings.simulation, ht]
  rfl

/-- What is left of a plan when the configuration is read: a simulation, and then
the texts. -/
theorem plan_of_configured (h : Configured w o.config settings w') :
    plan w o = ((o.override settings).simulation.mapError .table).bind fun simulation =>
      (textsOf w' o).map fun texts => {
        simulation, texts
        showJournal := o.showJournal || settings.showJournal
        json := o.json } := by
  rw [plan, settingsOf_of_configured h]
  show Except.bind ((o.override settings).simulation.mapError _) _ = _
  refine congrArg _ (funext fun simulation => ?_)
  cases textsOf w' o <;> rfl

/-- Without settings there is no plan. -/
theorem plan_of_failure {failure : Failure} (h : settingsOf w o = .error failure) :
    plan w o = .error failure := by
  rw [plan, h]
  rfl

/-- Without texts there is no plan, whether there is a table or not. -/
theorem plan_of_textless {failure : Failure} (h : Configured w o.config settings w')
    (htexts : textsOf w' o = .error failure) : ∃ failure, plan w o = .error failure := by
  rw [plan_of_configured h, htexts]
  cases (o.override settings).simulation with
  | error error => exact ⟨.table error, rfl⟩
  | ok s => exact ⟨failure, rfl⟩

/-- **A plan comes about** where its parts are there. -/
theorem plan_of_planned (h : Planned w o p) : plan w o = .ok p := by
  obtain ⟨hconfigured, hsimulation, hsupplied, hjournal, hjson⟩ := h
  obtain ⟨simulation, texts, showJournal, json⟩ := p
  cases hjournal
  cases hjson
  rw [plan_of_configured hconfigured, hsimulation, textsOf_of_supplied hsupplied]
  rfl

/-- **No plan comes about** where something is missing. -/
theorem plan_of_wanting (h : Wanting w o) : ∃ failure, plan w o = .error failure := by
  cases h with
  | @unreadable error hhas hread =>
    have hsettings : settingsOf w o = .error (.configUnreadable o.config error) := by
      rw [settingsOf, hhas, if_pos rfl, loadSettings, hread]
    exact ⟨_, plan_of_failure hsettings⟩
  | malformed hread hnone =>
    have hsettings : settingsOf w o = .error (.configMalformed o.config) := by
      rw [settingsOf, has_of_read hread, if_pos rfl, loadSettings, hread]
      simp only [hnone]
    exact ⟨_, plan_of_failure hsettings⟩
  | @table settings _ hconfigured hsides =>
    have hnone : ¬ ValidDimensions (o.override settings).width (o.override settings).length :=
      hsides
    rw [plan_of_configured hconfigured, simulation_eq_error hnone]
    exact ⟨_, rfl⟩
  | @file _ w' _ _ _ path _ error hconfigured hnamed hreads hread =>
    have hne : o.files ≠ [] := by
      rw [hnamed]
      exact List.append_ne_nil_of_right_ne_nil _ (List.cons_ne_nil _ _)
    have htexts : textsOf w' o = .error (.fileUnreadable path error) := by
      rw [textsOf, if_neg hne, hnamed]
      exact readFiles_of_error hreads hread
    exact plan_of_textless hconfigured htexts
  | @input _ w' error hconfigured hnamed hread =>
    have htexts : textsOf w' o = .error (.inputUnreadable error) := by
      rw [textsOf, if_pos hnamed, hread]
    exact plan_of_textless hconfigured htexts

theorem not_wanting_of_plan (hplan : plan w o = .ok p) : ¬ Wanting w o := by
  intro hwanting
  obtain ⟨failure, hfailure⟩ := plan_of_wanting hwanting
  cases hplan.symm.trans hfailure

/-- The texts are there, or one of them cannot be read. -/
theorem supplied_or_wanting (h : Configured w o.config settings w') :
    (∃ texts, Supplied w' o.files texts) ∨ Wanting w o := by
  cases hfiles : o.files with
  | nil =>
    cases hread : w'.readInput with
    | error error => exact .inr (.input h hfiles hread)
    | ok result => exact .inl ⟨_, .input hread⟩
  | cons path paths =>
    obtain ⟨texts, w'', hreads⟩ | ⟨before, path', after, texts, w'', error, hsplit, hreads, hread⟩ :=
      reads_or_error w' (path :: paths)
    · exact .inl ⟨texts, .files nofun hreads⟩
    · exact .inr (.file h (hfiles.trans hsplit) hreads hread)

/-- **A session has a plan or lacks something.** -/
theorem planned_or_wanting (w : Surroundings) (o : Options) :
    (∃ p, Planned w o p) ∨ Wanting w o := by
  obtain ⟨settings, w', hconfigured⟩ | hwanting := configured_or_wanting w o
  · by_cases hsides : ValidDimensions (o.override settings).width (o.override settings).length
    · obtain ⟨s, hs⟩ := exists_simulation hsides
      obtain ⟨texts, hsupplied⟩ | hwanting := supplied_or_wanting hconfigured
      · exact .inl ⟨{
          simulation := s
          texts := texts
          showJournal := o.showJournal || settings.showJournal
          json := o.json }, hconfigured, hs, hsupplied, rfl, rfl⟩
      · exact .inr hwanting
    · exact .inr (.table hconfigured hsides)
  · exact .inr hwanting

end Plans

end Console

end Tabletop
