import Tabletop.Proofs.Chronicle

/-!
# Beginnings and ends

How long a command took can be read off a journal in two ways. One can ask for
its duration, and then its first beginning and its first end are looked up,
each on its own (`Journal.span?`). Or one can print the journal, and then the
beginnings are kept in mind line by line until an end of the same number comes
(`Journal.pendingAfter`). On a list of entries of any kind the two need not
agree: they would pair different entries if a number came back.

In the journal of a simulation it does not, as the entries of a command stand
together. What `Chronicled` says of the list of all commands is brought down to
one of them here: a command that has finished has two entries, one right after
the other, and all entries with smaller numbers are before them and all with
larger ones after them (`Journal.Stretch`). So both ways come to the same two
entries. The main statement is `Simulation.measured_of_follow`: in every
printed journal each end has its duration, it is the one that the journal
answers when asked, and there is a duration for the commands that have
finished and for no others.
-/

namespace Tabletop

namespace Journal

/-! ## Looking up -/

/-- The first beginning and the first end of a command. -/
def span? (j : Journal) (index : Nat) : Option (Entry × Entry) := do
  let start ← j.entries.find? fun e => e.index = index && e.phase = .started
  let finish ← j.entries.find? fun e => e.index = index && e.phase = .finished
  return (start, finish)

/-- The duration of a command is the time between the two. -/
theorem duration?_eq (j : Journal) (index : Nat) :
    j.duration? index = (j.span? index).map fun p => p.2.time.toNat - p.1.time.toNat := by
  rw [duration?, timeOf, timeOf, span?]
  cases j.entries.find? fun e => e.index = index && e.phase = .started with
  | none => rfl
  | some start =>
    cases j.entries.find? fun e => e.index = index && e.phase = .finished <;> rfl

/-! ## Printing -/

/-- The beginnings that wait after some entries. -/
def pendingAfter (pending : Pending) (entries : List Entry) : Pending :=
  entries.foldl (fun pending e => (line pending e).1) pending

/-- The lines of a journal, one for each entry. -/
def lines (j : Journal) : List String := linesFrom [] j.entries.toList

/-- The line of an end that shows how long the command took. -/
def finishLine (e : Entry) (elapsed : UInt64) : String :=
  lineStart e ++ "FINISH   " ++ String.ofList e.command.text ++ " [duration: "
    ++ String.ofList (Numeral.ofNat elapsed.toNat) ++ "ms]"

variable {j : Journal} {pending : Pending} {e start finish : Entry}
  {earlier later entries : List Entry} {n index : Nat}

theorem linesFrom_append (pending : Pending) (entries others : List Entry) :
    linesFrom pending (entries ++ others)
      = linesFrom pending entries ++ linesFrom (pendingAfter pending entries) others := by
  induction entries generalizing pending with
  | nil => rfl
  | cons e entries ih =>
    show _ :: linesFrom (line pending e).1 (entries ++ others) = _
    rw [ih]
    rfl

theorem length_linesFrom (pending : Pending) (entries : List Entry) :
    (linesFrom pending entries).length = entries.length := by
  induction entries generalizing pending with
  | nil => rfl
  | cons e entries ih => exact congrArg Nat.succ (ih _)

/-- An entry stands on the line of its place, with what waits before it. -/
theorem getElem?_lines (hn : j.entries[n]? = some e) :
    j.lines[n]? = some (line (pendingAfter [] (j.entries.toList.take n)) e).2 := by
  rw [← Array.getElem?_toList] at hn
  obtain ⟨hlt, he⟩ := List.getElem?_eq_some_iff.mp hn
  have hsplit : j.entries.toList
      = j.entries.toList.take n ++ e :: j.entries.toList.drop (n + 1) := by
    rw [← he, List.getElem_cons_drop, List.take_append_drop]
  have hlength : (linesFrom [] (j.entries.toList.take n)).length = n := by
    rw [length_linesFrom, List.length_take, Nat.min_eq_left (Nat.le_of_lt hlt)]
  rw [lines, hsplit, linesFrom_append, List.getElem?_append_right (Nat.le_of_eq hlength), hlength,
    Nat.sub_self, ← hsplit]
  rfl

/-- A beginning is the one that is found for its number. -/
theorem find?_pendingAfter (hstart : start.phase = .started) :
    (pendingAfter pending (earlier ++ [start])).find? (fun p => p.1 = start.index)
      = some (start.index, start.time) := by
  rw [pendingAfter, List.foldl_append]
  show (line _ start).1.find? _ = _
  rw [line, hstart]
  exact List.find?_cons_of_pos (decide_eq_true rfl)

theorem line_of_finished (hfinish : e.phase = .finished) {time : UInt64}
    (hfound : pending.find? (fun p => p.1 = e.index) = some (index, time)) :
    (line pending e).2 = finishLine e (e.time - time) := by
  rw [line, hfinish]
  simp only [hfound]
  rfl

/-! ### How lines end -/

/-- What a line would say of an end without a beginning. -/
def unmatched : List Char := "[no matching start]".toList

/-- A command does not end in a bracket. -/
theorem exists_text_eq (command : Command) :
    ∃ front c, command.text = front ++ [c] ∧ c ≠ ']' := by
  cases command with
  | place x y facing =>
    obtain ⟨front, c, hname, hc⟩ :
        ∃ front c, facing.name.map Char.toUpper = front ++ [c] ∧ c ≠ ']' := by
      cases facing with
      | north => exact ⟨"NORT".toList, 'H', rfl, by decide⟩
      | east => exact ⟨"EAS".toList, 'T', rfl, by decide⟩
      | south => exact ⟨"SOUT".toList, 'H', rfl, by decide⟩
      | west => exact ⟨"WES".toList, 'T', rfl, by decide⟩
    have hplacement : Command.placement x y facing
        = (Numeral.ofInt x.toInt ++ ',' :: Numeral.ofInt y.toInt ++ ',' :: front) ++ [c] := by
      rw [Command.placement, hname]
      simp only [List.append_assoc, List.cons_append]
    refine ⟨"PLACE ".toList ++ (Numeral.ofInt x.toInt ++ ',' :: Numeral.ofInt y.toInt
      ++ ',' :: front), c, ?_, hc⟩
    exact (congrArg ("PLACE ".toList ++ ·) hplacement).trans (List.append_assoc ..).symm
  | move => exact ⟨"MOV".toList, 'E', rfl, by decide⟩
  | left => exact ⟨"LEF".toList, 'T', rfl, by decide⟩
  | right => exact ⟨"RIGH".toList, 'T', rfl, by decide⟩
  | report => exact ⟨"REPOR".toList, 'T', rfl, by decide⟩

theorem not_unmatched_of_text (text : String) (command : Command) :
    ¬ unmatched <:+ (text ++ String.ofList command.text).toList := by
  rintro ⟨others, h⟩
  obtain ⟨front, c, htext, hc⟩ := exists_text_eq command
  have hsplit : unmatched = "[no matching start".toList ++ [']'] := rfl
  rw [String.toList_append, String.toList_ofList, htext, hsplit, ← List.append_assoc,
    ← List.append_assoc] at h
  exact hc (List.singleton_inj.mp (List.append_inj_right' h rfl)).symm

theorem not_unmatched_of_finishLine (elapsed : UInt64) :
    ¬ unmatched <:+ (finishLine e elapsed).toList := by
  rintro ⟨others, h⟩
  have hsplit : unmatched = "[no matching sta".toList ++ "rt]".toList := rfl
  rw [finishLine, String.toList_append, hsplit, ← List.append_assoc] at h
  cases List.append_inj_right' h rfl

theorem not_unmatched_of_phase (he : e.phase ≠ .finished) :
    ¬ unmatched <:+ (line pending e).2.toList := by
  cases hphase : e.phase with
  | finished => exact absurd hphase he
  | started | rejected | cancelled =>
    rw [line, hphase]
    exact not_unmatched_of_text _ _

/-! ## The entries of one command -/

/-- **A command from its beginning to its end:** the two entries stand together,
with those of smaller numbers before them and those of larger ones after
them. -/
structure Stretch (entries earlier later : List Entry) (start finish : Entry) : Prop where
  entries_eq : entries = earlier ++ start :: finish :: later
  begins : start.phase = .started
  ends : finish.phase = .finished
  index : finish.index = start.index
  command : finish.command = start.command
  earlier_lt : ∀ e ∈ earlier, e.index < start.index
  lt_later : ∀ e ∈ later, start.index < e.index

namespace Stretch

variable (h : Stretch entries earlier later start finish)
include h

/-- There is no third entry of the number. -/
theorem eq_or_eq (he : e ∈ entries) (hindex : e.index = start.index) :
    e = start ∨ e = finish := by
  rw [h.entries_eq] at he
  obtain he | he := List.mem_append.mp he
  · exact absurd hindex (Nat.ne_of_lt (h.earlier_lt e he))
  · obtain rfl | he := List.mem_cons.mp he
    · exact .inl rfl
    · obtain rfl | he := List.mem_cons.mp he
      · exact .inr rfl
      · exact absurd hindex.symm (Nat.ne_of_lt (h.lt_later e he))

theorem eq_start (he : e ∈ entries) (hindex : e.index = start.index)
    (hphase : e.phase = .started) : e = start := by
  obtain rfl | rfl := h.eq_or_eq he hindex
  · rfl
  · cases hphase.symm.trans h.ends

theorem eq_finish (he : e ∈ entries) (hindex : e.index = start.index)
    (hphase : e.phase = .finished) : e = finish := by
  obtain rfl | rfl := h.eq_or_eq he hindex
  · cases hphase.symm.trans h.begins
  · rfl

/-- Nothing is found among the entries before them. -/
theorem find?_eq (phase : Phase) :
    entries.find? (fun e => e.index = start.index && e.phase = phase)
      = (start :: finish :: later).find? fun e => e.index = start.index && e.phase = phase := by
  have hnone : earlier.find? (fun e => e.index = start.index && e.phase = phase) = none := by
    refine List.find?_eq_none.mpr fun e he hfound => ?_
    have hindex := of_decide_eq_true (Bool.and_eq_true_iff.mp hfound).1
    exact Nat.ne_of_lt (h.earlier_lt e he) hindex
  rw [h.entries_eq, List.find?_append, hnone]
  rfl

end Stretch

/-- **Looked up,** the entries of a command are these two. -/
theorem Stretch.span? (h : Stretch j.entries.toList earlier later start finish) :
    j.span? start.index = some (start, finish) := by
  have hstart : j.entries.find? (fun e => e.index = start.index && e.phase = .started)
      = some start := by
    rw [← Array.find?_toList, h.find?_eq]
    exact List.find?_cons_of_pos (by rw [h.begins, decide_eq_true rfl]; rfl)
  have hfinish : j.entries.find? (fun e => e.index = start.index && e.phase = .finished)
      = some finish := by
    rw [← Array.find?_toList, h.find?_eq, List.find?_cons_of_neg (by rw [h.begins]; simp)]
    exact List.find?_cons_of_pos (by rw [h.ends, h.index, decide_eq_true rfl]; rfl)
  rw [Journal.span?, hstart, hfinish]
  rfl

/-- The place of its end is right after its beginning. -/
theorem Stretch.take_eq (h : Stretch j.entries.toList earlier later start finish)
    (hn : j.entries[n]? = some finish) : j.entries.toList.take n = earlier ++ [start] := by
  rw [← Array.getElem?_toList, h.entries_eq] at hn
  have hlt : earlier.length < n := by
    refine Classical.byContradiction fun hge => ?_
    obtain hlt | rfl := Nat.lt_or_eq_of_le (Nat.le_of_not_lt hge)
    · rw [List.getElem?_append_left hlt] at hn
      exact absurd h.index (Nat.ne_of_lt (h.earlier_lt _ (List.mem_of_getElem? hn)))
    · rw [List.getElem?_append_right (Nat.le_refl _), Nat.sub_self] at hn
      cases hn
      cases h.begins.symm.trans h.ends
  have hle : n ≤ earlier.length + 1 := by
    refine Classical.byContradiction fun hgt => ?_
    obtain ⟨k, rfl⟩ := Nat.exists_eq_add_of_lt (Nat.lt_of_not_le hgt)
    rw [List.getElem?_append_right (by omega),
      show earlier.length + 1 + k + 1 - earlier.length = k + 1 + 1 by omega] at hn
    have hmem : finish ∈ later := List.mem_of_getElem? hn
    exact absurd h.index.symm (Nat.ne_of_lt (h.lt_later _ hmem))
  obtain rfl : n = earlier.length + 1 := by omega
  rw [h.entries_eq, List.take_append, List.take_of_length_le (Nat.le_succ _),
    Nat.add_sub_cancel_left]
  rfl

/-- **Printed,** an end is taken together with the same beginning. -/
theorem Stretch.find?_pending (h : Stretch j.entries.toList earlier later start finish)
    (hn : j.entries[n]? = some finish) :
    (pendingAfter [] (j.entries.toList.take n)).find? (fun p => p.1 = finish.index)
      = some (start.index, start.time) := by
  rw [h.take_eq hn, h.index]
  exact find?_pendingAfter h.begins

/-! ## All commands -/

/-- The entries of commands that have ended, the first of them with the given
number. -/
def toldFrom (index : Nat) (ended : List (Command × Fate)) : List (Nat × Command × Phase) :=
  (ended.zipIdx index).flatMap fun p => p.1.2.phases.map (p.2, p.1.1, ·)

variable {ended first rest : List (Command × Fate)} {command : Command} {fate : Fate}

theorem told_eq (ended : List (Command × Fate)) : told ended = toldFrom 0 ended := rfl

theorem mem_toldFrom {x : Nat × Command × Phase} (hx : x ∈ toldFrom index ended) :
    index ≤ x.1 ∧ x.1 < index + ended.length
      ∧ ∃ fate, ended[x.1 - index]? = some (x.2.1, fate) ∧ x.2.2 ∈ fate.phases := by
  obtain ⟨⟨⟨command, fate⟩, i⟩, hp, hmem⟩ := List.mem_flatMap.mp hx
  obtain ⟨phase, hphase, rfl⟩ := List.mem_map.mp hmem
  refine ⟨List.le_snd_of_mem_zipIdx hp, List.snd_lt_add_of_mem_zipIdx hp, fate, ?_, hphase⟩
  exact List.mk_mem_zipIdx_iff_le_and_getElem?_sub.mp hp |>.2

theorem told_split (first rest : List (Command × Fate)) (command : Command) (fate : Fate) :
    told (first ++ (command, fate) :: rest)
      = told first ++ (fate.phases.map (first.length, command, ·)
        ++ toldFrom (first.length + 1) rest) := by
  rw [told_eq, told_eq, toldFrom, List.zipIdx_append, List.flatMap_append, List.zipIdx_cons,
    List.flatMap_cons, Nat.zero_add]
  rfl

end Journal

namespace Simulation

open Journal

variable {s s₀ : Simulation} {calls : List Call} {history : List Event} {taken : List Command}
  {off : List (Nat × Command)} {ended : List (Command × Fate)} {command : Command} {index n : Nat}
  {e : Entry}

/-- **A command that has finished** has its two entries in the journal. -/
theorem Chronicled.exists_stretch (h : Chronicled s taken off ended)
    (hi : ended[index]? = some (command, .finished)) :
    ∃ earlier start finish later,
      Stretch s.journal.entries.toList earlier later start finish
        ∧ start.index = index ∧ start.command = command := by
  obtain ⟨hlt, hi⟩ := List.getElem?_eq_some_iff.mp hi
  have hsplit : ended = ended.take index ++ (command, Fate.finished) :: ended.drop (index + 1) := by
    rw [← hi, List.getElem_cons_drop, List.take_append_drop]
  have hlength : (ended.take index).length = index :=
    List.length_take_of_le (Nat.le_of_lt hlt)
  have hentries := h.entries
  rw [hsplit, told_split, hlength, List.append_assoc, List.append_assoc, untimed] at hentries
  obtain ⟨earlier, others, hlist, hearlier, hothers⟩ := List.map_eq_append_iff.mp hentries
  obtain ⟨start, others, rfl, hstart, hothers⟩ := List.map_eq_cons_iff.mp hothers
  obtain ⟨finish, later, rfl, hfinish, hlater⟩ := List.map_eq_cons_iff.mp hothers
  obtain ⟨hindex, hstart⟩ := Prod.mk.inj hstart
  obtain ⟨hcommand, hbegins⟩ := Prod.mk.inj hstart
  obtain ⟨hindex', hfinish⟩ := Prod.mk.inj hfinish
  obtain ⟨hcommand', hends⟩ := Prod.mk.inj hfinish
  refine ⟨earlier, start, finish, later, ?_, hindex, hcommand⟩
  exact {
    entries_eq := hlist
    begins := hbegins
    ends := hends
    index := hindex'.trans hindex.symm
    command := hcommand'.trans hcommand.symm
    earlier_lt := fun e he => by
      have hmem : (e.index, e.command, e.phase) ∈ told (ended.take index) :=
        hearlier ▸ List.mem_map_of_mem he
      obtain ⟨-, hbound, -⟩ := mem_toldFrom hmem
      rw [hlength, Nat.zero_add] at hbound
      exact hindex ▸ hbound
    lt_later := fun e he => by
      have hmem := List.mem_map_of_mem (f := fun e : Entry => (e.index, e.command, e.phase)) he
      rw [hlater] at hmem
      change _ ∈ toldFrom (index + 1) (ended.drop (index + 1)) ++ _ at hmem
      rw [hindex]
      obtain hmem | hmem := List.mem_append.mp hmem
      · exact (mem_toldFrom hmem).1
      · obtain ⟨⟨i, c⟩, hflight, heq⟩ := List.mem_map.mp hmem
        have hi : i = e.index := congrArg Prod.fst heq
        rw [← hi, (h.flight (Option.mem_toList.mp hflight)).1]
        exact hlt }

/-- An end in the journal is that of a command that has finished. -/
theorem Chronicled.fate_of_finished (h : Chronicled s taken off ended)
    (he : e ∈ s.journal.entries.toList) (hphase : e.phase = .finished) :
    ended[e.index]? = some (e.command, .finished) := by
  have hmem : (e.index, e.command, e.phase) ∈ s.journal.untimed := List.mem_map_of_mem he
  rw [h.entries] at hmem
  obtain hmem | hmem := List.mem_append.mp hmem
  · obtain ⟨-, -, fate, hfate, hphases⟩ := mem_toldFrom hmem
    rw [hphase] at hphases
    cases fate with
    | finished => exact hfate
    | rejected | cancelled => simp [Fate.phases] at hphases
  · obtain ⟨⟨i, c⟩, -, heq⟩ := List.mem_map.mp hmem
    cases (congrArg (fun p => p.2.2) heq).trans hphase

/-- It comes right after the beginning of the same command. -/
theorem Chronicled.stretch_of_finished (h : Chronicled s taken off ended)
    (he : e ∈ s.journal.entries.toList) (hphase : e.phase = .finished) :
    ∃ earlier start later, Stretch s.journal.entries.toList earlier later start e := by
  obtain ⟨earlier, start, finish, later, hs, hindex, -⟩ :=
    h.exists_stretch (h.fate_of_finished he hphase)
  obtain rfl := hs.eq_finish he hindex.symm hphase
  exact ⟨earlier, start, later, hs⟩

/-- **The durations of a journal,** printed and asked for. -/
structure Measured (j : Journal) (ended : List (Command × Fate)) : Prop where
  /-- Printed are a heading, a line for each entry and a closing line. -/
  printed : j.print = "\n=== Command Log with Durations ===\n"
    ++ String.join (j.lines.map (· ++ "\n")) ++ "=== End of Log ===\n\n"
  /-- The line of an end shows the time between the two entries that its duration
  is taken from; if that time is not negative, it is the duration. -/
  finish : ∀ {n : Nat} {e : Entry}, j.entries[n]? = some e → e.phase = .finished →
    ∃ start, j.span? e.index = some (start, e)
      ∧ j.lines[n]? = some (finishLine e (e.time - start.time))
      ∧ (start.time ≤ e.time → j.duration? e.index = some (e.time - start.time).toNat)
  /-- No line says that a beginning is missing. -/
  matched : ∀ text ∈ j.lines, ¬ unmatched <:+ text.toList
  /-- There is a duration for the commands that have finished, and only for
  them. -/
  duration_iff : ∀ index, (j.duration? index).isSome
    ↔ ∃ command, ended[index]? = some (command, .finished)

theorem Chronicled.finish (h : Chronicled s taken off ended) (hn : s.journal.entries[n]? = some e)
    (hphase : e.phase = .finished) :
    ∃ start, s.journal.span? e.index = some (start, e)
      ∧ s.journal.lines[n]? = some (finishLine e (e.time - start.time)) := by
  obtain ⟨earlier, start, later, hs⟩ :=
    h.stretch_of_finished (Array.mem_toList_iff.mpr (Array.mem_of_getElem? hn)) hphase
  refine ⟨start, ?_, ?_⟩
  · rw [hs.index]
    exact hs.span?
  · rw [getElem?_lines hn, line_of_finished hphase (hs.find?_pending hn)]

theorem Chronicled.measured (h : Chronicled s taken off ended) : Measured s.journal ended where
  printed := rfl
  finish {n e} hn hphase := by
    obtain ⟨start, hspan, hline⟩ := h.finish hn hphase
    refine ⟨start, hspan, hline, fun hle => ?_⟩
    rw [duration?_eq, hspan, UInt64.toNat_sub_of_le _ _ hle]
    rfl
  matched text htext := by
    obtain ⟨n, hn⟩ := List.mem_iff_getElem?.mp htext
    have hlt : n < s.journal.entries.size := by
      obtain ⟨hlt, -⟩ := List.getElem?_eq_some_iff.mp hn
      rwa [lines, length_linesFrom, Array.length_toList] at hlt
    have he := Array.getElem?_eq_getElem hlt
    by_cases hphase : s.journal.entries[n].phase = .finished
    · obtain ⟨start, -, hline⟩ := h.finish he hphase
      cases hn.symm.trans hline
      exact not_unmatched_of_finishLine _
    · cases hn.symm.trans (getElem?_lines he)
      exact not_unmatched_of_phase hphase
  duration_iff index := by
    rw [duration?_eq, Option.isSome_map]
    constructor
    · intro hsome
      obtain ⟨⟨start, finish⟩, hspan⟩ := Option.isSome_iff_exists.mp hsome
      obtain ⟨start', -, hspan⟩ := Option.bind_eq_some_iff.mp hspan
      obtain ⟨finish', hfinish, -⟩ := Option.bind_eq_some_iff.mp hspan
      have hfound := Array.find?_some hfinish
      simp only [Bool.and_eq_true, decide_eq_true_eq] at hfound
      have hmem := Array.mem_toList_iff.mpr (Array.mem_of_find?_eq_some hfinish)
      refine ⟨finish'.command, ?_⟩
      rw [← hfound.1]
      exact h.fate_of_finished hmem hfound.2
    · rintro ⟨command, hi⟩
      obtain ⟨earlier, start, finish, later, hs, rfl, -⟩ := h.exists_stretch hi
      rw [hs.span?]
      rfl

/-- **A printed journal shows the durations that it answers.** However calls
follow each other, an end is printed with the time since the beginning that its
duration is taken from, and the commands that have a duration are those that
have finished, of all that were taken up. -/
theorem measured_of_follow (h₀ : s₀.Initial) (hs : s₀.follow calls = some (s, history)) :
    ∃ ended, Chronicled s (history.flatMap Event.taken) (history.flatMap Event.calledOff) ended
      ∧ Measured s.journal ended := by
  obtain ⟨ended, h⟩ := h₀.chronicled.follow hs
  exact ⟨ended, h, h.measured⟩

/-- A report is rejected, a placement is done at once, a turn goes on for two
frames, a step is called off, and a report ends a second batch. -/
theorem measured_after_cancel :
    ∃ s history ended,
      (Simulation.new ⟨3, 3, 1, by decide⟩ (.new 1 1)).follow
          [.accept [.report, .place 0 0 .north, .right, .move] none, .advance (.ofRatio false 1 2),
            .advance 1, .cancel, .run [.report]]
        = some (s, history)
      ∧ [0, 1, 2, 3, 4].map s.journal.duration? = [none, some 0, some 1500, none, some 0]
      ∧ Chronicled s (history.flatMap Event.taken) (history.flatMap Event.calledOff) ended
      ∧ Measured s.journal ended := by
  have hany : ((Simulation.new ⟨3, 3, 1, by decide⟩ (.new 1 1)).follow
      [.accept [.report, .place 0 0 .north, .right, .move] none, .advance (.ofRatio false 1 2),
        .advance 1, .cancel, .run [.report]]).any
      (fun p => [0, 1, 2, 3, 4].map p.1.journal.duration?
        = [none, some 0, some 1500, none, some 0]) = true := by
    decide +kernel
  obtain ⟨⟨s, history⟩, hs, hp⟩ := (Option.any_eq_true _ _).mp hany
  obtain ⟨ended, h⟩ := measured_of_follow (.new _ _) hs
  exact ⟨s, history, ended, hs, of_decide_eq_true hp, h⟩

end Simulation

end Tabletop
