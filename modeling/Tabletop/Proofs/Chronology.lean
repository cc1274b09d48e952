import Tabletop.Proofs.Chronicle
import Tabletop.Proofs.Clock
import Tabletop.Proofs.Counting

/-!
# The order of the journal

What a frame enters has two times (`Simulation.entries_of_advance`). First
comes what is begun before any motion has ended, at the time that is found for
the beginning of the frame, and then the rest, at its end. The end is not
earlier than any time before it, as the clock does not go back. But the
beginning may be: it is found from the clock by taking the frame off again,
and beside a long frame, or one that never ends, the time before it is lost.

So the journal is in the order of time exactly if every call was punctual,
which means that what it begins was not entered before the last time
(`Event.Punctual`). Not all calls are: after a second has passed, a frame of
2^60 seconds enters what it begins at zero (`Simulation.backward_after_long_frame`).
They are as long as the clock is below `twoPow 16` seconds and no frame is
shorter than one of `twoPow 14` to a second, other than none. The main
statement is `Simulation.chronology_of_follow`.

A call may be made of many frames, and only the first of them can begin with a
command: after it something is in flight, or the batch has ended. How order,
clock and punctual beginnings go from one simulation to a later one is said by
`Simulation.Proceeds`, which is put together frame by frame and call by call.
-/

namespace Tabletop

namespace Journal

variable {j j' : Journal} {starts ends : List Entry} {first now t : UInt64}

/-- **In the order of time:** no entry has an earlier time than one before
it. -/
def Ordered (j : Journal) : Prop := j.entries.toList.Pairwise fun a b => a.time ≤ b.time

instance (j : Journal) : Decidable j.Ordered :=
  inferInstanceAs (Decidable (j.entries.toList.Pairwise fun a b => a.time ≤ b.time))

theorem lastTime_eq (j : Journal) :
    j.lastTime = (j.entries.toList.getLast?.map Entry.time).getD 0 := by
  rw [Array.getLast?_toList]
  rfl

/-- **In the order of time the last time is the latest.** -/
theorem Ordered.le_lastTime (h : j.Ordered) {e : Entry} (he : e ∈ j.entries.toList) :
    e.time ≤ j.lastTime := by
  rw [lastTime_eq]
  unfold Ordered at h
  generalize j.entries.toList = entries at h he
  obtain rfl | ⟨before, last, rfl⟩ := List.eq_nil_or_concat entries
  · cases he
  · rw [List.concat_eq_append] at h he ⊢
    rw [List.getLast?_concat]
    obtain ⟨-, -, hbefore⟩ := List.pairwise_append.mp h
    obtain he | he := List.mem_append.mp he
    · exact hbefore e he last (List.mem_singleton_self last)
    · cases List.mem_singleton.mp he
      exact UInt64.le_refl _

theorem lastTime_le (h : ∀ e ∈ j.entries.toList, e.time ≤ t) : j.lastTime ≤ t := by
  rw [lastTime_eq]
  cases hlast : j.entries.toList.getLast? with
  | none => exact UInt64.zero_le
  | some last => exact h last (List.mem_of_getLast? hlast)

theorem pairwise_of_time_eq {entries : List Entry} (h : ∀ e ∈ entries, e.time = t) :
    entries.Pairwise fun a b => a.time ≤ b.time := by
  refine List.pairwise_of_forall_mem_list fun a ha b hb => ?_
  rw [h a ha, h b hb]
  exact UInt64.le_refl _

/-- **What a frame adds keeps the order** if what it begins is not entered
before the last time. -/
theorem ordered_append (hj : j'.entries.toList = j.entries.toList ++ (starts ++ ends))
    (hstarts : ∀ e ∈ starts, e.time = first) (hends : ∀ e ∈ ends, e.time = now)
    (hle : first ≤ now) (hpast : ∀ e ∈ j.entries.toList, e.time ≤ now) :
    j'.Ordered ↔ j.Ordered ∧ (starts ≠ [] → j.lastTime ≤ first) := by
  rw [Ordered, hj, List.pairwise_append, List.pairwise_append]
  constructor
  · rintro ⟨hordered, -, hcross⟩
    refine ⟨hordered, fun hne => lastTime_le fun a ha => ?_⟩
    obtain ⟨e, he⟩ := List.exists_mem_of_ne_nil starts hne
    rw [← hstarts e he]
    exact hcross a ha e (List.mem_append_left _ he)
  · rintro ⟨hordered, hlast⟩
    refine ⟨hordered, ⟨pairwise_of_time_eq hstarts, pairwise_of_time_eq hends, ?_⟩, ?_⟩
    · intro a ha b hb
      rw [hstarts a ha, hends b hb]
      exact hle
    · intro a ha b hb
      obtain hb | hb := List.mem_append.mp hb
      · rw [hstarts b hb]
        exact UInt64.le_trans (hordered.le_lastTime ha) (hlast (List.ne_nil_of_mem hb))
      · rw [hends b hb]
        exact hpast a ha

end Journal

namespace Simulation

open Binary Journal

variable {s s' : Simulation} {p q : Simulation × Single} {starts ends : List Entry}

/-! ## One frame -/

/-- The next frame begins with a command. -/
def Opens (s : Simulation) : Prop := s.inFlight = none ∧ s.waiting ≠ []

/-- What is entered by some strides: what is begun with the time that the
motions get, and what comes after the end of one. -/
structure Written (p q : Simulation × Single) (starts ends : List Entry) : Prop where
  clock : q.1.clock = p.1.clock
  entries : q.1.journal.entries.toList = p.1.journal.entries.toList ++ (starts ++ ends)
  atStart : ∀ e ∈ starts, e.time = milliseconds (p.1.clock - p.2.convert)
  atEnd : ∀ e ∈ ends, e.time = milliseconds p.1.clock
  opens : starts ≠ [] → p.1.Opens
  /-- With nothing in flight, whatever comes first is begun. -/
  still : starts = [] → p.1.inFlight = none → q = p

theorem opens_of_batch {b : Batch} {command : Command} {rest : List Command}
    (hb : s.batch = some b) (hc : b.current = none) (hw : b.waiting = command :: rest) :
    s.Opens := by
  refine ⟨(inFlight_of_batch hb).trans hc, ?_⟩
  rw [waiting_of_batch hb, hw]
  exact List.cons_ne_nil _ _

/-- One stride more in front, by which something is begun. -/
theorem Written.cons {new : List Entry} {p' : Simulation × Single} (h : Written p' q starts ends)
    (hclock : p'.1.clock = p.1.clock) (hshare : p'.2 = p.2)
    (hentries : p'.1.journal.entries.toList = p.1.journal.entries.toList ++ new)
    (hnew : ∀ e ∈ new, e.time = milliseconds (p.1.clock - p.2.convert)) (hne : new ≠ [])
    (hopens : p.1.Opens) : Written p q (new ++ starts) ends where
  clock := h.clock.trans hclock
  entries := by rw [h.entries, hentries, List.append_assoc, List.append_assoc]
  atStart e he := by
    obtain he | he := List.mem_append.mp he
    · exact hnew e he
    · rw [h.atStart e he, hclock, hshare]
  atEnd e he := by rw [h.atEnd e he, hclock]
  opens _ := hopens
  still hnil := absurd (List.append_eq_nil_iff.mp hnil).1 hne

/-- One stride more in front, by which a motion ends. -/
theorem Written.cons_finished {e : Entry} {p' : Simulation × Single}
    (h : Written p' q starts ends) (hupper : Upper p.1.clock) (hclock : p'.1.clock = p.1.clock)
    (hshare : p'.2 = 0)
    (hentries : p'.1.journal.entries.toList = p.1.journal.entries.toList ++ [e])
    (he : e.time = milliseconds p.1.clock) (hflight : p.1.inFlight ≠ none) :
    Written p q [] (e :: (starts ++ ends)) where
  clock := h.clock.trans hclock
  entries := by
    rw [h.entries, hentries, List.append_assoc]
    rfl
  atStart := nofun
  atEnd a ha := by
    obtain rfl | ha := List.mem_cons.mp ha
    · exact he
    obtain ha | ha := List.mem_append.mp ha
    · rw [h.atStart a ha, hclock, hshare, sub_convert_zero hupper]
    · rw [h.atEnd a ha, hclock]
  opens hne := absurd rfl hne
  still _ hidle := absurd hidle hflight

/-- What one stride enters: as long as no motion has ended in the frame, what
is begun, and then the end of one, after which no time is left. -/
theorem entries_of_stride (h : Stride p q) :
    q.1.clock = p.1.clock ∧
      ((p.1.Opens ∧ q.2 = p.2 ∧ ∃ new : List Entry, new ≠ []
          ∧ q.1.journal.entries.toList = p.1.journal.entries.toList ++ new
          ∧ ∀ e ∈ new, e.time = milliseconds (p.1.clock - p.2.convert))
        ∨ (p.1.inFlight ≠ none ∧ q.2 = 0 ∧ ∃ e : Entry,
          q.1.journal.entries.toList = p.1.journal.entries.toList ++ [e]
          ∧ e.time = milliseconds p.1.clock)) := by
  cases h with
  | done hb hc hw =>
    exact ⟨rfl, .inl ⟨opens_of_batch hb hc hw, rfl, _, List.cons_ne_nil _ _, toList_done ..,
      List.forall_mem_cons.mpr ⟨rfl, List.forall_mem_singleton.mpr rfl⟩⟩⟩
  | begun hb hc hw =>
    exact ⟨rfl, .inl ⟨opens_of_batch hb hc hw, rfl, _, List.cons_ne_nil _ _, toList_record ..,
      List.forall_mem_singleton.mpr rfl⟩⟩
  | rejected hb hc hw =>
    exact ⟨rfl, .inl ⟨opens_of_batch hb hc hw, rfl, _, List.cons_ne_nil _ _, toList_record ..,
      List.forall_mem_singleton.mpr rfl⟩⟩
  | finished hb hc =>
    refine ⟨rfl, .inr ⟨?_, rfl, _, toList_record .., rfl⟩⟩
    rw [inFlight_of_batch hb, hc]
    exact Option.some_ne_none _

/-- **What strides enter:** first what is begun before a motion has ended, all
at one time, and then the rest at the time of the clock. -/
theorem exists_written (hs : Strides p q) (hupper : Upper p.1.clock) :
    ∃ starts ends, Written p q starts ends := by
  induction hs using Relation.ReflTransGen.head_induction_on with
  | refl =>
    exact ⟨[], [], rfl, (List.append_nil _).symm, nofun, nofun, fun h => absurd rfl h,
      fun _ _ => rfl⟩
  | head hfirst _ ih =>
    obtain ⟨hclock, hfirst⟩ := entries_of_stride hfirst
    obtain ⟨starts, ends, h⟩ := ih (hclock ▸ hupper)
    obtain ⟨hopens, hshare, new, hne, hnew, htime⟩ | ⟨hflight, hshare, e, he, htime⟩ := hfirst
    · exact ⟨_, _, h.cons hclock hshare hnew htime hne hopens⟩
    · exact ⟨_, _, h.cons_finished hupper hclock hshare he htime hflight⟩

/-- At its end there is nothing to be taken up. -/
theorem entries_of_ends {result : Simulation × Option Outcome} (he : Ends p result) :
    result.1.clock = p.1.clock ∧ result.1.journal = p.1.journal ∧ ¬ p.1.Opens := by
  cases he with
  | playing hb hc ha =>
    refine ⟨rfl, rfl, fun ho => ?_⟩
    cases hc.symm.trans ((inFlight_of_batch hb).symm.trans ho.1)
  | concluded hb hc hw => exact ⟨rfl, rfl, fun ho => ho.2 ((waiting_of_batch hb).trans hw)⟩

/-- **What a frame enters:** what is begun before a motion has ended, at the
time that is found for the beginning of the frame, and the rest at its end. -/
theorem entries_of_advance {b : Batch} (hb : s.batch = some b) (hupper : Upper s.clock)
    (seconds : Single) :
    ∃ starts ends : List Entry,
      (s.advance seconds).1.clock = s.clock + (seconds.larger 0).convert
        ∧ (s.advance seconds).1.journal.entries.toList
          = s.journal.entries.toList ++ (starts ++ ends)
        ∧ (∀ e ∈ starts, e.time = milliseconds (frameStart s.clock seconds))
        ∧ (∀ e ∈ ends, e.time = milliseconds (s.clock + (seconds.larger 0).convert))
        ∧ (starts ≠ [] ↔ s.Opens) := by
  obtain ⟨p, hs, he⟩ := advance_ends seconds hb
  obtain ⟨starts, ends, h⟩ := exists_written hs (frame_spec seconds hupper).1
  obtain ⟨hclock, hjournal, hclosed⟩ := entries_of_ends he
  refine ⟨starts, ends, hclock.trans h.clock, ?_, h.atStart, h.atEnd, h.opens, fun ho hnil => ?_⟩
  · rw [hjournal]
    exact h.entries
  · -- With nothing begun the frame would be at its end already.
    cases h.still hnil ho.1
    exact hclosed ho

/-! ## One call -/

/-- **Nothing has been entered for a time to come.** -/
structure Dated (s : Simulation) : Prop where
  clock : Upper s.clock
  past : ∀ e ∈ s.journal.entries.toList, e.time ≤ milliseconds s.clock

/-- What is entered for the beginning of a frame is not earlier than the last
time. -/
def InTime (s : Simulation) (seconds : Single) : Prop :=
  s.journal.lastTime ≤ milliseconds (frameStart s.clock seconds)

/-- **From one simulation to a later one.** The order of the journal is kept
if and only if what is begun on the way is punctual, and a clock that was
moved in a regular way is moved so again. -/
structure Proceeds (s s' : Simulation) (punctual regular : Prop) : Prop where
  dated : s'.Dated
  later : s.clock ≤ s'.clock
  ordered_iff : s'.journal.Ordered ↔ s.journal.Ordered ∧ punctual
  onGrid : OnGrid s.clock → regular → s'.clock < 65536 → OnGrid s'.clock ∧ punctual

variable {punctual punctual' regular regular' : Prop}

theorem Proceeds.congr (h : Proceeds s s' punctual regular) (hp : punctual ↔ punctual')
    (hr : regular' → regular) : Proceeds s s' punctual' regular' where
  dated := h.dated
  later := h.later
  ordered_iff := h.ordered_iff.trans (and_congr_right' hp)
  onGrid hclock hregular hlt := (h.onGrid hclock (hr hregular) hlt).imp_right hp.mp

theorem Proceeds.trans {s'' : Simulation} (h : Proceeds s s' punctual regular)
    (h' : Proceeds s' s'' punctual' regular') :
    Proceeds s s'' (punctual ∧ punctual') (regular ∧ regular') where
  dated := h'.dated
  later := atMost_trans h.later h'.later
  ordered_iff := by rw [h'.ordered_iff, h.ordered_iff, and_assoc]
  onGrid hclock hregular hlt := by
    obtain ⟨hclock', hp⟩ := h.onGrid hclock hregular.1 (less_of_atMost_of_less h'.later hlt)
    obtain ⟨hclock'', hp'⟩ := h'.onGrid hclock' hregular.2 hlt
    exact ⟨hclock'', hp, hp'⟩

/-- Neither the clock nor the journal is touched. -/
theorem proceeds_of_same (h : s.Dated) (hclock : s'.clock = s.clock)
    (hjournal : s'.journal = s.journal) : Proceeds s s' True regular where
  dated := ⟨hclock ▸ h.clock, by rw [hjournal, hclock]; exact h.past⟩
  later := by
    rw [hclock]
    exact upper_atMost_self h.clock
  ordered_iff := by rw [hjournal, and_true]
  onGrid hgrid _ _ := ⟨hclock ▸ hgrid, trivial⟩

theorem not_opens_of_idle (hb : s.batch = none) : ¬ s.Opens := by
  rintro ⟨-, hw⟩
  rw [waiting, hb] at hw
  exact hw rfl

/-- **One frame:** the order is kept if what it begins with is entered in
time. -/
theorem proceeds_of_advance (h : s.Dated) (seconds : Single) :
    Proceeds s (s.advance seconds).1 (s.Opens → s.InTime seconds) (Coarse seconds) := by
  cases hb : s.batch with
  | none =>
    rw [advance_of_idle seconds hb]
    exact (proceeds_of_same h rfl rfl).congr
      (iff_of_true trivial fun ho => absurd ho (not_opens_of_idle hb)) id
  | some b =>
    obtain ⟨starts, ends, hclock, hentries, hstarts, hends, hopens⟩ :=
      entries_of_advance hb h.clock seconds
    obtain ⟨hupper, hlater, hstart⟩ := frame_spec seconds h.clock
    have hpast : ∀ e ∈ s.journal.entries.toList,
        e.time ≤ milliseconds (s.clock + (seconds.larger 0).convert) := fun e he =>
      UInt64.le_trans (h.past e he) (milliseconds_le h.clock hupper hlater)
    exact {
      dated := by
        refine ⟨hclock ▸ hupper, fun e he => ?_⟩
        rw [hclock]
        rw [hentries] at he
        obtain he | he := List.mem_append.mp he
        · exact hpast e he
        obtain he | he := List.mem_append.mp he
        · rw [hstarts e he]
          exact hstart
        · rw [hends e he]
          exact UInt64.le_refl _
      later := hclock ▸ hlater
      ordered_iff := by
        rw [ordered_append hentries hstarts hends hstart hpast, hopens]
        rfl
      onGrid := fun hgrid hcoarse hlt => by
        rw [hclock] at hlt ⊢
        obtain ⟨hgrid', hsame⟩ := onGrid_frame hgrid hcoarse hlt
        refine ⟨hgrid', fun _ => ?_⟩
        rw [InTime, hsame]
        exact lastTime_le h.past }

theorem not_opens_of_advance {seconds : Single} (hf : s.advance seconds = (s', none)) :
    ¬ s'.Opens := by
  cases hb : s.batch with
  | none =>
    rw [advance_of_idle seconds hb] at hf
    cases hf
    exact not_opens_of_idle hb
  | some b =>
    obtain ⟨p, -, he⟩ := advance_ends seconds hb
    rw [hf] at he
    cases he with
    | playing hb' hc =>
      rintro ⟨hflight, -⟩
      cases hc.symm.trans ((inFlight_of_batch hb').symm.trans hflight)

/-- With something in flight, or nothing to do, there is nothing to be
begun in time. -/
theorem proceeds_of_closed (h : s.Dated) (hclosed : ¬ s.Opens) (amounts : List Single) :
    Proceeds s (s.advanceAll amounts).1 True (∀ seconds ∈ amounts, Coarse seconds) := by
  induction amounts generalizing s with
  | nil => exact proceeds_of_same h rfl rfl
  | cons seconds rest ih =>
    have hframe := (proceeds_of_advance h seconds).congr
      (iff_of_true (fun ho => absurd ho hclosed) trivial) id
    rw [advanceAll]
    cases hf : s.advance seconds with
    | mk s₁ outcome =>
      rw [hf] at hframe
      cases outcome with
      | none =>
        refine (hframe.trans (ih hframe.dated (not_opens_of_advance hf))).congr ?_ ?_
        · exact and_self_iff
        · exact List.forall_mem_cons.mp
      | some o => exact hframe.congr Iff.rfl fun hall => hall _ (List.mem_cons_self ..)

/-- **Several frames:** it is the first of them that begins. -/
theorem proceeds_of_advanceAll (h : s.Dated) (seconds : Single) (rest : List Single) :
    Proceeds s (s.advanceAll (seconds :: rest)).1 (s.Opens → s.InTime seconds)
      (∀ a ∈ seconds :: rest, Coarse a) := by
  have hframe := proceeds_of_advance h seconds
  rw [advanceAll]
  cases hf : s.advance seconds with
  | mk s₁ outcome =>
    rw [hf] at hframe
    cases outcome with
    | none =>
      have hrest := proceeds_of_closed hframe.dated (not_opens_of_advance hf) rest
      exact (hframe.trans hrest).congr (and_iff_left trivial) List.forall_mem_cons.mp
    | some o => exact hframe.congr Iff.rfl fun hall => hall _ (List.mem_cons_self ..)

/-- **A run:** it is the first command of its batch that begins. -/
theorem proceeds_of_run {commands : List Command} {answer : Answer} (h : s.Dated)
    (hc : s.call (.run commands) = some (s', answer)) :
    Proceeds s s' (answer.taken commands ≠ [] → s.InTime s.frame) (Coarse s.frame) := by
  obtain ⟨⟨fault, rfl⟩, rfl⟩ | ⟨n, o, rfl, watcher, s₁, ha, hf⟩ := call_run hc
  · exact (proceeds_of_same h rfl rfl).congr (iff_of_true trivial fun hne => absurd rfl hne) id
  · obtain ⟨-, rfl⟩ := accept_eq_ok ha
    have hbegun : Proceeds s { s with
        batch := some { waiting := commands, current := none, outcome := .empty, watcher } }
        True (Coarse s.frame) := proceeds_of_same h rfl rfl
    cases n with
    | zero => cases hf
    | succ n =>
      have hframes := proceeds_of_advanceAll hbegun.dated s.frame (List.replicate n s.frame)
      rw [← List.replicate_succ, hf] at hframes
      refine (hbegun.trans hframes).congr ?_ fun hcoarse => ⟨hcoarse, fun a ha => ?_⟩
      · exact (iff_of_eq (true_and _)).trans ⟨fun hp hne => hp ⟨rfl, hne⟩, fun hp ho => hp ho.2⟩
      · rw [List.eq_of_mem_replicate ha]
        exact hcoarse

theorem proceeds_of_cancel (h : s.Dated) : Proceeds s s.cancel.1 True True := by
  cases hb : s.batch with
  | none =>
    rw [cancel_of_idle hb]
    exact proceeds_of_same h rfl rfl
  | some b =>
    cases hc : b.current with
    | none =>
      rw [cancel_of_waiting hb hc]
      exact proceeds_of_same h rfl rfl
    | some current =>
      obtain ⟨index, command⟩ := current
      rw [cancel_of_playing hb hc]
      have hentries : (s.journal.record s.clock index command .cancelled).entries.toList
          = s.journal.entries.toList ++ ([] ++ [_]) := toList_record ..
      exact {
        dated := by
          refine ⟨h.clock, fun e he => ?_⟩
          obtain he | he := List.mem_append.mp (hentries ▸ he)
          · exact h.past e he
          · cases List.mem_singleton.mp he
            exact UInt64.le_refl _
        later := upper_atMost_self h.clock
        ordered_iff := (ordered_append hentries nofun
          (List.forall_mem_singleton.mpr rfl) (UInt64.le_refl _) h.past).trans
          (and_congr_right' (iff_of_true (fun hne => absurd rfl hne) trivial))
        onGrid := fun hgrid _ _ => ⟨hgrid, trivial⟩ }

end Simulation

/-! ## Histories -/

/-- What a call begins is not entered before the last time. -/
def Event.Punctual (e : Event) : Prop :=
  match e.call with
  | .advance seconds => e.before.Opens → e.before.InTime seconds
  | .run commands => e.answer.taken commands ≠ [] → e.before.InTime e.before.frame
  | .perform text =>
    e.answer.taken (Command.readAll text) ≠ [] → e.before.InTime e.before.frame
  | _ => True

/-- The call lets no time pass but coarse amounts. -/
def Call.Coarse : Call → Prop
  | .advance seconds => Tabletop.Coarse seconds
  | _ => True

instance (call : Call) : Decidable call.Coarse :=
  match call with
  | .advance seconds => inferInstanceAs (Decidable (Tabletop.Coarse seconds))
  | .accept .. | .run _ | .perform _ | .cancel | .setFrame _ | .setRealtime _ => isTrue trivial

namespace Simulation

open Binary Journal

variable {s₀ s s' : Simulation} {calls : List Call} {history : List Event}

theorem proceeds_of_call {call : Call} {answer : Answer} (h : s.Dated)
    (hc : s.call call = some (s', answer)) :
    Proceeds s s' (Event.Punctual { before := s, call, answer, after := s' })
      (Coarse s.frame ∧ call.Coarse) := by
  cases call with
  | accept commands watcher =>
    rw [Simulation.call] at hc
    split at hc
    · cases hc
      exact proceeds_of_same h rfl rfl
    next s₁ ha =>
      cases hc
      obtain ⟨-, rfl⟩ := accept_eq_ok ha
      exact proceeds_of_same h rfl rfl
  | advance seconds =>
    cases hc
    exact (proceeds_of_advance h seconds).congr Iff.rfl And.right
  | run commands => exact (proceeds_of_run h hc).congr Iff.rfl And.left
  | perform text =>
    -- A text is the batch of the commands that it says.
    have hr : s.call (.run (Command.readAll text)) = some (s', answer) := hc
    exact (proceeds_of_run h hr).congr Iff.rfl And.left
  | cancel =>
    cases hc
    exact (proceeds_of_cancel h).congr Iff.rfl fun _ => trivial
  | setFrame seconds =>
    cases hc
    exact proceeds_of_same h rfl rfl
  | setRealtime realtime =>
    cases hc
    exact proceeds_of_same h rfl rfl

theorem coarse_frames : Coarse defaultFrame ∧ Coarse shortestFrame
    ∧ (.ofRatio false 1 (twoPow 14) : Single) ≤ shortestFrame := by
  decide +kernel

/-- The time of a frame of a run is coarse, whatever has been asked for. -/
theorem coarse_soundFrame (seconds : Single) : Coarse (soundFrame seconds) := by
  obtain ⟨hdefault, hshortest, hle⟩ := coarse_frames
  unfold soundFrame
  split
  next hfinite =>
    have hne : seconds ≠ nan := by
      rintro rfl
      cases hfinite
    by_cases hless : seconds < shortestFrame
    · rw [larger_eq hne, if_pos hless]
      exact hshortest
    · rw [larger_eq hne, if_neg hless]
      exact fun h => hless (less_of_less_of_atMost h.2 hle)
  · exact hdefault

theorem frame_setFrame (s : Simulation) (seconds : Single) :
    (s.setFrame seconds).frame = soundFrame seconds :=
  rfl

theorem kept_coarse : Kept fun s => Coarse s.frame :=
  kept_of_frames
    { ticked := fun _ h => h
      stride := fun hs h => by cases hs <;> exact h
      played := fun _ _ _ h => h }
    (fun h _ _ _ hf => hf ▸ h) (fun h => h) fun seconds _ => by
      rw [frame_setFrame]
      exact coarse_soundFrame seconds

theorem proceeds_of_follow (h : s.Dated) (hs : s.follow calls = some (s', history)) :
    Proceeds s s' (∀ e ∈ history, e.Punctual)
      (Coarse s.frame ∧ ∀ call ∈ calls, call.Coarse) := by
  induction calls generalizing s history with
  | nil =>
    cases hs
    exact (proceeds_of_same h rfl rfl).congr (iff_of_true trivial (List.forall_mem_nil _)) id
  | cons call calls ih =>
    obtain ⟨⟨s₁, answer⟩, hc, hs⟩ := Option.bind_eq_some_iff.mp hs
    obtain ⟨⟨s₂, rest⟩, hr, hs⟩ := Option.bind_eq_some_iff.mp hs
    cases hs
    have hcall := proceeds_of_call h hc
    refine (hcall.trans (ih hcall.dated hr)).congr List.forall_mem_cons.symm ?_
    rintro ⟨hframe, hcalls⟩
    obtain ⟨hfirst, hrest⟩ := List.forall_mem_cons.mp hcalls
    exact ⟨⟨hframe, hfirst⟩, kept_coarse.call hc hframe, hrest⟩

theorem Initial.coarse (h : s.Initial) : Coarse s.frame := by
  cases h with
  | new =>
    simp only [Simulation.new]
    exact coarse_frames.1
  | @settings c _ h =>
    obtain ⟨t, rfl⟩ := eq_of_settings h
    exact coarse_soundFrame c.frame

theorem Initial.dated (h : s.Initial) : s.Dated := by
  refine ⟨h.untouched.clock ▸ upper_zero, ?_⟩
  rw [h.untouched.journal]
  exact fun e he => nomatch he

/-- **The order of a journal** that a history has left. -/
structure Chronology (s : Simulation) (calls : List Call) (history : List Event) : Prop where
  /-- Nothing has been entered for a time to come. -/
  past : ∀ e ∈ s.journal.entries, e.time ≤ milliseconds s.clock
  /-- The journal is in the order of time exactly if every call was punctual. -/
  ordered_iff : s.journal.Ordered ↔ ∀ e ∈ history, e.Punctual
  /-- If it is, the time of the run is the latest of all times. -/
  latest : s.journal.Ordered → ∀ e ∈ s.journal.entries, e.time ≤ s.journal.lastTime
  /-- It is, at all times below the bound, if no amounts were too short. -/
  coarse : (∀ call ∈ calls, call.Coarse) → s.clock < 65536 → s.journal.Ordered

/-- **When time runs backwards in a journal.** However calls follow each other,
it can only do so where a frame begins with a command, and it never does while
the clock is below the bound and no frame is too short. -/
theorem chronology_of_follow (h₀ : s₀.Initial) (hs : s₀.follow calls = some (s, history)) :
    Chronology s calls history := by
  have hempty : s₀.journal.Ordered := by
    rw [h₀.untouched.journal]
    exact .nil
  have h := proceeds_of_follow h₀.dated hs
  exact {
    past := fun e he => h.dated.past e (Array.mem_toList_iff.mpr he)
    ordered_iff := h.ordered_iff.trans (and_iff_right hempty)
    latest := fun hordered e he => hordered.le_lastTime (Array.mem_toList_iff.mpr he)
    coarse := fun hcoarse hlt => by
      have hgrid : OnGrid s₀.clock := h₀.untouched.clock ▸ onGrid_zero
      obtain ⟨-, hpunctual⟩ := h.onGrid hgrid ⟨h₀.coarse, hcoarse⟩ hlt
      exact h.ordered_iff.mpr ⟨hempty, hpunctual⟩ }

/-- A turn of a second in two frames, and a run after it. -/
theorem chronology_after_turn :
    ∃ s history,
      (Simulation.new ⟨3, 3, 1, by decide⟩ (.new 1 2)).follow
          [.accept [.place 0 0 .east, .left] none, .advance (.ofRatio false 1 4), .advance 1,
            .setFrame 1, .run [.report, .move]]
        = some (s, history)
      ∧ s.journal.entries.toList.map Entry.time = [0, 0, 0, 1250, 1250, 1250, 1250, 3250]
      ∧ Chronology s
          [.accept [.place 0 0 .east, .left] none, .advance (.ofRatio false 1 4), .advance 1,
            .setFrame 1, .run [.report, .move]] history
      ∧ s.journal.Ordered := by
  have hany : ((Simulation.new ⟨3, 3, 1, by decide⟩ (.new 1 2)).follow
      [.accept [.place 0 0 .east, .left] none, .advance (.ofRatio false 1 4), .advance 1,
        .setFrame 1, .run [.report, .move]]).any
      (fun p => p.1.journal.entries.toList.map Entry.time
          = [0, 0, 0, 1250, 1250, 1250, 1250, 3250]
        && decide (p.1.clock < 65536)) = true := by
    decide +kernel
  obtain ⟨⟨s, history⟩, hs, hp⟩ := (Option.any_eq_true _ _).mp hany
  obtain ⟨htimes, hlt⟩ := (Bool.and_eq_true _ _).mp hp
  have h := chronology_of_follow (.new _ _) hs
  exact ⟨s, history, hs, of_decide_eq_true htimes, h,
    h.coarse (by decide +kernel) (of_decide_eq_true hlt)⟩

/-- **A journal that goes back in time.** A turn has ended after a second, and
a frame of 2^60 seconds begins with a report: beside so much time the second
is rounded away, and the report is entered at zero. So the last time is not
the latest. -/
theorem backward_after_long_frame :
    ∃ s history,
      (Simulation.new ⟨5, 5, 1, by decide⟩ (.new 1 1)).follow
          [.accept [.place 0 0 .north, .left] none, .advance 1, .accept [.report] none,
            .advance (.ofRatio false (twoPow 60) 1)]
        = some (s, history)
      ∧ s.journal.entries.toList.map Entry.time = [0, 0, 0, 1000, 0, 0]
      ∧ ¬ s.journal.Ordered
      ∧ s.journal.lastTime = 0 := by
  have hany : ((Simulation.new ⟨5, 5, 1, by decide⟩ (.new 1 1)).follow
      [.accept [.place 0 0 .north, .left] none, .advance 1, .accept [.report] none,
        .advance (.ofRatio false (twoPow 60) 1)]).any
      (fun p => p.1.journal.entries.toList.map Entry.time = [0, 0, 0, 1000, 0, 0]
        && (decide (¬ p.1.journal.Ordered) && decide (p.1.journal.lastTime = 0))) = true := by
    decide +kernel
  obtain ⟨⟨s, history⟩, hs, hp⟩ := (Option.any_eq_true _ _).mp hany
  obtain ⟨htimes, hp⟩ := (Bool.and_eq_true _ _).mp hp
  obtain ⟨hback, hlast⟩ := (Bool.and_eq_true _ _).mp hp
  exact ⟨s, history, hs, of_decide_eq_true htimes, of_decide_eq_true hback,
    of_decide_eq_true hlast⟩

end Simulation

end Tabletop
