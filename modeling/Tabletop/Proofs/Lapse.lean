import Mathlib.Data.List.Chain
import Tabletop.Proofs.Chronology
import Tabletop.Proofs.Pairing

/-!
# No command ends before it begins

A journal can go back in time where a frame begins with a command (see
`Tabletop.Proofs.Chronology`). But no command is torn apart by that: its end
is entered right after its beginning, and of two entries that stand together
like that, the second is never earlier. If both are entered in one frame, their
times are that of the frame's beginning or that of its end, in this order
(`frame_spec`). And if the beginning is entered in one frame and the end in a
later one, the end has the time of the clock, and nothing has been entered for
a time to come (`Simulation.Dated`).

So the times that a printed journal takes from one another can be taken from
one another as numbers of 64 bits, whatever the frames were: infinite ones, and
those that are no numbers, among them. This is `Simulation.lapses_of_follow`.
-/

namespace Tabletop

namespace Journal

variable {j j' : Journal} {starts ends entries : List Entry} {first now t : UInt64}

/-- **An end is not earlier than the beginning in front of it.** -/
def Onward (j : Journal) : Prop :=
  j.entries.toList.IsChain fun a b => a.phase = .started → b.phase = .finished → a.time ≤ b.time

theorem isChain_of_time_eq (h : ∀ e ∈ entries, e.time = t) :
    entries.IsChain fun a b => a.phase = .started → b.phase = .finished → a.time ≤ b.time :=
  (pairwise_of_time_eq h).isChain.imp fun _ _ hle _ _ => hle

/-- What a frame adds goes onward, if the entry before what it begins is no
beginning. -/
theorem Onward.append (h : j.Onward) (hj : j'.entries.toList = j.entries.toList ++ (starts ++ ends))
    (hstarts : ∀ e ∈ starts, e.time = first) (hends : ∀ e ∈ ends, e.time = now)
    (hle : first ≤ now) (hpast : ∀ e ∈ j.entries.toList, e.time ≤ now)
    (hlast : starts ≠ [] → ∀ e ∈ j.entries.toList.getLast?, e.phase ≠ .started) : j'.Onward := by
  rw [Onward, hj, List.isChain_append, List.isChain_append]
  refine ⟨h, ⟨isChain_of_time_eq hstarts, isChain_of_time_eq hends, ?_⟩, ?_⟩
  · intro a ha b hb _ _
    rw [hstarts a (List.mem_of_getLast? ha), hends b (List.mem_of_head? hb)]
    exact hle
  · intro a ha b hb hstarted _
    cases starts with
    | nil =>
      rw [hends b (List.mem_of_head? hb)]
      exact hpast a (List.mem_of_getLast? ha)
    | cons e rest => exact absurd hstarted (hlast (List.cons_ne_nil _ _) a ha)

/-- In a journal that goes onward, a command takes no less than no time. -/
theorem Stretch.time_le {earlier later : List Entry} {start finish : Entry}
    (hs : Stretch j.entries.toList earlier later start finish) (h : j.Onward) :
    start.time ≤ finish.time := by
  rw [Onward, hs.entries_eq, List.isChain_append_cons_cons] at h
  exact h.2.1 hs.begins hs.ends

end Journal

namespace Simulation

open Binary Journal

variable {s s' s₀ : Simulation} {calls : List Call} {history : List Event}
  {taken : List Command} {off : List (Nat × Command)} {ended : List (Command × Fate)}

/-- With nothing in flight, the last entry is no beginning. -/
theorem Chronicled.phase_ne_of_rest (h : Chronicled s taken off ended) (hf : s.inFlight = none) :
    ∀ e ∈ s.journal.entries.toList.getLast?, e.phase ≠ .started := by
  intro e he hphase
  have hlast : (told ended).getLast? = some (e.index, e.command, e.phase) := by
    rw [← h.entries_of_rest hf, untimed, List.getLast?_map, he]
    rfl
  obtain rfl | ⟨init, ⟨command, fate⟩, rfl⟩ := List.eq_nil_or_concat ended
  · cases hlast
  · rw [List.concat_eq_append, told_concat] at hlast
    cases fate <;> simp [Fate.phases, hphase] at hlast

/-- A simulation whose journal goes onward. -/
structure Onward (s : Simulation) : Prop where
  dated : s.Dated
  chronicled : ∃ taken off ended, Chronicled s taken off ended
  onward : s.journal.Onward

/-- It does not matter what is not entered in the journal. -/
theorem Onward.congr (h : s.Onward) (hclock : s'.clock = s.clock) (hjournal : s'.journal = s.journal)
    (hnext : s'.nextIndex = s.nextIndex) (hflight : s'.inFlight = s.inFlight) : s'.Onward where
  dated := ⟨hclock ▸ h.dated.clock, by rw [hjournal, hclock]; exact h.dated.past⟩
  chronicled := by
    obtain ⟨taken, off, ended, hc⟩ := h.chronicled
    exact ⟨taken, off, ended, hc.congr hjournal hnext hflight⟩
  onward := hjournal ▸ h.onward

theorem onward_of_advance (seconds : Single) (h : s.Onward) : (s.advance seconds).1.Onward := by
  obtain ⟨taken, off, ended, hc⟩ := h.chronicled
  obtain ⟨ended', hc'⟩ := chronicled_of_call (rfl : s.call (.advance seconds) = some _) hc
  refine ⟨(proceeds_of_advance h.dated seconds).dated, ⟨_, _, _, hc'⟩, ?_⟩
  cases hb : s.batch with
  | none =>
    rw [advance_of_idle seconds hb]
    exact h.onward
  | some b =>
    obtain ⟨starts, ends, -, hentries, hstarts, hends, hopens⟩ :=
      entries_of_advance hb h.dated.clock seconds
    obtain ⟨hupper, hlater, hstart⟩ := frame_spec seconds h.dated.clock
    refine h.onward.append hentries hstarts hends hstart (fun e he => ?_) fun hne => ?_
    · exact UInt64.le_trans (h.dated.past e he) (milliseconds_le h.dated.clock hupper hlater)
    · exact hc.phase_ne_of_rest (hopens.mp hne).1

theorem onward_of_cancel (h : s.Onward) : s.cancel.1.Onward := by
  obtain ⟨taken, off, ended, hc⟩ := h.chronicled
  obtain ⟨ended', hc'⟩ := chronicled_of_cancel hc
  refine ⟨(proceeds_of_cancel h.dated).dated, ⟨_, _, _, hc'⟩, ?_⟩
  cases hb : s.batch with
  | none =>
    rw [cancel_of_idle hb]
    exact h.onward
  | some b =>
    cases hflight : b.current with
    | none =>
      rw [cancel_of_waiting hb hflight]
      exact h.onward
    | some current =>
      rw [cancel_of_playing hb hflight]
      show (s.journal.record s.clock current.1 current.2 .cancelled).Onward
      rw [Journal.Onward, toList_record, List.isChain_append]
      refine ⟨h.onward, List.isChain_singleton _, fun a _ b hb _ hfinished => ?_⟩
      cases hb
      cases hfinished

/-- **Every journal goes onward.** -/
theorem keptByCalls_onward : KeptByCalls Onward where
  advanced := onward_of_advance
  accepted ha h := by
    obtain ⟨hb, rfl⟩ := accept_eq_ok ha
    exact h.congr rfl rfl rfl (inFlight_of_idle hb).symm
  cancelled := onward_of_cancel
  framed _ h := h.congr rfl rfl rfl rfl
  paced _ h := h.congr rfl rfl rfl rfl

theorem Initial.onward (h : s.Initial) : s.Onward := by
  refine ⟨h.dated, ⟨_, _, _, h.chronicled⟩, ?_⟩
  rw [Journal.Onward, h.untouched.journal]
  exact .nil

/-- **The times between beginnings and ends** in a journal. -/
structure Lapses (j : Journal) : Prop where
  /-- A command that has finished has one beginning, and its end is not earlier. -/
  finish : ∀ e ∈ j.entries, e.phase = .finished →
    ∃ start ∈ j.entries, start.phase = .started ∧ start.index = e.index
      ∧ start.command = e.command ∧ start.time ≤ e.time
      ∧ ∀ other ∈ j.entries, other.phase = .started → other.index = e.index → other = start
  /-- Where the printed journal takes one time from another, the difference of 64
  bits is the difference of the numbers. -/
  printed : ∀ {n : Nat} {e : Entry}, j.entries[n]? = some e → e.phase = .finished →
    ∃ time, (pendingAfter [] (j.entries.toList.take n)).find? (fun p => p.1 = e.index)
        = some (e.index, time)
      ∧ time ≤ e.time ∧ (e.time - time).toNat = e.time.toNat - time.toNat

/-- **No command ends before it begins,** whatever amounts of time pass. -/
theorem lapses_of_follow (h₀ : s₀.Initial) (hs : s₀.follow calls = some (s, history)) :
    Lapses s.journal := by
  have h := keptByCalls_onward.follow hs h₀.onward
  obtain ⟨taken, off, ended, hc⟩ := h.chronicled
  constructor
  · intro e he hphase
    obtain ⟨earlier, start, later, hstretch⟩ :=
      hc.stretch_of_finished (Array.mem_toList_iff.mpr he) hphase
    have hmem : start ∈ s.journal.entries.toList := by
      rw [hstretch.entries_eq]
      exact List.mem_append_right _ (List.mem_cons_self ..)
    refine ⟨start, Array.mem_toList_iff.mp hmem, hstretch.begins, hstretch.index.symm,
      hstretch.command.symm, hstretch.time_le h.onward, fun other hother hstarted hindex => ?_⟩
    exact hstretch.eq_start (Array.mem_toList_iff.mpr hother) (hindex.trans hstretch.index) hstarted
  · intro n e hn hphase
    obtain ⟨earlier, start, later, hstretch⟩ :=
      hc.stretch_of_finished (Array.mem_toList_iff.mpr (Array.mem_of_getElem? hn)) hphase
    have hle := hstretch.time_le h.onward
    refine ⟨start.time, ?_, hle, UInt64.toNat_sub_of_le _ _ hle⟩
    rw [hstretch.find?_pending hn, hstretch.index]

/-- A turn that an infinite frame ends, and then an infinite frame that begins
with a report: the clock stays at infinity, and the frame's beginning is no
number and counts as zero. -/
theorem lapses_in_infinite_frames :
    ∃ s history,
      (Simulation.new ⟨3, 3, 1, by decide⟩ (.new 1 1)).follow
          [.accept [.place 0 0 .north, .right] none, .advance (.ofRatio false 1 4),
            .advance (.infinite false), .accept [.report, .move] none, .advance (.infinite false)]
        = some (s, history)
      ∧ s.journal.entries.toList.map Entry.time
        = [0, 0, 0, 18446744073709551615, 0, 0, 0, 18446744073709551615]
      ∧ Lapses s.journal := by
  have hany : ((Simulation.new ⟨3, 3, 1, by decide⟩ (.new 1 1)).follow
      [.accept [.place 0 0 .north, .right] none, .advance (.ofRatio false 1 4),
        .advance (.infinite false), .accept [.report, .move] none, .advance (.infinite false)]).any
      (fun p => p.1.journal.entries.toList.map Entry.time
        = [0, 0, 0, 18446744073709551615, 0, 0, 0, 18446744073709551615]) = true := by
    decide +kernel
  obtain ⟨⟨s, history⟩, hs, hp⟩ := (Option.any_eq_true _ _).mp hany
  exact ⟨s, history, hs, of_decide_eq_true hp, lapses_of_follow (.new _ _) hs⟩

end Simulation

end Tabletop
