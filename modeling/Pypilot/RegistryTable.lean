import Pypilot.RegistryRuns

/-!
# The watch table over a run

Whatever calls the registry has seen, the table holds for each field what the last call that watched or
unwatched it left: one entry with the period of that watch, or none (`watch_table`).
-/

namespace Pypilot

open Text SlotTable

/-- The field has an active entry of the period. -/
def Store.WatchedEvery (s : Store) (id : FieldId) (periodSeconds : Real) : Prop :=
  ∃ i, (s.values.watches.get i).active = true ∧ (s.values.watches.get i).id = id ∧
    (s.values.watches.get i).periodSeconds = periodSeconds

/-- The periods of a field that has an entry. -/
theorem Store.HasEntry.watchedEvery_iff {s : Store} {e : Watch} (h : s.HasEntry e)
    (periodSeconds : Real) :
    s.WatchedEvery e.id periodSeconds ↔ e.periodSeconds = periodSeconds := by
  obtain ⟨i, rfl⟩ := h.mem
  constructor
  · rintro ⟨j, hact, hid, hperiod⟩
    rwa [← h.single j i hact h.active hid]
  · intro hperiod
    exact ⟨i, h.active, rfl, hperiod⟩

theorem Store.SingleWatches.exists_entry {s : Store} (h : s.SingleWatches) {id : FieldId}
    (hwatched : s.Watched id) : ∃ e, s.HasEntry e ∧ e.id = id := by
  obtain ⟨i, hact, hid⟩ := hwatched
  exact ⟨s.values.watches.get i, ⟨h, hact, i, rfl⟩, hid⟩

namespace RegistryCall

instance (id : FieldId) : DecidablePred (Rewatches id)
  | watch name _ _ _ | unwatch name => inferInstanceAs (Decidable (name = id.entry.name))
  | set _ | emitChangedWatches | emitDueWatches _ | change _ => inferInstanceAs (Decidable False)

/-- The period of a call that watches. -/
def watchPeriod : RegistryCall → Option Real
  | watch _ periodSeconds _ _ => some periodSeconds
  | _ => none

/-- The last call that watches or unwatches the field. -/
def lastRewatch (id : FieldId) (calls : List RegistryCall) : Option RegistryCall :=
  calls.reverse.find? fun call => decide (call.Rewatches id)

theorem lastRewatch_concat (id : FieldId) (calls : List RegistryCall) (call : RegistryCall) :
    lastRewatch id (calls ++ [call]) =
      if call.Rewatches id then some call else lastRewatch id calls := by
  unfold lastRewatch
  rw [List.reverse_concat, List.find?_cons]
  by_cases h : call.Rewatches id <;> simp [h]

section Step

variable {W : Type} (m : Machine) (out : ValueWriter W) {p : Store × W} (h : p.1.SingleWatches)
  {id : FieldId}

include h

/-- A call for other fields watches nothing new of this one. -/
theorem watched_of_step {call : RegistryCall} (hother : ¬ call.Rewatches id)
    (hwatched : (call.step m out p).1.Watched id) : p.1.Watched id := by
  cases call with
  | set call =>
    exact (Store.watched_congr (call.run_watches m p.1) id).mp hwatched
  | watch name periodSeconds nowUs initialLine =>
    replace hwatched : (p.1.watch m name periodSeconds nowUs _ p.2).2.1.Watched id := hwatched
    cases hfind : find name with
    | none =>
      unfold Store.watch at hwatched
      rwa [hfind] at hwatched
    | some d =>
      obtain ⟨hentry, hname⟩ := find_eq_some hfind
      rw [← hname, hentry] at hwatched
      rcases ((Store.watch_watched m periodSeconds nowUs _ p.2 h d.id).2 id).mp hwatched with
        hid | hold
      · exact absurd hid (id_ne_of_find hfind hother)
      · exact hold
  | unwatch name =>
    replace hwatched : (p.1.unwatch name).2.Watched id := hwatched
    cases hfind : find name with
    | none =>
      unfold Store.unwatch at hwatched
      rwa [hfind] at hwatched
    | some d =>
      obtain ⟨hentry, hname⟩ := find_eq_some hfind
      rw [← hname, hentry] at hwatched
      exact ((Store.unwatch_watched p.1 d.id id).mp hwatched).2
  | emitChangedWatches =>
    replace hwatched : (p.1.emitChangedWatches m out p.2).1.Watched id := hwatched
    rwa [emitChangedWatches_eq] at hwatched
  | emitDueWatches nowUs =>
    replace hwatched : (p.1.emitDueWatches m nowUs out p.2).1.Watched id := hwatched
    rw [emitDueWatches_eq] at hwatched
    obtain ⟨i, hact, hid⟩ := hwatched
    obtain ⟨hactive, hsame, -⟩ := Store.redue_spec m nowUs (p.1.values.watches.get i)
    dsimp only at hact hid
    rw [List.Vector.get_map] at hact hid
    exact ⟨i, hactive.symm.trans hact, hsame.symm.trans hid⟩
  | change f => exact hwatched

/-- **Entries.** A call that watches or unwatches the field decides its entry, others leave it. -/
theorem step_watchedEvery (call : RegistryCall) (periodSeconds : Real) :
    (call.step m out p).1.WatchedEvery id periodSeconds ↔
      if call.Rewatches id then call.watchPeriod = some periodSeconds
      else p.1.WatchedEvery id periodSeconds := by
  have hsingle := step_single m out h call
  split_ifs with hnames
  · cases call with
    | watch name period nowUs initialLine =>
      obtain rfl : name = id.entry.name := hnames
      have hentry := h.hasEntry_watch m id period nowUs (if initialLine then some out else none) p.2
      exact (hentry.watchedEvery_iff periodSeconds).trans Option.some_inj.symm
    | unwatch name =>
      obtain rfl : name = id.entry.name := hnames
      refine iff_of_false ?_ (Option.some_ne_none _).symm
      rintro ⟨i, hact, hid, -⟩
      exact ((Store.unwatch_watched p.1 id id).mp ⟨i, hact, hid⟩).1 rfl
    | set call => exact hnames.elim
    | emitChangedWatches => exact hnames.elim
    | emitDueWatches nowUs => exact hnames.elim
    | change f => exact hnames.elim
  · by_cases hwatched : p.1.Watched id
    · obtain ⟨e, hentry, rfl⟩ := h.exists_entry hwatched
      have hnext := step_hasEntry m out hentry hnames
      have hmoved : (call.moved m e).id = e.id ∧
          (call.moved m e).periodSeconds = e.periodSeconds := by
        cases call with
        | emitDueWatches nowUs => exact (Store.redue_spec m nowUs e).2
        | _ => exact ⟨rfl, rfl⟩
      rw [hentry.watchedEvery_iff, ← hmoved.1, hnext.watchedEvery_iff, hmoved.2]
    · refine iff_of_false ?_ ?_
      · rintro ⟨i, hact, hid, -⟩
        exact hwatched (watched_of_step m out h hnames ⟨i, hact, hid⟩)
      · rintro ⟨i, hact, hid, -⟩
        exact hwatched ⟨i, hact, hid⟩

theorem foldl_watchedEvery (hfree : ∀ i, (p.1.values.watches.get i).active = false)
    (calls : List RegistryCall) (periodSeconds : Real) :
    (calls.foldl (step m out) p).1.WatchedEvery id periodSeconds ↔
      (lastRewatch id calls).bind watchPeriod = some periodSeconds := by
  -- the last call either decides the entry or leaves it
  induction calls using List.reverseRecOn with
  | nil =>
    refine iff_of_false ?_ (Option.some_ne_none _).symm
    rintro ⟨i, hact, -⟩
    exact absurd (hact.symm.trans (hfree i)) (by decide)
  | append_singleton calls call ih =>
    rw [List.foldl_concat, step_watchedEvery m out (foldl_single m out h calls), lastRewatch_concat,
      ih]
    split_ifs <;> rfl

end Step

/-- **Watch table.** After any calls on a registry with a new table, no field has two entries, each field
has the entry of the last call for it, and every field can be watched. -/
theorem watch_table {W : Type} (m : Machine) (out : ValueWriter W) (st : PypilotState)
    (attached : Bool) (dirty : FieldId → Bool) (w : W) (calls : List RegistryCall) :
    let s := (calls.foldl (step m out) (⟨st, { attached := attached, dirty := dirty }⟩, w)).1
    s.SingleWatches ∧
      (∀ id periodSeconds, s.WatchedEvery id periodSeconds ↔
        (lastRewatch id calls).bind watchPeriod = some periodSeconds) ∧
      ∀ (id : FieldId) (periodSeconds : Real) (nowUs : ℕ) (initialLine : Option (ValueWriter W))
        (w' : W), (s.watch m id.entry.name periodSeconds nowUs initialLine w').1 = true := by
  intro s
  have hnew : Store.SingleWatches ⟨st, { attached := attached, dirty := dirty }⟩ :=
    Store.singleWatches_of_new rfl
  have hsingle : s.SingleWatches := @foldl_single W m out (_, w) hnew calls
  refine ⟨hsingle, fun id periodSeconds => ?_, fun id periodSeconds nowUs initialLine w' => ?_⟩
  · exact @foldl_watchedEvery W m out (_, w) hnew id (Store.free_of_new rfl) calls periodSeconds
  · exact (Store.watch_watched m periodSeconds nowUs initialLine w' hsingle id).1

end RegistryCall

end Pypilot
