import Pypilot.Lib.Periodic
import Pypilot.RegistryRuns

/-!
# Periodic watches

A periodic entry is due at a multiple of its period behind the time of the watch. A call of
`emit_due_watches` writes it when such a multiple has passed since the call before, once however many have,
and moves it to the next multiple that is still to come (`periodic_phase`). The catch-up loop adds the period
to the due time, so it keeps the phase.
-/

namespace Pypilot

open Text

/-! ## The catch-up loop -/

/-- The first due time behind the clock, a whole number of periods on. -/
theorem advance_eq {period nowUs due : ℕ} (hperiod : 0 < period) (hdue : due ≤ nowUs) :
    Store.advance period nowUs due = due + period * ((nowUs - due) / period + 1) :=
  Periodic.run_from_due hperiod (fun _ => rfl) 0 hdue

/-- The loop ends for every period, 0 included, and every due time. -/
theorem advance_returns (period nowUs due : ℕ) :
    ∃ next, Loop.Returns (Store.advanceBody period nowUs) due next :=
  ⟨Store.advance period nowUs due, _, Loop.exec_run due⟩

/-! ## The phase -/

section Phase

variable (m : Machine) (id : FieldId) (periodSeconds : Real) (startUs : ℕ)

def periodsAt (nowUs : ℕ) : ℕ := (nowUs - startUs) / periodUs m periodSeconds

/-- The entry of a watch begun at `startUs`, after a call at `nowUs`. -/
def phase (nowUs : ℕ) : Watch :=
  ⟨true, id, periodSeconds,
    startUs + periodUs m periodSeconds * (periodsAt m periodSeconds startUs nowUs + 1)⟩

theorem phase_start :
    Store.watchOf m periodSeconds startUs id = phase m id periodSeconds startUs startUs := by
  unfold Store.watchOf phase periodsAt
  rw [Nat.sub_self, Nat.zero_div, Nat.zero_add, Nat.mul_one]

variable {m periodSeconds} (hperiod : 1 ≤ periodUs m periodSeconds)

include hperiod

theorem not_nonpositive : ¬ periodSeconds ≤ 0 := by
  intro hle
  unfold periodUs at hperiod
  rw [if_pos hle] at hperiod
  exact absurd hperiod (by decide)

variable {startUs} {lastUs nowUs : ℕ}

/-- The entry is due when a whole period has been completed since the last call. -/
theorem isDue_phase_iff :
    Store.isDue nowUs (phase m id periodSeconds startUs lastUs) = true ↔
      periodsAt m periodSeconds startUs lastUs < periodsAt m periodSeconds startUs nowUs := by
  unfold Store.isDue phase
  simp only [not_nonpositive hperiod, decide_false, Bool.not_false, Bool.and_true, Bool.true_and,
    decide_eq_true_eq]
  exact Periodic.nextDue_le_iff hperiod

/-- **One call.** A call moves the entry from the phase of the last call to its own. -/
theorem redue_phase (hlast : lastUs ≤ nowUs) :
    redue m nowUs (phase m id periodSeconds startUs lastUs) =
      phase m id periodSeconds startUs nowUs := by
  unfold redue
  split_ifs with hdue
  · unfold Store.isDue at hdue
    simp only [Bool.and_eq_true, decide_eq_true_eq] at hdue
    have hadvance : Store.advance (periodUs m periodSeconds) nowUs
        (Periodic.nextDue startUs (periodUs m periodSeconds) lastUs) =
          Periodic.nextDue startUs (periodUs m periodSeconds) nowUs :=
      Periodic.run_catchUp hperiod (fun _ => rfl) hdue.2
    exact congrArg (Watch.mk true id periodSeconds) hadvance
  · have hnot : nowUs < Periodic.nextDue startUs (periodUs m periodSeconds) lastUs :=
      not_le.mp fun hle =>
        hdue ((isDue_phase_iff id hperiod).mpr ((Periodic.nextDue_le_iff hperiod).mp hle))
    have hsame := Periodic.nextDue_eq_of_lt hperiod hlast hnot
    exact congrArg (Watch.mk true id periodSeconds) hsame.symm

end Phase

/-! ## Runs -/

namespace RegistryCall

def emitTime : RegistryCall → Option ℕ
  | emitDueWatches nowUs => some nowUs
  | _ => none

/-- The clock reading of the last call of `emit_due_watches`, or `startUs`. -/
def lastEmit (startUs : ℕ) (calls : List RegistryCall) : ℕ :=
  (calls.filterMap emitTime).getLastD startUs

section Runs

variable {W : Type} {m : Machine} (out : ValueWriter W) {id : FieldId} {periodSeconds : Real}
  {startUs : ℕ} (hperiod : 1 ≤ periodUs m periodSeconds)

include hperiod

/-- **Runs.** Calls at readings that do not decrease keep the entry in phase. -/
theorem foldl_phase {calls : List RegistryCall} (hothers : ∀ call ∈ calls, ¬ call.Rewatches id)
    {lastUs : ℕ} (htimes : (lastUs :: calls.filterMap emitTime).Pairwise (· ≤ ·)) {p : Store × W}
    (hentry : p.1.HasEntry (phase m id periodSeconds startUs lastUs)) :
    (calls.foldl (step m out) p).1.HasEntry
      (phase m id periodSeconds startUs (lastEmit lastUs calls)) := by
  -- the reading of the last call goes along
  induction calls generalizing lastUs p with
  | nil => exact hentry
  | cons call calls ih =>
    rw [List.forall_mem_cons] at hothers
    have hnext := step_hasEntry m out hentry hothers.1
    rw [List.foldl_cons]
    by_cases hemit : ∃ nowUs, call = .emitDueWatches nowUs
    · obtain ⟨nowUs, rfl⟩ := hemit
      obtain ⟨hle, htimes⟩ := List.pairwise_cons.mp htimes
      have hlast := hle nowUs List.mem_cons_self
      have hmoved : moved m (phase m id periodSeconds startUs lastUs) (.emitDueWatches nowUs) =
          phase m id periodSeconds startUs nowUs := redue_phase id hperiod hlast
      rw [hmoved] at hnext
      have h := ih hothers.2 htimes hnext
      unfold lastEmit at h ⊢
      rwa [List.filterMap_cons_some (show (emitDueWatches nowUs).emitTime = some nowUs from rfl),
        List.getLastD_cons]
    · have hnone : call.emitTime = none := by
        cases call <;> first | rfl | exact absurd ⟨_, rfl⟩ hemit
      have hmoved : moved m (phase m id periodSeconds startUs lastUs) call =
          phase m id periodSeconds startUs lastUs := by
        cases call <;> first | rfl | exact absurd ⟨_, rfl⟩ hemit
      rw [List.filterMap_cons_none hnone] at htimes
      rw [hmoved] at hnext
      have h := ih hothers.2 htimes hnext
      unfold lastEmit at h ⊢
      rwa [List.filterMap_cons_none hnone]

end Runs

end RegistryCall

open RegistryCall in
/-- **Periodic watches.** A field is watched with a period of at least a microsecond, at some point in a
run of the registry, and not watched or unwatched later. Then a call of `emit_due_watches` writes a line
for it when a multiple of the period since the watch lies between the last call and this one, and none
otherwise; the next due time is the first multiple behind this call; and its loops end. -/
theorem periodic_phase {W : Type} (m : Machine) (out : ValueWriter W) (st : PypilotState) (w : W)
    (history later : List RegistryCall) (id : FieldId) (periodSeconds : Real) (startUs : ℕ)
    (initialLine : Bool) (hperiod : 1 ≤ periodUs m periodSeconds)
    (hothers : ∀ call ∈ later, ¬ call.Rewatches id)
    (htimes : (startUs :: later.filterMap emitTime).Pairwise (· ≤ ·)) :
    let watched := step m out (history.foldl (step m out) (start st w))
      (.watch id.entry.name periodSeconds startUs initialLine)
    ∀ before nowUs after, later = before ++ .emitDueWatches nowUs :: after →
      let p := before.foldl (step m out) watched
      let periods := fun t => (t - startUs) / periodUs m periodSeconds
      (p.1.emitDueWatches m nowUs out p.2).2 = attemptLines m out p.1 (dueIds nowUs p.1) p.2 ∧
        (dueIds nowUs p.1).count id =
          (if periods nowUs > periods (lastEmit startUs before) then 1 else 0) ∧
        (∃ e, (p.1.emitDueWatches m nowUs out p.2).1.HasEntry e ∧ e.id = id ∧
          e.nextDueUs = startUs + periodUs m periodSeconds * (periods nowUs + 1)) ∧
        ∀ e ∈ p.1.values.watches.toList, ∃ next,
          Loop.Returns (Store.advanceBody (periodUs m e.periodSeconds) nowUs) e.nextDueUs next := by
  intro watched before nowUs after hlater p periods
  have hsingle := foldl_single m out (single_start st w) history
  have hwatched : watched.1.HasEntry (phase m id periodSeconds startUs startUs) := by
    rw [← phase_start]
    exact hsingle.hasEntry_watch m id periodSeconds startUs _ _
  rw [hlater, List.filterMap_append,
    List.filterMap_cons_some (show (emitDueWatches nowUs).emitTime = some nowUs from rfl),
    ← List.cons_append, List.pairwise_append] at htimes
  have hbefore : ∀ call ∈ before, ¬ call.Rewatches id := fun call hcall =>
    hothers call (hlater ▸ List.mem_append_left _ hcall)
  have hentry := foldl_phase out hperiod hbefore htimes.1 hwatched
  have hlast : lastEmit startUs before ≤ nowUs :=
    htimes.2.2 _ List.getLastD_mem_cons nowUs List.mem_cons_self
  have hemit : ¬ (emitDueWatches nowUs).Rewatches id := fun h => h
  have hnext := step_hasEntry m out hentry hemit
  have hmoved : moved m (phase m id periodSeconds startUs (lastEmit startUs before))
      (.emitDueWatches nowUs) = phase m id periodSeconds startUs nowUs :=
    redue_phase id hperiod hlast
  rw [hmoved] at hnext
  refine ⟨by rw [emitDueWatches_eq], ?_, ⟨_, hnext, rfl, rfl⟩, fun e _ => advance_returns _ _ _⟩
  have hcount := hentry.count_dueIds nowUs
  have hiff : Store.isDue nowUs (phase m id periodSeconds startUs (lastEmit startUs before)) = true ↔
      periods (lastEmit startUs before) < periods nowUs := isDue_phase_iff id hperiod
  rw [show (phase m id periodSeconds startUs (lastEmit startUs before)).id = id from rfl] at hcount
  rw [hcount]
  exact if_congr hiff rfl rfl

open RegistryCall in
/-- Ten microseconds from 3 on: two periods have passed at 27, and the field is written once. -/
theorem periodic_phase_heading :
    let watched := step default StringValueWriter (start {} [])
      (.watch FieldId.apHeading.entry.name (.fin (1 / 100000)) 3 true)
    let p := [RegistryCall.emitDueWatches 4, .set (.setReal (lit "ap.heading") 5)].foldl
      (step default StringValueWriter) watched
    (dueIds 27 p.1).count .apHeading = 1 ∧
      ∃ e, (p.1.emitDueWatches default 27 StringValueWriter p.2).1.HasEntry e ∧
        e.id = .apHeading ∧ e.nextDueUs = 33 := by
  intro watched p
  have hperiod : periodUs default (.fin (1 / 100000)) = 10 := by decide +kernel
  have h := periodic_phase default StringValueWriter {} [] []
    [.emitDueWatches 4, .set (.setReal (lit "ap.heading") 5), .emitDueWatches 27] .apHeading
    (.fin (1 / 100000)) 3 true (by rw [hperiod]; decide)
    (by simp [Rewatches]) (show [3, 4, 27].Pairwise (· ≤ ·) by decide)
    [.emitDueWatches 4, .set (.setReal (lit "ap.heading") 5)] 27 [] rfl
  rw [hperiod] at h
  exact ⟨h.2.1, h.2.2.1⟩

end Pypilot
