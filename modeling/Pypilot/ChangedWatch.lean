import Pypilot.RegistryRuns

/-!
# Immediate watches

The flags of the registry say which fields have been set since `emit_changed_watches` was called last
(`dirty_iff`), whatever has become of the watches since. A call writes the fields that are watched
immediately at that moment and flagged, and a poll of the server no field twice
(`changed_reported_once`).
-/

namespace Pypilot

open Text SlotTable RegistryCall

variable {W : Type} (m : Machine) (out : ValueWriter W)

/-- The field was set with success since `emit_changed_watches` was called last, or since the start. -/
def SetSince (p : Store × W) (calls : List RegistryCall) (id : FieldId) : Prop :=
  ∃ before call after, calls = before ++ .set call :: after ∧ .emitChangedWatches ∉ after ∧
    call.Sets m (before.foldl (step m out) p).1 id

section SetSince

variable {m out} {p : Store × W} {calls : List RegistryCall} {id : FieldId}

theorem setSince_nil : ¬ SetSince m out p [] id := by
  rintro ⟨before, call, after, heq, -⟩
  exact absurd heq (by simp)

/-- One more call counts when it is a set of the field; unless it reports the changes, what was set
before counts as well. -/
theorem setSince_concat {call : RegistryCall} :
    SetSince m out p (calls ++ [call]) id ↔
      (∃ c, call = .set c ∧ c.Sets m (calls.foldl (step m out) p).1 id) ∨
        call ≠ .emitChangedWatches ∧ SetSince m out p calls id := by
  constructor
  · rintro ⟨before, c, after, heq, hafter, hsets⟩
    rcases List.eq_nil_or_concat' after with rfl | ⟨after', x, rfl⟩
    · obtain ⟨rfl, hcall⟩ := List.append_inj' heq rfl
      exact .inl ⟨c, List.singleton_inj.mp hcall, hsets⟩
    · have heq' : calls ++ [call] = (before ++ .set c :: after') ++ [x] := by rw [heq]; simp
      obtain ⟨rfl, hx⟩ := List.append_inj' heq' rfl
      rw [List.mem_append, not_or, List.mem_singleton] at hafter
      rw [List.singleton_inj.mp hx]
      exact .inr ⟨Ne.symm hafter.2, before, c, after', rfl, hafter.1, hsets⟩
  · rintro (⟨c, rfl, hsets⟩ | ⟨hne, before, c, after, rfl, hafter, hsets⟩)
    · exact ⟨calls, c, [], rfl, List.not_mem_nil, hsets⟩
    · refine ⟨before, c, after ++ [call], by simp, ?_, hsets⟩
      rw [List.mem_append, not_or, List.mem_singleton]
      exact ⟨hafter, Ne.symm hne⟩

end SetSince

/-- What a call does to the flags. -/
theorem step_dirty_iff (p : Store × W) (call : RegistryCall) (id : FieldId) :
    (call.step m out p).1.values.dirty id = true ↔
      (∃ c, call = .set c ∧ c.Sets m p.1 id) ∨
        call ≠ .emitChangedWatches ∧ p.1.values.dirty id = true := by
  have hkeep : ∀ {dirty : FieldId → Bool}, dirty = p.1.values.dirty →
      (∀ c, call ≠ .set c) → call ≠ .emitChangedWatches →
      (dirty id = true ↔ (∃ c, call = .set c ∧ c.Sets m p.1 id) ∨
        call ≠ .emitChangedWatches ∧ p.1.values.dirty id = true) := by
    rintro dirty rfl hset hemit
    rw [or_iff_right (fun ⟨c, hc, _⟩ => hset c hc), and_iff_right hemit]
  cases call with
  | set c =>
    refine (c.run_dirty_iff m p.1 id).trans (or_congr ?_ ?_)
    · exact ⟨fun h => ⟨c, rfl, h⟩, fun ⟨c', hc, h⟩ => RegistryCall.set.inj hc ▸ h⟩
    · exact (and_iff_right fun h => nomatch h).symm
  | watch name periodSeconds nowUs initialLine =>
    exact hkeep (Store.watch_rewatches m _ _ _ _ _ _).dirty (fun _ h => nomatch h) fun h => nomatch h
  | unwatch name =>
    exact hkeep (Store.unwatch_rewatches _ _).dirty (fun _ h => nomatch h) fun h => nomatch h
  | emitChangedWatches =>
    show (p.1.emitChangedWatches m out p.2).1.values.dirty id = true ↔ _
    rw [emitChangedWatches_eq]
    simp
  | emitDueWatches nowUs =>
    refine hkeep ?_ (fun _ h => nomatch h) fun h => nomatch h
    show (p.1.emitDueWatches m nowUs out p.2).1.values.dirty = _
    rw [emitDueWatches_eq]
  | change f => exact hkeep rfl (fun _ h => nomatch h) fun h => nomatch h

/-- **Flags.** In a run from a new registry the flagged fields are those set since the last report. -/
theorem dirty_iff (st : PypilotState) (w : W) (calls : List RegistryCall) (id : FieldId) :
    (calls.foldl (step m out) (start st w)).1.values.dirty id = true ↔
      SetSince m out (start st w) calls id := by
  induction calls using List.reverseRecOn with
  | nil => exact iff_of_false Bool.false_ne_true setSince_nil
  | append_singleton calls call ih =>
    rw [List.foldl_append, List.foldl_cons, List.foldl_nil, step_dirty_iff, setSince_concat, ih]

/-! ## One poll -/

/-- The due fields are different. -/
theorem nodup_dueIds {s : Store} (h : s.SingleWatches) (nowUs : ℕ) : (dueIds nowUs s).Nodup := by
  have hactive : s.values.watches.toList.filter (Store.isDue nowUs) =
      (s.values.watches.toList.filter Watch.active).filter (Store.isDue nowUs) := by
    rw [List.filter_filter]
    refine List.filter_congr fun e _ => ?_
    unfold Store.isDue
    cases e.active <;> simp
  unfold dueIds
  rw [hactive]
  exact h.nodup.sublist (List.filter_sublist.map Watch.id)

/-- A field is not both immediate and due: it has one entry, and that has one period. -/
theorem not_mem_dueIds {s : Store} (h : s.SingleWatches) {id : FieldId}
    (himm : s.hasImmediate id = true) (nowUs : ℕ) : id ∉ dueIds nowUs s := by
  intro hdue
  obtain ⟨e, he, hid⟩ := List.mem_map.mp hdue
  obtain ⟨he, hdue⟩ := List.mem_filter.mp he
  unfold Store.isDue at hdue
  simp only [Bool.and_eq_true, Bool.not_eq_true', decide_eq_false_iff_not] at hdue
  obtain ⟨i, rfl⟩ := exists_mem_toList.mp ⟨e, he, rfl⟩
  have hentry : s.HasEntry (s.values.watches.get i) := ⟨h, hdue.1.1, i, rfl⟩
  rw [← hid] at himm
  exact hdue.1.2 (.inr (hentry.hasImmediate_iff.mp himm))

theorem nodup_pollIds {s : Store} (h : s.SingleWatches) (nowUs : ℕ) :
    (changedIds s ++ dueIds nowUs s).Nodup := by
  refine List.Nodup.append (FieldId.all_nodup.filter _) (nodup_dueIds h nowUs) ?_
  intro id hchanged
  have himm := (Bool.and_eq_true_iff.mp (List.mem_filter.mp hchanged).2).2
  exact not_mem_dueIds h himm nowUs

/-- **Immediate watches.** After any calls of a new registry, `emit_changed_watches` attempts a line, in the
order of the fields, for each field that has an active watch of period 0 and was set since the last
report, and for no other; a set that is rejected does nothing; and a poll of the server attempts no two
lines of one field. -/
theorem changed_reported_once (st : PypilotState) (w : W) (calls : List RegistryCall) :
    let p := calls.foldl (step m out) (start st w)
    (∃ ids, (p.1.emitChangedWatches m out p.2).2 = attemptLines m out p.1 ids p.2 ∧
        ids.Sublist FieldId.all ∧
        ∀ id, id ∈ ids ↔ (∃ i, (p.1.values.watches.get i).active = true ∧
            (p.1.values.watches.get i).id = id ∧
            (p.1.values.watches.get i).periodSeconds.feq 0 = true) ∧
          SetSince m out (start st w) calls id) ∧
      (∀ call : SetCall, (call.run m p.1).1 = false → (call.run m p.1).2 = p.1) ∧
      ∀ callbacks nowUs, ∃ ids : List FieldId, ids.Nodup ∧
        (Server.poll m callbacks nowUs out p.1 p.2).2 =
          attemptLines m out { p.1 with state := callbacks p.1.state } ids p.2 := by
  intro p
  have hsingle : p.1.SingleWatches := foldl_single m out (single_start st w) calls
  refine ⟨⟨changedIds p.1, by rw [emitChangedWatches_eq], List.filter_sublist, fun id => ?_⟩,
    fun call hfail => ?_, fun callbacks nowUs => ?_⟩
  · unfold changedIds Store.hasImmediate
    rw [List.mem_filter, and_iff_right (FieldId.mem_all id), Bool.and_eq_true, and_comm,
      dirty_iff, any_toList]
    simp only [Store.immediate, Bool.and_eq_true, decide_eq_true_eq, and_assoc]
  · rcases call.run_cases m p.1 with heq | ⟨id, ⟨-, hok⟩, -⟩
    · rw [heq]
    · exact absurd (hok.symm.trans hfail) (by decide)
  · refine ⟨_, ?_, by rw [Server.poll_eq]⟩
    exact nodup_pollIds (s := { p.1 with state := callbacks p.1.state }) hsingle nowUs

end Pypilot
