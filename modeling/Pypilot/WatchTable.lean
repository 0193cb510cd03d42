import Pypilot.OutputFraming

/-!
# The watches of the registry

A field has at most one active entry, whatever requests and polls the server has seen, so the table always
has room for another field. A watch request for a field makes it watched, and one to unwatch it makes it
unwatched.
-/

namespace Pypilot

open Text Server SlotTable

namespace Store

/-- The field has an active watch. -/
def Watched (s : Store) (id : FieldId) : Prop :=
  ∃ i, (s.values.watches.get i).active = true ∧ (s.values.watches.get i).id = id

/-- No field has two active watches. -/
def SingleWatches (s : Store) : Prop := Distinct Watch.active Watch.id s.values.watches

theorem watched_congr {s s' : Store} (h : s'.values.watches = s.values.watches) (id : FieldId) :
    s'.Watched id ↔ s.Watched id := by
  unfold Watched
  rw [h]

/-- The entries of a new registry are free. -/
theorem free_of_new {s : Store} (h : s.values.watches = List.Vector.replicate maxWatches {})
    (i : Fin maxWatches) : (s.values.watches.get i).active = false := by
  rw [h, List.Vector.get_replicate]

theorem singleWatches_of_new {s : Store}
    (h : s.values.watches = List.Vector.replicate maxWatches {}) : s.SingleWatches :=
  fun i _ hi => absurd (hi.symm.trans (free_of_new h i)) (by decide)

/-- There are fewer fields than entries. -/
theorem SingleWatches.room {s : Store} (h : s.SingleWatches) :
    ∃ i, (s.values.watches.get i).active = false := by
  by_contra hfull
  have hall : ∀ i, (s.values.watches.get i).active = true := fun i => by
    simpa using fun hfree => hfull ⟨i, hfree⟩
  have hinj : Function.Injective fun i => (s.values.watches.get i).id :=
    fun i j hid => h i j (hall i) (hall j) hid
  have hnodup : ((List.finRange maxWatches).map fun i => (s.values.watches.get i).id).Nodup :=
    (List.nodup_finRange maxWatches).map hinj
  have hle := (List.subperm_of_subset hnodup fun id _ => FieldId.mem_all id).length_le
  rw [List.length_map, List.length_finRange] at hle
  exact absurd hle (by decide)

/-! ## Watch and unwatch -/

section Watch

variable {W : Type} (m : Machine) (s : Store) (periodSeconds : Real) (nowUs : ℕ)
  (initialLine : Option (ValueWriter W)) (w : W)

/-- The entry that a watch puts into the table. -/
def watchOf (id : FieldId) : Watch := ⟨true, id, periodSeconds, nowUs + periodUs m periodSeconds⟩

/-- One entry is changed, or nothing is. -/
theorem watch_cases {name : Text} {d : Descriptor} (hd : find name = some d) :
    (∃ i, ((s.values.watches.get i).active = true ∧ (s.values.watches.get i).id = d.id ∨
          (s.values.watches.get i).active = false ∧ ¬ s.Watched d.id) ∧
        (s.watch m name periodSeconds nowUs initialLine w).1 = true ∧
        (s.watch m name periodSeconds nowUs initialLine w).2.1 =
          { s with values := { s.values with
            watches := s.values.watches.set i (watchOf m periodSeconds nowUs d.id) } }) ∨
      (∀ i, (s.values.watches.get i).active = true) ∧
        (s.watch m name periodSeconds nowUs initialLine w).2.1 = s := by
  unfold Store.watch
  rw [hd]
  dsimp only
  by_cases hheld : (s.values.watches.toList.any fun e => e.active && decide (e.id = d.id)) = true
  · rw [if_pos hheld]
    obtain ⟨i, hi, heq⟩ := update_of_any hheld fun e =>
      { e with active := true, id := d.id, periodSeconds := periodSeconds,
               nextDueUs := nowUs + periodUs m periodSeconds }
    rw [Bool.and_eq_true, decide_eq_true_eq] at hi
    exact .inl ⟨i, .inl hi, rfl, by rw [heq]; rfl⟩
  · rw [if_neg hheld]
    have hnot : ¬ s.Watched d.id := by
      rintro ⟨i, hact, hid⟩
      exact hheld (any_toList.mpr ⟨i, by rw [hact, hid]; simp⟩)
    by_cases hfree : (s.values.watches.toList.any fun e => !e.active) = true
    · rw [if_pos hfree]
      obtain ⟨i, hi, heq⟩ := update_of_any hfree fun e =>
        { e with active := true, id := d.id, periodSeconds := periodSeconds,
                 nextDueUs := nowUs + periodUs m periodSeconds }
      exact .inl ⟨i, .inr ⟨by simpa using hi, hnot⟩, rfl, by rw [heq]; rfl⟩
    · rw [if_neg hfree]
      refine .inr ⟨fun i => ?_, rfl⟩
      have hi := forall_of_not_any hfree i
      simpa using hi

variable {s} in
theorem SingleWatches.watch (h : s.SingleWatches) (name : Text) :
    (s.watch m name periodSeconds nowUs initialLine w).2.1.SingleWatches := by
  cases hd : find name with
  | none =>
    unfold Store.watch
    rw [hd]
    exact h
  | some d =>
    rcases watch_cases m s periodSeconds nowUs initialLine w hd with
      ⟨i, hslot, -, heq⟩ | ⟨-, heq⟩
    · rw [heq]
      refine Distinct.set h fun _ j hj hact hkey => ?_
      rcases hslot with ⟨hacti, hidi⟩ | ⟨-, hnot⟩
      · exact hj (h j i hact hacti (hkey.trans hidi.symm))
      · exact hnot ⟨j, hact, hkey⟩
    · rw [heq]
      exact h

variable {s} in
/-- A field that is watched is added to the watched ones. -/
theorem watch_watched (h : s.SingleWatches) (id : FieldId) :
    (s.watch m id.entry.name periodSeconds nowUs initialLine w).1 = true ∧
      ∀ id', (s.watch m id.entry.name periodSeconds nowUs initialLine w).2.1.Watched id' ↔
        id' = id ∨ s.Watched id' := by
  rcases watch_cases m s periodSeconds nowUs initialLine w (find_entry id) with
    ⟨i, hslot, hok, heq⟩ | ⟨hfull, -⟩
  · refine ⟨hok, fun id' => ?_⟩
    rw [heq]
    rw [entry_id] at hslot ⊢
    have hset := exists_get_set (Q := fun e : Watch => e.active = true ∧ e.id = id')
      (t := s.values.watches) (i := i) (x := watchOf m periodSeconds nowUs id)
    unfold Watched
    dsimp only
    rw [hset]
    constructor
    · rintro (⟨-, hid'⟩ | ⟨j, -, hold⟩)
      · exact .inl hid'.symm
      · exact .inr ⟨j, hold⟩
    · rintro (rfl | ⟨j, hj, hidj⟩)
      · exact .inl ⟨rfl, rfl⟩
      · by_cases hji : j = i
        · subst hji
          rcases hslot with ⟨-, hidi⟩ | ⟨hfree, -⟩
          · exact .inl ⟨rfl, hidi.symm.trans hidj⟩
          · exact absurd (hj.symm.trans hfree) (by decide)
        · exact .inr ⟨j, hji, hj, hidj⟩
  · obtain ⟨i, hi⟩ := h.room
    exact absurd ((hfull i).symm.trans hi) (by decide)

variable {s} in
theorem SingleWatches.unwatch (h : s.SingleWatches) (name : Text) :
    (s.unwatch name).2.SingleWatches := by
  unfold Store.unwatch
  cases find name with
  | none => exact h
  | some d =>
    refine Distinct.map h fun e hact => ?_
    split_ifs at hact ⊢
    exact ⟨hact, rfl⟩

theorem redue_spec (e : Watch) :
    (redue m nowUs e).active = e.active ∧ (redue m nowUs e).id = e.id ∧
      (redue m nowUs e).periodSeconds = e.periodSeconds := by
  unfold redue
  split_ifs <;> exact ⟨rfl, rfl, rfl⟩

variable {s} in
theorem SingleWatches.redue (h : s.SingleWatches) :
    Distinct Watch.active Watch.id (s.values.watches.map (redue m nowUs)) :=
  Distinct.map h fun e hact =>
    ⟨(redue_spec m nowUs e).1.symm.trans hact, (redue_spec m nowUs e).2.1⟩

/-- A field that is unwatched is taken out of the watched ones. -/
theorem unwatch_watched (id id' : FieldId) :
    (s.unwatch id.entry.name).2.Watched id' ↔ id' ≠ id ∧ s.Watched id' := by
  unfold Store.unwatch Watched
  rw [find_entry]
  dsimp only
  rw [entry_id]
  simp only [List.Vector.get_map]
  constructor
  · rintro ⟨i, hact, hid⟩
    split_ifs at hact hid with hheld
    rw [Bool.and_eq_true, decide_eq_true_eq] at hheld
    exact ⟨fun heq => hheld ⟨hact, hid.trans heq⟩, i, hact, hid⟩
  · rintro ⟨hne, i, hact, hid⟩
    refine ⟨i, ?_⟩
    rw [if_neg (by rw [Bool.and_eq_true, decide_eq_true_eq]; rintro ⟨-, h⟩; exact hne (hid.symm.trans h))]
    exact ⟨hact, hid⟩

end Watch

end Store

/-! ## Requests and polls -/

namespace Server

open Store

variable {W : Type} (m : Machine)

theorem singleWatches_watchEntry (key value : Text) (nowUs : ℕ) (out : ValueWriter W) {s : Store}
    (h : s.SingleWatches) (w : W) : (watchEntry m key value nowUs out s w).2.1.SingleWatches := by
  unfold watchEntry
  generalize (if value = lit "true" then some 0 else parsePeriod m value) = period
  split_ifs with hvalues hfalse
  · exact h
  · dsimp only
    split_ifs <;> exact h
  · exact h.unwatch key
  · cases period with
    | none => exact h
    | some period =>
      have hw := h.watch m period nowUs (some out) w key
      dsimp only
      split_ifs <;> exact hw

theorem singleWatches_handleWatch (expression : Text) (nowUs : ℕ) (out : ValueWriter W) {s : Store}
    (h : s.SingleWatches) (w : W) : (handleWatch m expression nowUs out s w).2.1.SingleWatches :=
  handleWatch_invariant (I := SingleWatches) m
    (fun key value _ w' hs => singleWatches_watchEntry m key value nowUs out hs w') expression h w

theorem singleWatches_handleLine (line : Text) (nowUs : ℕ) (out : ValueWriter W) {s : Store}
    (h : s.SingleWatches) (w : W) : (handleLine m line nowUs out s w).2.1.SingleWatches := by
  cases hr : request line with
  | watch expression =>
    unfold handleLine
    rw [hr]
    exact singleWatches_handleWatch m expression nowUs out h w
  | assignment name value =>
    rw [handleLine_assignment m hr]
    rcases setFromWire_cases m s name value true with hfail | ⟨d, -, -, hd⟩
    · rw [hfail]
      exact h
    · unfold SingleWatches
      rw [hd.watches]
      exact h
  | empty | malformed | values | udpPort =>
    unfold handleLine
    rw [hr]
    exact h

/-- What the server does to its watches keeps them single. -/
theorem singleWatches_step {s : Store} (h : s.SingleWatches) (call : ServerCall) :
    (call.step m s).SingleWatches := by
  cases call with
  | line text nowUs => exact singleWatches_handleLine m text nowUs StringValueWriter h []
  | poll callbacks nowUs =>
    show (Server.poll m callbacks nowUs (.reliable fun text out => out ++ text) s
      []).1.SingleWatches
    rw [poll_reliable]
    exact h.redue m nowUs

/-- The watches of a server with a fresh registry are single throughout. -/
theorem singleWatches_states (st : PypilotState) (calls : List ServerCall) :
    ∀ s ∈ Run.states (fun s call => ServerCall.step m s call) (create m st {}) calls,
      s.SingleWatches :=
  Run.states_invariant (I := Store.SingleWatches) (C := fun _ _ => True)
    (fun _ call h _ => singleWatches_step m h call) (Store.singleWatches_of_new rfl)
    fun _ _ => trivial

end Server

end Pypilot
