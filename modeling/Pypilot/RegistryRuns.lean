import Pypilot.WatchTable

/-!
# Runs of the registry

The calls of the registry in any order, with any writer, and changes of the state by others in between.
A field that is watched keeps its entry until it is watched or unwatched again; only the due time of the
entry moves, and only in `emit_due_watches` (`HasEntry.step`).
-/

namespace Pypilot

open Text SlotTable

/-! ## Setters by name -/

namespace Store

variable (m : Machine) (s : Store)

/-- A setter by name: the one by id, on the field of the name. -/
def setNamed (name : Text) (set : FieldId → Bool × Store) : Bool × Store :=
  match find name with
  | none => (false, s)
  | some d => set d.id

/-- `set_real` by name. -/
def setRealNamed (name : Text) (value : Real) : Bool × Store :=
  s.setNamed name fun id => s.setReal m id value

/-- `set_bool` by name. -/
def setBoolNamed (name : Text) (value : Bool) : Bool × Store :=
  s.setNamed name fun id => s.setBool id value

/-- `set_string` by name. -/
def setStringNamed (name value : Text) : Bool × Store :=
  s.setNamed name fun id => s.setString id value

variable {s} in
theorem setNamed_cases {set : FieldId → Bool × Store}
    (hset : ∀ id, set id = (false, s) ∨ (set id).1 = true ∧ Assigns id s (set id).2) (name : Text) :
    s.setNamed name set = (false, s) ∨
      ∃ d, find name = some d ∧ (s.setNamed name set).1 = true ∧
        Assigns d.id s (s.setNamed name set).2 := by
  unfold setNamed
  cases hd : find name with
  | none => exact .inl rfl
  | some d => exact (hset d.id).imp_right fun h => ⟨d, rfl, h⟩

end Store

/-- A call of a setter. -/
inductive SetCall
  | setFromWire (name wireValue : Text) (externalWrite : Bool)
  | setReal (name : Text) (value : Real)
  | setBool (name : Text) (value : Bool)
  | setString (name value : Text)
  deriving DecidableEq

namespace SetCall

variable (m : Machine) (s : Store)

def run : SetCall → Bool × Store
  | setFromWire name wireValue externalWrite => s.setFromWire m name wireValue externalWrite
  | setReal name value => s.setRealNamed m name value
  | setBool name value => s.setBoolNamed name value
  | setString name value => s.setStringNamed name value

def name : SetCall → Text
  | setFromWire name _ _ | setReal name _ | setBool name _ | setString name _ => name

/-- The call assigns the field: it names it and succeeds. -/
def Sets (call : SetCall) (id : FieldId) : Prop :=
  call.name = id.entry.name ∧ (call.run m s).1 = true

/-- A setter fails and does nothing, or assigns the field of its name. -/
theorem run_cases (call : SetCall) :
    call.run m s = (false, s) ∨
      ∃ id, call.Sets m s id ∧ Store.Assigns id s (call.run m s).2 := by
  have hcases : call.run m s = (false, s) ∨
      ∃ d, find call.name = some d ∧ (call.run m s).1 = true ∧
        Store.Assigns d.id s (call.run m s).2 := by
    cases call with
    | setFromWire name wireValue externalWrite =>
      exact Store.setFromWire_cases m s name wireValue externalWrite
    | setReal name value =>
      exact Store.setNamed_cases (fun id => Store.setReal_cases m s id value) name
    | setBool name value => exact Store.setNamed_cases (fun id => Store.setBool_cases s id value) name
    | setString name value =>
      exact Store.setNamed_cases (fun id => Store.setString_cases s id value) name
  refine hcases.imp_right ?_
  rintro ⟨d, hfind, hok, h⟩
  obtain ⟨hentry, hname⟩ := find_eq_some hfind
  exact ⟨d.id, ⟨by rw [← hentry, hname], hok⟩, h⟩

theorem run_watches (call : SetCall) : (call.run m s).2.values.watches = s.values.watches := by
  rcases call.run_cases m s with hfail | ⟨id, -, h⟩
  · rw [hfail]
  · exact h.watches

theorem run_attached (call : SetCall) : (call.run m s).2.values.attached = s.values.attached := by
  rcases call.run_cases m s with hfail | ⟨id, -, h⟩
  · rw [hfail]
  · exact h.attached

/-- What a setter marks as changed. -/
theorem run_dirty_iff (call : SetCall) (id : FieldId) :
    (call.run m s).2.values.dirty id = true ↔ call.Sets m s id ∨ s.values.dirty id = true := by
  rcases call.run_cases m s with hfail | ⟨id', ⟨hname, hok⟩, h⟩
  · unfold Sets
    rw [hfail]
    simp
  · rw [h.dirty]
    by_cases hid : id = id'
    · subst hid
      rw [Function.update_self]
      exact iff_of_true rfl (.inl ⟨hname, hok⟩)
    · rw [Function.update_of_ne hid]
      refine (or_iff_right fun hsets => hid ?_).symm
      have hfind := find_entry id
      rw [← hsets.1, hname, find_entry] at hfind
      rw [← entry_id id, ← Option.some.inj hfind, entry_id]

end SetCall

/-! ## Calls -/

/-- A call of the registry, or a change of the state by others. -/
inductive RegistryCall
  | set (call : SetCall)
  | watch (name : Text) (periodSeconds : Real) (nowUs : ℕ) (initialLine : Bool)
  | unwatch (name : Text)
  | emitChangedWatches
  | emitDueWatches (nowUs : ℕ)
  | change (f : PypilotState → PypilotState)

namespace RegistryCall

variable {W : Type} (m : Machine) (out : ValueWriter W)

def step (p : Store × W) : RegistryCall → Store × W
  | set call => ((call.run m p.1).2, p.2)
  | watch name periodSeconds nowUs initialLine =>
    (p.1.watch m name periodSeconds nowUs (if initialLine then some out else none) p.2).2
  | unwatch name => ((p.1.unwatch name).2, p.2)
  | emitChangedWatches => p.1.emitChangedWatches m out p.2
  | emitDueWatches nowUs => p.1.emitDueWatches m nowUs out p.2
  | change f => ({ p.1 with state := f p.1.state }, p.2)

/-- A new registry over the state `st`. -/
def start (st : PypilotState) (w : W) : Store × W := (⟨st, { attached := true }⟩, w)

/-- The call watches or unwatches the field. -/
def Rewatches (id : FieldId) : RegistryCall → Prop
  | watch name _ _ _ | unwatch name => name = id.entry.name
  | _ => False

theorem step_single {p : Store × W} (h : p.1.SingleWatches) (call : RegistryCall) :
    (call.step m out p).1.SingleWatches := by
  cases call with
  | set call =>
    show Distinct Watch.active Watch.id (call.run m p.1).2.values.watches
    rw [call.run_watches]
    exact h
  | watch name periodSeconds nowUs initialLine => exact h.watch m periodSeconds nowUs _ p.2 name
  | unwatch name => exact h.unwatch name
  | emitChangedWatches =>
    show (p.1.emitChangedWatches m out p.2).1.SingleWatches
    rw [emitChangedWatches_eq]
    exact h
  | emitDueWatches nowUs =>
    show (p.1.emitDueWatches m nowUs out p.2).1.SingleWatches
    rw [emitDueWatches_eq]
    exact h.redue m nowUs
  | change f => exact h

theorem foldl_single {p : Store × W} (h : p.1.SingleWatches) (calls : List RegistryCall) :
    (calls.foldl (step m out) p).1.SingleWatches :=
  Run.foldl_invariant (I := fun p : Store × W => p.1.SingleWatches) (C := fun _ _ => True)
    (fun _ call h _ => step_single m out h call) h fun _ _ => trivial

theorem single_start (st : PypilotState) (w : W) : (start st w).1.SingleWatches :=
  Store.singleWatches_of_new rfl

end RegistryCall

/-! ## The entry of a field -/

/-- The active entry `e` is in the table, and no other one of its field. -/
structure Store.HasEntry (s : Store) (e : Watch) : Prop where
  single : s.SingleWatches
  active : e.active = true
  mem : ∃ i, s.values.watches.get i = e

namespace Store.HasEntry

variable {s : Store} {e : Watch}

theorem filter_eq (h : s.HasEntry e) :
    (s.values.watches.toList.filter fun e' => e'.active && decide (e'.id = e.id)) = [e] := by
  obtain ⟨i, hi⟩ := h.mem
  have hfilter := Distinct.filter_eq h.single (i := i) (by rw [hi, h.active])
  rwa [hi] at hfilter

/-- The field is written when its entry is due, and then once. -/
theorem count_dueIds (h : s.HasEntry e) (nowUs : ℕ) :
    (dueIds nowUs s).count e.id = if Store.isDue nowUs e then 1 else 0 := by
  have hactive : ∀ e' : Watch, (decide (e'.id = e.id) && Store.isDue nowUs e') =
      ((e'.active && decide (e'.id = e.id)) && Store.isDue nowUs e') := by
    intro e'
    unfold Store.isDue
    cases e'.active <;> simp
  unfold dueIds
  rw [List.count_eq_countP, List.countP_map, List.countP_filter, List.countP_eq_length_filter]
  have hsame : (s.values.watches.toList.filter fun e' =>
      ((fun id => id == e.id) ∘ Watch.id) e' && Store.isDue nowUs e') =
      (s.values.watches.toList.filter fun e' => e'.active && decide (e'.id = e.id)).filter
        (Store.isDue nowUs) := by
    rw [List.filter_filter]
    refine List.filter_congr fun e' _ => ?_
    rw [Bool.and_comm (Store.isDue nowUs e'), ← hactive]
    rfl
  rw [hsame, h.filter_eq]
  by_cases hdue : Store.isDue nowUs e = true <;> simp [hdue]

theorem hasImmediate_iff (h : s.HasEntry e) :
    s.hasImmediate e.id = true ↔ e.periodSeconds.feq 0 = true := by
  have hany : s.hasImmediate e.id =
      (s.values.watches.toList.filter fun e' => e'.active && decide (e'.id = e.id)).any
        fun e' => e'.periodSeconds.feq 0 := by
    rw [List.any_filter]
    rfl
  rw [hany, h.filter_eq]
  simp

end Store.HasEntry

section Entry

variable {W : Type} (m : Machine)

/-- A field that is watched has the entry of the watch. -/
theorem Store.SingleWatches.hasEntry_watch {s : Store} (h : s.SingleWatches) (id : FieldId)
    (periodSeconds : Real) (nowUs : ℕ) (initialLine : Option (ValueWriter W)) (w : W) :
    (s.watch m id.entry.name periodSeconds nowUs initialLine w).2.1.HasEntry
      (Store.watchOf m periodSeconds nowUs id) where
  single := h.watch m periodSeconds nowUs initialLine w _
  active := rfl
  mem := by
    rcases Store.watch_cases m s periodSeconds nowUs initialLine w (find_entry id) with
      ⟨i, -, -, heq⟩ | ⟨hfull, -⟩
    · rw [heq]
      refine ⟨i, ?_⟩
      show (s.values.watches.set i _).get i = _
      rw [List.Vector.get_set_same, entry_id]
    · obtain ⟨i, hi⟩ := h.room
      exact absurd ((hfull i).symm.trans hi) (by decide)

namespace RegistryCall

/-- What a call for another field makes of an entry. -/
def moved (e : Watch) : RegistryCall → Watch
  | emitDueWatches nowUs => redue m nowUs e
  | _ => e

variable (out : ValueWriter W)

/-- **Entries.** The entry of a field stays through all calls that do not watch or unwatch the field. -/
theorem step_hasEntry {p : Store × W} {e : Watch} (h : p.1.HasEntry e) {call : RegistryCall}
    (hother : ¬ call.Rewatches e.id) : (call.step m out p).1.HasEntry (call.moved m e) := by
  have hsingle := step_single m out h.single call
  obtain ⟨i, hi⟩ := h.mem
  have hact : (p.1.values.watches.get i).active = true := by rw [hi, h.active]
  cases call with
  | set call =>
    refine ⟨hsingle, h.active, i, ?_⟩
    show (call.run m p.1).2.values.watches.get i = e
    rw [call.run_watches, hi]
  | watch name periodSeconds nowUs initialLine =>
    refine ⟨hsingle, h.active, i, ?_⟩
    show (p.1.watch m name periodSeconds nowUs _ p.2).2.1.values.watches.get i = e
    cases hfind : find name with
    | none =>
      unfold Store.watch
      rw [hfind, hi]
    | some d =>
      have hne : e.id ≠ d.id := id_ne_of_find hfind hother
      rcases Store.watch_cases m p.1 periodSeconds nowUs
        (if initialLine then some out else none) p.2 hfind with ⟨j, hslot, -, heq⟩ | ⟨-, heq⟩
      · have hij : j ≠ i := by
          rintro rfl
          rcases hslot with ⟨-, hid⟩ | ⟨hfree, -⟩
          · rw [hi] at hid
            exact hne hid
          · exact absurd (hact.symm.trans hfree) (by decide)
        rw [heq]
        exact (List.Vector.get_set_of_ne hij _).trans hi
      · rw [heq, hi]
  | unwatch name =>
    refine ⟨hsingle, h.active, i, ?_⟩
    show (p.1.unwatch name).2.values.watches.get i = e
    unfold Store.unwatch
    cases hfind : find name with
    | none => exact hi
    | some d =>
      have hne : e.id ≠ d.id := id_ne_of_find hfind hother
      dsimp only
      rw [List.Vector.get_map, hi, if_neg]
      simp [hne]
  | emitChangedWatches =>
    refine ⟨hsingle, h.active, i, ?_⟩
    show (p.1.emitChangedWatches m out p.2).1.values.watches.get i = e
    rw [emitChangedWatches_eq, hi]
  | emitDueWatches nowUs =>
    refine ⟨hsingle, ((Store.redue_spec m nowUs e).1).trans h.active, i, ?_⟩
    show (p.1.emitDueWatches m nowUs out p.2).1.values.watches.get i = redue m nowUs e
    rw [emitDueWatches_eq]
    dsimp only
    rw [List.Vector.get_map, hi]
  | change f => exact ⟨hsingle, h.active, i, hi⟩

end RegistryCall

end Entry

end Pypilot
