import Pypilot.ChangedWatch
import Pypilot.PeriodicWatch

/-!
# The registry as a map

What the registry is for: a field may be watched, with a period and the time when its next line is due, and it
may have changed since the changes were reported. `Subscriptions` says what each call does to this, and
which lines it writes. The table of the registry, its slots and the order in which they were taken,
cannot be told from this map by any calls, but for the order of the lines that are due together
(`registry_refines`). The due times are natural numbers; the words of 64 bits that the code adds are the same
as long as they do not wrap.
-/

namespace Pypilot

open Text SlotTable

/-! ## The map -/

structure Subscription where
  periodSeconds : Real
  dueUs : ℕ
  deriving DecidableEq

namespace Subscription

/-- A line is due; those of a period that is not positive never are. -/
def isDue (nowUs : ℕ) (x : Subscription) : Bool :=
  !decide (x.periodSeconds ≤ 0) && decide (x.dueUs ≤ nowUs)

/-- The next due time is the first one in the phase of the watch that is still to come. -/
def served (m : Machine) (nowUs : ℕ) (x : Subscription) : Subscription :=
  if x.isDue nowUs then
    { x with dueUs := x.dueUs + periodUs m x.periodSeconds *
        ((nowUs - x.dueUs) / periodUs m x.periodSeconds + 1) }
  else x

end Subscription

/-- What is watched, and what has changed. -/
structure Subscriptions where
  watched : FieldId → Option Subscription := fun _ => none
  changed : FieldId → Bool := fun _ => false

/-- The field that a setter sets, which depends on its arguments alone. -/
def SetCall.target (m : Machine) (call : SetCall) : Option FieldId :=
  match find call.name with
  | none => none
  | some d =>
    match call with
    | setFromWire _ wireValue externalWrite =>
      if externalWrite && !d.info.writable then none
      else match d.kind with
        | .real => (parseReal m wireValue).map fun _ => d.id
        | .boolean => (parseBool wireValue).map fun _ => d.id
        | .string => some d.id
    | setReal _ _ => if d.kind = .real then some d.id else none
    | setBool _ _ => if d.kind = .boolean then some d.id else none
    | setString _ _ => if d.kind = .string then some d.id else none

namespace Subscriptions

variable (m : Machine) (a : Subscriptions)

def step : RegistryCall → Subscriptions
  | .set call =>
    match call.target m with
    | some id => { a with changed := Function.update a.changed id true }
    | none => a
  | .watch name periodSeconds nowUs _ =>
    match find name with
    | some d =>
      let x : Subscription := ⟨periodSeconds, nowUs + periodUs m periodSeconds⟩
      { a with watched := Function.update a.watched d.id (some x) }
    | none => a
  | .unwatch name =>
    match find name with
    | some d => { a with watched := Function.update a.watched d.id none }
    | none => a
  | .emitChangedWatches => { a with changed := fun _ => false }
  | .emitDueWatches nowUs =>
    { a with watched := fun id => (a.watched id).map (Subscription.served m nowUs) }
  | .change _ => a

/-- The fields whose lines a call writes. -/
def lines : RegistryCall → List FieldId
  | .watch name _ _ initialLine =>
    if initialLine then (find name).toList.map Descriptor.id else []
  | .emitChangedWatches =>
    FieldId.all.filter fun id => a.changed id && (a.watched id).any fun x => x.periodSeconds.feq 0
  | .emitDueWatches nowUs => FieldId.all.filter fun id => (a.watched id).any (Subscription.isDue nowUs)
  | _ => []

end Subscriptions

def Watch.subscription (e : Watch) : Subscription := ⟨e.periodSeconds, e.nextDueUs⟩

/-- The map that the registry holds. -/
def Store.subscriptions (s : Store) : Subscriptions where
  watched id := (lookup Watch.active Watch.id s.values.watches id).map Watch.subscription
  changed := s.values.dirty

/-! ## One call -/

section Calls

variable (m : Machine) {s : Store}

/-- Whether a setter succeeds, and the marks that it leaves. -/
def marks (r : Bool × Store) : Bool × (FieldId → Bool) := (r.1, r.2.values.dirty)

def Store.marked (s : Store) (id : FieldId) : Bool × (FieldId → Bool) :=
  (true, Function.update s.values.dirty id true)

theorem setters_marks (hat : s.values.attached = true) (id : FieldId) :
    (∀ value, marks (s.setReal m id value) =
        if id.entry.kind = .real then s.marked id else (false, s.values.dirty)) ∧
      (∀ value, marks (s.setBool id value) =
        if id.entry.kind = .boolean then s.marked id else (false, s.values.dirty)) ∧
      ∀ value, marks (s.setString id value) =
        if id.entry.kind = .string then s.marked id else (false, s.values.dirty) := by
  unfold Store.setReal Store.setBool Store.setString
  rw [hat]
  cases id <;> exact ⟨fun _ => rfl, fun _ => rfl, fun _ => rfl⟩

theorem SetCall.run_marks (call : SetCall) (hat : s.values.attached = true) :
    marks (call.run m s) = (call.target m).elim (false, s.values.dirty) s.marked := by
  have hnamed : ∀ {name : Text} {d : Descriptor} {set : FieldId → Bool × Store},
      find name = some d → s.setNamed name set = set d.id := by
    intro name d set hd
    unfold Store.setNamed
    rw [hd]
  unfold SetCall.target
  cases hfind : find call.name with
  | none =>
    rcases call.run_cases m s with heq | ⟨id, ⟨hname, -⟩, -⟩
    · rw [heq]
      rfl
    · rw [hname, find_entry] at hfind
      exact nomatch hfind
  | some d =>
    obtain ⟨hentry, -⟩ := find_eq_some hfind
    obtain ⟨hreal, hbool, hstring⟩ := setters_marks m hat d.id
    rw [← hentry] at hreal hbool hstring
    cases call with
    | setFromWire name wireValue externalWrite =>
      replace hfind : find name = some d := hfind
      show marks (s.setFromWire m name wireValue externalWrite) = _
      unfold Store.setFromWire
      rw [hfind]
      dsimp only
      split_ifs
      · rfl
      · cases hkind : d.kind with
        | real =>
          cases parseReal m wireValue with
          | none => rfl
          | some r => exact (hreal r).trans (if_pos hkind)
        | boolean =>
          cases parseBool wireValue with
          | none => rfl
          | some b => exact (hbool b).trans (if_pos hkind)
        | string => exact (hstring _).trans (if_pos hkind)
    | setReal name value =>
      refine ((congrArg marks (hnamed hfind)).trans (hreal value)).trans ?_
      dsimp only
      split_ifs <;> rfl
    | setBool name value =>
      refine ((congrArg marks (hnamed hfind)).trans (hbool value)).trans ?_
      dsimp only
      split_ifs <;> rfl
    | setString name value =>
      refine ((congrArg marks (hnamed hfind)).trans (hstring value)).trans ?_
      dsimp only
      split_ifs <;> rfl

variable {W : Type} (out : ValueWriter W)

/-- A watch of a field replaces the one that it had. -/
theorem watch_subscriptions (h : s.SingleWatches) (name : Text) (periodSeconds : Real) (nowUs : ℕ)
    (initialLine : Option (ValueWriter W)) (w : W) (first : Bool) :
    (s.watch m name periodSeconds nowUs initialLine w).2.1.subscriptions =
      s.subscriptions.step m (.watch name periodSeconds nowUs first) := by
  unfold Subscriptions.step
  dsimp only
  cases hfind : find name with
  | none =>
    unfold Store.watch
    rw [hfind]
  | some d =>
    have hsingle := h.watch m periodSeconds nowUs initialLine w name
    rcases Store.watch_cases m s periodSeconds nowUs initialLine w hfind with
      ⟨i, hslot, -, heq⟩ | ⟨hfull, -⟩
    · rw [heq] at hsingle ⊢
      unfold Store.subscriptions
      dsimp only
      congr 1
      funext id
      have hheld : (s.values.watches.get i).active = true → (s.values.watches.get i).id = d.id := by
        rintro hact
        rcases hslot with ⟨-, hid⟩ | ⟨hfree, -⟩
        · exact hid
        · exact absurd (hact.symm.trans hfree) (by decide)
      have hkey : (Store.watchOf m periodSeconds nowUs d.id).id = d.id := rfl
      rw [lookup_set h rfl hsingle hheld, hkey]
      by_cases hid : id = d.id
      · subst hid
        rw [Function.update_self, if_pos rfl]
        rfl
      · rw [Function.update_of_ne hid, if_neg hid]
    · obtain ⟨i, hi⟩ := h.room
      exact absurd ((hfull i).symm.trans hi) (by decide)

theorem unwatch_subscriptions (name : Text) :
    (s.unwatch name).2.subscriptions = s.subscriptions.step m (.unwatch name) := by
  unfold Store.unwatch Subscriptions.step
  dsimp only
  cases find name with
  | none => rfl
  | some d =>
    unfold Store.subscriptions
    dsimp only
    congr 1
    funext id
    rw [lookup_map_free (j := d.id)
      (fun e hact hid => by rw [if_pos (by rw [hact, decide_eq_true hid]; rfl)])
      (fun e hother => if_neg fun hheld => hother (by simpa using hheld))]
    by_cases hid : id = d.id
    · subst hid
      rw [Function.update_self, if_pos rfl]
      rfl
    · rw [Function.update_of_ne hid, if_neg hid]

theorem changedIds_eq (h : s.SingleWatches) :
    changedIds s = s.subscriptions.lines .emitChangedWatches := by
  unfold changedIds Subscriptions.lines
  refine List.filter_congr fun id _ => ?_
  have himm : s.hasImmediate id = (lookup Watch.active Watch.id s.values.watches id).any
      fun e => e.periodSeconds.feq 0 := any_iff_lookup h _
  rw [himm]
  unfold Store.subscriptions
  rw [Option.any_map]
  rfl

/-- The due entries are those of the map, in the order of their slots. -/
theorem dueIds_perm (h : s.SingleWatches) (nowUs : ℕ) :
    (dueIds nowUs s).Perm (s.subscriptions.lines (.emitDueWatches nowUs)) := by
  have hnodup : (s.subscriptions.lines (.emitDueWatches nowUs)).Nodup :=
    FieldId.all_nodup.filter fun id => (s.subscriptions.watched id).any (Subscription.isDue nowUs)
  refine (List.perm_ext_iff_of_nodup (nodup_dueIds h nowUs) hnodup).mpr fun id => ?_
  have hany : ((s.subscriptions.watched id).any (Subscription.isDue nowUs)) =
      s.values.watches.toList.any fun e => e.active && decide (e.id = id) &&
        e.subscription.isDue nowUs := by
    rw [any_iff_lookup h]
    unfold Store.subscriptions
    exact Option.any_map ..
  unfold dueIds Subscriptions.lines
  rw [List.mem_map, List.mem_filter, and_iff_right (FieldId.mem_all id), hany, List.any_eq_true]
  refine exists_congr fun e => ?_
  unfold Store.isDue Subscription.isDue Watch.subscription
  simp only [List.mem_filter, Bool.and_eq_true, decide_eq_true_eq]
  tauto

/-- For a period of 0 as well, the loop adds periods up to the first due time behind the clock. -/
theorem advance_of_due {period nowUs due : ℕ} (hdue : due ≤ nowUs) :
    Store.advance period nowUs due = due + period * ((nowUs - due) / period + 1) := by
  rcases Nat.eq_zero_or_pos period with rfl | hperiod
  · have hbody : Store.advanceBody 0 nowUs due = .inr (due + 0) := if_neg fun h => h.1 rfl
    unfold Store.advance
    rw [Loop.run_leaves hbody, Nat.zero_mul]
  · exact advance_eq hperiod hdue

theorem redue_subscription (nowUs : ℕ) {e : Watch} (hact : e.active = true) :
    (redue m nowUs e).subscription = e.subscription.served m nowUs := by
  have hdue : Store.isDue nowUs e = e.subscription.isDue nowUs := by
    unfold Store.isDue
    rw [hact]
    rfl
  unfold redue Subscription.served
  rw [hdue]
  split_ifs with h
  · have hle : e.nextDueUs ≤ nowUs := by
      unfold Subscription.isDue at h
      exact of_decide_eq_true (Bool.and_eq_true_iff.mp h).2
    unfold Watch.subscription
    dsimp only
    rw [advance_of_due hle]
  · rfl

theorem emitDueWatches_subscriptions (nowUs : ℕ) (w : W) :
    (s.emitDueWatches m nowUs out w).1.subscriptions =
      s.subscriptions.step m (.emitDueWatches nowUs) := by
  rw [emitDueWatches_eq]
  unfold Store.subscriptions Subscriptions.step
  dsimp only
  congr 1
  funext id
  rw [lookup_map fun e => ⟨(Store.redue_spec m nowUs e).1, (Store.redue_spec m nowUs e).2.1⟩,
    Option.map_map, Option.map_map]
  refine Option.map_congr fun e he => ?_
  have hheld := List.find?_some he
  exact redue_subscription m nowUs (Bool.and_eq_true_iff.mp hheld).1

/-- The lines of a call are those of the map, in its order unless they are due together. -/
structure Attempts (s : Store) (call : RegistryCall) (ids : List FieldId) : Prop where
  perm : ids.Perm (s.subscriptions.lines call)
  ordered : (∀ nowUs, call ≠ .emitDueWatches nowUs) → ids = s.subscriptions.lines call

/-- **One call.** -/
theorem step_refines {p : Store × W} (hat : p.1.values.attached = true) (h : p.1.SingleWatches)
    (call : RegistryCall) :
    (call.step m out p).1.subscriptions = p.1.subscriptions.step m call ∧
      ∃ ids, Attempts p.1 call ids ∧ (call.step m out p).2 = attemptLines m out p.1 ids p.2 := by
  have hnone : p.1.subscriptions.lines call = [] → Attempts p.1 call [] :=
    fun hlines => ⟨hlines ▸ .refl _, fun _ => hlines.symm⟩
  cases call with
  | set call =>
    refine ⟨?_, [], hnone rfl, rfl⟩
    show (call.run m p.1).2.subscriptions = _
    unfold Store.subscriptions Subscriptions.step
    dsimp only
    have hdirty := congrArg Prod.snd (call.run_marks m hat)
    replace hdirty : (call.run m p.1).2.values.dirty = _ := hdirty
    rw [call.run_watches, hdirty]
    cases call.target m <;> rfl
  | watch name periodSeconds nowUs initialLine =>
    refine ⟨watch_subscriptions m h name periodSeconds nowUs _ p.2 initialLine, _,
      ⟨.refl _, fun _ => rfl⟩, ?_⟩
    show (p.1.watch m name periodSeconds nowUs (if initialLine then some out else none) p.2).2.2 = _
    unfold Store.watch Subscriptions.lines
    dsimp only
    cases find name with
    | none => cases initialLine <;> rfl
    | some d =>
      cases initialLine <;> (dsimp only; split_ifs <;> rfl)
  | unwatch name => exact ⟨unwatch_subscriptions m name, [], hnone rfl, rfl⟩
  | emitChangedWatches =>
    show (p.1.emitChangedWatches m out p.2).1.subscriptions = _ ∧
      ∃ ids, _ ∧ (p.1.emitChangedWatches m out p.2).2 = _
    rw [emitChangedWatches_eq]
    have hids := changedIds_eq h
    exact ⟨rfl, changedIds p.1, ⟨hids ▸ .refl _, fun _ => hids⟩, rfl⟩
  | emitDueWatches nowUs =>
    refine ⟨emitDueWatches_subscriptions m out nowUs p.2, dueIds nowUs p.1,
      ⟨dueIds_perm h nowUs, fun hother => absurd rfl (hother nowUs)⟩, ?_⟩
    show (p.1.emitDueWatches m nowUs out p.2).2 = _
    rw [emitDueWatches_eq]
  | change f => exact ⟨rfl, [], hnone rfl, rfl⟩

theorem step_attached (p : Store × W) (call : RegistryCall) :
    (call.step m out p).1.values.attached = p.1.values.attached := by
  cases call with
  | set call => exact call.run_attached m p.1
  | watch name periodSeconds nowUs initialLine => exact (Store.watch_rewatches m _ _ _ _ _ _).attached
  | unwatch name => exact (Store.unwatch_rewatches _ _).attached
  | emitChangedWatches =>
    show (p.1.emitChangedWatches m out p.2).1.values.attached = _
    rw [emitChangedWatches_eq]
  | emitDueWatches nowUs =>
    show (p.1.emitDueWatches m nowUs out p.2).1.values.attached = _
    rw [emitDueWatches_eq]
  | change f => rfl

theorem foldl_attached {p : Store × W} (hat : p.1.values.attached = true)
    (calls : List RegistryCall) :
    (calls.foldl (RegistryCall.step m out) p).1.values.attached = true :=
  Run.foldl_invariant (I := fun p : Store × W => p.1.values.attached = true)
    (C := fun _ _ => True) (fun p call hat _ => (step_attached m out p call).trans hat) hat
    fun _ _ => trivial

/-- **Runs.** The map after some calls is what the calls make of the map before them. -/
theorem foldl_subscriptions {p : Store × W} (hat : p.1.values.attached = true)
    (h : p.1.SingleWatches) (calls : List RegistryCall) :
    (calls.foldl (RegistryCall.step m out) p).1.subscriptions =
      calls.foldl (Subscriptions.step m) p.1.subscriptions := by
  induction calls using List.reverseRecOn with
  | nil => rfl
  | append_singleton calls call ih =>
    rw [List.foldl_concat, List.foldl_concat, ← ih]
    exact (step_refines m out (foldl_attached m out hat calls)
      (RegistryCall.foldl_single m out h calls) call).1

end Calls

/-! ## Words of 64 bits -/

/-- Every due time is a word of 64 bits, as `next_due_us` is. -/
def Subscriptions.Fits (a : Subscriptions) : Prop :=
  ∀ id x, a.watched id = some x → x.dueUs < 2 ^ 64

instance (a : Subscriptions) : Decidable a.Fits :=
  decidable_of_iff (∀ id ∈ FieldId.all, ∀ x ∈ a.watched id, x.dueUs < 2 ^ 64)
    ⟨fun h id => h id (FieldId.mem_all id), fun h id _ => h id⟩

/-- The due times that the call sets are those of the code, which adds words of 64 bits. -/
def RegistryCall.InWords (m : Machine) (s : Store) : RegistryCall → Prop
  | watch name periodSeconds nowUs _ => (find name).isSome →
      (BitVec.ofNat 64 nowUs + BitVec.ofNat 64 (periodUs m periodSeconds)).toNat =
        nowUs + periodUs m periodSeconds
  | emitDueWatches nowUs => nowUs < 2 ^ 64 →
      ∀ e ∈ s.values.watches.toList, Store.isDue nowUs e = true → ∃ due : BitVec 64,
        Loop.Returns (Periodic.wordBody (BitVec.ofNat 64 (periodUs m e.periodSeconds))
          (BitVec.ofNat 64 nowUs)) (BitVec.ofNat 64 e.nextDueUs) due ∧
        due.toNat = Store.advance (periodUs m e.periodSeconds) nowUs e.nextDueUs
  | _ => True

/-- As long as the due times of the map are words, so are those that a call computes. -/
theorem inWords_of_fits (m : Machine) {s : Store} (h : s.SingleWatches) {call : RegistryCall}
    (hfits : (s.subscriptions.step m call).Fits) : call.InWords m s := by
  cases call with
  | watch name periodSeconds nowUs initialLine =>
    intro hsome
    obtain ⟨d, hfind⟩ := Option.isSome_iff_exists.mp hsome
    refine Periodic.toNat_ofNat_add (hfits d.id ⟨periodSeconds, nowUs + periodUs m periodSeconds⟩ ?_)
    unfold Subscriptions.step
    dsimp only
    rw [hfind]
    exact Function.update_self ..
  | emitDueWatches nowUs =>
    intro hnow e he hdue
    have hact : e.active = true := by
      unfold Store.isDue at hdue
      exact (Bool.and_eq_true_iff.mp (Bool.and_eq_true_iff.mp hdue).1).1
    have hheld : lookup Watch.active Watch.id s.values.watches e.id = some e :=
      (lookup_eq_some_iff h).mpr ⟨hact, rfl, (List.Vector.mem_iff_get e _).mp he⟩
    have hword : Store.advance (periodUs m e.periodSeconds) nowUs e.nextDueUs < 2 ^ 64 := by
      have hserved : (redue m nowUs e).subscription.dueUs < 2 ^ 64 := by
        refine hfits e.id _ ?_
        unfold Subscriptions.step Store.subscriptions
        dsimp only
        rw [hheld, Option.map_some, Option.map_some, redue_subscription m nowUs hact]
      unfold redue at hserved
      rwa [if_pos hdue] at hserved
    refine ⟨_, Periodic.returns_words (fun _ => rfl) hnow hword, ?_⟩
    exact (BitVec.toNat_ofNat ..).trans (Nat.mod_eq_of_lt hword)
  | _ => trivial

theorem foldl_inWords {W : Type} (m : Machine) (out : ValueWriter W) {p : Store × W}
    (hat : p.1.values.attached = true) (h : p.1.SingleWatches) {calls : List RegistryCall}
    (hfits : ∀ a ∈ Run.states (Subscriptions.step m) p.1.subscriptions calls, a.Fits) :
    ∀ q ∈ Run.steps (RegistryCall.step m out) p calls, q.2.InWords m q.1.1 :=
  @Run.forall_steps_of_states _ _ (RegistryCall.step m out)
    (fun p => p.1.values.attached = true ∧ p.1.SingleWatches) (fun p call => call.InWords m p.1) _
    (fun p => p.1.subscriptions) (Subscriptions.step m) Subscriptions.Fits
    (fun p call hp => ⟨⟨(step_attached m out p call).trans hp.1, RegistryCall.step_single m out hp.2 call⟩,
      (step_refines m out hp.1 hp.2 call).1⟩)
    (fun _ _ hp hfits => inWords_of_fits m hp.2 hfits) p ⟨hat, h⟩ calls hfits

/-- **The registry.** After any calls, with any writer and whatever becomes of the state in between, the registry
holds the map that the calls make of an empty one; and any further call attempts the lines that the map
says, in its order unless they are due together. As long as no due time of the map reaches 2^64, all of
them are what the code computes in words. -/
theorem registry_refines {W : Type} (m : Machine) (out : ValueWriter W) (st : PypilotState) (w : W)
    (calls : List RegistryCall) (call : RegistryCall)
    (hfits : ∀ a ∈ Run.states (Subscriptions.step m) {} (calls ++ [call]), a.Fits) :
    let p := calls.foldl (RegistryCall.step m out) (RegistryCall.start st w)
    let a := calls.foldl (Subscriptions.step m) {}
    p.1.subscriptions = a ∧
      (∃ ids : List FieldId, ids.Perm (a.lines call) ∧
        ((∀ nowUs, call ≠ .emitDueWatches nowUs) → ids = a.lines call) ∧
        (call.step m out p).2 = attemptLines m out p.1 ids p.2) ∧
      ∀ q ∈ Run.steps (RegistryCall.step m out) (RegistryCall.start st w) (calls ++ [call]),
        q.2.InWords m q.1.1 := by
  intro p a
  have hsame : p.1.subscriptions = a :=
    foldl_subscriptions m out rfl (RegistryCall.single_start st w) calls
  have hat : p.1.values.attached = true := foldl_attached m out rfl calls
  have hsingle : p.1.SingleWatches :=
    RegistryCall.foldl_single m out (RegistryCall.single_start st w) calls
  obtain ⟨-, ids, hattempts, hwritten⟩ := step_refines m out hat hsingle call
  have hwords := foldl_inWords m out (p := RegistryCall.start st w) rfl
    (RegistryCall.single_start st w) hfits
  rw [← hsame]
  exact ⟨rfl, ⟨ids, hattempts.perm, hattempts.ordered, hwritten⟩, hwords⟩

/-- The heading is watched every ten microseconds from 3 on, and written at 27. -/
theorem registry_refines_heading :
    let calls := [RegistryCall.watch (lit "ap.heading") (.fin (1 / 100000)) 3 true,
      .set (.setReal (lit "ap.heading") 5)]
    let p := calls.foldl (RegistryCall.step default StringValueWriter) (RegistryCall.start {} [])
    ((calls.foldl (Subscriptions.step default) {}).lines (.emitDueWatches 27)) = [.apHeading] ∧
      p.1.subscriptions = calls.foldl (Subscriptions.step default) {} ∧
      (RegistryCall.emitDueWatches 27).InWords default p.1 := by
  intro calls p
  have h := registry_refines default StringValueWriter {} [] calls (.emitDueWatches 27)
    (by decide +kernel)
  exact ⟨by decide +kernel, h.1, h.2.2 (p, .emitDueWatches 27) (by simp [calls, Run.steps, p])⟩

end Pypilot
