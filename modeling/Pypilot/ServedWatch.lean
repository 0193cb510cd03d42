import Pypilot.PeriodicWatch

/-!
# Served watches

A watch of period 0 waits for a change and for the next poll, a watch of positive period for a poll at its
due time. While nothing is written the wait lasts (`pending_step`), so a poll late enough ends it. A
negative period is accepted as well, but neither emitter looks at its entry: such a watch is never served.
And a period may come out too long when it is turned into microseconds (`watch_served_iff`).
-/

namespace Pypilot

open Text Server SlotTable

/-- The period that a watch request reads from a value. -/
def watchPeriod (m : Machine) (value : Text) : Option Real :=
  if value = lit "true" then some 0 else parsePeriod m value

/-- A use of the server: a setter of its registry is called, or the server is polled, with callbacks that
may change the state. -/
inductive ServerUse
  | set (call : SetCall) (nowUs : ℕ)
  | poll (callbacks : PypilotState → PypilotState) (nowUs : ℕ)

namespace ServerUse

variable (m : Machine) (s : Store) (id : FieldId)

def time : ServerUse → ℕ
  | set _ nowUs | poll _ nowUs => nowUs

def step : ServerUse → Store
  | set call _ => (call.run m s).2
  | poll callbacks nowUs => (ServerCall.poll callbacks nowUs).step m s

/-- A poll that writes a whole line for the field. -/
def Emits : ServerUse → Prop
  | set _ _ => False
  | poll callbacks nowUs =>
    .value id ∈ (ServerCall.poll callbacks nowUs).emissions m s ∧
      (valueText m ((ServerCall.poll callbacks nowUs).written s) id).isSome

/-- The callbacks of the poll do not make the field unreadable. -/
def KeepsReadable : ServerUse → Prop
  | set _ _ => True
  | poll callbacks _ => ∀ s : Store, (valueText m s id).isSome →
      (valueText m { s with state := callbacks s.state } id).isSome

end ServerUse

/-- After any set of the field, by the first poll at least `delay` seconds later, a poll writes its line. -/
def Store.Served (m : Machine) (s : Store) (id : FieldId) (delay : ℚ) (later : List ServerUse) : Prop :=
  ∀ before call (setUs : ℕ) between callbacks (nowUs : ℕ) after,
    later = before ++ .set call setUs :: (between ++ .poll callbacks nowUs :: after) →
    let s' := before.foldl (ServerUse.step m) s
    call.Sets m s' id → (setUs : ℚ) + delay * 1000000 ≤ nowUs →
      ∃ q ∈ Run.steps (ServerUse.step m) s' (.set call setUs :: (between ++ [.poll callbacks nowUs])),
        q.2.Emits m q.1 id

/-! ## Readable fields -/

section Readable

variable {m : Machine} {s : Store} {id : FieldId}

theorem valueText_isSome_iff (hat : s.values.attached = true) :
    (valueText m s id).isSome ↔ (id = .rudderAngle → s.state.rudder.angle.valid = true) := by
  rcases reading_cases id hat with ⟨hk, -, hangle, r, hr⟩ | ⟨rfl, hvalid, hr⟩ |
    ⟨hk, -, -, hangle, b, hb⟩ | ⟨hk, -, hangle, t, ht⟩
  · rw [valueText_real m s hk, hr]
    exact iff_of_true rfl hangle
  · rw [valueText_real m s rfl, hr, hvalid]
    simp
  · rw [valueText_boolean m s hk, hb]
    exact iff_of_true rfl fun h => absurd h hangle
  · rw [valueText_string m s hk, ht]
    exact iff_of_true rfl fun h => absurd h hangle

/-- An attached field can be set. -/
theorem exists_sets (m : Machine) (id : FieldId) (hat : s.values.attached = true) :
    ∃ call : SetCall, call.Sets m s id := by
  have hnamed : ∀ {set : FieldId → Bool × Store}, (set id).1 = true →
      (s.setNamed id.entry.name set).1 = true := by
    intro set hset
    unfold Store.setNamed
    rw [find_entry]
    dsimp only
    rwa [entry_id]
  cases hk : id.entry.kind with
  | real =>
    refine ⟨.setReal id.entry.name 0, rfl, hnamed ?_⟩
    unfold Store.setReal
    simp only [hat]
    cases id <;> first | rfl | exact absurd hk (by decide)
  | boolean =>
    refine ⟨.setBool id.entry.name true, rfl, hnamed ?_⟩
    unfold Store.setBool
    simp only [hat]
    cases id <;> first | rfl | exact absurd hk (by decide)
  | string =>
    refine ⟨.setString id.entry.name [], rfl, hnamed ?_⟩
    unfold Store.setString
    simp only [hat]
    cases id <;> first | rfl | exact absurd hk (by decide)

/-! ### Setters -/

theorem setReal_angleValid (value : Real) (h : s.state.rudder.angle.valid = true) :
    (s.setReal m id value).2.state.rudder.angle.valid = true := by
  unfold Store.setReal
  dsimp only
  split_ifs
  · exact h
  · cases id <;> first | exact h | rfl

theorem setBool_angleValid (value : Bool) (h : s.state.rudder.angle.valid = true) :
    (s.setBool id value).2.state.rudder.angle.valid = true := by
  unfold Store.setBool
  dsimp only
  split_ifs
  · exact h
  · cases id <;> exact h

theorem setString_angleValid (value : Text) (h : s.state.rudder.angle.valid = true) :
    (s.setString id value).2.state.rudder.angle.valid = true := by
  unfold Store.setString
  dsimp only
  split_ifs
  · exact h
  · cases id <;> exact h

theorem setNamed_angleValid {set : FieldId → Bool × Store}
    (hset : ∀ id, (set id).2.state.rudder.angle.valid = true)
    (h : s.state.rudder.angle.valid = true) (name : Text) :
    (s.setNamed name set).2.state.rudder.angle.valid = true := by
  unfold Store.setNamed
  split
  · exact h
  · exact hset _

/-- An angle that is valid stays so when fields are set. -/
theorem SetCall.run_angleValid (call : SetCall) (h : s.state.rudder.angle.valid = true) :
    (call.run m s).2.state.rudder.angle.valid = true := by
  cases call with
  | setReal name value => exact setNamed_angleValid (fun _ => setReal_angleValid value h) h name
  | setBool name value => exact setNamed_angleValid (fun _ => setBool_angleValid value h) h name
  | setString name value => exact setNamed_angleValid (fun _ => setString_angleValid value h) h name
  | setFromWire name wireValue externalWrite =>
    show (s.setFromWire m name wireValue externalWrite).2.state.rudder.angle.valid = true
    unfold Store.setFromWire
    repeat' split
    all_goals first
      | exact h
      | exact setReal_angleValid _ h
      | exact setBool_angleValid _ h
      | exact setString_angleValid _ h

theorem attached_of_readable (h : (valueText m s id).isSome) : s.values.attached = true := by
  by_contra hnot
  have hat : s.values.attached = false := by simpa using hnot
  unfold valueText valuePieces Store.readReal Store.readBool Store.readString at h
  cases hk : id.entry.kind <;> simp [hk, hat] at h

/-- A field that can be read can be read when fields have been set. -/
theorem SetCall.run_readable (call : SetCall) (h : (valueText m s id).isSome) :
    (valueText m (call.run m s).2 id).isSome := by
  have hat := attached_of_readable h
  rw [valueText_isSome_iff hat] at h
  rw [valueText_isSome_iff ((call.run_attached m s).trans hat)]
  exact fun hid => call.run_angleValid (h hid)

end Readable

/-! ## The entry -/

/-- A due time moves to at most a period behind the clock. -/
theorem advance_le {period nowUs due : ℕ} (hdue : due ≤ nowUs) :
    Store.advance period nowUs due ≤ nowUs + period := by
  rcases Nat.eq_zero_or_pos period with rfl | hperiod
  · have hbody : Store.advanceBody 0 nowUs due = .inr (due + 0) := if_neg fun h => h.1 rfl
    unfold Store.advance
    rw [Loop.run_leaves hbody]
    exact hdue
  · have hle := Nat.mul_div_le (nowUs - due) period
    rw [advance_eq hperiod hdue, Nat.mul_add, Nat.mul_one]
    omega

section Entry

variable {m : Machine} {s : Store} {id : FieldId} {p : ℚ}

/-- The field is watched with the period `p`, and its entry is due at `byUs` or before. -/
def Store.DueBy (s : Store) (id : FieldId) (p : ℚ) (byUs : ℕ) : Prop :=
  ∃ due, s.HasEntry ⟨true, id, .fin p, due⟩ ∧ due ≤ byUs

theorem poll_step_eq (callbacks : PypilotState → PypilotState) (nowUs : ℕ) :
    (ServerUse.poll callbacks nowUs).step m s =
      { state := callbacks s.state,
        values := { s.values with
          dirty := fun _ => false, watches := s.values.watches.map (redue m nowUs) } } := by
  show (Server.poll m callbacks nowUs (.reliable fun text out => out ++ text) s []).1 = _
  rw [poll_reliable]

theorem Store.HasEntry.set {e : Watch} (h : s.HasEntry e) (call : SetCall) (nowUs : ℕ) :
    ((ServerUse.set call nowUs).step m s).HasEntry e := by
  have hset : ¬ (RegistryCall.set call).Rewatches e.id := fun h => h
  have hp : (s, ([] : Text)).1.HasEntry e := h
  exact RegistryCall.step_hasEntry m StringValueWriter hp hset

theorem Store.HasEntry.poll {e : Watch} (h : s.HasEntry e)
    (callbacks : PypilotState → PypilotState) (nowUs : ℕ) :
    ((ServerUse.poll callbacks nowUs).step m s).HasEntry (redue m nowUs e) := by
  obtain ⟨i, hi⟩ := h.mem
  rw [poll_step_eq]
  refine ⟨h.single.redue m nowUs, ((Store.redue_spec m nowUs e).1).trans h.active, i, ?_⟩
  dsimp only
  rw [List.Vector.get_map, hi]

/-- A poll writes a field that is flagged and watched immediately, or whose entry is due. -/
theorem Store.HasEntry.mem_emissions_iff {e : Watch} (h : s.HasEntry e)
    (callbacks : PypilotState → PypilotState) (nowUs : ℕ) :
    .value e.id ∈ (ServerCall.poll callbacks nowUs).emissions m s ↔
      (s.values.dirty e.id = true ∧ e.periodSeconds.feq 0 = true) ∨ Store.isDue nowUs e = true := by
  have h' : Store.HasEntry { s with state := callbacks s.state } e := ⟨h.single, h.active, h.mem⟩
  have hdue : e.id ∈ dueIds nowUs { s with state := callbacks s.state } ↔
      Store.isDue nowUs e = true := by
    rw [← List.count_pos_iff, h'.count_dueIds nowUs]
    split_ifs with hdue
    · exact iff_of_true Nat.one_pos hdue
    · exact iff_of_false (lt_irrefl 0) hdue
  have hchanged : e.id ∈ changedIds { s with state := callbacks s.state } ↔
      s.values.dirty e.id = true ∧ e.periodSeconds.feq 0 = true := by
    unfold changedIds
    rw [List.mem_filter, and_iff_right (FieldId.mem_all _), Bool.and_eq_true, h'.hasImmediate_iff]
  unfold ServerCall.emissions pollEmissions
  rw [List.mem_map_of_injective (fun _ _ => Emission.value.inj), List.mem_append, hchanged, hdue]

theorem isDue_fin_iff {nowUs due : ℕ} :
    Store.isDue nowUs ⟨true, id, .fin p, due⟩ = true ↔ 0 < p ∧ due ≤ nowUs := by
  have hle : (.fin p : Real) ≤ 0 ↔ p ≤ 0 := ExtRat.fin_le_fin
  unfold Store.isDue
  simp [hle]

theorem feq_fin_iff : (ExtRat.fin p).feq 0 = true ↔ p = 0 := decide_eq_true_iff

/-- **Entries.** At its readings up to `nowUs` a use leaves the field due within a period of `nowUs`. -/
theorem Store.DueBy.step {nowUs : ℕ} (h : s.DueBy id p (nowUs + periodUs m (.fin p)))
    {use : ServerUse} (htime : use.time ≤ nowUs) :
    (use.step m s).DueBy id p (nowUs + periodUs m (.fin p)) := by
  obtain ⟨due, hentry, hdue⟩ := h
  cases use with
  | set call setUs => exact ⟨due, hentry.set call setUs, hdue⟩
  | poll callbacks pollUs =>
    have hnext := hentry.poll (m := m) callbacks pollUs
    unfold redue at hnext
    split_ifs at hnext with hnow
    · rw [isDue_fin_iff] at hnow
      have hle : Store.advance (periodUs m (.fin p)) pollUs due ≤ pollUs + periodUs m (.fin p) :=
        advance_le hnow.2
      exact ⟨_, hnext, hle.trans (Nat.add_le_add_right htime _)⟩
    · exact ⟨due, hnext, hdue⟩

end Entry

/-! ## The wait -/

section Wait

variable {m : Machine} {s : Store} {id : FieldId} {p : ℚ} {byUs : ℕ}

/-- The field waits for its line: it is flagged when the watch is immediate, and due by `byUs`. -/
def Store.Pending (s : Store) (id : FieldId) (p : ℚ) (byUs : ℕ) : Prop :=
  (p = 0 → s.values.dirty id = true) ∧ s.DueBy id p byUs

theorem step_readable {use : ServerUse} (h : (valueText m s id).isSome)
    (hkeeps : use.KeepsReadable m id) : (valueText m (use.step m s) id).isSome := by
  cases use with
  | set call nowUs => exact call.run_readable h
  | poll callbacks nowUs =>
    have hsame : Store.SameField { s with state := callbacks s.state }
        ((ServerUse.poll callbacks nowUs).step m s) id := by
      rw [poll_step_eq]
      exact ⟨rfl, rfl, rfl⟩
    rw [hsame.valueText]
    exact hkeeps s h

/-- **One use.** A field that waits is written, or waits on. -/
theorem pending_step (hp : 0 ≤ p) (hread : (valueText m s id).isSome) (h : s.Pending id p byUs)
    {use : ServerUse} (hkeeps : use.KeepsReadable m id) :
    use.Emits m s id ∨ (use.step m s).Pending id p byUs := by
  obtain ⟨hdirty, due, hentry, hdue⟩ := h
  cases use with
  | set call nowUs =>
    refine .inr ⟨fun hzero => ?_, due, hentry.set call nowUs, hdue⟩
    exact (call.run_dirty_iff m s id).mpr (.inr (hdirty hzero))
  | poll callbacks nowUs =>
    have hiff := hentry.mem_emissions_iff (m := m) callbacks nowUs
    rw [isDue_fin_iff, feq_fin_iff] at hiff
    rcases hp.eq_or_lt with rfl | hpos
    · exact .inl ⟨hiff.mpr (.inl ⟨hdirty rfl, rfl⟩), hkeeps s hread⟩
    · by_cases hnow : due ≤ nowUs
      · exact .inl ⟨hiff.mpr (.inr ⟨hpos, hnow⟩), hkeeps s hread⟩
      · have hnext := hentry.poll (m := m) callbacks nowUs
        unfold redue at hnext
        rw [if_neg fun h => hnow (isDue_fin_iff.mp h).2] at hnext
        exact .inr ⟨fun hzero => absurd hzero hpos.ne', due, hnext, hdue⟩

/-- A poll that is late enough ends the wait. -/
theorem pending_emits (hp : 0 ≤ p) (hread : (valueText m s id).isSome) (h : s.Pending id p byUs)
    {callbacks : PypilotState → PypilotState} {nowUs : ℕ}
    (hkeeps : (ServerUse.poll callbacks nowUs).KeepsReadable m id) (hlate : byUs ≤ nowUs) :
    (ServerUse.poll callbacks nowUs).Emits m s id := by
  obtain ⟨hdirty, due, hentry, hdue⟩ := h
  refine ⟨(hentry.mem_emissions_iff callbacks nowUs).mpr ?_, hkeeps s hread⟩
  rw [isDue_fin_iff, feq_fin_iff]
  rcases hp.eq_or_lt with rfl | hpos
  · exact .inl ⟨hdirty rfl, rfl⟩
  · exact .inr ⟨hpos, hdue.trans hlate⟩

/-- **Runs.** The late poll reports what is pending, if none did before. -/
theorem exists_emits (hp : 0 ≤ p) {uses : List ServerUse} {callbacks : PypilotState → PypilotState}
    {nowUs : ℕ} (hread : (valueText m s id).isSome) (h : s.Pending id p byUs)
    (hkeeps : ∀ use ∈ uses ++ [.poll callbacks nowUs], use.KeepsReadable m id)
    (hlate : byUs ≤ nowUs) :
    ∃ q ∈ Run.steps (ServerUse.step m) s (uses ++ [.poll callbacks nowUs]), q.2.Emits m q.1 id := by
  -- the wait is carried along by the uses before that poll
  induction uses generalizing s with
  | nil =>
    exact ⟨_, List.mem_cons_self, pending_emits hp hread h (hkeeps _ List.mem_cons_self) hlate⟩
  | cons use uses ih =>
    rw [List.cons_append, List.forall_mem_cons] at hkeeps
    rw [List.cons_append, Run.steps]
    rcases pending_step hp hread h hkeeps.1 with hemits | hnext
    · exact ⟨_, List.mem_cons_self, hemits⟩
    · obtain ⟨q, hq, hemits⟩ := ih (step_readable hread hkeeps.1) hnext hkeeps.2
      exact ⟨q, List.mem_cons_of_mem _ hq, hemits⟩

end Wait

/-! ## Requests -/

section Requests

variable {W : Type} {m : Machine} {s : Store} {id : FieldId} {value : Text} {period : Real}

/-- A request with a period watches the field. -/
theorem watchEntry_period (hvalue : watchPeriod m value = some period) (nowUs : ℕ)
    (out : ValueWriter W) (w : W) :
    (watchEntry m id.entry.name value nowUs out s w).2.1 =
      (s.watch m id.entry.name period nowUs (some out) w).2.1 := by
  have hname : id.entry.name ≠ lit "values" := by cases id <;> decide
  have hfalse : value ≠ lit "false" := by
    rintro rfl
    have hnone : watchPeriod m (lit "false") = none := rfl
    exact absurd (hnone.symm.trans hvalue) (by simp)
  unfold watchPeriod at hvalue
  unfold watchEntry
  rw [if_neg hname, if_neg hfalse, hvalue]
  dsimp only
  split_ifs <;> rfl

theorem hasEntry_watchEntry (h : s.SingleWatches) (hvalue : watchPeriod m value = some period)
    (nowUs : ℕ) (out : ValueWriter W) (w : W) :
    (watchEntry m id.entry.name value nowUs out s w).2.1.HasEntry (Store.watchOf m period nowUs id) := by
  rw [watchEntry_period hvalue]
  exact h.hasEntry_watch m id period nowUs (some out) w

end Requests

section Served

variable {m : Machine} {s : Store} {id : FieldId} {p : ℚ} {startUs : ℕ}

/-- A watch with a period of at least 0 is served that is no longer in whole microseconds. -/
theorem served_of_nonneg (hp : 0 ≤ p) (hperiod : (periodUs m (.fin p) : ℚ) < p * 1000000 + 1)
    (hread : (valueText m s id).isSome)
    (hwatched : s.DueBy id p (startUs + periodUs m (.fin p))) {later : List ServerUse}
    (htimes : (startUs :: later.map ServerUse.time).Pairwise (· ≤ ·))
    (hkeeps : ∀ use ∈ later, use.KeepsReadable m id) : s.Served m id (max 0 p) later := by
  intro before call setUs between callbacks nowUs after hlater s' hsets hlate
  subst hlater
  rw [List.map_append, ← List.cons_append, List.pairwise_append] at htimes
  have hbefore : ∀ t ∈ startUs :: before.map ServerUse.time, t ≤ setUs := fun t ht =>
    htimes.2.2 t ht setUs List.mem_cons_self
  rw [List.forall_mem_append, List.forall_mem_cons, List.append_cons, List.forall_mem_append] at hkeeps
  obtain ⟨hkeepsBefore, -, hkeepsLater, -⟩ := hkeeps
  -- the entry when the field is set
  have hstart : s.DueBy id p (setUs + periodUs m (.fin p)) := by
    obtain ⟨due, hentry, hdue⟩ := hwatched
    exact ⟨due, hentry, hdue.trans (Nat.add_le_add_right (hbefore _ List.mem_cons_self) _)⟩
  have hentry : s'.DueBy id p (setUs + periodUs m (.fin p)) :=
    Run.foldl_invariant (I := fun s : Store => s.DueBy id p (setUs + periodUs m (.fin p)))
      (C := fun _ use => use.time ≤ setUs) (fun _ _ h htime => h.step htime) hstart
      ((Run.forall_steps_iff _ (C := fun use : ServerUse => use.time ≤ setUs) s before).mpr
        fun use huse => hbefore _ (List.mem_cons_of_mem _ (List.mem_map_of_mem huse)))
  have hread' : (valueText m s' id).isSome :=
    Run.foldl_invariant (I := fun s : Store => (valueText m s id).isSome = true)
      (C := fun _ use => use.KeepsReadable m id) (fun _ _ h hkeeps => step_readable h hkeeps) hread
      ((Run.forall_steps_iff _ (C := fun use : ServerUse => use.KeepsReadable m id) s before).mpr
        hkeepsBefore)
  -- the wait begins
  have hpending : ((ServerUse.set call setUs).step m s').Pending id p
      (setUs + periodUs m (.fin p)) :=
    ⟨fun _ => (call.run_dirty_iff m s' id).mpr (.inl hsets), hentry.step le_rfl⟩
  have hdelay : setUs + periodUs m (.fin p) ≤ nowUs := by
    rw [max_eq_right hp] at hlate
    have hlt : ((setUs + periodUs m (.fin p) : ℕ) : ℚ) < (nowUs + 1 : ℕ) := by
      push_cast
      linarith
    exact Nat.lt_succ_iff.mp (by exact_mod_cast hlt)
  obtain ⟨q, hq, hemits⟩ := exists_emits hp (call.run_readable hread') hpending hkeepsLater hdelay
  exact ⟨q, List.mem_cons_of_mem _ hq, hemits⟩

/-- A watch with a negative period is not: nothing is written when the field is set and the server is polled
at once. -/
theorem not_served_of_neg (startUs : ℕ) (hp : p < 0) (hread : (valueText m s id).isSome) {byUs : ℕ}
    (hwatched : s.DueBy id p byUs) :
    ∃ later : List ServerUse, (startUs :: later.map ServerUse.time).Pairwise (· ≤ ·) ∧
      (∀ use ∈ later, use.KeepsReadable m id) ∧ ¬ s.Served m id (max 0 p) later := by
  obtain ⟨call, hsets⟩ := exists_sets m id (attached_of_readable hread)
  refine ⟨[.set call startUs, .poll (fun st => st) startUs], ?_, ?_, fun hserved => ?_⟩
  · simp [ServerUse.time]
  · simp [ServerUse.KeepsReadable]
  · obtain ⟨q, hq, hemits⟩ := hserved [] call startUs [] (fun st => st) startUs [] rfl hsets
      (by rw [max_eq_left hp.le]; simp)
    obtain ⟨due, hentry, -⟩ := hwatched
    rcases List.mem_cons.mp hq with rfl | hq
    · exact hemits
    · rw [List.mem_singleton.mp hq] at hemits
      have hiff := (hentry.set (m := m) call startUs).mem_emissions_iff (m := m) (fun st => st) startUs
      rcases hiff.mp hemits.1 with ⟨-, hzero⟩ | hdue
      · exact hp.ne (feq_fin_iff.mp hzero)
      · exact absurd (isDue_fin_iff.mp hdue).1 (not_lt.mpr hp.le)

/-- Nor is one whose period comes out a microsecond or more too long: the poll that comes when it is over
finds the entry not due. -/
theorem not_served_of_long (startUs : ℕ) (hp : 0 ≤ p)
    (hlong : p * 1000000 + 1 ≤ (periodUs m (.fin p) : ℚ)) (hread : (valueText m s id).isSome)
    (hwatched : s.HasEntry (Store.watchOf m (.fin p) startUs id)) :
    ∃ later : List ServerUse, (startUs :: later.map ServerUse.time).Pairwise (· ≤ ·) ∧
      (∀ use ∈ later, use.KeepsReadable m id) ∧ ¬ s.Served m id (max 0 p) later := by
  obtain ⟨call, hsets⟩ := exists_sets m id (attached_of_readable hread)
  have hceil : (⌈p * 1000000⌉₊ : ℚ) < p * 1000000 + 1 := Nat.ceil_lt_add_one (by positivity)
  have hlate : startUs + ⌈p * 1000000⌉₊ < startUs + periodUs m (.fin p) := by
    have hlt : (⌈p * 1000000⌉₊ : ℚ) < periodUs m (.fin p) := hceil.trans_le hlong
    exact Nat.add_lt_add_left (by exact_mod_cast hlt) startUs
  have hzero : p ≠ 0 := by
    rintro rfl
    have hnone : periodUs m (.fin 0) = 0 := if_pos (by decide)
    rw [hnone] at hlong
    norm_num at hlong
  refine ⟨[.set call startUs, .poll (fun st => st) (startUs + ⌈p * 1000000⌉₊)], ?_, ?_,
    fun hserved => ?_⟩
  · simp [ServerUse.time]
  · simp [ServerUse.KeepsReadable]
  · obtain ⟨q, hq, hemits⟩ := hserved [] call startUs [] (fun st => st) (startUs + ⌈p * 1000000⌉₊) []
      rfl hsets (by
        rw [max_eq_right hp]
        push_cast
        exact add_le_add_right (Nat.le_ceil _) _)
    rcases List.mem_cons.mp hq with rfl | hq
    · exact hemits
    · rw [List.mem_singleton.mp hq] at hemits
      have hiff := (hwatched.set (m := m) call startUs).mem_emissions_iff (m := m) (fun st => st)
        (startUs + ⌈p * 1000000⌉₊)
      rcases hiff.mp hemits.1 with ⟨-, himm⟩ | hdue
      · exact hzero (feq_fin_iff.mp himm)
      · exact absurd (isDue_fin_iff.mp hdue).2 (not_le.mpr hlate)

end Served

/-- **Served watches.** After any calls of the registry a request watches a readable field with a finite
period. Whatever is set and polled later, at readings that do not decrease, a set of the field is reported
by the first poll that comes a period later: exactly when the period is not negative and its product with a
million, rounded to a `float` and cut to whole microseconds, is less than a microsecond too long. -/
theorem watch_served_iff {W : Type} (m : Machine) (out : ValueWriter W) (st : PypilotState) (w : W)
    (history : List RegistryCall) (id : FieldId) (value : Text) (p : ℚ) (startUs : ℕ)
    (hvalue : watchPeriod m value = some (.fin p)) :
    let before := history.foldl (RegistryCall.step m out) (RegistryCall.start st w)
    let s := (watchEntry m id.entry.name value startUs out before.1 before.2).2.1
    (valueText m s id).isSome →
      ((∀ later : List ServerUse, (startUs :: later.map ServerUse.time).Pairwise (· ≤ ·) →
          (∀ use ∈ later, use.KeepsReadable m id) → s.Served m id (max 0 p) later) ↔
        0 ≤ p ∧ (periodUs m (.fin p) : ℚ) < p * 1000000 + 1) := by
  intro before s hread
  have hsingle : before.1.SingleWatches :=
    RegistryCall.foldl_single m out (RegistryCall.single_start st w) history
  have hwatched : s.HasEntry (Store.watchOf m (.fin p) startUs id) :=
    hasEntry_watchEntry hsingle hvalue startUs out before.2
  have hdue : s.DueBy id p (startUs + periodUs m (.fin p)) := ⟨_, hwatched, le_rfl⟩
  constructor
  · intro hserved
    by_contra hnot
    obtain ⟨later, htimes, hkeeps, hfails⟩ : ∃ later : List ServerUse,
        (startUs :: later.map ServerUse.time).Pairwise (· ≤ ·) ∧
          (∀ use ∈ later, use.KeepsReadable m id) ∧ ¬ s.Served m id (max 0 p) later := by
      by_cases hp : 0 ≤ p
      · exact not_served_of_long startUs hp (not_lt.mp fun hlt => hnot ⟨hp, hlt⟩) hread hwatched
      · exact not_served_of_neg startUs (not_le.mp hp) hread hdue
    exact hfails (hserved later htimes hkeeps)
  · rintro ⟨hp, hperiod⟩ later htimes hkeeps
    exact served_of_nonneg hp hperiod hread hdue htimes hkeeps

/-- Half a second: every set of the heading is reported. -/
theorem watch_served_heading :
    let s := (watchEntry default FieldId.apHeading.entry.name (lit "0.5") 7 StringValueWriter
      (RegistryCall.start {} ([] : Text)).1 []).2.1
    ∀ later : List ServerUse, (7 :: later.map ServerUse.time).Pairwise (· ≤ ·) →
      (∀ use ∈ later, use.KeepsReadable default .apHeading) →
        s.Served default .apHeading (max 0 (1 / 2)) later :=
  (watch_served_iff default StringValueWriter {} [] [] .apHeading (lit "0.5") (1 / 2) 7
    (by decide +kernel) (by decide +kernel)).mpr ⟨by norm_num, by decide +kernel⟩

/-- Minus five seconds: the request is answered like any other, but the heading is set and no poll shows
it, neither a second later nor a hundred. -/
theorem negative_period_unserved :
    let request := ServerCall.line (lit "watch=\x7b\"ap.heading\":-5\x7d") 0
    let s := request.step default (create default {} {})
    request.output default (create default {} {}) = lit "ap.heading=0.0000\n" ∧
      watchPeriod default (lit "-5") = some (.fin (-5)) ∧
      ¬ s.Served default .apHeading (max 0 (-5))
        [.set (.setReal (lit "ap.heading") 7) 1, .poll (fun st => st) 1000000,
          .poll (fun st => st) 100000000] := by
  intro request s
  refine ⟨by decide +kernel, by decide +kernel, fun hserved => ?_⟩
  obtain ⟨q, hq, hemits⟩ := hserved [] (.setReal (lit "ap.heading") 7) 1
    [.poll (fun st => st) 1000000] (fun st => st) 100000000 [] rfl ⟨rfl, by decide +kernel⟩
    (by norm_num)
  rcases List.mem_cons.mp hq with rfl | hq
  · exact hemits
  rcases List.mem_cons.mp hq with rfl | hq
  · exact absurd hemits.1 (by decide +kernel)
  · rw [List.mem_singleton.mp hq] at hemits
    exact absurd hemits.1 (by decide +kernel)

end Pypilot
