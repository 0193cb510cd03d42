import Pypilot.Autopilot
import Pypilot.Lib.Run
import Pypilot.Nmea
import Pypilot.OutputFraming

/-!
# Immediate watches and the state

The registry learns of the changes that go through it. The autopilot, the servo and the NMEA input write
the state directly, so what a watch has shown is the value of its field only until one of them changes
that: an overwritten field is not shown again until something else makes it so.
-/

namespace Pypilot

open Text Server

/-! ## Direct writers -/

/-- The fields that the direct writers write. -/
def directFields : List FieldId :=
  [.apHeading, .apHeadingError, .apCommand, .rudderAngle, .servoCommand, .servoCurrent,
    .servoVoltage, .servoEngaged]

/-- What no direct writer changes. -/
structure LeavesSettings (st st' : PypilotState) : Prop where
  server : st'.server = st.server
  enabled : st'.ap.enabled = st.ap.enabled
  mode : st'.ap.mode = st.ap.mode
  pilot : st'.ap.pilot = st.ap.pilot
  headingCommand : st'.ap.headingCommand = st.ap.headingCommand
  offset : st'.rudder.offset = st.rudder.offset
  range : st'.rudder.range = st.rudder.range
  fault : st'.servo.fault = st.servo.fault

theorem LeavesSettings.refl (st : PypilotState) : LeavesSettings st st :=
  ⟨rfl, rfl, rfl, rfl, rfl, rfl, rfl, rfl⟩

theorem LeavesSettings.trans {st₁ st₂ st₃ : PypilotState} (h : LeavesSettings st₁ st₂)
    (h' : LeavesSettings st₂ st₃) : LeavesSettings st₁ st₃ where
  server := h'.server.trans h.server
  enabled := h'.enabled.trans h.enabled
  mode := h'.mode.trans h.mode
  pilot := h'.pilot.trans h.pilot
  headingCommand := h'.headingCommand.trans h.headingCommand
  offset := h'.offset.trans h.offset
  range := h'.range.trans h.range
  fault := h'.fault.trans h.fault

/-- The readings of the other fields stay. -/
theorem LeavesSettings.sameField {st st' : PypilotState} (h : LeavesSettings st st')
    (values : ValueRegistry) {id : FieldId} (hid : id ∉ directFields) :
    Store.SameField ⟨st, values⟩ ⟨st', values⟩ id := by
  constructor
  · unfold Store.readReal
    rw [h.server, h.headingCommand, h.offset, h.range]
    cases id
    all_goals first
      | rfl
      | exact absurd (by decide) hid
  · unfold Store.readBool
    rw [h.server, h.enabled, h.fault]
    cases id
    all_goals first
      | rfl
      | exact absurd (by decide) hid
  · unfold Store.readString
    rw [h.mode, h.pilot]

section Writers

variable (m : Machine)

theorem leavesSettings_servoPoll (servo : Servo) (st : PypilotState) :
    LeavesSettings st (servo.poll m st).2 := by
  unfold Servo.poll
  split_ifs <;> exact ⟨rfl, rfl, rfl, rfl, rfl, rfl, rfl, rfl⟩

theorem rudderPoll_spec (r : RudderState) (nowUs : ℕ) :
    (r.poll nowUs).offset = r.offset ∧ (r.poll nowUs).range = r.range := by
  have hminmax : ∀ r : RudderState,
      r.updateMinmax.offset = r.offset ∧ r.updateMinmax.range = r.range := by
    intro r
    unfold RudderState.updateMinmax
    dsimp only
    split_ifs <;> exact ⟨rfl, rfl⟩
  have hupdate : ∀ (r : RudderState) (raw : Real) (device : Text),
      (r.update raw device nowUs).2.offset = r.offset ∧
        (r.update raw device nowUs).2.range = r.range := by
    intro r raw device
    have h := hminmax { r with raw := raw, rawValid := true, rawTimestampUs := nowUs }
    unfold RudderState.update RudderState.reset
    dsimp only
    split_ifs
    · exact ⟨rfl, rfl⟩
    · exact ⟨rfl, rfl⟩
    · exact h
  unfold RudderState.poll
  dsimp only
  split_ifs
  · obtain ⟨ho, hr⟩ := hupdate r.updateMinmax r.updateMinmax.raw (lit "servo")
    exact ⟨ho.trans (hminmax r).1, hr.trans (hminmax r).2⟩
  · obtain ⟨ho, hr⟩ := hupdate r.updateMinmax r.updateMinmax.raw r.updateMinmax.lastDevice
    exact ⟨ho.trans (hminmax r).1, hr.trans (hminmax r).2⟩
  · exact hminmax r

theorem leavesSettings_readSensors (imuUs : ℕ) (ap : Autopilot) (st : PypilotState) :
    LeavesSettings st (Autopilot.readSensors m imuUs ap st).2 := by
  have hread : ∀ st : PypilotState, LeavesSettings st (readImu imuUs st).2 :=
    fun st => ⟨rfl, rfl, rfl, rfl, rfl, rfl, rfl, rfl⟩
  unfold Autopilot.readSensors
  dsimp only
  split_ifs
  · exact (leavesSettings_servoPoll m ap.servo st).trans (hread _)
  · exact hread st

theorem leavesSettings_steer (rudderUs : ℕ) (servo : Servo) (st : PypilotState) :
    LeavesSettings st (Autopilot.steer m rudderUs servo st).2 := by
  have hpilot : LeavesSettings st (if !st.ap.tackState then basicProcess st else st) := by
    split_ifs <;> exact ⟨rfl, rfl, rfl, rfl, rfl, rfl, rfl, rfl⟩
  have hrudder : ∀ st : PypilotState,
      LeavesSettings st { st with rudder := st.rudder.poll rudderUs } := by
    intro st
    obtain ⟨ho, hr⟩ := rudderPoll_spec st.rudder rudderUs
    exact ⟨rfl, rfl, rfl, rfl, rfl, ho, hr, rfl⟩
  unfold Autopilot.steer
  generalize (if !st.ap.tackState then basicProcess st else st) = st' at hpilot ⊢
  have hflag : LeavesSettings st' (servo.setAutopilotEnabled st' st'.ap.enabled).2 :=
    ⟨rfl, rfl, rfl, rfl, rfl, rfl, rfl, rfl⟩
  refine (hpilot.trans hflag).trans ?_
  dsimp only
  split_ifs
  · exact (leavesSettings_servoPoll m _ _).trans (hrudder _)
  · exact hrudder _

/-- An iteration leaves the settings alone. -/
theorem leavesSettings_iteration {fuel imuUs rudderUs : ℕ} {ap ap' : Autopilot}
    {st st' : PypilotState}
    (h : Autopilot.iteration m fuel imuUs rudderUs ap st = some (ap', st')) :
    LeavesSettings st st' := by
  rw [Autopilot.iteration_eq, Option.map_eq_some_iff] at h
  obtain ⟨error, -, h⟩ := h
  have hsteer := leavesSettings_steer m rudderUs (Autopilot.readSensors m imuUs ap st).1
    { (Autopilot.readSensors m imuUs ap st).2 with ap.headingError := error }
  rw [h] at hsteer
  have herror : LeavesSettings (Autopilot.readSensors m imuUs ap st).2
      { (Autopilot.readSensors m imuUs ap st).2 with ap.headingError := error } :=
    ⟨rfl, rfl, rfl, rfl, rfl, rfl, rfl, rfl⟩
  exact ((leavesSettings_readSensors m imuUs ap st).trans herror).trans hsteer

/-- Bytes from the driver leave the settings alone. -/
theorem leavesSettings_feedDriverBytes (servo : Servo) (st : PypilotState) (bytes : Text)
    (nowUs : ℕ) : LeavesSettings st (servo.feedDriverBytes st bytes nowUs).2.2 := by
  unfold Servo.feedDriverBytes Servo.applyDriverSample
  dsimp only
  split_ifs <;> exact ⟨rfl, rfl, rfl, rfl, rfl, rfl, rfl, rfl⟩

/-- Sentences leave the settings alone. -/
theorem leavesSettings_feedLine (line : Text) (source : SensorSource) (nowUs : ℕ)
    (st : PypilotState) : LeavesSettings st (Nmea.feedLine m line source nowUs st).2 := by
  unfold Nmea.feedLine Nmea.applySentence
  cases Nmea.parseLine line with
  | none => exact .refl st
  | some sentence =>
    dsimp only
    repeat' split
    all_goals first
      | exact .refl st
      | exact ⟨rfl, rfl, rfl, rfl, rfl, rfl, rfl, rfl⟩

end Writers

/-! ## The observed program -/

/-- The program and, for every field, the text that its last whole line has shown and whether a direct
writer has changed its text since. -/
structure Observed where
  store : Store
  ap : Autopilot
  shown : FieldId → Option Text := fun _ => none
  stale : FieldId → Bool := fun _ => false

/-- Calls of the server and of the direct writers. What the callbacks of a poll do counts as operations
before it. -/
inductive SystemOp
  | handleLine (text : Text) (nowUs : ℕ)
  | poll (nowUs : ℕ)
  | iterate (fuel imuUs rudderUs : ℕ)
  | feedDriverBytes (bytes : Text) (nowUs : ℕ)
  | feedLine (text : Text) (source : SensorSource) (nowUs : ℕ)

namespace Observed

variable (m : Machine)

/-- The field is among the emissions and has a text in the store `s`. -/
def shows (s : Store) (es : List Emission) (id : FieldId) : Bool :=
  decide (.value id ∈ es) && (valueText m s id).isSome

/-- A call of the server shows the fields that it writes. -/
def call (o : Observed) (c : ServerCall) : Observed :=
  let s := c.written o.store
  let es := c.emissions m o.store
  { o with
    store := c.step m o.store
    shown := fun id => if shows m s es id then valueText m s id else o.shown id
    stale := fun id => o.stale id && !shows m s es id }

/-- The text shown of a field stands in the bytes of the call, in the last line of the field there. What
stands before it may end in the name of a field that could not be read. -/
theorem call_shown (o : Observed) (c : ServerCall) {id : FieldId}
    (hshows : shows m (c.written o.store) (c.emissions m o.store) id = true) :
    ∃ (t before : Text) (after : List Emission), (o.call m c).shown id = some t ∧ .value id ∉ after ∧
      c.output m o.store = before ++ (id.entry.name ++ chr '=' :: (t ++ [chr '\n'])) ++
        (after.map (emissionText m (c.written o.store))).flatten := by
  have hparts := hshows
  unfold shows at hparts
  rw [Bool.and_eq_true, decide_eq_true_eq] at hparts
  obtain ⟨hmem, hsome⟩ := hparts
  obtain ⟨t, ht⟩ := Option.isSome_iff_exists.mp hsome
  -- the last of its emissions is the first from behind
  obtain ⟨later, earlier, hes, hlast⟩ := List.eq_append_cons_of_mem (List.mem_reverse.mpr hmem)
  have hsplit : c.emissions m o.store = earlier.reverse ++ .value id :: later.reverse := by
    rw [← List.reverse_reverse (c.emissions m o.store), hes]
    simp
  have hline : emissionText m (c.written o.store) (.value id) =
      id.entry.name ++ chr '=' :: (t ++ [chr '\n']) := by
    show (linePieces m (c.written o.store) id).flatten = _
    rw [flatten_linePieces, ht]
  refine ⟨t, (earlier.reverse.map (emissionText m (c.written o.store))).flatten, later.reverse, ?_,
    fun h => hlast (List.mem_reverse.mp h), ?_⟩
  · unfold call
    simp [hshows, ht]
  · rw [c.output_eq, hsplit, List.map_append, List.map_cons, List.flatten_append, List.flatten_cons,
      hline, List.append_assoc (earlier.reverse.map _).flatten]

/-- A call that does not show a field has no line of it among its emissions, or the field cannot be
read. -/
theorem call_not_shown (o : Observed) (c : ServerCall) {id : FieldId}
    (hshows : shows m (c.written o.store) (c.emissions m o.store) id = false) :
    (o.call m c).shown id = o.shown id ∧
      (.value id ∈ c.emissions m o.store → valueText m (c.written o.store) id = none) := by
  refine ⟨?_, fun hmem => ?_⟩
  · unfold call
    simp [hshows]
  · unfold shows at hshows
    simpa [hmem] using hshows

/-- A direct writer makes the fields stale whose texts it changes. -/
def overwrite (o : Observed) (st : PypilotState) : Observed :=
  let s : Store := { o.store with state := st }
  { o with
    store := s
    stale := fun id => o.stale id || decide (valueText m s id ≠ valueText m o.store id) }

/-- An iteration that does not end is no step. -/
def step (o : Observed) : SystemOp → Observed
  | .handleLine text nowUs => o.call m (.line text nowUs)
  | .poll nowUs => o.call m (.poll id nowUs)
  | .iterate fuel imuUs rudderUs =>
    match Autopilot.iteration m fuel imuUs rudderUs o.ap o.store.state with
    | some (ap, st) => { o.overwrite m st with ap := ap }
    | none => o
  | .feedDriverBytes bytes nowUs =>
    let (_, servo, st) := o.ap.servo.feedDriverBytes o.store.state bytes nowUs
    { o.overwrite m st with ap := ⟨servo⟩ }
  | .feedLine text source nowUs =>
    o.overwrite m (Nmea.feedLine m text source nowUs o.store.state).2

/-- A new server over a state, and an autopilot. -/
def start (st : PypilotState) (ap : Autopilot) : Observed := { store := create m st {}, ap := ap }

/-- A field that is watched immediately and can be read is marked as changed, or stale, or shown as it
is; and settings are never stale. -/
structure Coherent (o : Observed) : Prop where
  shown : ∀ id t, o.store.hasImmediate id = true → valueText m o.store id = some t →
    o.store.values.dirty id = true ∨ o.stale id = true ∨ o.shown id = some t
  settings : ∀ id, id ∉ directFields → o.stale id = false

theorem coherent_start (st : PypilotState) (ap : Autopilot) : (start m st ap).Coherent m where
  shown := by
    intro id t himm _
    have hnone : (create m st {}).hasImmediate id = false := rfl
    exact absurd (himm.symm.trans hnone) (by decide)
  settings _ _ := rfl

/-! ## Steps -/

section Steps

variable {m} {o : Observed} (h : o.Coherent m)

include h in
/-- A direct writer that leaves the settings alone. -/
theorem Coherent.overwrite {st : PypilotState} (hst : LeavesSettings o.store.state st) :
    (o.overwrite m st).Coherent m where
  shown := by
    intro id t himm htext
    by_cases hsame : valueText m { o.store with state := st } id = valueText m o.store id
    · have hold := h.shown id t himm (hsame ▸ htext)
      unfold Observed.overwrite
      simpa [hsame] using hold
    · refine .inr (.inl ?_)
      unfold Observed.overwrite
      simp [hsame]
  settings := by
    intro id hid
    have hsame := (hst.sameField o.store.values hid).valueText m
    unfold Observed.overwrite
    simp [h.settings id hid, hsame]

include h in
/-- A call of the server that changes no text without marking its field. -/
theorem Coherent.call {c : ServerCall}
    (hcall : ∀ id t, (c.step m o.store).hasImmediate id = true →
      valueText m (c.step m o.store) id = some t →
        (c.step m o.store).values.dirty id = true ∨
          valueText m o.store id = some t ∧ valueText m (c.written o.store) id = some t ∧
            (.value id ∈ c.emissions m o.store ∨
              o.store.hasImmediate id = true ∧ o.store.values.dirty id = false)) :
    (o.call m c).Coherent m where
  shown := by
    intro id t himm htext
    rcases hcall id t himm htext with hdirty | ⟨hold, hwritten, hes | ⟨himm', hclean⟩⟩
    · exact .inl hdirty
    · refine .inr (.inr ?_)
      unfold Observed.call shows
      simp [hes, hwritten]
    · -- shown by this call or, as before, by an earlier one
      refine .inr ?_
      by_cases hshows : shows m (c.written o.store) (c.emissions m o.store) id = true
      · refine .inr ?_
        unfold Observed.call
        simp [hshows, hwritten]
      · unfold Observed.call
        rcases h.shown id t himm' hold with hdirty | hrest
        · exact absurd (hdirty.symm.trans hclean) (by decide)
        · simpa [hshows] using hrest
  settings := by
    intro id hid
    unfold Observed.call
    simp [h.settings id hid]

include h in
theorem Coherent.line (text : Text) (nowUs : ℕ) : (o.call m (.line text nowUs)).Coherent m := by
  refine h.call fun id t himm htext => ?_
  have hwatched := (handleLine_reliable m (fun text out => out ++ text) o.store [] text nowUs).2 id himm
  -- a field that is not assigned keeps its text and its mark
  have hkeep : valueText m o.store id = some t →
      (ServerCall.step m o.store (.line text nowUs)).values.dirty id = o.store.values.dirty id →
      (ServerCall.step m o.store (.line text nowUs)).values.dirty id = true ∨
        valueText m o.store id = some t ∧ valueText m o.store id = some t ∧
          (.value id ∈ lineEmissions m nowUs text o.store ∨
            o.store.hasImmediate id = true ∧ o.store.values.dirty id = false) := by
    intro hold hmark
    by_cases hdirty : o.store.values.dirty id = true
    · exact .inl (hmark.trans hdirty)
    · have hclean : o.store.values.dirty id = false := by simpa using hdirty
      exact .inr ⟨hold, hold, hwatched.symm.imp_right fun himm => ⟨himm, hclean⟩⟩
  have hstore : ServerCall.step m o.store (.line text nowUs) =
      (handleLine m text nowUs StringValueWriter o.store []).2.1 := rfl
  rcases handleLine_cases m text nowUs StringValueWriter o.store [] with
    ⟨name, value, -, hset⟩ | ⟨-, hsame⟩
  · rw [hstore, hset] at htext hkeep ⊢
    rcases Store.setFromWire_cases m o.store name value true with hfail | ⟨d, -, -, hd⟩
    · rw [hfail] at htext hkeep ⊢
      exact hkeep htext rfl
    · by_cases hid : id = d.id
      · refine .inl ?_
        rw [hd.dirty, hid, Function.update_self]
      · rw [(hd.others id hid).valueText] at htext
        exact hkeep htext (by rw [hd.dirty, Function.update_of_ne hid])
  · rw [hstore, (hsame.sameField id).valueText] at htext
    exact hkeep htext (congrFun hsame.dirty id)

theorem hasImmediate_redue {s : Store} {nowUs : ℕ} {dirty : FieldId → Bool} {id : FieldId}
    (h : Store.hasImmediate { s with values := { s.values with
      dirty := dirty, watches := s.values.watches.map (redue m nowUs) } } id = true) :
    s.hasImmediate id = true := by
  have hsame : ∀ e : Watch, Store.immediate id (redue m nowUs e) = Store.immediate id e := by
    intro e
    unfold redue
    split_ifs <;> rfl
  unfold Store.hasImmediate at h ⊢
  dsimp only at h
  rw [List.Vector.toList_map, List.any_map] at h
  simpa [Function.comp_def, hsame] using h

theorem poll_step (s : Store) (nowUs : ℕ) :
    ServerCall.step m s (.poll id nowUs) = { s with values := { s.values with
      dirty := fun _ => false, watches := s.values.watches.map (redue m nowUs) } } := by
  show (Server.poll m id nowUs (.reliable fun text out => out ++ text) s []).1 = _
  rw [poll_reliable]
  rfl

include h in
theorem Coherent.poll (nowUs : ℕ) : (o.call m (.poll id nowUs)).Coherent m := by
  refine h.call fun id t himm htext => ?_
  rw [poll_step] at himm htext
  have hwatched := hasImmediate_redue himm
  have hsame : Store.SameField o.store { o.store with values := { o.store.values with
      dirty := fun _ => false, watches := o.store.values.watches.map (redue m nowUs) } } id :=
    ⟨rfl, rfl, rfl⟩
  rw [hsame.valueText] at htext
  refine .inr ⟨htext, htext, ?_⟩
  by_cases hdirty : o.store.values.dirty id = true
  · -- a marked field with an immediate watch is written
    refine .inl (List.mem_map_of_mem (List.mem_append_left _ ?_))
    refine List.mem_filter.mpr ⟨FieldId.mem_all id, ?_⟩
    rw [Bool.and_eq_true]
    exact ⟨hdirty, hwatched⟩
  · exact .inr ⟨hwatched, by simpa using hdirty⟩

include h in
/-- **Steps.** Every operation keeps the watches coherent. -/
theorem Coherent.step (op : SystemOp) : (o.step m op).Coherent m := by
  cases op with
  | handleLine text nowUs => exact h.line text nowUs
  | poll nowUs => exact h.poll nowUs
  | iterate fuel imuUs rudderUs =>
    unfold Observed.step
    dsimp only
    cases hit : Autopilot.iteration m fuel imuUs rudderUs o.ap o.store.state with
    | none => exact h
    | some p =>
      obtain ⟨hshown, hsettings⟩ := h.overwrite (leavesSettings_iteration m hit)
      exact ⟨hshown, hsettings⟩
  | feedDriverBytes bytes nowUs =>
    obtain ⟨hshown, hsettings⟩ :=
      h.overwrite (leavesSettings_feedDriverBytes o.ap.servo o.store.state bytes nowUs)
    exact ⟨hshown, hsettings⟩
  | feedLine text source nowUs =>
    exact h.overwrite (leavesSettings_feedLine m text source nowUs o.store.state)

end Steps

end Observed

/-! ## Runs -/

open Observed

/-- **Immediate watches.** In any run, after a poll, the last line of a field that is watched
immediately and can be read shows its value, unless the field is one of the direct writers' and one of
them has changed its text since that line. -/
theorem immediate_watch_coherent (m : Machine) (st : PypilotState) (ap : Autopilot)
    (ops : List SystemOp) :
    ∀ o ∈ Run.states (Observed.step m) (start m st ap) ops, ∀ nowUs id t,
      (o.step m (.poll nowUs)).store.hasImmediate id = true →
      valueText m (o.step m (.poll nowUs)).store id = some t →
      (id ∈ directFields → (o.step m (.poll nowUs)).stale id = false) →
        (o.step m (.poll nowUs)).shown id = some t := by
  intro o ho nowUs id t himm htext hfresh
  have hcoherent : o.Coherent m :=
    Run.states_invariant (I := Coherent m) (C := fun _ _ => True) (fun _ op h _ => h.step op)
      (coherent_start m st ap) (fun _ _ => trivial) o ho
  obtain ⟨hshown, hsettings⟩ := hcoherent.step (.poll nowUs)
  have hstale : (o.step m (.poll nowUs)).stale id = false := by
    by_cases hid : id ∈ directFields
    · exact hfresh hid
    · exact hsettings id hid
  have hclean : (o.step m (.poll nowUs)).store.values.dirty id = false := by
    show (ServerCall.step m o.store (.poll _ nowUs)).values.dirty id = false
    rw [poll_step]
  rcases hshown id t himm htext with hdirty | h | h
  · exact absurd (hdirty.symm.trans hclean) (by decide)
  · exact absurd (h.symm.trans hstale) (by decide)
  · exact h

/-- A setting is changed by a line and shown by the next poll; a heading that an iteration has not moved
is still as it was shown. -/
theorem immediate_watch_coherent_session :
    let o := [SystemOp.handleLine (lit "watch=\x7b\"ap.enabled\":true,\"ap.heading\":true\x7d") 0,
      .handleLine (lit "ap.enabled=true") 0, .iterate 3 0 0].foldl (Observed.step default)
        (start default {} ⟨{}⟩)
    (o.step default (.poll 1)).shown .apEnabled = some (lit "true") ∧
      (o.step default (.poll 1)).shown .apHeading = some (lit "0.0000") := by
  intro o
  have ho := Run.foldl_mem_states (Observed.step default)
    (start default {} ⟨{}⟩)
    [SystemOp.handleLine (lit "watch=\x7b\"ap.enabled\":true,\"ap.heading\":true\x7d") 0,
      .handleLine (lit "ap.enabled=true") 0, .iterate 3 0 0]
  exact ⟨immediate_watch_coherent default {} ⟨{}⟩ _ o ho 1 .apEnabled (lit "true")
      (by decide +kernel) (by decide +kernel) (by decide),
    immediate_watch_coherent default {} ⟨{}⟩ _ o ho 1 .apHeading (lit "0.0000")
      (by decide +kernel) (by decide +kernel) (by decide +kernel)⟩

/-- An iteration moves the heading, and the next poll writes nothing. -/
theorem heading_moves_unshown :
    ∃ o ∈ Run.states (Observed.step default) (start default {} ⟨{}⟩)
        [.handleLine (lit "watch=\x7b\"ap.heading\":true\x7d") 0,
          .feedLine (lit "$GPHDT,5,T") .serial 0, .iterate 3 0 0],
      (ServerCall.poll id 1).output default o.store = [] ∧
        (o.step default (.poll 1)).store.hasImmediate .apHeading = true ∧
        valueText default (o.step default (.poll 1)).store .apHeading = some (lit "5.0000") ∧
        (o.step default (.poll 1)).shown .apHeading = some (lit "0.0000") :=
  ⟨_, Run.foldl_mem_states _ _ _, by decide +kernel⟩

end Pypilot
