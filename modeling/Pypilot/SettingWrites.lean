import Pypilot.LinkAgreement

/-!
# Where settings come from

Whatever lines, polls, iterations, driver bytes and sentences a program has seen, a setting has the value of
the last assignment to it that was accepted, and which assignments are accepted depends on their texts alone
(`setting_last_write`). A client that wants to watch the setting has it on a quiet link (`link_last_write`).
-/

namespace Pypilot

open Text Server

/-! ## Assignments from outside -/

/-- The text is one that an assignment from outside can give to the field. -/
def Accepts (m : Machine) (id : FieldId) (value : Text) : Bool :=
  id.entry.info.writable && match id.entry.kind with
    | .real => (parseReal m value).isSome
    | .boolean => (parseBool value).isSome
    | .string => true

/-- The field has the value of the text. -/
def Store.Given (m : Machine) (s : Store) (id : FieldId) (value : Text) : Prop :=
  match id.entry.kind with
  | .real => s.readReal id = parseReal m value
  | .boolean => s.readBool id = parseBool value
  | .string => s.readString id = some (stripQuotes value)

section Assignments

variable {m : Machine} {s : Store} {id : FieldId} {value : Text}

theorem Store.Given.congr {s' : Store} (h : s.Given m id value) (hsame : Store.SameField s s' id) :
    s'.Given m id value := by
  unfold Store.Given at h ⊢
  cases hkind : id.entry.kind with
  | real =>
    rw [hkind] at h
    exact hsame.real.trans h
  | boolean =>
    rw [hkind] at h
    exact hsame.bool.trans h
  | string =>
    rw [hkind] at h
    exact hsame.string.trans h

/-- **Assignments.** Whether an assignment is accepted depends on its text, and one that is gives the field
the value of the text. -/
theorem setFromWire_accepts (m : Machine) (hat : s.values.attached = true) (id : FieldId)
    (value : Text) : (s.setFromWire m id.entry.name value true).1 = Accepts m id value ∧
      (Accepts m id value = true →
        (s.setFromWire m id.entry.name value true).2.Given m id value) := by
  unfold Store.setFromWire Accepts Store.Given
  rw [find_entry]
  dsimp only
  rw [entry_id]
  cases hwritable : id.entry.info.writable with
  | false => exact ⟨rfl, fun h => nomatch h⟩
  | true =>
    have hport : id ≠ .serverPort := by
      rintro rfl
      exact nomatch hwritable
    rw [Bool.not_true, Bool.and_false, if_neg Bool.false_ne_true, Bool.true_and]
    cases hkind : id.entry.kind with
    | real =>
      dsimp only
      cases hparse : parseReal m value with
      | none => exact ⟨rfl, fun h => nomatch h⟩
      | some r =>
        obtain ⟨hok, hread⟩ := Store.setReal_spec m s hat hkind hport r
        exact ⟨hok, fun _ => hread⟩
    | boolean =>
      dsimp only
      cases hparse : parseBool value with
      | none => exact ⟨rfl, fun h => nomatch h⟩
      | some b =>
        obtain ⟨hok, hread⟩ := Store.setBool_spec s hat hkind b
        exact ⟨hok, fun _ => hread⟩
    | string =>
      obtain ⟨hok, hread⟩ := Store.setString_spec s hat hkind (stripQuotes value)
      exact ⟨hok, fun _ => hread⟩

end Assignments

/-! ## Runs -/

/-- The text that an operation gives to the field, if it is an assignment to it that is accepted. -/
def SystemOp.write (m : Machine) (id : FieldId) : SystemOp → Option Text
  | .handleLine text _ =>
    match request text with
    | .assignment name value => if name = id.entry.name ∧ Accepts m id value then some value else none
    | _ => none
  | _ => none

namespace Observed

variable {m : Machine} {o : Observed} {id : FieldId}

theorem step_write (h : Serving o.store) {op : SystemOp} {value : Text}
    (hop : op.write m id = some value) : (o.step m op).store.Given m id value := by
  cases op with
  | handleLine text nowUs =>
    unfold SystemOp.write at hop
    cases hreq : request text with
    | assignment name value' =>
      simp only [hreq] at hop
      split_ifs at hop with haccept
      obtain ⟨rfl, haccept⟩ := haccept
      obtain rfl := Option.some.inj hop
      show ((Server.handleLine m text nowUs StringValueWriter o.store []).2.1).Given m id value'
      rw [handleLine_assignment m hreq]
      exact (setFromWire_accepts m h.attached id value').2 haccept
    | empty | malformed | watch | values | udpPort => simp [hreq] at hop
  | poll | iterate | feedDriverBytes | feedLine => exact nomatch hop

theorem step_sameField (h : Serving o.store) (hid : id ∉ directFields) {op : SystemOp}
    (hop : op.write m id = none) : Store.SameField o.store (o.step m op).store id := by
  cases op with
  | handleLine text nowUs =>
    show Store.SameField o.store (Server.handleLine m text nowUs StringValueWriter o.store []).2.1 id
    rcases handleLine_cases m text nowUs StringValueWriter o.store [] with
      ⟨name, value, hreq, hset⟩ | ⟨-, hsame⟩
    · rw [hset]
      rcases Store.setFromWire_cases m o.store name value true with hfail | ⟨d, hfind, hok, hd⟩
      · rw [hfail]
        exact ⟨rfl, rfl, rfl⟩
      · refine hd.others id fun heq => ?_
        obtain ⟨hentry, rfl⟩ := find_eq_some hfind
        -- an assignment that succeeds is one that is accepted
        unfold SystemOp.write at hop
        simp only [hreq] at hop
        rw [hentry, ← heq] at hop hok
        rw [(setFromWire_accepts m h.attached id value).1] at hok
        rw [if_pos ⟨rfl, hok⟩] at hop
        exact nomatch hop
    · exact hsame.sameField id
  | poll nowUs =>
    show Store.SameField o.store (ServerCall.step m o.store (.poll _ nowUs)) id
    rw [poll_step]
    exact ⟨rfl, rfl, rfl⟩
  | iterate fuel imuUs rudderUs =>
    unfold Observed.step
    dsimp only
    cases hit : Autopilot.iteration m fuel imuUs rudderUs o.ap o.store.state with
    | none => exact ⟨rfl, rfl, rfl⟩
    | some p => exact (leavesSettings_iteration m hit).sameField o.store.values hid
  | feedDriverBytes bytes nowUs =>
    exact (leavesSettings_feedDriverBytes o.ap.servo o.store.state bytes nowUs).sameField
      o.store.values hid
  | feedLine text source nowUs =>
    exact (leavesSettings_feedLine m text source nowUs o.store.state).sameField o.store.values hid

/-- What is seen of a program does not matter to it. -/
theorem step_congr {o' : Observed} (hstore : o.store = o'.store) (hap : o.ap = o'.ap) (op : SystemOp) :
    (o.step m op).store = (o'.step m op).store ∧ (o.step m op).ap = (o'.step m op).ap := by
  obtain ⟨s, a, _, _⟩ := o
  obtain ⟨s', a', _, _⟩ := o'
  obtain rfl : s = s' := hstore
  obtain rfl : a = a' := hap
  cases op with
  | handleLine | poll | feedDriverBytes | feedLine => exact ⟨rfl, rfl⟩
  | iterate fuel imuUs rudderUs =>
    unfold Observed.step
    dsimp only
    cases Autopilot.iteration m fuel imuUs rudderUs a s.state <;> exact ⟨rfl, rfl⟩

theorem foldl_congr (ops : List SystemOp) : ∀ o o' : Observed, o.store = o'.store → o.ap = o'.ap →
    (ops.foldl (Observed.step m) o).store = (ops.foldl (Observed.step m) o').store := by
  induction ops with
  | nil => exact fun _ _ hstore _ => hstore
  | cons op ops ih =>
    intro o o' hstore hap
    obtain ⟨hstore', hap'⟩ := step_congr (m := m) hstore hap op
    exact ih _ _ hstore' hap'

end Observed

/-- The text of the last assignment to the field that is accepted. -/
def lastWrite (m : Machine) (id : FieldId) (ops : List SystemOp) : Option Text :=
  (ops.filterMap (SystemOp.write m id)).getLast?

/-- A setting has the value of the last assignment to it that was accepted. -/
theorem given_lastWrite (m : Machine) (st : PypilotState) (ap : Autopilot) (ops : List SystemOp)
    {id : FieldId} (hid : id ∉ directFields) :
    let s := (ops.foldl (Observed.step m) (Observed.start m st ap)).store
    (∀ value, lastWrite m id ops = some value → s.Given m id value) ∧
      (lastWrite m id ops = none → Store.SameField (create m st {}) s id) :=
  @Run.last_write _ _ (Observed.step m) (fun o => Serving o.store) _ (SystemOp.write m id)
    (fun o value => o.store.Given m id value) (fun o => Store.SameField (create m st {}) o.store id)
    (fun _ op h => h.step op) (fun _ _ _ h hop => Observed.step_write h hop)
    (fun _ _ h hop =>
      have hsame := Observed.step_sameField h hid hop
      ⟨fun _ hgiven => hgiven.congr hsame, fun hnew => sameField_trans hnew hsame⟩)
    _ (Serving.create st) ⟨rfl, rfl, rfl⟩ ops

/-! ## With any writers -/

/-- The stores differ in their watches at most. -/
structure Store.ButWatches (s s' : Store) : Prop where
  state : s'.state = s.state
  attached : s'.values.attached = s.values.attached
  dirty : s'.values.dirty = s.values.dirty

/-- An assignment does not look at the watches. -/
theorem Store.ButWatches.setFromWire {s s' : Store} (h : s.ButWatches s') (m : Machine)
    (name wireValue : Text) (externalWrite : Bool) :
    (s.setFromWire m name wireValue externalWrite).2.ButWatches
      (s'.setFromWire m name wireValue externalWrite).2 := by
  obtain ⟨st, attached, watches, dirty⟩ := s
  obtain ⟨st', attached', watches', dirty'⟩ := s'
  obtain ⟨hstate, hattached, hdirty⟩ := h
  dsimp only at hstate hattached hdirty
  subst hstate hattached hdirty
  unfold Store.setFromWire
  cases find name with
  | none => exact ⟨rfl, rfl, rfl⟩
  | some d =>
    dsimp only
    split_ifs
    · exact ⟨rfl, rfl, rfl⟩
    · generalize d.id = id
      cases d.kind with
      | real =>
        cases parseReal m wireValue with
        | none => exact ⟨rfl, rfl, rfl⟩
        | some r =>
          unfold Store.setReal
          dsimp only
          split_ifs
          · exact ⟨rfl, rfl, rfl⟩
          · cases id <;> exact ⟨rfl, rfl, rfl⟩
      | boolean =>
        cases parseBool wireValue with
        | none => exact ⟨rfl, rfl, rfl⟩
        | some b =>
          unfold Store.setBool
          dsimp only
          split_ifs
          · exact ⟨rfl, rfl, rfl⟩
          · cases id <;> exact ⟨rfl, rfl, rfl⟩
      | string =>
        unfold Store.setString
        dsimp only
        split_ifs
        · exact ⟨rfl, rfl, rfl⟩
        · cases id <;> exact ⟨rfl, rfl, rfl⟩

/-- A program whose lines and polls write to writers that may fail. -/
structure WritingProgram (W : Type) where
  store : Store
  ap : Autopilot
  world : W

namespace WritingProgram

variable {W : Type} (m : Machine)

def step (p : WritingProgram W) (call : SystemOp × ValueWriter W) : WritingProgram W :=
  match call.1 with
  | .handleLine text nowUs =>
    let (_, store, world) := Server.handleLine m text nowUs call.2 p.store p.world
    { p with store := store, world := world }
  | .poll nowUs =>
    let (store, world) := Server.poll m id nowUs call.2 p.store p.world
    { p with store := store, world := world }
  | .iterate fuel imuUs rudderUs =>
    match Autopilot.iteration m fuel imuUs rudderUs p.ap p.store.state with
    | some (ap, st) => { p with store.state := st, ap := ap }
    | none => p
  | .feedDriverBytes bytes nowUs =>
    let (_, servo, st) := p.ap.servo.feedDriverBytes p.store.state bytes nowUs
    { p with store.state := st, ap := ⟨servo⟩ }
  | .feedLine text source nowUs =>
    { p with store.state := (Nmea.feedLine m text source nowUs p.store.state).2 }

/-- A new server over a state, and an autopilot. -/
def start (st : PypilotState) (ap : Autopilot) (w : W) : WritingProgram W := ⟨create m st {}, ap, w⟩

/-- The program and one whose writers do not fail. -/
structure Agrees (p : WritingProgram W) (o : Observed) : Prop where
  store : o.store.ButWatches p.store
  ap : p.ap = o.ap

variable {m} {p : WritingProgram W} {o : Observed}

/-- Whatever the writer does, the state and the marks are changed in the same way. -/
theorem Agrees.step (h : p.Agrees o) (call : SystemOp × ValueWriter W) :
    (p.step m call).Agrees (o.step m call.1) := by
  obtain ⟨op, out⟩ := call
  cases op with
  | handleLine text nowUs =>
    refine ⟨?_, h.ap⟩
    show Store.ButWatches (Server.handleLine m text nowUs StringValueWriter o.store []).2.1
      (Server.handleLine m text nowUs out p.store p.world).2.1
    by_cases hreq : ∃ name value, request text = .assignment name value
    · obtain ⟨name, value, hreq⟩ := hreq
      rw [handleLine_assignment m hreq, handleLine_assignment m hreq]
      exact h.store.setFromWire m name value true
    · have hother : ∀ name value, request text ≠ .assignment name value :=
        fun name value heq => hreq ⟨name, value, heq⟩
      have hp := handleLine_rewatches m hother nowUs out p.store p.world
      have ho := handleLine_rewatches m hother nowUs StringValueWriter o.store []
      exact ⟨hp.state.trans (h.store.state.trans ho.state.symm),
        hp.attached.trans (h.store.attached.trans ho.attached.symm),
        hp.dirty.trans (h.store.dirty.trans ho.dirty.symm)⟩
  | poll nowUs =>
    refine ⟨?_, h.ap⟩
    show Store.ButWatches (ServerCall.step m o.store (.poll id nowUs))
      (Server.poll m id nowUs out p.store p.world).1
    rw [Observed.poll_step, poll_eq]
    exact ⟨h.store.state, h.store.attached, rfl⟩
  | iterate fuel imuUs rudderUs =>
    unfold WritingProgram.step Observed.step
    dsimp only
    rw [h.ap, h.store.state]
    cases Autopilot.iteration m fuel imuUs rudderUs o.ap o.store.state with
    | none => exact h
    | some result => exact ⟨⟨rfl, h.store.attached, h.store.dirty⟩, rfl⟩
  | feedDriverBytes bytes nowUs =>
    unfold WritingProgram.step Observed.step
    dsimp only
    rw [h.ap, h.store.state]
    exact ⟨⟨rfl, h.store.attached, h.store.dirty⟩, rfl⟩
  | feedLine text source nowUs =>
    unfold WritingProgram.step Observed.step
    dsimp only
    rw [h.store.state]
    exact ⟨⟨rfl, h.store.attached, h.store.dirty⟩, h.ap⟩

theorem Agrees.foldl (h : p.Agrees o) (calls : List (SystemOp × ValueWriter W)) :
    (calls.foldl (WritingProgram.step m) p).Agrees
      ((calls.map Prod.fst).foldl (Observed.step m) o) := by
  induction calls generalizing p o with
  | nil => exact h
  | cons call calls ih => exact ih (h.step call)

end WritingProgram

/-- **Settings.** After any run of a program, whatever became of its output, the state does not depend on the
writers, and each setting has the value of the last assignment to it that was accepted. -/
theorem setting_last_write {W : Type} (m : Machine) (st : PypilotState) (ap : Autopilot) (w : W)
    (calls : List (SystemOp × ValueWriter W)) :
    let s := (calls.foldl (WritingProgram.step m) (WritingProgram.start m st ap w)).store
    let ops := calls.map Prod.fst
    s.state = (ops.foldl (Observed.step m) (Observed.start m st ap)).store.state ∧
      ∀ id, id ∉ directFields →
        (∀ value, lastWrite m id ops = some value → s.Given m id value) ∧
          (lastWrite m id ops = none → Store.SameField (create m st {}) s id) := by
  intro s ops
  have hagrees : (calls.foldl (WritingProgram.step m) (WritingProgram.start m st ap w)).Agrees
      (ops.foldl (Observed.step m) (Observed.start m st ap)) :=
    WritingProgram.Agrees.foldl (o := Observed.start m st ap) ⟨⟨rfl, rfl, rfl⟩, rfl⟩ calls
  obtain ⟨hstore, -⟩ := hagrees
  refine ⟨hstore.state, fun id hid => ?_⟩
  -- a field is read off the state
  have hsame : Store.SameField (ops.foldl (Observed.step m) (Observed.start m st ap)).store s id := by
    have hread : Store.Rewatches (ops.foldl (Observed.step m) (Observed.start m st ap)).store s :=
      ⟨hstore.state, hstore.attached, hstore.dirty⟩
    exact hread.sameField id
  obtain ⟨hgiven, hkept⟩ := given_lastWrite m st ap ops hid
  exact ⟨fun value hlast => (hgiven value hlast).congr hsame,
    fun hnone => sameField_trans (hkept hnone) hsame⟩

/-- An assignment is refused and one accepted, on writers that fail. -/
theorem setting_last_write_heading :
    let broken : ValueWriter Unit := ⟨fun _ w => (false, w)⟩
    let calls := [(SystemOp.handleLine (lit "ap.heading_command=90") 0, broken),
      (.handleLine (lit "ap.heading_command=east") 1, broken), (.iterate 3 0 0, broken),
      (.poll 2, broken)]
    (calls.foldl (WritingProgram.step default) (WritingProgram.start default {} ⟨{}⟩ ())).store.Given
      default .apHeadingCommand (lit "90") :=
  ((setting_last_write default {} ⟨{}⟩ () _).2 .apHeadingCommand (by decide)).1 (lit "90")
    (by decide +kernel)

/-! ## On the link -/

/-- What an operation of the link is for the program. -/
def LinkOp.systemOp (l : Link) : LinkOp → Option SystemOp
  | .handle nowUs => l.up.head?.map (.handleLine · nowUs)
  | .poll nowUs => some (.poll nowUs)
  | .elsewhere op => some op
  | _ => none

namespace Link

variable (m : Machine)

/-- What a run of the link is for the program. -/
def history (l : Link) (ops : List LinkOp) : List SystemOp :=
  (Run.steps (Link.step m) l ops).filterMap fun p => p.2.systemOp p.1

variable {m} {c : Store}

/-- The program of a link goes on as its operation is for it. -/
theorem step_program (l : Link) (op : LinkOp) :
    (l.step m op).program.store = ((op.systemOp l).toList.foldl (Observed.step m) l.program).store ∧
      (l.step m op).program.ap = ((op.systemOp l).toList.foldl (Observed.step m) l.program).ap := by
  have hserve : ∀ (l : Link) (call : ServerCall),
      (l.serve m call).program = l.program.call m call := by
    intro l call
    unfold Link.serve
    split_ifs <;> rfl
  cases op with
  | call call => exact ⟨rfl, rfl⟩
  | receive rounds => exact ⟨rfl, rfl⟩
  | connect conn => exact ⟨rfl, rfl⟩
  | closed =>
    unfold Link.step
    dsimp only
    cases l.client.client.connection <;> exact ⟨rfl, rfl⟩
  | failed errorCode => exact ⟨rfl, rfl⟩
  | close => exact ⟨rfl, rfl⟩
  | handle nowUs =>
    unfold Link.step LinkOp.systemOp
    dsimp only
    cases l.up with
    | nil => exact ⟨rfl, rfl⟩
    | cons text up =>
      dsimp only
      rw [hserve]
      exact ⟨rfl, rfl⟩
  | poll nowUs =>
    show (l.serve m (.poll id nowUs)).program.store = _ ∧ (l.serve m (.poll id nowUs)).program.ap = _
    rw [hserve]
    exact ⟨rfl, rfl⟩
  | elsewhere op => exact ⟨rfl, rfl⟩

/-- A run of the link is a run of its program. -/
theorem foldl_program (l : Link) (ops : List LinkOp) :
    (ops.foldl (Link.step m) l).program.store =
      ((history m l ops).foldl (Observed.step m) l.program).store := by
  induction ops generalizing l with
  | nil => rfl
  | cons op ops ih =>
    obtain ⟨hstore, hap⟩ := step_program (m := m) l op
    have hhistory : history m l (op :: ops) =
        (op.systemOp l).toList ++ history m (l.step m op) ops := by
      unfold history
      rw [Run.steps, List.filterMap_cons]
      cases op.systemOp l <;> rfl
    rw [List.foldl_cons, ih, hhistory, List.foldl_append]
    exact Observed.foldl_congr _ _ _ hstore hap

end Link

/-- The copy has the value of the text, a number up to four decimals. -/
def Store.GivenRounded (m : Machine) (c : Store) (id : FieldId) (value : Text) : Prop :=
  match id.entry.kind with
  | .real => ∃ r r', parseReal m value = some r ∧ c.readReal id = some r' ∧ m.FourDecimals r r'
  | .boolean => c.readBool id = parseBool value
  | .string => c.readString id = some (stripQuotes value)

theorem Copied.given {m : Machine} {s c : Store} {id : FieldId} (h : Copied m s c id) {value : Text}
    (hgiven : s.Given m id value) : c.GivenRounded m id value := by
  unfold Copied at h
  unfold Store.Given at hgiven
  unfold Store.GivenRounded
  cases hkind : id.entry.kind with
  | real =>
    rw [hkind] at h hgiven
    obtain ⟨r, r', hr, hr', hfour⟩ := h
    exact ⟨r, r', hgiven.symm.trans hr, hr', hfour⟩
  | boolean =>
    rw [hkind] at h hgiven
    exact Eq.trans h hgiven
  | string =>
    rw [hkind] at h hgiven
    exact Eq.trans h hgiven

open Link

/-- **Last write.** When nothing is on its way, a client that wants to watch a setting immediately has the
value of the last assignment to it that the server has accepted, from whomever it came, as soon as that has
been polled. -/
theorem link_last_write (m : Machine) (hm : m.HoldsIntegers) (st : PypilotState) (ap : Autopilot)
    {c₀ : Store} (hc : c₀.values.attached = true) {ops : List LinkOp}
    (hops : ∀ op ∈ ops, Undisturbed op)
    (hsends : ∀ p ∈ Run.steps (Link.step m) (start m st ap c₀) ops, p.1.Transmits m p.2) :
    let l := ops.foldl (Link.step m) (start m st ap c₀)
    l.Quiet → ∀ id periodSeconds, id ∉ directFields → l.wants id = some periodSeconds →
      periodSeconds ≤ 0 → l.program.store.values.dirty id = false →
        ∀ value, lastWrite m id (history m (start m st ap c₀) ops) = some value →
          l.copy.GivenRounded m id value := by
  intro l hquiet id periodSeconds hid hwants himm hclean value hlast
  obtain ⟨htracking, hsound⟩ := states_tracking ⟨tracking_start st ap hc, sound_start st ap hc⟩ hops
    hsends l (Run.foldl_mem_states _ _ ops)
  have hread : (valueText m l.program.store id).isSome = true := by
    rcases reading_cases (s := l.program.store) id hsound.serving.attached with
      ⟨hkind, -, -, r, hr⟩ | ⟨rfl, -⟩ | ⟨hkind, -, -, -, b, hb⟩ | ⟨hkind, -, -, t, ht⟩
    · rw [valueText_real m _ hkind, hr]
      rfl
    · exact absurd (by decide) hid
    · rw [valueText_boolean m _ hkind, hb]
      rfl
    · rw [valueText_string m _ hkind, ht]
      rfl
  have hcopied := (htracking.agrees hm hsound hquiet).copied id periodSeconds hwants himm hread hclean
    fun hdirect => absurd hdirect hid
  have hgiven : l.program.store.Given m id value := by
    show (ops.foldl (Link.step m) (start m st ap c₀)).program.store.Given m id value
    rw [foldl_program]
    exact (given_lastWrite m st ap _ hid).1 value hlast
  exact hcopied.given hgiven

/-- The client itself assigns the heading that it watches. -/
theorem link_last_write_session :
    let l := [LinkOp.connect 7, .call (.watch .apHeadingCommand 0),
      .call (.setReal .apHeadingCommand (.fin 90)), .handle 0, .handle 1, .poll 2, .receive 100].foldl
        (Link.step default) (start default {} ⟨{}⟩ (create default {} {}))
    l.copy.GivenRounded default .apHeadingCommand (lit "90") :=
  link_last_write default (fun _ _ => rfl) {} ⟨{}⟩ rfl (by simp [Undisturbed]) (by decide +kernel)
    ⟨by decide +kernel, by decide +kernel, by decide +kernel⟩ .apHeadingCommand 0 (by decide)
    (by decide +kernel) (by decide) (by decide +kernel) (lit "90") (by decide +kernel)

end Pypilot
