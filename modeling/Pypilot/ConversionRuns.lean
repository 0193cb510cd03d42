import Pypilot.Conversions
import Pypilot.Disengage
import Pypilot.Steering
import Pypilot.WatchTable

/-!
# Conversions in range

Lines bring numbers into the program as they come, not-a-number and infinities included, and the clamp
before the last conversion passes not-a-number on. What decides whether the conversions of a run are in
range are the periods and ports in the lines, and the command and heading that an iteration finds
(`conversions_inRange_iff`).
-/

namespace Pypilot

open Text Server

/-! ## One conversion -/

/-- A period whose product with a million, a `float`, is converted to a number of microseconds, or not at
all. -/
def PeriodFits (m : Machine) (seconds : Real) : Prop :=
  seconds ≤ 0 ∨ ∃ q, m.toReal (seconds * 1000000) = .fin q ∧ -1 < q ∧ q < 2 ^ 64

/-- A number whose integer part is a port. -/
def PortFits (value : Real) : Prop := ∃ q, value = .fin q ∧ -1 < q ∧ q < 2 ^ 16

theorem allInRange_nil : AllInRange [] := fun _ h => absurd h List.not_mem_nil

theorem allInRange_singleton {c : Conversion} : AllInRange [c] ↔ c.InRange := List.forall_mem_singleton

theorem inRange_iff {width : ℕ} {x : Real} :
    (⟨width, x⟩ : Conversion).InRange ↔ ∃ q, x = .fin q ∧ -1 < q ∧ q < 2 ^ width := by
  cases x with
  | fin q =>
    constructor
    · exact fun h => ⟨q, rfl, ExtRat.trunc_fits_iff.mp h⟩
    · rintro ⟨q', hq, hfits⟩
      obtain rfl := ExtRat.fin.inj hq
      exact ExtRat.trunc_fits_iff.mpr hfits
  | inf s => exact ⟨fun h => h.elim, fun ⟨_, h, _⟩ => nomatch h⟩
  | nan => exact ⟨fun h => h.elim, fun ⟨_, h, _⟩ => nomatch h⟩

theorem periodConversions_inRange_iff {m : Machine} {seconds : Real} :
    AllInRange (Store.periodConversions m seconds) ↔ PeriodFits m seconds := by
  unfold Store.periodConversions PeriodFits
  split_ifs with hzero
  · exact iff_of_true allInRange_nil (.inl hzero)
  · rw [allInRange_singleton, inRange_iff, or_iff_right hzero]

/-- Two clamps bring every number into the range of the protocol; not-a-number passes both. -/
theorem encodeConversions_inRange_iff {command : Real} :
    AllInRange (ServoProtocol.encodeConversions (ExtRat.clamp command (-1) 1)) ↔ command ≠ .nan := by
  unfold ServoProtocol.encodeConversions
  rw [allInRange_singleton, inRange_iff]
  constructor
  · rintro ⟨q, hq, -⟩ rfl
    exact nomatch hq
  · intro hcommand
    obtain ⟨q, hq, hlow, hhigh⟩ := ExtRat.exists_clamp (show (-1 : ℚ) ≤ 1 by norm_num)
      (clamp_ne_nan hcommand)
    have hclamp : ExtRat.clamp (ExtRat.clamp command (-1) 1) (-1) 1 = .fin q := hq
    rw [hclamp]
    exact ⟨(q + 1) * 1000, rfl, by linarith, by linarith⟩

/-! ## The registry -/

namespace Store

variable (m : Machine) {s : Store}

/-- The periods of the active watches fit. -/
def PeriodsFit (s : Store) : Prop :=
  ∀ i, (s.values.watches.get i).active = true → PeriodFits m (s.values.watches.get i).periodSeconds

/-- An assignment converts a number that a client reads for the port. -/
theorem setFromWireConversions_inRange_iff (hat : s.values.attached = true) (name wireValue : Text)
    (externalWrite : Bool) :
    AllInRange (s.setFromWireConversions m name wireValue externalWrite) ↔
      (externalWrite = false → name = lit "server.port" →
        ∀ v, parseReal m wireValue = some v → PortFits v) := by
  by_cases hport : name = lit "server.port"
  · have hfind : find name = some FieldId.serverPort.entry := by
      rw [hport]
      exact find_entry .serverPort
    have hkind : FieldId.serverPort.entry.kind = .real := rfl
    have hreadonly : FieldId.serverPort.entry.info.writable = false := rfl
    unfold setFromWireConversions
    rw [hfind]
    dsimp only
    rw [hreadonly, hkind]
    cases externalWrite with
    | true => exact iff_of_true allInRange_nil fun h => nomatch h
    | false =>
      cases hv : parseReal m wireValue with
      | none => exact iff_of_true allInRange_nil fun _ _ v h => nomatch h
      | some v =>
        have hset : s.setRealConversions .serverPort v = [⟨16, v⟩] := by
          unfold setRealConversions
          rw [hat]
          rfl
        dsimp only
        rw [if_neg (by simp), entry_id, hset, allInRange_singleton, inRange_iff]
        constructor
        · rintro h - - v' hv'
          rw [← Option.some.inj hv']
          exact h
        · exact fun h => h rfl hport v rfl
  · refine iff_of_true ?_ fun _ h => absurd h hport
    have hset : ∀ id v, id ≠ .serverPort → s.setRealConversions id v = [] := by
      intro id v hid
      unfold setRealConversions
      split_ifs
      · rfl
      · cases id <;> first | rfl | exact absurd rfl hid
    unfold setFromWireConversions
    cases hd : find name with
    | none => exact allInRange_nil
    | some d =>
      have hname : name ≠ FieldId.serverPort.entry.name := hport
      have hid : d.id ≠ .serverPort := (id_ne_of_find hd hname).symm
      dsimp only
      split_ifs
      · exact allInRange_nil
      · cases d.kind with
        | boolean | string => exact allInRange_nil
        | real =>
          cases parseReal m wireValue with
          | none => exact allInRange_nil
          | some v =>
            dsimp only
            rw [hset _ _ hid]
            exact allInRange_nil

/-- There is always an entry for a field. -/
theorem watchConversions_inRange_iff (hs : s.SingleWatches) (name : Text) (periodSeconds : Real) :
    AllInRange (s.watchConversions m name periodSeconds) ↔
      ((find name).isSome → PeriodFits m periodSeconds) := by
  obtain ⟨i, hi⟩ := hs.room
  have hfree : (s.values.watches.toList.any fun e => !e.active) = true :=
    SlotTable.any_toList.mpr ⟨i, by rw [hi]; rfl⟩
  unfold watchConversions
  cases find name with
  | none => exact iff_of_true allInRange_nil fun h => nomatch h
  | some d =>
    dsimp only
    rw [hfree, Bool.or_true, if_pos rfl, periodConversions_inRange_iff]
    exact ⟨fun h _ => h, fun h => h rfl⟩

theorem emitDueConversions_inRange (h : s.PeriodsFit m) (nowUs : ℕ) :
    AllInRange (s.emitDueConversions m nowUs) := by
  intro c hc
  obtain ⟨e, he, hc⟩ := List.mem_flatMap.mp hc
  obtain ⟨hmem, hdue⟩ := List.mem_filter.mp he
  obtain ⟨i, rfl⟩ := SlotTable.exists_mem_toList.mp ⟨e, hmem, rfl⟩
  unfold isDue at hdue
  simp only [Bool.and_eq_true] at hdue
  exact periodConversions_inRange_iff.mpr (h i hdue.1.1) c hc

variable {m}

theorem PeriodsFit.congr {s' : Store} (h : s.PeriodsFit m)
    (hwatches : s'.values.watches = s.values.watches) : s'.PeriodsFit m := by
  unfold PeriodsFit
  rw [hwatches]
  exact h

theorem PeriodsFit.watch {W : Type} (h : s.PeriodsFit m) {name : Text} {periodSeconds : Real}
    (hperiod : (find name).isSome → PeriodFits m periodSeconds) (nowUs : ℕ)
    (initialLine : Option (ValueWriter W)) (w : W) :
    (s.watch m name periodSeconds nowUs initialLine w).2.1.PeriodsFit m := by
  cases hd : find name with
  | none =>
    unfold Store.watch
    rw [hd]
    exact h
  | some d =>
    rcases watch_cases m s periodSeconds nowUs initialLine w hd with ⟨i, -, -, heq⟩ | ⟨-, heq⟩
    · rw [heq]
      refine SlotTable.forall_get_set (Q := fun e : Watch => e.active = true → PeriodFits m e.periodSeconds)
        (fun _ => hperiod (hd ▸ rfl)) fun j _ => h j
    · rw [heq]
      exact h

theorem PeriodsFit.unwatch (h : s.PeriodsFit m) (name : Text) : (s.unwatch name).2.PeriodsFit m := by
  unfold Store.unwatch
  cases find name with
  | none => exact h
  | some d =>
    intro i hact
    simp only [List.Vector.get_map] at hact ⊢
    split_ifs at hact ⊢
    exact h i hact

theorem PeriodsFit.redue (h : s.PeriodsFit m) (nowUs : ℕ) {s' : Store}
    (hwatches : s'.values.watches = s.values.watches.map (redue m nowUs)) : s'.PeriodsFit m := by
  intro i hact
  rw [hwatches, List.Vector.get_map] at hact ⊢
  obtain ⟨hactive, -, hperiod⟩ := redue_spec m nowUs (s.values.watches.get i)
  rw [hperiod]
  exact h i (hactive.symm.trans hact)

end Store

/-! ## Lines -/

namespace Server

variable {W : Type} (m : Machine)

/-- The period that an entry has for a field fits. -/
def EntryFits (key value : Text) : Prop :=
  (find key).isSome → ∀ period, parsePeriod m value = some period → PeriodFits m period

/-- What the loop finds at the front of the expression is no entry, or one that fits. -/
def RoundFits (expression : Text) : Prop :=
  ∀ key value rest, watchItem expression = .entry key value rest → EntryFits m key value

/-- The entries fit that the loop of a watch request gets to. -/
def LineFits (line : Text) (nowUs : ℕ) (out : ValueWriter W) (s : Store) (w : W) : Prop :=
  ∀ expression, request line = .watch expression →
    ∀ p ∈ watchRounds m expression nowUs out s w, RoundFits m p.1

variable {m} {s : Store}

theorem entryConversions_inRange_iff (hs : s.SingleWatches) (key value : Text) :
    AllInRange (entryConversions m key value s) ↔ EntryFits m key value := by
  have hkeyword : ∀ t : Text, parsePeriod m t = none → (AllInRange [] ↔ EntryFits m key t) :=
    fun t ht => iff_of_true allInRange_nil fun _ period h => nomatch ht.symm.trans h
  have hunread : ∀ t : Text, Strtof.strtof ((trim t).take 31) = none → parsePeriod m t = none := by
    intro t ht
    unfold parsePeriod parseReal
    rw [ht]
    rfl
  have htrue : parsePeriod m (lit "true") = none := hunread _ (by decide +kernel)
  have hfalse : parsePeriod m (lit "false") = none := hunread _ (by decide +kernel)
  unfold entryConversions
  split_ifs with hvalues hno hyes
  · have hfind : find key = none := by
      rw [hvalues]
      decide
    exact iff_of_true allInRange_nil fun h => absurd h (by simp [hfind])
  · rw [hno]
    exact hkeyword _ hfalse
  · rw [hyes]
    dsimp only
    rw [Store.watchConversions_inRange_iff m hs]
    refine iff_of_true (fun _ => .inl ?_) fun _ period h => nomatch htrue.symm.trans h
    decide
  · cases hperiod : parsePeriod m value with
    | none => exact hkeyword value hperiod
    | some period =>
      dsimp only
      rw [Store.watchConversions_inRange_iff m hs]
      unfold EntryFits
      rw [hperiod]
      constructor
      · intro h hfind period' hread
        rw [← Option.some.inj hread]
        exact h hfind
      · exact fun h hfind => h hfind period rfl

theorem roundConversions_inRange_iff {p : Text × Store × W} (hs : p.2.1.SingleWatches) :
    AllInRange (roundConversions m p) ↔ RoundFits m p.1 := by
  unfold roundConversions RoundFits
  cases watchItem p.1 with
  | entry key value rest =>
    dsimp only
    rw [entryConversions_inRange_iff hs]
    constructor
    · rintro h _ _ _ hitem
      obtain ⟨rfl, rfl, -⟩ := WatchItem.entry.inj hitem
      exact h
    · exact fun h => h key value rest rfl
  | _ => exact iff_of_true allInRange_nil fun _ _ _ h => nomatch h

theorem watchEntry_periodsFit (hs : s.PeriodsFit m) {key value : Text} (hfits : EntryFits m key value)
    (nowUs : ℕ) (out : ValueWriter W) (w : W) :
    (watchEntry m key value nowUs out s w).2.1.PeriodsFit m := by
  have hperiod : ∀ period, (if value = lit "true" then some 0 else parsePeriod m value) = some period →
      (find key).isSome → PeriodFits m period := by
    intro period h hfind
    split_ifs at h
    · rw [← Option.some.inj h]
      exact .inl (by decide)
    · exact hfits hfind period h
  unfold watchEntry
  generalize (if value = lit "true" then some 0 else parsePeriod m value) = read at hperiod ⊢
  split_ifs
  · exact hs
  · dsimp only
    split_ifs <;> exact hs
  · exact hs.unwatch key
  · cases read with
    | none => exact hs
    | some period =>
      have hwatch := hs.watch (hperiod period rfl) nowUs (some out) w
      dsimp only
      split_ifs <;> exact hwatch

/-- The rounds of a request start with single watches. -/
theorem watchRounds_single (hs : s.SingleWatches) (expression : Text) (nowUs : ℕ) (out : ValueWriter W)
    (w : W) : ∀ p ∈ watchRounds m expression nowUs out s w, p.2.1.SingleWatches := by
  unfold watchRounds
  dsimp only
  split_ifs
  · exact fun p hp => absurd hp List.not_mem_nil
  · refine Loop.visits_invariant (fun p : Text × Store × W => p.2.1.SingleWatches) (fun _ => True)
      ?_ hs fun _ _ => trivial
    intro p p' hp _ hb
    have h : (storeAfter (watchBody m nowUs out p)).SingleWatches :=
      storeAfter_watchBody m hp fun key value _ _ =>
        singleWatches_watchEntry m key value nowUs out hp p.2.2
    rw [hb] at h
    exact h

/-- **Lines of the server.** -/
theorem handleLineConversions_inRange_iff (hat : s.values.attached = true) (hs : s.SingleWatches)
    (line : Text) (nowUs : ℕ) (out : ValueWriter W) (w : W) :
    AllInRange (handleLineConversions m line nowUs out s w) ↔ LineFits m line nowUs out s w := by
  unfold handleLineConversions LineFits
  cases request line with
  | watch expression =>
    have hsingle := watchRounds_single (m := m) hs expression nowUs out w
    dsimp only
    constructor
    · rintro h _ hreq p hp
      obtain rfl := Request.watch.inj hreq
      exact (roundConversions_inRange_iff (hsingle p hp)).mp fun c hc =>
        h c (List.mem_flatMap.mpr ⟨p, hp, hc⟩)
    · intro h c hc
      obtain ⟨p, hp, hc⟩ := List.mem_flatMap.mp hc
      exact (roundConversions_inRange_iff (hsingle p hp)).mpr (h expression rfl p hp) c hc
  | assignment name value =>
    dsimp only
    rw [Store.setFromWireConversions_inRange_iff m hat]
    exact iff_of_true (fun h => nomatch h) fun _ h => nomatch h
  | _ => exact iff_of_true allInRange_nil fun _ h => nomatch h

theorem handleLine_periodsFit (hs : s.PeriodsFit m) {line : Text} {nowUs : ℕ} {out : ValueWriter W} {w : W}
    (hfits : LineFits m line nowUs out s w) :
    (handleLine m line nowUs out s w).2.1.PeriodsFit m := by
  cases hreq : request line with
  | watch expression =>
    have hrounds := hfits expression hreq
    unfold handleLine
    rw [hreq]
    dsimp only
    unfold watchRounds at hrounds
    unfold handleWatch
    dsimp only at hrounds ⊢
    split_ifs at hrounds ⊢
    · exact hs
    · have hround : ∀ p : Text × Store × W, p.2.1.PeriodsFit m → RoundFits m p.1 →
          (storeAfter (watchBody m nowUs out p)).PeriodsFit m := fun p hp hround =>
        storeAfter_watchBody m hp fun key value rest hitem =>
          watchEntry_periodsFit hp (hround key value rest hitem) nowUs out p.2.2
      have hall := Loop.visits_invariant (fun p : Text × Store × W => p.2.1.PeriodsFit m)
        (fun p => RoundFits m p.1)
        (fun p p' hp hC hb => by
          have h := hround p hp hC
          rw [hb] at h
          exact h) hs hrounds
      refine Loop.run_of_visits (fun p : Text × Store × W => p.2.1.PeriodsFit m ∧ RoundFits m p.1)
        (fun r : Bool × Store × W => r.2.1.PeriodsFit m) ?_ fun p hp => ⟨hall p hp, hrounds p hp⟩
      rintro p r ⟨hp, hC⟩ hb
      have h := hround p hp hC
      rw [hb] at h
      exact h
  | assignment name value =>
    rw [handleLine_assignment m hreq]
    rcases Store.setFromWire_cases m s name value true with hfail | ⟨d, -, -, hd⟩
    · rw [hfail]
      exact hs
    · exact hs.congr hd.watches
  | empty | malformed | values | udpPort =>
    unfold handleLine
    rw [hreq]
    exact hs

end Server

namespace Client

/-- A line for the port carries a number that fits. -/
def LineFits (m : Machine) (line : Text) : Prop :=
  ∀ json, parseRecord line = some (lit "server.port", json) →
    ∀ v, parseReal m json = some v → PortFits v

/-- **Lines of the client.** -/
theorem handleLineConversions_inRange_iff {m : Machine} {s : Store} (hat : s.values.attached = true)
    (line : Text) : AllInRange (handleLineConversions m line s) ↔ LineFits m line := by
  unfold handleLineConversions LineFits
  cases parseRecord line with
  | none => exact iff_of_true allInRange_nil fun _ h => nomatch h
  | some p =>
    obtain ⟨name, json⟩ := p
    dsimp only
    split_ifs with hvalues
    · refine iff_of_true allInRange_nil fun json' h => ?_
      have hport : lit "values" = lit "server.port" := hvalues ▸ congrArg Prod.fst (Option.some.inj h)
      exact absurd hport (by decide)
    · rw [Store.setFromWireConversions_inRange_iff m hat]
      constructor
      · intro h json' hrecord
        obtain ⟨hname, rfl⟩ := Prod.mk.inj (Option.some.inj hrecord)
        exact h rfl hname
      · rintro h - rfl
        exact h json rfl

theorem handleLine_keeps (m : Machine) (line : Text) (s : Store) :
    (handleLine m line s).values.attached = s.values.attached ∧
      (handleLine m line s).values.watches = s.values.watches := by
  unfold handleLine
  cases parseRecord line with
  | none => exact ⟨rfl, rfl⟩
  | some p =>
    dsimp only
    split_ifs
    · exact ⟨rfl, rfl⟩
    · rcases Store.setFromWire_cases m s p.1 p.2 false with hfail | ⟨d, -, -, hd⟩
      · rw [hfail]
        exact ⟨rfl, rfl⟩
      · exact ⟨hd.attached, hd.watches⟩

end Client

/-! ## Iterations -/

namespace Autopilot

/-- The command that an iteration will send is a number: the angle from heading to command with the
autopilot on and no tack under way, the old command in a tack, and with the autopilot off where the servo
has its flag left from an iteration with it on. -/
def CommandFits (ap : Autopilot) (st : PypilotState) : Prop :=
  if st.ap.enabled then
    if st.ap.tackState then st.servo.command ≠ .nan
    else st.ap.headingCommand - st.imu.heading ≠ .nan
  else ap.servo.apEnabled = true → st.servo.command ≠ .nan

/-- The pilot's command is not-a-number exactly when the angle it steers by comes from one that is not. -/
theorem steered_eq_nan_iff {fuel : ℕ} {command heading error : Real}
    (h : headingError fuel command heading = some error) :
    ExtRat.clamp (error / 30) (-1) 1 = .nan ↔ command - heading = .nan := by
  unfold headingError at h
  cases hangle : command - heading with
  | fin q =>
    have hdiv : ∀ e : ℚ, (ExtRat.fin e / 30 : Real) = .fin (e / (30 : ℕ)) := fun e =>
      ExtRat.fin_div_fin e (by norm_num)
    rw [hangle] at h
    rw [resolv_fin h, hdiv]
    exact iff_of_false (clamp_ne_nan fun h => nomatch h) fun h => nomatch h
  | inf s =>
    rw [hangle, resolv_inf] at h
    exact nomatch h
  | nan =>
    rw [hangle] at h
    refine iff_of_true ?_ rfl
    cases fuel with
    | zero => exact nomatch h
    | succ n =>
      have herror : error = .nan := (Option.some.inj h).symm
      rw [herror]
      rfl

theorem pollConversions_inRange_iff (servo : Servo) (st : PypilotState) :
    AllInRange (servo.pollConversions st) ↔ (servo.apEnabled = true → st.servo.command ≠ .nan) := by
  unfold Servo.pollConversions
  split_ifs with hen
  · rw [encodeConversions_inRange_iff]
    exact ⟨fun h _ => h, fun h => h hen⟩
  · exact iff_of_true allInRange_nil fun h => absurd h hen

theorem readConversions_inRange_iff (ap : Autopilot) (st : PypilotState) :
    AllInRange (ap.readConversions st) ↔
      (st.ap.enabled = false → ap.servo.apEnabled = true → st.servo.command ≠ .nan) := by
  unfold readConversions
  cases hen : st.ap.enabled with
  | true => exact iff_of_true allInRange_nil fun h => nomatch h
  | false =>
    rw [Bool.not_false, if_pos rfl, pollConversions_inRange_iff]
    exact ⟨fun h _ => h, fun h => h rfl⟩

/-- The command that the pilot leaves, in a tack the old one. -/
def steeredCommand (st : PypilotState) : Real :=
  if st.ap.tackState then st.servo.command else ExtRat.clamp (st.ap.headingError / 30) (-1) 1

theorem steerConversions_inRange_iff (servo : Servo) (st : PypilotState) :
    AllInRange (steerConversions servo st) ↔ (st.ap.enabled = true → steeredCommand st ≠ .nan) := by
  have hpilot : (if !st.ap.tackState then basicProcess st else st).ap.enabled = st.ap.enabled ∧
      (if !st.ap.tackState then basicProcess st else st).servo.command = steeredCommand st := by
    unfold steeredCommand
    cases st.ap.tackState <;> exact ⟨rfl, rfl⟩
  unfold steerConversions Servo.setAutopilotEnabled
  generalize (if !st.ap.tackState then basicProcess st else st) = st' at hpilot ⊢
  dsimp only
  rw [← hpilot.1, ← hpilot.2]
  split_ifs with hen
  · rw [pollConversions_inRange_iff]
  · exact iff_of_true allInRange_nil fun h => absurd h hen

/-- **Iterations.** -/
theorem iterationConversions_inRange_iff {m : Machine} {fuel imuUs rudderUs : ℕ} {ap : Autopilot}
    {st : PypilotState} (hreturns : (iteration m fuel imuUs rudderUs ap st).isSome) :
    AllInRange (iterationConversions m fuel imuUs ap st) ↔ ap.CommandFits st := by
  rw [iteration_eq, Option.isSome_map, Option.isSome_iff_exists] at hreturns
  obtain ⟨error, herror⟩ := hreturns
  have hsplit : AllInRange (iterationConversions m fuel imuUs ap st) ↔
      AllInRange (ap.readConversions st) ∧ AllInRange (steerConversions (readSensors m imuUs ap st).1
        { (readSensors m imuUs ap st).2 with ap.headingError := error }) := by
    unfold iterationConversions
    dsimp only
    rw [herror]
    exact List.forall_mem_append
  rw [hsplit, readConversions_inRange_iff, steerConversions_inRange_iff]
  unfold CommandFits steeredCommand
  by_cases hen : st.ap.enabled = true
  · have hread : (readSensors m imuUs ap st).2 = (readImu imuUs st).2 := by
      unfold readSensors
      rw [hen]
      rfl
    rw [hread] at herror ⊢
    have hangle := not_iff_not.mpr (steered_eq_nan_iff herror)
    rw [if_pos hen, and_iff_right fun h => nomatch hen.symm.trans h]
    by_cases htack : st.ap.tackState = true
    · rw [if_pos htack]
      simp only [htack, hen, readImu, if_true, forall_const]
    · rw [if_neg htack]
      simp only [htack, hen, readImu, forall_const]
      exact hangle
  · have hoff : st.ap.enabled = false := by simpa using hen
    have hkept := (readSensors_spec m imuUs ap st).1
    rw [if_neg hen, and_iff_left fun h => absurd (hkept.symm.trans h) hen]
    exact ⟨fun h => h hoff, fun h _ => h⟩

end Autopilot

/-! ## Runs -/

/-- A server, an autopilot and a client that share a state and a registry, and a client with a state and a
registry of its own. -/
structure Program (W : Type) where
  s : Store
  w : W
  ap : Autopilot
  peer : Store

inductive ProgramCall
  | serverLine (line : Text) (nowUs : ℕ)
  | clientLine (line : Text)
  | peerLine (line : Text)
  | poll (callbacks : PypilotState → PypilotState) (nowUs : ℕ)
  | iterate (fuel imuUs rudderUs : ℕ)

namespace Program

variable {W : Type} (m : Machine) (out : ValueWriter W)

def start (st peer : PypilotState) (w : W) : Program W :=
  { s := create m (Autopilot.create m st).2 {}, w := w, ap := (Autopilot.create m st).1,
    peer := ⟨peer, { attached := true }⟩ }

/-- An iteration that does not end is no step. -/
def step (p : Program W) : ProgramCall → Program W
  | .serverLine line nowUs =>
    { p with s := (handleLine m line nowUs out p.s p.w).2.1,
             w := (handleLine m line nowUs out p.s p.w).2.2 }
  | .clientLine line => { p with s := Client.handleLine m line p.s }
  | .peerLine line => { p with peer := Client.handleLine m line p.peer }
  | .poll callbacks nowUs =>
    { p with s := (poll m callbacks nowUs out p.s p.w).1,
             w := (poll m callbacks nowUs out p.s p.w).2 }
  | .iterate fuel imuUs rudderUs =>
    match Autopilot.iteration m fuel imuUs rudderUs p.ap p.s.state with
    | some (ap, st) => { p with ap := ap, s := { p.s with state := st } }
    | none => p

/-- The conversions that a call executes. -/
def conversions (p : Program W) : ProgramCall → List Conversion
  | .serverLine line nowUs => handleLineConversions m line nowUs out p.s p.w
  | .clientLine line => Client.handleLineConversions m line p.s
  | .peerLine line => Client.handleLineConversions m line p.peer
  | .poll _ nowUs => pollConversions m nowUs p.s
  | .iterate fuel imuUs _ => Autopilot.iterationConversions m fuel imuUs p.ap p.s.state

/-- What a line carries fits, and an iteration finds a command that does. -/
def Fits (p : Program W) : ProgramCall → Prop
  | .serverLine line nowUs => LineFits m line nowUs out p.s p.w
  | .clientLine line | .peerLine line => Client.LineFits m line
  | .poll _ _ => True
  | .iterate fuel imuUs rudderUs =>
    (Autopilot.iteration m fuel imuUs rudderUs p.ap p.s.state).isSome → p.ap.CommandFits p.s.state

structure Ready (p : Program W) : Prop where
  attached : p.s.values.attached = true
  single : p.s.SingleWatches
  periods : p.s.PeriodsFit m
  peerAttached : p.peer.values.attached = true

variable {m out}

/-- **One call.** In a program whose periods fit its conversions are in range when what comes in fits. -/
theorem conversions_iff {p : Program W} (h : p.Ready m) (call : ProgramCall) :
    AllInRange (p.conversions m out call) ↔ p.Fits m out call := by
  cases call with
  | serverLine line nowUs =>
    exact handleLineConversions_inRange_iff h.attached h.single line nowUs out p.w
  | clientLine line => exact Client.handleLineConversions_inRange_iff h.attached line
  | peerLine line => exact Client.handleLineConversions_inRange_iff h.peerAttached line
  | poll callbacks nowUs =>
    exact iff_of_true (Store.emitDueConversions_inRange m h.periods nowUs) trivial
  | iterate fuel imuUs rudderUs =>
    show _ ↔ ((Autopilot.iteration m fuel imuUs rudderUs p.ap p.s.state).isSome → _)
    by_cases hreturns : (Autopilot.iteration m fuel imuUs rudderUs p.ap p.s.state).isSome = true
    · rw [forall_prop_of_true hreturns]
      exact Autopilot.iterationConversions_inRange_iff hreturns
    · refine iff_of_true ?_ fun h => absurd h hreturns
      rw [Autopilot.iteration_eq, Option.isSome_map, Option.not_isSome_iff_eq_none] at hreturns
      show AllInRange (Autopilot.iterationConversions m fuel imuUs p.ap p.s.state)
      unfold Autopilot.iterationConversions
      dsimp only
      rw [hreturns]
      exact allInRange_nil

theorem Ready.step {p : Program W} (h : p.Ready m) {call : ProgramCall} (hfits : p.Fits m out call) :
    (p.step m out call).Ready m := by
  cases call with
  | serverLine line nowUs =>
    exact ⟨(handleLine_attached m line nowUs out p.s p.w).trans h.attached,
      singleWatches_handleLine m line nowUs out h.single p.w,
      handleLine_periodsFit h.periods hfits, h.peerAttached⟩
  | clientLine line =>
    obtain ⟨hat, hwatches⟩ := Client.handleLine_keeps m line p.s
    refine ⟨hat.trans h.attached, ?_, h.periods.congr hwatches, h.peerAttached⟩
    show Store.SingleWatches (Client.handleLine m line p.s)
    unfold Store.SingleWatches
    rw [hwatches]
    exact h.single
  | peerLine line =>
    exact ⟨h.attached, h.single, h.periods,
      (Client.handleLine_keeps m line p.peer).1.trans h.peerAttached⟩
  | poll callbacks nowUs =>
    have hvalues : (Server.poll m callbacks nowUs out p.s p.w).1.values.attached = p.s.values.attached ∧
        (Server.poll m callbacks nowUs out p.s p.w).1.values.watches =
          p.s.values.watches.map (redue m nowUs) := by
      rw [poll_eq]
      exact ⟨rfl, rfl⟩
    refine ⟨hvalues.1.trans h.attached, ?_, h.periods.redue nowUs hvalues.2, h.peerAttached⟩
    show Store.SingleWatches (Server.poll m callbacks nowUs out p.s p.w).1
    unfold Store.SingleWatches
    rw [hvalues.2]
    exact h.single.redue m nowUs
  | iterate fuel imuUs rudderUs =>
    unfold Program.step
    dsimp only
    cases Autopilot.iteration m fuel imuUs rudderUs p.ap p.s.state with
    | none => exact h
    | some r => exact ⟨h.attached, h.single, h.periods, h.peerAttached⟩

theorem ready_start (st peer : PypilotState) (w : W) : (start m st peer w).Ready m := by
  refine ⟨rfl, Store.singleWatches_of_new rfl, fun i hi => ?_, rfl⟩
  exact absurd (hi.symm.trans (Store.free_of_new rfl i)) (by decide)

/-- A call whose conversions are in range does the same whatever an undefined one gives. -/
theorem step_withCast (wild : Real → ℕ) {p : Program W} {call : ProgramCall}
    (h : AllInRange (p.conversions m out call)) :
    p.step (m.withCast wild) out call = p.step m out call := by
  cases call with
  | serverLine line nowUs =>
    unfold Program.step
    dsimp only
    rw [handleLine_withCast m wild h]
  | clientLine line =>
    unfold Program.step
    dsimp only
    rw [Client.handleLine_withCast m wild h]
  | peerLine line =>
    unfold Program.step
    dsimp only
    rw [Client.handleLine_withCast m wild h]
  | poll callbacks nowUs =>
    unfold Program.step
    dsimp only
    rw [poll_withCast m wild h]
  | iterate fuel imuUs rudderUs =>
    unfold Program.step
    dsimp only
    rw [Autopilot.iteration_withCast m wild h]

end Program

/-- **Conversions.** In every run the conversions are all in range exactly when the lines carry periods and
ports that fit and the iterations find commands that are numbers. -/
theorem conversions_inRange_iff {W : Type} (m : Machine) (out : ValueWriter W)
    (st peer : PypilotState) (w : W) (calls : List ProgramCall) :
    let steps := Run.steps (Program.step m out) (.start m st peer w) calls
    (∀ q ∈ steps, AllInRange (q.1.conversions m out q.2)) ↔ ∀ q ∈ steps, q.1.Fits m out q.2 :=
  Run.forall_steps_congr (I := Program.Ready m) (fun _ _ h hfits => h.step hfits)
    (fun _ call h => Program.conversions_iff h call) (Program.ready_start st peer w) calls

/-- What a run does whose conversions are in range is defined: it is the same on all machines that differ
in undefined conversions. -/
theorem run_withCast {W : Type} (m : Machine) (out : ValueWriter W) {p : Program W}
    {calls : List ProgramCall}
    (h : ∀ q ∈ Run.steps (Program.step m out) p calls, AllInRange (q.1.conversions m out q.2))
    (wild : Real → ℕ) :
    calls.foldl (Program.step (m.withCast wild) out) p = calls.foldl (Program.step m out) p :=
  Run.foldl_congr fun q hq => Program.step_withCast wild (h q hq)

/-- A period, a port and a heading command that are not numbers or too large: each ends in a conversion
out of range. -/
theorem conversion_out_of_range :
    let start : Program Text := .start default {} {} []
    let conversions := Program.conversions default StringValueWriter
    ¬ AllInRange (conversions start (.serverLine (lit "watch=\x7b\"ap.heading\":nan\x7d") 0)) ∧
      ¬ AllInRange (conversions start (.clientLine (lit "server.port=70000"))) ∧
      ∃ p, p ∈ Run.states (Program.step default StringValueWriter) start
          [.serverLine (lit "ap.enabled=true") 0, .serverLine (lit "ap.heading_command=nan") 0] ∧
        (Autopilot.iteration default 1 0 0 p.ap p.s.state).isSome ∧
        ¬ AllInRange (conversions p (.iterate 1 0 0)) := by
  refine ⟨by decide +kernel, by decide +kernel, _, Run.foldl_mem_states _ _ _, ?_⟩
  decide +kernel

end Pypilot
