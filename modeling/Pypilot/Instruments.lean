import Pypilot.Helm
import Pypilot.NmeaGroups
import Pypilot.RudderCalibration
import Pypilot.RudderSamples

/-!
# From the sensors to the state

The side of the state that comes from sensors: headings, wind, APB, the rudder's angle and the driver's
telemetry. An abstract panel that takes in whole frames and sentences, and knows neither the parser's
sample and masks nor the device names, resets and cached limits of the rudder, shows the same
(`instruments_show`).
-/

namespace Pypilot

open Text Server ServoProtocol Telemetry

/-! ## The panel -/

/-- What turns a raw sample of the rudder into an angle. -/
structure Gauge where
  scale : Real
  offset : Real
  range : Real
  nonlinearity : Real
  deriving DecidableEq

def RudderState.gauge (r : RudderState) : Gauge := ⟨r.scale, r.offset, r.range, r.nonlinearity⟩

/-- The angle of a sample, in hundredths; the limits are those of the calibration. -/
def Gauge.angleOf (g : Gauge) (raw : Real) : Real :=
  let r := { scale := g.scale, offset := g.offset, range := g.range,
             nonlinearity := g.nonlinearity : RudderState }.updateMinmax
  ((g.scale * raw + g.offset + g.nonlinearity * (r.minRaw - raw) * (r.maxRaw - raw)) * 100).round / 100

structure Instruments where
  imu : Imu
  wind : Wind
  apb : Apb
  angle : SourceStamped
  gauge : Gauge
  enabled : Bool
  telemetry : Telemetry
  /-- The bytes of a frame that is not complete yet. -/
  rest : Text
  deriving DecidableEq

/-- What the instruments are told. -/
inductive Reading
  | heading (value : Real) (nowUs : ℕ)
  | wind (angle speed : Real) (nowUs : ℕ) (source : SensorSource)
  | rudder (angle : Real) (nowUs : ℕ) (source : SensorSource)
  | apb (senderId : Text)
  | driver (bytes : Text)
  | offset (value : Real)
  | range (value : Real)
  | enable (on : Bool)
  | turn (imuUs rudderUs : ℕ)
  deriving DecidableEq

def Reading.bytes : Reading → Text
  | driver bytes => bytes
  | _ => []

namespace Instruments

/-- The angle after a turn: that of the last sample, if there has been one. -/
def turned (i : Instruments) (rudderUs : ℕ) : SourceStamped :=
  if i.telemetry.rawValid then
    Nmea.stamp (i.gauge.angleOf i.telemetry.raw) rudderUs .servo
  else i.angle

def step (i : Instruments) : Reading → Instruments
  | .heading value nowUs => { i with imu := ⟨value, true, nowUs⟩ }
  | .wind angle speed nowUs source =>
    { i with wind := ⟨Nmea.stamp angle nowUs source, Nmea.stamp speed nowUs source⟩ }
  | .rudder angle nowUs source => { i with angle := Nmea.stamp angle nowUs source }
  | .apb senderId => { i with apb := ⟨senderId, true⟩ }
  | .driver bytes =>
    { i with telemetry := (packets (i.rest ++ bytes)).foldl absorbPacket i.telemetry
             rest := leftover (i.rest ++ bytes) }
  | .offset value => { i with gauge.offset := value }
  | .range value => { i with gauge.range := value }
  | .enable on => { i with enabled := on }
  | .turn imuUs rudderUs =>
    { i with imu := { i.imu with valid := true, timestampUs := imuUs }
             angle := i.turned rudderUs
             telemetry := { i.telemetry with engaged := i.enabled } }

/-- The panel that a state and a servo make. -/
def ofState (st : PypilotState) (servo : Servo) : Instruments where
  imu := st.imu
  wind := st.wind
  apb := st.apb
  angle := st.rudder.angle
  gauge := st.rudder.gauge
  enabled := st.ap.enabled
  telemetry := st.telemetry
  rest := servo.parser

end Instruments

/-! ## Runs of the panel -/

namespace Instruments

def bytesOf (events : List Reading) : Text := events.flatMap Reading.bytes

theorem absorb_engaged (t : Telemetry) (on : Bool) (ps : List Packet) :
    ∃ engaged, ps.foldl absorbPacket { t with engaged := on } =
      { ps.foldl absorbPacket t with engaged := engaged } := by
  rw [foldl_absorbPacket, foldl_absorbPacket]
  exact ⟨_, rfl⟩

/-- **Telemetry.** But for the motor being engaged, the telemetry of a run is that of all its bytes. -/
theorem telemetry_run {i : Instruments} (hrest : i.rest.length < 4) (events : List Reading) :
    (events.foldl step i).rest = leftover (i.rest ++ bytesOf events) ∧
      ∃ engaged, (events.foldl step i).telemetry =
        { i.telemetry.absorb (packets (i.rest ++ bytesOf events)) with engaged := engaged } := by
  induction events using List.reverseRecOn with
  | nil =>
    unfold bytesOf
    rw [List.flatMap_nil, List.append_nil, leftover_eq_self hrest, packets_eq_nil hrest,
      ← foldl_absorbPacket]
    exact ⟨rfl, i.telemetry.engaged, rfl⟩
  | append_singleton events e ih =>
    obtain ⟨hleft, engaged, htelemetry⟩ := ih
    have hbytes : i.rest ++ bytesOf (events ++ [e]) = i.rest ++ bytesOf events ++ e.bytes := by
      unfold bytesOf
      rw [List.flatMap_append, List.flatMap_singleton, List.append_assoc]
    rw [List.foldl_concat, hbytes]
    generalize events.foldl step i = j at hleft htelemetry ⊢
    generalize i.rest ++ bytesOf events = received at hleft htelemetry ⊢
    cases e with
    | driver bytes =>
      show leftover (j.rest ++ bytes) = leftover (received ++ bytes) ∧ ∃ engaged,
        (packets (j.rest ++ bytes)).foldl absorbPacket j.telemetry =
          { i.telemetry.absorb (packets (received ++ bytes)) with engaged := engaged }
      rw [hleft, htelemetry, packets_append received bytes, leftover_append received bytes,
        ← foldl_absorbPacket, ← foldl_absorbPacket, List.foldl_append]
      exact ⟨rfl, absorb_engaged _ engaged _⟩
    | turn imuUs rudderUs =>
      rw [show (Reading.turn imuUs rudderUs).bytes = [] from rfl, List.append_nil]
      refine ⟨hleft, j.enabled, ?_⟩
      show { j.telemetry with engaged := j.enabled } = _
      rw [htelemetry]
    | heading | wind | rudder | apb | offset | range | enable =>
      exact ⟨hleft.trans (congrArg leftover (List.append_nil received).symm), engaged,
        htelemetry.trans (by rw [show Reading.bytes _ = [] from rfl, List.append_nil])⟩

end Instruments

/-! ## The rudder -/

namespace RudderState

/-- A sample is a number, and has a device. -/
def Sampled (r : RudderState) : Prop := r.rawValid = true → r.lastDevice ≠ [] ∧ r.raw ≠ .nan

theorem updateMinmax_congr {r r' : RudderState} (h : r'.gauge = r.gauge) :
    r'.updateMinmax = { r' with minRaw := r.updateMinmax.minRaw, maxRaw := r.updateMinmax.maxRaw } := by
  have hscale : r'.scale = r.scale := congrArg Gauge.scale h
  have hoffset : r'.offset = r.offset := congrArg Gauge.offset h
  have hrange : r'.range = r.range := congrArg Gauge.range h
  unfold updateMinmax
  rw [hscale, hoffset, hrange]
  dsimp only
  split_ifs <;> rfl

theorem update_shows {r : RudderState} {raw : Real} (hraw : raw ≠ .nan) (nowUs : ℕ) :
    (r.update raw r.lastDevice nowUs).2.gauge = r.gauge ∧
      (r.update raw r.lastDevice nowUs).2.lastDevice = r.lastDevice ∧
      (r.update raw r.lastDevice nowUs).2.raw = raw ∧
      (r.update raw r.lastDevice nowUs).2.rawValid = true ∧
      (r.update raw r.lastDevice nowUs).2.angle = Nmea.stamp (r.gauge.angleOf raw) nowUs .servo := by
  have hlimits := @updateMinmax_congr
    { scale := r.scale, offset := r.offset, range := r.range, nonlinearity := r.nonlinearity }
    { r with raw := raw, rawValid := true, rawTimestampUs := nowUs } rfl
  unfold update
  rw [if_neg (not_not.mpr rfl), if_neg hraw]
  dsimp only
  rw [hlimits]
  exact ⟨rfl, rfl, rfl, rfl, rfl⟩

/-- **Polls.** A poll of the rudder shows the angle of the sample, if there is one, and keeps the sample and
the gauge. -/
theorem poll_shows {r : RudderState} (h : r.Sampled) (nowUs : ℕ) :
    (r.poll nowUs).Sampled ∧ (r.poll nowUs).gauge = r.gauge ∧
      (r.poll nowUs).raw = r.raw ∧ (r.poll nowUs).rawValid = r.rawValid ∧
      (r.poll nowUs).angle =
        if r.rawValid then Nmea.stamp (r.gauge.angleOf r.raw) nowUs .servo else r.angle := by
  obtain ⟨lo, hi, hframe⟩ := updateMinmax_frame r
  unfold poll
  dsimp only
  rw [hframe]
  dsimp only
  by_cases hvalid : r.rawValid = true
  · obtain ⟨hdevice, hraw⟩ := h hvalid
    rw [if_pos hvalid, if_pos hvalid, if_neg hdevice]
    obtain ⟨hgauge, hlast, hkept, hstays, hangle⟩ :=
      @update_shows { r with minRaw := lo, maxRaw := hi } r.raw hraw nowUs
    exact ⟨fun _ => ⟨hlast.trans_ne hdevice, hkept.trans_ne hraw⟩, hgauge, hkept, hstays.trans hvalid.symm,
      hangle⟩
  · rw [if_neg hvalid, if_neg hvalid]
    exact ⟨fun hraw => absurd hraw hvalid, rfl, rfl, rfl, rfl⟩

end RudderState

/-! ## Turns -/

section Turns

variable (m : Machine)

/-- A poll of the servo releases the motor or leaves the panel as it is. -/
theorem poll_instruments (servo : Servo) (st : PypilotState) :
    ∃ engaged, Instruments.ofState (servo.poll m st).2 (servo.poll m st).1 =
        { Instruments.ofState st servo with telemetry := { st.telemetry with engaged := engaged } } ∧
      (servo.poll m st).2.rudder = st.rudder ∧ (servo.apEnabled = true → engaged = st.servo.engaged) := by
  unfold Servo.poll
  split_ifs with hon
  · exact ⟨st.servo.engaged, rfl, rfl, fun _ => rfl⟩
  · exact ⟨false, rfl, rfl, fun h => absurd h hon⟩

/-- Up to the angle the panel has only the reading of the IMU; the motor may be released. -/
theorem readSensors_instruments (imuUs : ℕ) (ap : Autopilot) (st : PypilotState) :
    let p := Autopilot.readSensors m imuUs ap st
    ∃ engaged, Instruments.ofState p.2 p.1 =
        { Instruments.ofState st ap.servo with
          imu := { st.imu with valid := true, timestampUs := imuUs }
          telemetry := { st.telemetry with engaged := engaged } } ∧ p.2.rudder = st.rudder := by
  intro p
  have hp : p = Autopilot.readSensors m imuUs ap st := rfl
  unfold Autopilot.readSensors at hp
  by_cases hen : st.ap.enabled = true
  · rw [hen, Bool.not_true, if_neg Bool.false_ne_true] at hp
    rw [hp]
    exact ⟨st.servo.engaged, rfl, rfl⟩
  · rw [Bool.not_eq_true] at hen
    rw [hen, Bool.not_false, if_pos rfl] at hp
    obtain ⟨engaged, hpoll, hrudder, -⟩ := poll_instruments m ap.servo st
    rw [hp]
    refine ⟨engaged, ?_, hrudder⟩
    show { Instruments.ofState (ap.servo.poll m st).2 (ap.servo.poll m st).1 with
      imu := { (Instruments.ofState (ap.servo.poll m st).2 (ap.servo.poll m st).1).imu with
        valid := true, timestampUs := imuUs } } = _
    rw [hpoll]
    rfl

theorem poll_on_instruments {servo : Servo} {st : PypilotState} (h : servo.apEnabled = st.ap.enabled) :
    let q := if st.ap.enabled then servo.poll m st else (servo, st)
    Instruments.ofState q.2 q.1 = Instruments.ofState st servo ∧ q.2.rudder = st.rudder := by
  intro q
  have hq : q = if st.ap.enabled then servo.poll m st else (servo, st) := rfl
  split_ifs at hq with hon
  · obtain ⟨engaged, hpoll, hrudder, hstays⟩ := poll_instruments m servo st
    rw [hstays (h.trans hon)] at hpoll
    rw [hq]
    exact ⟨hpoll, hrudder⟩
  · rw [hq]
    exact ⟨rfl, rfl⟩

theorem rudder_instruments (rudderUs : ℕ) (servo : Servo) {st : PypilotState} (h : st.rudder.Sampled) :
    Instruments.ofState { st with rudder := st.rudder.poll rudderUs } servo =
        { Instruments.ofState st servo with angle := (Instruments.ofState st servo).turned rudderUs } ∧
      (st.rudder.poll rudderUs).Sampled := by
  obtain ⟨hsampled, hgauge, hraw, hvalid, hangle⟩ := RudderState.poll_shows h rudderUs
  refine ⟨?_, hsampled⟩
  unfold Instruments.ofState PypilotState.telemetry
  dsimp only
  rw [hgauge, hraw, hvalid, hangle]
  rfl

/-- From the angle on the motor is engaged or not, and the rudder is polled. -/
theorem steer_instruments (rudderUs : ℕ) (servo : Servo) {st : PypilotState} (h : st.rudder.Sampled) :
    let p := Autopilot.steer m rudderUs servo st
    Instruments.ofState p.2 p.1.servo =
        { Instruments.ofState st servo with
          angle := (Instruments.ofState st servo).turned rudderUs
          telemetry := { st.telemetry with engaged := st.ap.enabled } } ∧ p.2.rudder.Sampled := by
  intro p
  have hp : p = Autopilot.steer m rudderUs servo st := rfl
  have hpilot : Instruments.ofState (if !st.ap.tackState then basicProcess st else st) servo =
      Instruments.ofState st servo ∧
      (if !st.ap.tackState then basicProcess st else st).rudder = st.rudder := by
    split_ifs <;> exact ⟨rfl, rfl⟩
  unfold Autopilot.steer at hp
  dsimp only at hp
  generalize (if !st.ap.tackState then basicProcess st else st) = st' at hpilot hp
  obtain ⟨hpanel, hrudder⟩ := hpilot
  have hen : st'.ap.enabled = st.ap.enabled := congrArg Instruments.enabled hpanel
  -- the motor is engaged or not
  have hengaged : Instruments.ofState (servo.setAutopilotEnabled st' st'.ap.enabled).2
      (servo.setAutopilotEnabled st' st'.ap.enabled).1 = { Instruments.ofState st servo with
        telemetry := { (Instruments.ofState st servo).telemetry with engaged := st.ap.enabled } } := by
    rw [← hpanel, ← hen]
    rfl
  have hsame : (servo.setAutopilotEnabled st' st'.ap.enabled).2.rudder = st.rudder := hrudder
  have hflag : (servo.setAutopilotEnabled st' st'.ap.enabled).1.apEnabled =
      (servo.setAutopilotEnabled st' st'.ap.enabled).2.ap.enabled := rfl
  generalize servo.setAutopilotEnabled st' st'.ap.enabled = q at hp hengaged hsame hflag
  obtain ⟨hpolled, hkept⟩ := poll_on_instruments m hflag
  generalize (if q.2.ap.enabled then q.1.poll m q.2 else (q.1, q.2)) = r at hp hpolled hkept
  obtain ⟨hshows, hsampled⟩ := @rudder_instruments rudderUs r.1 r.2
    (by rw [hkept, hsame]; exact h)
  rw [hp]
  refine ⟨hshows.trans ?_, hsampled⟩
  rw [hpolled, hengaged]
  rfl

/-- **Turns.** An iteration that ends is a turn of the panel. -/
theorem iteration_instruments {fuel imuUs rudderUs : ℕ} {ap ap' : Autopilot} {st st' : PypilotState}
    (hsampled : st.rudder.Sampled)
    (h : Autopilot.iteration m fuel imuUs rudderUs ap st = some (ap', st')) :
    Instruments.ofState st' ap'.servo =
        (Instruments.ofState st ap.servo).step (.turn imuUs rudderUs) ∧ st'.rudder.Sampled := by
  obtain ⟨engaged, hread, hrudder⟩ := readSensors_instruments m imuUs ap st
  rw [Autopilot.iteration_eq, Option.map_eq_some_iff] at h
  obtain ⟨error, -, hsteer⟩ := h
  generalize Autopilot.readSensors m imuUs ap st = p at hread hrudder hsteer
  obtain ⟨servo, st₁⟩ := p
  dsimp only at hread hrudder hsteer
  have hset : Instruments.ofState { st₁ with ap.headingError := error } servo =
      Instruments.ofState st₁ servo := rfl
  obtain ⟨hsteered, hafter⟩ := @steer_instruments m rudderUs servo
    { st₁ with ap.headingError := error } (hrudder ▸ hsampled)
  rw [hsteer] at hsteered hafter
  refine ⟨hsteered.trans ?_, hafter⟩
  have hen : st₁.ap.enabled = st.ap.enabled := congrArg Instruments.enabled hread
  have htelemetry : st₁.telemetry = { st.telemetry with engaged := engaged } :=
    congrArg Instruments.telemetry hread
  rw [hset, hread]
  show Instruments.mk _ _ _ _ _ _ { st₁.telemetry with engaged := st₁.ap.enabled } _ = _
  rw [htelemetry, hen]
  rfl

end Turns

/-! ## What the panel is told -/

def readAssignment (m : Machine) (name value : Text) : Option Reading :=
  match find name with
  | none => none
  | some d =>
    match d.id with
    | .apEnabled => (parseBool value).map .enable
    | .rudderOffset => (parseReal m value).map .offset
    | .rudderRange => (parseReal m value).map .range
    | _ => none

def readSentence (m : Machine) (sentence : Nmea.Sentence) (nowUs : ℕ) (source : SensorSource) :
    Option Reading :=
  let number (i : ℕ) := (sentence.fields[i]?).bind (Nmea.parseReal m)
  if sentence.type = lit "HDT" ∨ sentence.type = lit "HDM" then (number 0).map (.heading · nowUs)
  else if sentence.type = lit "MWV" then
    if 4 ≤ sentence.fields.length then
      (number 0).bind fun angle => (number 2).map fun speed => .wind angle speed nowUs source
    else none
  else if sentence.type = lit "RSA" then (number 0).map fun angle => .rudder (-angle) nowUs source
  else if sentence.type = lit "APB" then some (.apb sentence.talker)
  else none

/-- An operation of the program, for the panel. -/
def SystemOp.reading (m : Machine) : SystemOp → Option Reading
  | .handleLine text _ =>
    match request text with
    | .assignment name value => readAssignment m name value
    | _ => none
  | .poll _ => none
  | .iterate _ imuUs rudderUs => some (.turn imuUs rudderUs)
  | .feedDriverBytes bytes _ => some (.driver bytes)
  | .feedLine text source nowUs =>
    (Nmea.parseLine text).bind fun sentence => readSentence m sentence nowUs source

section Inputs

variable (m : Machine)

/-- An assignment from outside does to the panel what it says, or nothing, and keeps the sample. -/
theorem setFromWire_instruments {s : Store} (hat : s.values.attached = true)
    (hsampled : s.state.rudder.Sampled) (name value : Text) (servo : Servo) :
    Instruments.ofState (s.setFromWire m name value true).2.state servo =
        (readAssignment m name value).elim (Instruments.ofState s.state servo)
          (Instruments.ofState s.state servo).step ∧
      (s.setFromWire m name value true).2.state.rudder.Sampled := by
  unfold Store.setFromWire readAssignment
  cases hfind : find name with
  | none => exact ⟨rfl, hsampled⟩
  | some d =>
    obtain ⟨hentry, -⟩ := find_eq_some hfind
    dsimp only
    generalize d.id = id at hentry ⊢
    subst hentry
    unfold Store.setReal Store.setBool Store.setString
    rw [hat]
    cases id
    all_goals first
      | exact ⟨rfl, hsampled⟩
      | (cases parseReal m value <;> exact ⟨rfl, hsampled⟩)
      | (cases parseBool value <;> exact ⟨rfl, hsampled⟩)

theorem handleLine_instruments {W : Type} {s : Store} (hat : s.values.attached = true)
    (hsampled : s.state.rudder.Sampled) (text : Text) (nowUs : ℕ) (out : ValueWriter W) (w : W)
    (servo : Servo) :
    Instruments.ofState (handleLine m text nowUs out s w).2.1.state servo =
        ((SystemOp.handleLine text nowUs).reading m).elim (Instruments.ofState s.state servo)
          (Instruments.ofState s.state servo).step ∧
      (handleLine m text nowUs out s w).2.1.state.rudder.Sampled := by
  unfold SystemOp.reading
  dsimp only
  rcases handleLine_cases m text nowUs out s w with ⟨name, value, hreq, hset⟩ | ⟨hother, hsame⟩
  · rw [hset, hreq]
    exact setFromWire_instruments m hat hsampled name value servo
  · rw [hsame.state]
    refine ⟨?_, hsampled⟩
    cases hreq : request text with
    | assignment name value => exact absurd hreq (hother name value)
    | empty | malformed | watch | values | udpPort => rfl

theorem feedLine_instruments (text : Text) (source : SensorSource) (nowUs : ℕ) {st : PypilotState}
    (hsampled : st.rudder.Sampled) (servo : Servo) :
    Instruments.ofState (Nmea.feedLine m text source nowUs st).2 servo =
        ((SystemOp.feedLine text source nowUs).reading m).elim (Instruments.ofState st servo)
          (Instruments.ofState st servo).step ∧
      (Nmea.feedLine m text source nowUs st).2.rudder.Sampled := by
  unfold Nmea.feedLine SystemOp.reading
  dsimp only
  cases Nmea.parseLine text with
  | none => exact ⟨rfl, hsampled⟩
  | some sentence =>
    rw [Option.bind_some]
    unfold Nmea.applySentence readSentence
    dsimp only
    rw [List.head?_eq_getElem?]
    generalize (sentence.fields[0]?).bind (Nmea.parseReal m) = first
    generalize (sentence.fields[2]?).bind (Nmea.parseReal m) = third
    split_ifs
    · cases first <;> exact ⟨rfl, hsampled⟩
    · cases first <;> cases third <;> exact ⟨rfl, hsampled⟩
    · exact ⟨rfl, hsampled⟩
    · cases first <;> exact ⟨rfl, hsampled⟩
    · exact ⟨rfl, hsampled⟩
    · exact ⟨rfl, hsampled⟩

/-- The bytes of the driver give the panel their frames, and a sample of the rudder is a number. -/
theorem feedDriverBytes_instruments (servo : Servo) {st : PypilotState} (hsampled : st.rudder.Sampled)
    (bytes : Text) (nowUs : ℕ) :
    Instruments.ofState (servo.feedDriverBytes st bytes nowUs).2.2
        (servo.feedDriverBytes st bytes nowUs).2.1 =
        (Instruments.ofState st servo).step (.driver bytes) ∧
      (servo.feedDriverBytes st bytes nowUs).2.2.rudder.Sampled := by
  obtain ⟨hparser, htelemetry⟩ := servo.feedDriverBytes_telemetry st bytes nowUs
  have hrudder := servo.feedDriverBytes_rudder st bytes nowUs
  have hrest : (servo.feedDriverBytes st bytes nowUs).2.2.imu = st.imu ∧
      (servo.feedDriverBytes st bytes nowUs).2.2.wind = st.wind ∧
      (servo.feedDriverBytes st bytes nowUs).2.2.apb = st.apb ∧
      (servo.feedDriverBytes st bytes nowUs).2.2.ap = st.ap := by
    unfold Servo.feedDriverBytes Servo.applyDriverSample
    dsimp only
    split_ifs <;> exact ⟨rfl, rfl, rfl, rfl⟩
  generalize (servo.feedDriverBytes st bytes nowUs).2 = q at hparser htelemetry hrudder hrest ⊢
  obtain ⟨servo', st'⟩ := q
  obtain ⟨himu, hwind, hapb, hap⟩ := hrest
  dsimp only at hparser htelemetry hrudder himu hwind hapb hap ⊢
  have hkept : st'.rudder.angle = st.rudder.angle ∧ st'.rudder.gauge = st.rudder.gauge := by
    rw [hrudder]
    cases servo.rudderPacket bytes <;> exact ⟨rfl, rfl⟩
  constructor
  · unfold Instruments.ofState Instruments.step
    dsimp only
    rw [himu, hwind, hapb, hap, hkept.1, hkept.2, htelemetry, hparser]
  · rw [hrudder]
    cases servo.rudderPacket bytes with
    | none => exact hsampled
    | some v =>
      have hdevice : lit "servo" ≠ [] := by decide
      refine fun _ => ⟨hdevice, ?_⟩
      show (.fin v / 65472 - .fin (1 / 2) : Real) ≠ .nan
      rw [show (65472 : Real) = .fin 65472 from rfl, ExtRat.fin_div_fin _ (by norm_num),
        ExtRat.fin_sub_fin]
      exact ExtRat.noConfusion

end Inputs

def DriveOp.reading {W : Type} (m : Machine) : DriveOp W → Option Reading
  | call op _ => op.reading m
  | takeDriverTx => none

/-! ## Runs -/

namespace DrivenProgram

variable {W : Type} {m : Machine} {d : DrivenProgram W}

def instruments (d : DrivenProgram W) : Instruments :=
  Instruments.ofState d.program.store.state d.program.ap.servo

/-- The registry is attached, and a sample of the rudder is one. -/
structure Sampling (d : DrivenProgram W) : Prop where
  attached : d.Attached
  sampled : d.program.store.state.rudder.Sampled

theorem step_instruments (h : d.Sampling) {op : DriveOp W} (hends : d.Ends m op) :
    (d.step m op).Sampling ∧
      (d.step m op).instruments =
        (op.reading m).elim d.instruments d.instruments.step := by
  cases op with
  | takeDriverTx => exact ⟨⟨h.attached, h.sampled⟩, rfl⟩
  | call op out =>
    cases op with
    | handleLine text nowUs =>
      obtain ⟨hpanel, hsampled⟩ := handleLine_instruments m h.attached h.sampled text nowUs out
        d.program.world d.program.ap.servo
      exact ⟨⟨(handleLine_attached m text nowUs out _ _).trans h.attached, hsampled⟩, hpanel⟩
    | poll nowUs =>
      obtain ⟨hstate, hattached⟩ := poll_frame m nowUs out d.program.store d.program.world
      refine ⟨⟨hattached.trans h.attached, ?_⟩, congrArg (Instruments.ofState · _) hstate⟩
      exact hstate.symm ▸ h.sampled
    | iterate fuel imuUs rudderUs =>
      obtain ⟨ap, st, hp, hstep⟩ := step_iterate hends
      obtain ⟨hturn, hsampled⟩ := iteration_instruments m h.sampled hp
      rw [hstep]
      exact ⟨⟨h.attached, hsampled⟩, hturn⟩
    | feedDriverBytes bytes nowUs =>
      obtain ⟨hpanel, hsampled⟩ := feedDriverBytes_instruments d.program.ap.servo h.sampled bytes nowUs
      exact ⟨⟨h.attached, hsampled⟩, hpanel⟩
    | feedLine text source nowUs =>
      obtain ⟨hpanel, hsampled⟩ := feedLine_instruments m text source nowUs h.sampled
        d.program.ap.servo
      exact ⟨⟨h.attached, hsampled⟩, hpanel⟩

end DrivenProgram

open DrivenProgram

/-- **From the sensors to the state.** In any run of a program whose iterations end, with any writers, the
panel shows what the run tells it. Its telemetry is that of the last packet of each code in all that the
driver has sent, however it was cut; and the rudder's angle at the next iteration is that of the last sample,
under the calibration of the moment, or the one it is told of as long as there has been no sample. -/
theorem instruments_show {W : Type} (m : Machine) (st : PypilotState) (w : W) (ops : List (DriveOp W))
    (hraw : st.rudder.rawValid = false)
    (hends : ∀ p ∈ Run.steps (DrivenProgram.step m) (start m st w) ops, p.1.Ends m p.2) :
    let d := ops.foldl (DrivenProgram.step m) (start m st w)
    let readings := ops.filterMap (DriveOp.reading m)
    let i := readings.foldl Instruments.step (start m st w).instruments
    let ps := packets (Instruments.bytesOf readings)
    d.instruments = i ∧
      (∃ engaged, i.telemetry =
        { (start m st w).instruments.telemetry.absorb ps with engaged := engaged }) ∧
      ∀ fuel imuUs rudderUs ap' st',
        Autopilot.iteration m fuel imuUs rudderUs d.program.ap d.program.store.state = some (ap', st') →
          st'.rudder.angle = (lastValue 0xa7 ps).elim i.angle fun v =>
            Nmea.stamp (i.gauge.angleOf (.fin v / 65472 - .fin (1 / 2))) rudderUs .servo := by
  intro d readings i ps
  have hnone : (start m st w).instruments.telemetry.rawValid = false := by
    obtain ⟨lo, hi, hframe⟩ := RudderState.updateMinmax_frame st.rudder
    show st.rudder.updateMinmax.rawValid = false
    rw [hframe]
    exact hraw
  have hstart : (start m st w).Sampling :=
    ⟨rfl, fun hvalid => absurd (hnone.symm.trans hvalid) Bool.false_ne_true⟩
  have hpanel : d.instruments = i :=
    @Run.foldl_abstracts _ _ (DrivenProgram.step m) Sampling (fun d op => d.Ends m op) _ _
      DrivenProgram.instruments (DriveOp.reading m) Instruments.step
      (fun _ _ h hends => step_instruments h hends) (start m st w) hstart ops hends
  have hsampling : d.Sampling := Run.foldl_invariant (I := Sampling) (C := fun d op => d.Ends m op)
    (fun d op h hends => (step_instruments h hends).1) hstart hends
  have hrest : (start m st w).instruments.rest.length < 4 := by
    show (0 : ℕ) < 4
    decide
  obtain ⟨-, engaged, htelemetry⟩ := Instruments.telemetry_run hrest readings
  refine ⟨hpanel, ⟨engaged, htelemetry⟩, fun fuel imuUs rudderUs ap' st' hturn => ?_⟩
  obtain ⟨hturned, -⟩ := iteration_instruments m hsampling.sampled hturn
  have hangle : st'.rudder.angle = i.turned rudderUs :=
    (congrArg Instruments.angle hturned).trans (congrArg (Instruments.turned · rudderUs) hpanel)
  have hvalid : i.telemetry.rawValid = (lastValue 0xa7 ps).isSome := by
    rw [show i.telemetry = _ from htelemetry]
    exact congrArg (· || (lastValue 0xa7 ps).isSome) hnone
  have hvalue : i.telemetry.raw = (lastValue 0xa7 ps).elim (start m st w).instruments.telemetry.raw
      fun v => .fin v / 65472 - .fin (1 / 2) := by
    rw [show i.telemetry = _ from htelemetry]
    rfl
  rw [hangle]
  unfold Instruments.turned
  rw [hvalid, hvalue]
  cases lastValue 0xa7 ps <;> rfl

/-- A sample of the rudder comes in two parts; the iteration between them still has the angle of a sentence,
and the one behind them that of the sample, with the offset of a line. -/
theorem instruments_show_rudder :
    let broken : ValueWriter Unit := ⟨fun _ w => (false, w)⟩
    let frame := encode 0xa7 40000
    let ops : List (DriveOp Unit) :=
      [.call (.feedLine (lit "$IIRSA,5,A") .serial 1) broken,
        .call (.feedDriverBytes (frame.take 3) 2) broken, .call (.iterate 3 3 3) broken,
        .call (.feedDriverBytes (frame.drop 3) 4) broken,
        .call (.handleLine (lit "rudder.offset=1") 5) broken]
    let d := ops.foldl (DrivenProgram.step default) (start default {} ())
    d.program.store.state.rudder.angle = Nmea.stamp (.fin (-5)) 1 .serial ∧
      ∀ ap' st', Autopilot.iteration default 3 6 6 d.program.ap d.program.store.state = some (ap', st') →
        st'.rudder.angle = Nmea.stamp (.fin (1209 / 100)) 6 .servo := by
  intro broken frame ops d
  obtain ⟨hpanel, -, hturn⟩ := instruments_show default {} () ops rfl (by decide +kernel)
  have hangle : d.instruments.angle = Nmea.stamp (.fin (-5)) 1 .serial := by
    rw [hpanel]
    decide +kernel
  refine ⟨hangle, fun ap' st' h => ?_⟩
  rw [hturn 3 6 6 ap' st' h]
  decide +kernel

end Pypilot
