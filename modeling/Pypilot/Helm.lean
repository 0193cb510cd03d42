import Pypilot.Disengage
import Pypilot.SettingWrites
import Pypilot.Steering

/-!
# From the wire to the motor

Of all that a program is told, the driver depends on five things: whether the autopilot was switched on or off,
the headings that were asked for and sensed, commands given to the servo by hand, and the turns of the
control loop. An abstract helm that knows nothing else puts out the packets that the driver is sent
(`helm_drives`).
-/

namespace Pypilot

open Text Server ServoProtocol

/-! ## The helm -/

/-- `wrap`, where it makes sense. -/
def wrapReal : Real → Real
  | .fin q => .fin (wrap q)
  | x => x

/-- What the commands for the motor are made from; `steered` tells whether the last turn found the autopilot
on, and `tacking` stays as it is. -/
structure Helm where
  enabled : Bool
  headingCommand : Real
  heading : Real
  command : Real
  steered : Bool
  tacking : Bool
  deriving DecidableEq

/-- What the helm is told. -/
inductive HelmEvent
  | enable (on : Bool)
  | steerTo (headingCommand : Real)
  | sense (heading : Real)
  | rudder (command : Real)
  | turn
  deriving DecidableEq

namespace Helm

/-- The way from the heading to the one asked for, the shorter way round. -/
def error (h : Helm) : Real := wrapReal (h.headingCommand - h.heading)

/-- The command that a turn gives. -/
def next (h : Helm) : Real := if h.tacking then h.command else ExtRat.clamp (h.error / 30) (-1) 1

def step (h : Helm) : HelmEvent → Helm
  | .enable on => { h with enabled := on }
  | .steerTo headingCommand => { h with headingCommand := headingCommand }
  | .sense heading => { h with heading := heading }
  | .rudder command => { h with command := command }
  | .turn => { h with command := h.next, steered := h.enabled }

/-- The packet of a turn. The first turn that finds the autopilot off still sends the command there is. -/
def packet (m : Machine) (h : Helm) : Packet :=
  if h.enabled then ⟨commandCode, commandValue m (ExtRat.clamp h.next (-1) 1)⟩
  else if h.steered then ⟨commandCode, commandValue m (ExtRat.clamp h.command (-1) 1)⟩
  else ⟨disengageCode, 0⟩

/-- What an event puts out. -/
def output (m : Machine) (h : Helm) : HelmEvent → List Packet
  | .turn => [h.packet m]
  | _ => []

/-- The packets of a run. -/
def packets (m : Machine) (h : Helm) (events : List HelmEvent) : List Packet :=
  (Run.steps step h events).flatMap fun p => p.1.output m p.2

theorem packet_value_lt (m : Machine) (h : Helm) : (h.packet m).value < 2 ^ 16 := by
  unfold packet
  split_ifs
  · exact ExtRat.toUnsigned_lt m.wildCast 16 _
  · exact ExtRat.toUnsigned_lt m.wildCast 16 _
  · decide

theorem packets_value_lt (m : Machine) (h : Helm) (events : List HelmEvent) :
    ∀ p ∈ h.packets m events, p.value < 2 ^ 16 := by
  intro p hp
  obtain ⟨⟨h', e⟩, -, hp⟩ := List.mem_flatMap.mp hp
  cases e with
  | turn =>
    rw [List.mem_singleton.mp hp]
    exact packet_value_lt m h'
  | enable | steerTo | sense | rudder => exact absurd hp List.not_mem_nil

/-- On rational angles a turn with the autopilot on goes by the steering law. -/
theorem packet_steering (m : Machine) {h : Helm} {c q : ℚ} (hon : h.enabled = true)
    (htack : h.tacking = false) (hcommand : h.headingCommand = .fin c) (hheading : h.heading = .fin q) :
    h.packet m = ⟨commandCode, steeringValue (wrap (c - q))⟩ := by
  have herror : h.error = .fin (wrap (c - q)) := by
    unfold error
    rw [hcommand, hheading, ExtRat.fin_sub_fin]
    rfl
  have hnext : h.next = .fin (steeringCommand (wrap (c - q))) := by
    unfold next
    rw [if_neg (by rw [htack]; exact Bool.false_ne_true), herror, clamp_steering]
  obtain ⟨hlow, hhigh⟩ := steeringCommand_mem (wrap (c - q))
  unfold packet
  rw [if_pos hon, hnext, clamp_steeringCommand, commandValue_fin, min_eq_right hhigh,
    max_eq_right hlow, mul_comm]
  rfl

/-- The helm that a state and a servo make. -/
def ofState (st : PypilotState) (servo : Servo) : Helm where
  enabled := st.ap.enabled
  headingCommand := st.ap.headingCommand
  heading := st.imu.heading
  command := st.servo.command
  steered := servo.apEnabled
  tacking := st.ap.tackState

end Helm

/-! ## Turns -/

/-- The loops of `resolv`, when they end, wrap a rational and leave not-a-number as it is. -/
theorem resolv_eq {fuel : ℕ} {x r : Real} (h : resolv fuel x = some r) :
    r = wrapReal x := by
  cases x with
  | fin q => exact resolv_fin h
  | inf s =>
    rw [resolv_inf] at h
    exact nomatch h
  | nan =>
    cases fuel with
    | zero => exact nomatch h
    | succ fuel => exact (Option.some.inj h).symm

section Turns

variable (m : Machine)

/-- Up to the angle, the servo may be polled with the autopilot off; the helm stays as it is. -/
theorem readSensors_helm (imuUs : ℕ) (ap : Autopilot) (st : PypilotState) :
    Helm.ofState (Autopilot.readSensors m imuUs ap st).2 (Autopilot.readSensors m imuUs ap st).1 =
        Helm.ofState st ap.servo ∧
      (Autopilot.readSensors m imuUs ap st).2.ap.heading = st.imu.heading ∧
      (Autopilot.readSensors m imuUs ap st).1.tx =
        ap.servo.tx ++ if st.ap.enabled then [] else pollFrame m ap.servo st := by
  have htx := poll_tx m ap.servo st
  have hpoll : Helm.ofState (ap.servo.poll m st).2 (ap.servo.poll m st).1 =
      Helm.ofState st ap.servo ∧ (ap.servo.poll m st).2.imu.heading = st.imu.heading := by
    unfold Servo.poll
    split_ifs <;> exact ⟨rfl, rfl⟩
  unfold Autopilot.readSensors
  cases hen : st.ap.enabled with
  | true => exact ⟨rfl, rfl, (List.append_nil _).symm⟩
  | false => exact ⟨hpoll.1, hpoll.2, htx⟩

/-- From the angle on: the pilot's command, and the poll of the servo with the autopilot on. -/
theorem steer_helm (rudderUs : ℕ) (servo : Servo) (st : PypilotState)
    (herror : st.ap.headingError = (Helm.ofState st servo).error) :
    Helm.ofState (Autopilot.steer m rudderUs servo st).2 (Autopilot.steer m rudderUs servo st).1.servo =
        (Helm.ofState st servo).step .turn ∧
      (Autopilot.steer m rudderUs servo st).1.servo.tx =
        servo.tx ++ if st.ap.enabled then
          encodeCommand m (ExtRat.clamp (Helm.ofState st servo).next (-1) 1) else [] := by
  have hpilot : (if !st.ap.tackState then basicProcess st else st).ap.enabled = st.ap.enabled ∧
      (if !st.ap.tackState then basicProcess st else st).servo.command =
        (Helm.ofState st servo).next ∧
      (if !st.ap.tackState then basicProcess st else st).ap.headingCommand = st.ap.headingCommand ∧
      (if !st.ap.tackState then basicProcess st else st).imu.heading = st.imu.heading ∧
      (if !st.ap.tackState then basicProcess st else st).ap.tackState = st.ap.tackState := by
    unfold Helm.next
    rw [← herror]
    have htack : (Helm.ofState st servo).tacking = st.ap.tackState := rfl
    rw [htack]
    cases htack : st.ap.tackState <;> exact ⟨rfl, rfl, rfl, rfl, htack⟩
  unfold Autopilot.steer
  dsimp only
  generalize (if !st.ap.tackState then basicProcess st else st) = st' at hpilot ⊢
  obtain ⟨hen, hcommand, haim, hheading, htack⟩ := hpilot
  have hturn : (Helm.ofState st servo).step .turn =
      ⟨st'.ap.enabled, st'.ap.headingCommand, st'.imu.heading, st'.servo.command, st'.ap.enabled,
        st'.ap.tackState⟩ := by
    rw [hen, hcommand, haim, hheading, htack]
    rfl
  rw [hturn, ← hen, ← hcommand]
  unfold Servo.setAutopilotEnabled Servo.poll
  cases hon : st'.ap.enabled with
  | true => exact ⟨congrArg (Helm.mk · _ _ _ _ _) hon, rfl⟩
  | false => exact ⟨congrArg (Helm.mk · _ _ _ _ _) hon, (List.append_nil _).symm⟩

/-- **Turns.** An iteration that ends is a turn of the helm, and queues its packet. -/
theorem iteration_helm {fuel imuUs rudderUs : ℕ} {ap ap' : Autopilot} {st st' : PypilotState}
    (h : Autopilot.iteration m fuel imuUs rudderUs ap st = some (ap', st')) :
    Helm.ofState st' ap'.servo = (Helm.ofState st ap.servo).step .turn ∧
      ap'.servo.tx = ap.servo.tx ++ frames [(Helm.ofState st ap.servo).packet m] := by
  obtain ⟨hread, hheading, htx⟩ := readSensors_helm m imuUs ap st
  rw [Autopilot.iteration_eq, Option.map_eq_some_iff] at h
  obtain ⟨error, hresolv, hsteer⟩ := h
  generalize Autopilot.readSensors m imuUs ap st = p at hread hheading htx hresolv hsteer
  obtain ⟨servo, st₁⟩ := p
  dsimp only at hread hheading htx hresolv hsteer
  have herror : error = (Helm.ofState st ap.servo).error := by
    have hcommand : st₁.ap.headingCommand = (Helm.ofState st ap.servo).headingCommand :=
      congrArg Helm.headingCommand hread
    rw [headingError, hcommand, hheading] at hresolv
    exact resolv_eq hresolv
  have hset : Helm.ofState { st₁ with ap.headingError := error } servo = Helm.ofState st ap.servo :=
    hread
  have hsteer' := steer_helm m rudderUs servo { st₁ with ap.headingError := error }
    (by rw [hset]; exact herror)
  have hen : st₁.ap.enabled = st.ap.enabled := congrArg Helm.enabled hread
  rw [hset, hsteer] at hsteer'
  refine ⟨hsteer'.1, ?_⟩
  rw [hsteer'.2, htx, ServoOp.frames_singleton]
  dsimp only
  rw [hen, List.append_assoc]
  congr 1
  unfold Helm.packet
  have hon : (Helm.ofState st ap.servo).enabled = st.ap.enabled := rfl
  rw [hon]
  cases st.ap.enabled with
  | true => rfl
  | false =>
    unfold pollFrame
    have hflag : (Helm.ofState st ap.servo).steered = ap.servo.apEnabled := rfl
    rw [hflag]
    cases ap.servo.apEnabled <;> rfl

end Turns

/-! ## What the helm is told -/

/-- An assignment, for the helm. -/
def assigned (m : Machine) (name value : Text) : Option HelmEvent :=
  match find name with
  | none => none
  | some d =>
    match d.id with
    | .apEnabled => (parseBool value).map .enable
    | .apHeadingCommand => (parseReal m value).map .steerTo
    | .servoCommand => (parseReal m value).map .rudder
    | _ => none

/-- An operation of the program, for the helm. -/
def SystemOp.helmEvent (m : Machine) : SystemOp → Option HelmEvent
  | .handleLine text _ =>
    match request text with
    | .assignment name value => assigned m name value
    | _ => none
  | .feedLine text _ _ =>
    match Nmea.parseLine text with
    | some sentence =>
      if sentence.type = lit "HDT" ∨ sentence.type = lit "HDM" then
        (sentence.fields.head?.bind (Nmea.parseReal m)).map .sense
      else none
    | none => none
  | .iterate _ _ _ => some .turn
  | .poll _ | .feedDriverBytes _ _ => none

section Inputs

variable (m : Machine)

/-- An assignment from outside does to the helm what it says, or nothing. -/
theorem setFromWire_helm {s : Store} (hat : s.values.attached = true) (name value : Text)
    (servo : Servo) :
    Helm.ofState (s.setFromWire m name value true).2.state servo =
      (assigned m name value).elim (Helm.ofState s.state servo) (Helm.ofState s.state servo).step := by
  unfold Store.setFromWire assigned
  cases hfind : find name with
  | none => rfl
  | some d =>
    obtain ⟨hentry, -⟩ := find_eq_some hfind
    dsimp only
    generalize d.id = id at hentry ⊢
    subst hentry
    unfold Store.setReal Store.setBool Store.setString
    rw [hat]
    cases id
    all_goals first
      | rfl
      | (cases parseReal m value <;> rfl)
      | (cases parseBool value <;> rfl)

/-- A line does to the helm what its assignment says. -/
theorem handleLine_helm {W : Type} {s : Store} (hat : s.values.attached = true) (text : Text)
    (nowUs : ℕ) (out : ValueWriter W) (w : W) (servo : Servo) :
    Helm.ofState (handleLine m text nowUs out s w).2.1.state servo =
      ((SystemOp.handleLine text nowUs).helmEvent m).elim (Helm.ofState s.state servo)
        (Helm.ofState s.state servo).step := by
  unfold SystemOp.helmEvent
  dsimp only
  rcases handleLine_cases m text nowUs out s w with ⟨name, value, hreq, hset⟩ | ⟨hother, hsame⟩
  · rw [hset, hreq]
    exact setFromWire_helm m hat name value servo
  · rw [hsame.state]
    cases hreq : request text with
    | assignment name value => exact absurd hreq (hother name value)
    | empty | malformed | watch | values | udpPort => rfl

/-- Only a turn puts something out. -/
theorem helmEvent_output {op : SystemOp} (hop : ∀ fuel imuUs rudderUs, op ≠ .iterate fuel imuUs rudderUs)
    (h : Helm) : ((op.helmEvent m).elim [] fun e => frames (h.output m e)) = [] := by
  cases op with
  | iterate fuel imuUs rudderUs => exact absurd rfl (hop fuel imuUs rudderUs)
  | poll | feedDriverBytes => rfl
  | handleLine text nowUs =>
    unfold SystemOp.helmEvent
    dsimp only
    cases request text with
    | assignment name value =>
      dsimp only
      unfold assigned
      cases find name with
      | none => rfl
      | some d =>
        dsimp only
        cases d.id
        all_goals first
          | rfl
          | (cases parseReal m value <;> rfl)
          | (cases parseBool value <;> rfl)
    | empty | malformed | watch | values | udpPort => rfl
  | feedLine text source nowUs =>
    unfold SystemOp.helmEvent
    dsimp only
    cases Nmea.parseLine text with
    | none => rfl
    | some sentence =>
      dsimp only
      split_ifs
      · cases sentence.fields.head?.bind (Nmea.parseReal m) <;> rfl
      · rfl

theorem feedLine_helm (text : Text) (source : SensorSource) (nowUs : ℕ) (st : PypilotState)
    (servo : Servo) :
    Helm.ofState (Nmea.feedLine m text source nowUs st).2 servo =
      ((SystemOp.feedLine text source nowUs).helmEvent m).elim (Helm.ofState st servo)
        (Helm.ofState st servo).step := by
  unfold Nmea.feedLine SystemOp.helmEvent
  dsimp only
  cases Nmea.parseLine text with
  | none => rfl
  | some sentence =>
    dsimp only
    unfold Nmea.applySentence
    by_cases hheading : sentence.type = lit "HDT" ∨ sentence.type = lit "HDM"
    · rw [if_pos hheading, if_pos hheading]
      cases sentence.fields.head?.bind (Nmea.parseReal m) <;> rfl
    · rw [if_neg hheading, if_neg hheading]
      repeat' split
      all_goals rfl

theorem feedDriverBytes_helm (servo : Servo) (st : PypilotState) (bytes : Text) (nowUs : ℕ) :
    Helm.ofState (servo.feedDriverBytes st bytes nowUs).2.2 (servo.feedDriverBytes st bytes nowUs).2.1 =
      Helm.ofState st servo := by
  unfold Servo.feedDriverBytes Servo.applyDriverSample
  dsimp only
  split_ifs <;> rfl

end Inputs

/-! ## Runs -/

/-- A program, and the bytes that its driver has been given. -/
structure DrivenProgram (W : Type) where
  program : WritingProgram W
  taken : Text := []

/-- An operation of the program with the writer of its output, or the driver's queue emptied. -/
inductive DriveOp (W : Type)
  | call (op : SystemOp) (out : ValueWriter W)
  | takeDriverTx

/-- What the operation tells the helm. -/
def DriveOp.event {W : Type} (m : Machine) : DriveOp W → Option HelmEvent
  | call op _ => op.helmEvent m
  | takeDriverTx => none

namespace DrivenProgram

variable {W : Type} (m : Machine)

def step (d : DrivenProgram W) : DriveOp W → DrivenProgram W
  | .call op out => { d with program := d.program.step m (op, out) }
  | .takeDriverTx =>
    let (bytes, servo) := d.program.ap.servo.takeDriverTx
    ⟨{ d.program with ap := ⟨servo⟩ }, d.taken ++ bytes⟩

/-- A new server and a new autopilot over a state. -/
def start (st : PypilotState) (w : W) : DrivenProgram W :=
  { program := WritingProgram.start m (Autopilot.create m st).2 (Autopilot.create m st).1 w }

/-- All that the driver has been given or will be given next. -/
def stream (d : DrivenProgram W) : Text := d.taken ++ d.program.ap.servo.tx

def helm (d : DrivenProgram W) : Helm := Helm.ofState d.program.store.state d.program.ap.servo

/-- An operation comes to its end. -/
def Ends (d : DrivenProgram W) : DriveOp W → Prop
  | .call (.iterate fuel imuUs rudderUs) _ =>
    (Autopilot.iteration m fuel imuUs rudderUs d.program.ap d.program.store.state).isSome
  | _ => True

instance (d : DrivenProgram W) (op : DriveOp W) : Decidable (d.Ends m op) := by
  unfold Ends
  split <;> infer_instance

def Attached (d : DrivenProgram W) : Prop := d.program.store.values.attached = true

variable {m} {d : DrivenProgram W}

/-- An iteration that comes to its end. -/
theorem step_iterate {fuel imuUs rudderUs : ℕ} {out : ValueWriter W}
    (hends : d.Ends m (.call (.iterate fuel imuUs rudderUs) out)) : ∃ ap st,
    Autopilot.iteration m fuel imuUs rudderUs d.program.ap d.program.store.state = some (ap, st) ∧
      d.step m (.call (.iterate fuel imuUs rudderUs) out) =
        { d with program := { d.program with store.state := st, ap := ap } } := by
  obtain ⟨⟨ap, st⟩, hp⟩ := Option.isSome_iff_exists.mp hends
  refine ⟨ap, st, hp, ?_⟩
  unfold step WritingProgram.step
  dsimp only
  rw [hp]

/-- An event of the helm is a step of the helm, with its packet on the stream. -/
theorem step_helm (hat : d.Attached) {op : DriveOp W} (hends : d.Ends m op) :
    (d.step m op).Attached ∧
      (d.step m op).helm = (op.event m).elim d.helm d.helm.step ∧
      (d.step m op).stream =
        d.stream ++ (op.event m).elim [] fun e => frames (d.helm.output m e) := by
  cases op with
  | takeDriverTx => exact ⟨hat, rfl, by simp [step, stream, DriveOp.event, Servo.takeDriverTx]⟩
  | call op out =>
    have hquiet : ∀ d' : DrivenProgram W, d'.stream = d.stream →
        (∀ fuel imuUs rudderUs, op ≠ .iterate fuel imuUs rudderUs) →
          d'.stream = d.stream ++ (op.helmEvent m).elim [] fun e => frames (d.helm.output m e) := by
      intro d' hd' hop
      rw [helmEvent_output m hop, List.append_nil, hd']
    cases op with
    | handleLine text nowUs =>
      refine ⟨(handleLine_attached m text nowUs out _ _).trans hat, ?_,
        hquiet _ rfl fun _ _ _ h => nomatch h⟩
      exact handleLine_helm m hat text nowUs out d.program.world d.program.ap.servo
    | poll nowUs =>
      refine ⟨?_, ?_, hquiet _ rfl fun _ _ _ h => nomatch h⟩
      · exact (poll_frame m nowUs out d.program.store d.program.world).2.trans hat
      · exact congrArg (Helm.ofState · _) (poll_frame m nowUs out _ d.program.world).1
    | iterate fuel imuUs rudderUs =>
      obtain ⟨ap, st, hp, hstep⟩ := step_iterate hends
      obtain ⟨hturn, htx⟩ := iteration_helm m hp
      rw [hstep]
      refine ⟨hat, hturn, ?_⟩
      show d.taken ++ ap.servo.tx = d.taken ++ d.program.ap.servo.tx ++ _
      rw [htx, List.append_assoc]
      rfl
    | feedDriverBytes bytes nowUs =>
      refine ⟨hat, ?_, hquiet _ rfl fun _ _ _ h => nomatch h⟩
      exact feedDriverBytes_helm d.program.ap.servo d.program.store.state bytes nowUs
    | feedLine text source nowUs =>
      exact ⟨hat, feedLine_helm m text source nowUs d.program.store.state d.program.ap.servo,
        hquiet _ rfl fun _ _ _ h => nomatch h⟩

theorem stream_start (st : PypilotState) (w : W) :
    (start m st w).stream = frames [⟨commandCode, 1000⟩] := create_tx m st

end DrivenProgram

open DrivenProgram

/-- **From the wire to the motor.** In any run of a program whose iterations end, with any writers, the driver's
stream is the frames of the constructor's packet and of the packets that the helm puts out on what the run
tells it; read frame by frame it gives these packets. And whether the next iteration ends is a matter of
the helm's two headings. -/
theorem helm_drives {W : Type} (m : Machine) (st : PypilotState) (w : W) (ops : List (DriveOp W))
    (hends : ∀ p ∈ Run.steps (DrivenProgram.step m) (start m st w) ops, p.1.Ends m p.2) :
    let d := ops.foldl (DrivenProgram.step m) (start m st w)
    let events := ops.filterMap (DriveOp.event m)
    let issued := ⟨commandCode, 1000⟩ :: (start m st w).helm.packets m events
    let h := events.foldl Helm.step (start m st w).helm
    d.stream = frames issued ∧ decodeFrames d.stream = some issued ∧ d.helm = h ∧
      (d.program.ap.Returns m d.program.store.state ↔ ¬ (h.headingCommand - h.heading).IsInf) := by
  intro d events issued h
  obtain ⟨hhelm, hstream⟩ := @Run.foldl_refines _ _ (DrivenProgram.step m) Attached
    (fun d op => d.Ends m op) _ _ _ DrivenProgram.helm DrivenProgram.stream (DriveOp.event m)
    Helm.step (fun h e => frames (h.output m e)) (fun _ _ hat hends => step_helm hat hends)
    (start m st w) rfl ops hends
  have hframes : d.stream = frames issued := by
    have hpackets : frames ((start m st w).helm.packets m events) =
        (Run.steps Helm.step (start m st w).helm events).flatMap fun p =>
          frames (p.1.output m p.2) := List.flatMap_assoc
    calc d.stream = frames [⟨commandCode, 1000⟩] ++ frames ((start m st w).helm.packets m events) := by
          rw [hpackets, ← stream_start (m := m) st w]
          exact hstream
      _ = frames issued := List.flatMap_append.symm
  refine ⟨hframes, ?_, hhelm, ?_⟩
  · rw [hframes]
    refine decodeFrames_frames fun p hp => ?_
    rcases List.mem_cons.mp hp with rfl | hp
    · exact Nat.lt_of_lt_of_le (by decide : (1000 : ℕ) < 2 ^ 10) (by decide)
    · exact Helm.packets_value_lt m _ events p hp
  · have hh : h = d.helm := hhelm.symm
    rw [returns_iff, hh]
    exact Iff.rfl

/-- On course for 90 degrees at 80, a line switches the autopilot off; then one more command goes out before the
motor is released. -/
theorem helm_drives_switching_off :
    let broken : ValueWriter Unit := ⟨fun _ w => (false, w)⟩
    let ops : List (DriveOp Unit) :=
      [.call (.handleLine (lit "ap.heading_command=90") 0) broken,
        .call (.feedLine (lit "$GPHDT,80,T") .serial 0) broken,
        .call (.handleLine (lit "ap.enabled=true") 0) broken, .call (.iterate 3 0 0) broken,
        .takeDriverTx, .call (.handleLine (lit "ap.enabled=false") 0) broken,
        .call (.iterate 3 0 0) broken, .call (.iterate 3 0 0) broken]
    decodeFrames (ops.foldl (DrivenProgram.step default) (start default {} ())).stream =
      some [⟨commandCode, 1000⟩, ⟨commandCode, 1333⟩, ⟨commandCode, 1333⟩, ⟨disengageCode, 0⟩] := by
  intro broken ops
  obtain ⟨-, hdecode, -⟩ := helm_drives default {} () ops (by decide +kernel)
  rw [hdecode]
  decide +kernel

end Pypilot
