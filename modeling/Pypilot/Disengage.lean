import Pypilot.Autopilot
import Pypilot.Lib.Run

/-!
# The disengaged motor

The servo keeps a flag of its own, set at the end of an iteration, and is polled at the start of an
iteration that finds the autopilot off. The poll then goes by the flag of the iteration before: after an
iteration with the autopilot on it sends a command.
-/

namespace Pypilot

open Text ServoProtocol

/-! ## Frames -/

/-- The codes of the frames in a queue. -/
def frameCodes : Text → List Byte
  | code :: _ :: _ :: _ :: rest => code :: frameCodes rest
  | _ => []

/-- The bytes put on a queue. -/
def queued (servo servo' : Servo) : Text := servo'.tx.drop servo.tx.length

/-- The frames release the motor and do not drive it. -/
def Releases (bytes : Text) : Prop :=
  disengageCode ∈ frameCodes bytes ∧ commandCode ∉ frameCodes bytes

instance : DecidablePred Releases := fun _ => inferInstanceAs (Decidable (_ ∧ _))

theorem frameCodes_encode (code : Byte) (value : ℕ) : frameCodes (encode code value) = [code] := rfl

theorem releases_disengage : Releases encodeDisengage := by decide

theorem not_releases_command (m : Machine) (command : Real) :
    ¬ Releases (encodeCommand m command) := by
  unfold Releases encodeCommand
  rw [frameCodes_encode]
  decide

theorem queued_append {servo servo' : Servo} {bytes : Text} (h : servo'.tx = servo.tx ++ bytes) :
    queued servo servo' = bytes := by
  rw [queued, h, List.drop_left]

/-! ## One iteration -/

/-- What a poll of the servo queues. -/
def pollFrame (m : Machine) (servo : Servo) (st : PypilotState) : Text :=
  if servo.apEnabled then encodeCommand m (ExtRat.clamp st.servo.command (-1) 1) else encodeDisengage

theorem poll_tx (m : Machine) (servo : Servo) (st : PypilotState) :
    (servo.poll m st).1.tx = servo.tx ++ pollFrame m servo st := by
  unfold Servo.poll pollFrame
  split_ifs <;> rfl

theorem readSensors_spec (m : Machine) (imuUs : ℕ) (ap : Autopilot) (st : PypilotState) :
    (Autopilot.readSensors m imuUs ap st).2.ap.enabled = st.ap.enabled ∧
      (st.ap.enabled = false →
        (Autopilot.readSensors m imuUs ap st).1.tx = ap.servo.tx ++ pollFrame m ap.servo st) := by
  have htx := poll_tx m ap.servo st
  obtain ⟨-, hap, -⟩ := Servo.poll_frame m ap.servo st
  unfold Autopilot.readSensors
  by_cases hen : st.ap.enabled = true
  · simp [hen, readImu]
  · have hdis : st.ap.enabled = false := by simpa using hen
    simp [hdis, readImu, hap, htx]

theorem steer_spec (m : Machine) (rudderUs : ℕ) (servo : Servo) (st : PypilotState) :
    (Autopilot.steer m rudderUs servo st).2.ap.enabled = st.ap.enabled ∧
      (Autopilot.steer m rudderUs servo st).1.servo.apEnabled = st.ap.enabled ∧
      (st.ap.enabled = false → (Autopilot.steer m rudderUs servo st).1.servo.tx = servo.tx) := by
  unfold Autopilot.steer
  have hpilot : (if !st.ap.tackState then basicProcess st else st).ap.enabled = st.ap.enabled := by
    split_ifs <;> rfl
  generalize (if !st.ap.tackState then basicProcess st else st) = st' at hpilot ⊢
  rw [← hpilot]
  unfold Servo.setAutopilotEnabled
  by_cases hen : st'.ap.enabled = true
  · obtain ⟨hflag, hap, -⟩ := Servo.poll_frame m { servo with apEnabled := true }
      { st' with servo.engaged := true }
    simp [hen, hflag, hap]
  · simp [hen]

/-- **One iteration.** It leaves the switch alone and copies it to the servo. With the autopilot off, all
that it queues is the frame of one poll with the servo's old flag. -/
theorem iteration_spec (m : Machine) {fuel imuUs rudderUs : ℕ} {ap ap' : Autopilot}
    {st st' : PypilotState}
    (h : Autopilot.iteration m fuel imuUs rudderUs ap st = some (ap', st')) :
    st'.ap.enabled = st.ap.enabled ∧ ap'.servo.apEnabled = st.ap.enabled ∧
      (st.ap.enabled = false → ap'.servo.tx = ap.servo.tx ++ pollFrame m ap.servo st) := by
  rw [Autopilot.iteration_eq, Option.map_eq_some_iff] at h
  obtain ⟨error, -, h⟩ := h
  obtain ⟨hread, hframe⟩ := readSensors_spec m imuUs ap st
  obtain ⟨hswitch, hflag, htx⟩ := steer_spec m rudderUs (Autopilot.readSensors m imuUs ap st).1
    { (Autopilot.readSensors m imuUs ap st).2 with ap.headingError := error }
  rw [h] at hswitch hflag htx
  refine ⟨hswitch.trans hread, hflag.trans hread, fun hdis => ?_⟩
  rw [htx (hread.trans hdis), hframe hdis]

/-! ## Runs -/

/-- What happens to a control loop: an iteration, its driver's queue emptied, bytes from the driver, or
any change of the state by others. -/
inductive LoopOp
  | iterate (fuel imuUs rudderUs : ℕ)
  | takeDriverTx
  | feedDriverBytes (bytes : Text) (nowUs : ℕ)
  | change (f : PypilotState → PypilotState)

/-- A control loop over a state, and the switch as the last iteration found it. -/
structure ControlLoop where
  ap : Autopilot
  st : PypilotState
  lastEnabled : Option Bool := none

namespace ControlLoop

/-- The autopilot as it is created. -/
def start (m : Machine) (st : PypilotState) : ControlLoop :=
  { ap := (Autopilot.create m st).1, st := (Autopilot.create m st).2 }

/-- An iteration that does not end is no step. -/
def step (m : Machine) (l : ControlLoop) : LoopOp → ControlLoop
  | .iterate fuel imuUs rudderUs =>
    match Autopilot.iteration m fuel imuUs rudderUs l.ap l.st with
    | some (ap, st) => ⟨ap, st, some st.ap.enabled⟩
    | none => l
  | .takeDriverTx => { l with ap := ⟨l.ap.servo.takeDriverTx.2⟩ }
  | .feedDriverBytes bytes nowUs =>
    { l with ap := ⟨(l.ap.servo.feedDriverBytes l.st bytes nowUs).2.1⟩,
             st := (l.ap.servo.feedDriverBytes l.st bytes nowUs).2.2 }
  | .change f => { l with st := f l.st }

/-- The servo's flag is the switch of the last iteration. -/
def FlagFollows (l : ControlLoop) : Prop := l.ap.servo.apEnabled = l.lastEnabled.getD false

theorem flagFollows_start (m : Machine) (st : PypilotState) : (start m st).FlagFollows := rfl

theorem FlagFollows.step {m : Machine} {l : ControlLoop} (h : l.FlagFollows) (op : LoopOp) :
    (l.step m op).FlagFollows := by
  cases op with
  | iterate fuel imuUs rudderUs =>
    unfold ControlLoop.step
    dsimp only
    cases hit : Autopilot.iteration m fuel imuUs rudderUs l.ap l.st with
    | none => exact h
    | some p =>
      obtain ⟨hswitch, hflag, -⟩ := iteration_spec m hit
      exact hflag.trans hswitch.symm
  | takeDriverTx => exact h
  | feedDriverBytes bytes nowUs => exact h
  | change f => exact h

end ControlLoop

/-- **The disengaged motor.** In any run, an iteration with the autopilot off releases the motor, and
does not drive it, exactly when the iteration before it did not find the autopilot on. -/
theorem iteration_releases_iff (m : Machine) (st : PypilotState) (ops : List LoopOp) :
    ∀ l ∈ Run.states (ControlLoop.step m) (.start m st) ops,
      ∀ fuel imuUs rudderUs ap' st',
        Autopilot.iteration m fuel imuUs rudderUs l.ap l.st = some (ap', st') →
        l.st.ap.enabled = false → st'.ap.enabled = false →
        (Releases (queued l.ap.servo ap'.servo) ↔ l.lastEnabled ≠ some true) := by
  intro l hl fuel imuUs rudderUs ap' st' hit hoff _
  have hflag : l.FlagFollows :=
    Run.states_invariant (I := ControlLoop.FlagFollows) (C := fun _ _ => True)
      (fun _ op h _ => h.step op) (ControlLoop.flagFollows_start m st) (fun _ _ => trivial) l hl
  obtain ⟨-, -, htx⟩ := iteration_spec m hit
  rw [queued_append (htx hoff), pollFrame, hflag]
  cases hlast : l.lastEnabled with
  | none => simpa using releases_disengage
  | some enabled =>
    cases enabled with
    | false => simpa using releases_disengage
    | true => simpa using not_releases_command m _

/-- An iteration with the autopilot on, and two with it off. -/
theorem iteration_releases_after_two_off :
    let l := [LoopOp.iterate 3 0 0, .change fun st => { st with ap.enabled := false },
      .iterate 3 0 0].foldl (ControlLoop.step default) (.start default { ap.enabled := true })
    ∃ ap' st', Autopilot.iteration default 3 0 0 l.ap l.st = some (ap', st') ∧
      Releases (queued l.ap.servo ap'.servo) := by
  intro l
  have hsome : (Autopilot.iteration default 3 0 0 l.ap l.st).isSome := by decide +kernel
  have hit := (Option.some_get hsome).symm
  have hoff' : ∀ hsome, ((Autopilot.iteration default 3 0 0 l.ap l.st).get hsome).2.ap.enabled =
      false := by decide +kernel
  exact ⟨_, _, hit, (iteration_releases_iff default _ _ l (Run.foldl_mem_states _ _ _) 3 0 0 _ _
    hit (by decide +kernel) (hoff' hsome)).mpr (by decide +kernel)⟩

/-- The autopilot is switched off behind an iteration with it on: the next one drives the motor. -/
theorem command_after_switching_off :
    ∃ l ∈ Run.states (ControlLoop.step default) (.start default { ap.enabled := true })
        [.iterate 3 0 0, .change fun st => { st with ap.enabled := false }],
      ∃ ap' st', Autopilot.iteration default 3 0 0 l.ap l.st = some (ap', st') ∧
        l.st.ap.enabled = false ∧ st'.ap.enabled = false ∧
        frameCodes (queued l.ap.servo ap'.servo) = [commandCode] ∧
        ¬ Releases (queued l.ap.servo ap'.servo) := by
  refine ⟨_, Run.foldl_mem_states _ _ _, ?_⟩
  generalize hl : [LoopOp.iterate 3 0 0, .change fun st => { st with ap.enabled := false }].foldl
    (ControlLoop.step default) (.start default { ap.enabled := true }) = l
  have hsome : (Autopilot.iteration default 3 0 0 l.ap l.st).isSome := by
    rw [← hl]; decide +kernel
  refine ⟨_, _, (Option.some_get hsome).symm, ?_⟩
  revert hsome
  rw [← hl]
  decide +kernel

end Pypilot
