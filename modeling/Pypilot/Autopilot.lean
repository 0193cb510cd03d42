import Pypilot.Lib.Loop
import Pypilot.Servo

/-!
# The control loop

`resolv.hpp`, `boatimu.cpp`, `basic.cpp` and `autopilot.cpp`. The two loops of `resolv` need not end, so
an iteration takes a bound on their rounds and gives nothing when it is exceeded. Calls whose bodies
are empty in the source, and sleeping, change no state and are left out.
-/

namespace Pypilot

/-! ## Angles -/

/-- `while (angle < -180) angle += 360`. -/
def belowBody (angle : Real) : Real ⊕ Real := if angle < -180 then .inl (angle + 360) else .inr angle

/-- `while (angle >= 180) angle -= 360`. -/
def aboveBody (angle : Real) : Real ⊕ Real := if 180 ≤ angle then .inl (angle - 360) else .inr angle

def resolv (fuel : ℕ) (angle : Real) : Option Real :=
  (Loop.exec belowBody fuel angle).bind (Loop.exec aboveBody fuel)

def headingError (fuel : ℕ) (commandDeg headingDeg : Real) : Option Real :=
  resolv fuel (commandDeg - headingDeg)

def compassNormalize (angle : Real) : Real :=
  let angle := ExtRat.fmod angle 360
  if angle < 0 then angle + 360 else angle

/-! ## The iteration -/

/-- `BoatIMU::read`. -/
def readImu (nowUs : ℕ) (st : PypilotState) : Bool × PypilotState :=
  (true, { st with imu.valid := true, imu.timestampUs := nowUs, ap.heading := st.imu.heading })

/-- The read, tried again up to `tries` times. -/
def tryReadImu (nowUs : ℕ) : ℕ → PypilotState → PypilotState
  | 0, st => st
  | tries + 1, st =>
    let (ok, st) := readImu nowUs st
    if ok then st else tryReadImu nowUs tries st

/-- `BasicPilot::process`. -/
def basicProcess (st : PypilotState) : PypilotState :=
  let command := ExtRat.clamp (st.ap.headingError / 30) (-1) 1
  { st with ap.command := command, servo.command := command }

/-- The parts of `Autopilot` that have a state of their own. -/
structure Autopilot where
  servo : Servo

namespace Autopilot

variable (m : Machine)

/-- `Autopilot::Autopilot`. -/
def create (st : PypilotState) : Autopilot × PypilotState :=
  let (servo, st) := Servo.create m st
  (⟨servo⟩, { st with rudder := st.rudder.updateMinmax })

/-- `Autopilot::iteration`; the clock reads `imuUs` in the IMU and `rudderUs` at the rudder. -/
def iteration (fuel imuUs rudderUs : ℕ) (ap : Autopilot) (st : PypilotState) :
    Option (Autopilot × PypilotState) :=
  let (servo, st) := if !st.ap.enabled then ap.servo.poll m st else (ap.servo, st)
  let st := tryReadImu imuUs 14 st
  match headingError fuel st.ap.headingCommand st.ap.heading with
  | none => none
  | some error =>
    let st := { st with ap.headingError := error }
    let st := if !st.ap.tackState then basicProcess st else st
    let (servo, st) := servo.setAutopilotEnabled st st.ap.enabled
    let (servo, st) := if st.ap.enabled then servo.poll m st else (servo, st)
    some (⟨servo⟩, { st with rudder := st.rudder.poll rudderUs })

/-! ## The parts of an iteration -/

/-- Up to the angle: the poll of the servo with the autopilot off, and the IMU. -/
def readSensors (imuUs : ℕ) (ap : Autopilot) (st : PypilotState) : Servo × PypilotState :=
  let (servo, st) := if !st.ap.enabled then ap.servo.poll m st else (ap.servo, st)
  (servo, (readImu imuUs st).2)

/-- From the angle on: the pilot, and the servo under its new flag. -/
def steer (rudderUs : ℕ) (servo : Servo) (st : PypilotState) : Autopilot × PypilotState :=
  let st := if !st.ap.tackState then basicProcess st else st
  let (servo, st) := servo.setAutopilotEnabled st st.ap.enabled
  let (servo, st) := if st.ap.enabled then servo.poll m st else (servo, st)
  (⟨servo⟩, { st with rudder := st.rudder.poll rudderUs })

theorem iteration_eq (fuel imuUs rudderUs : ℕ) (ap : Autopilot) (st : PypilotState) :
    iteration m fuel imuUs rudderUs ap st =
      (headingError fuel (readSensors m imuUs ap st).2.ap.headingCommand
        (readSensors m imuUs ap st).2.ap.heading).map fun error =>
          steer m rudderUs (readSensors m imuUs ap st).1
            { (readSensors m imuUs ap st).2 with ap.headingError := error } := by
  show (match headingError fuel (readSensors m imuUs ap st).2.ap.headingCommand
    (readSensors m imuUs ap st).2.ap.heading with
    | none => none
    | some error => some _) = _
  cases headingError fuel (readSensors m imuUs ap st).2.ap.headingCommand
    (readSensors m imuUs ap st).2.ap.heading <;> rfl

end Autopilot

end Pypilot
