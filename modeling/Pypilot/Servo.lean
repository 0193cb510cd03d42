import Pypilot.ServoProtocol

/-!
# Servo and rudder

`servo.cpp` and `rudder.cpp`. The servo queues frames for the driver and applies its telemetry; the
rudder turns raw samples into a calibrated angle. Both work on the shared state.
-/

namespace Pypilot

open Text ServoProtocol

/-! ## Servo -/

/-- The private part of `Servo`. -/
structure Servo where
  parser : Text := []
  sample : TelemetrySample := {}
  tx : Text := []
  apEnabled : Bool := false
  deriving DecidableEq

namespace Servo

variable (m : Machine)

def queuePacket (servo : Servo) (p : Text) : Servo := { servo with tx := servo.tx ++ p }

/-- The queued bytes, which leave the queue. -/
def takeDriverTx (servo : Servo) : Text × Servo := (servo.tx, { servo with tx := [] })

def command (st : PypilotState) (value : Real) : PypilotState :=
  { st with servo.command := ExtRat.clamp value (-1) 1 }

def rawCommand (servo : Servo) (st : PypilotState) (value : Real) : Servo × PypilotState :=
  let value := ExtRat.clamp value (-1) 1
  (servo.queuePacket (encodeCommand m value), { st with servo.rawCommand := value })

/-- The constructor sends a zero command. -/
def create (st : PypilotState) : Servo × PypilotState := rawCommand m {} st 0

def stop (servo : Servo) (st : PypilotState) : Servo × PypilotState :=
  let (servo, st) := rawCommand m servo st 0
  (servo, { st with servo.state := lit "stop" })

def reset (servo : Servo) : Servo := servo.queuePacket encodeReset

def disengage (servo : Servo) (st : PypilotState) : Servo × PypilotState :=
  (servo.queuePacket encodeDisengage, { st with servo.engaged := false })

def setAutopilotEnabled (servo : Servo) (st : PypilotState) (e : Bool) : Servo × PypilotState :=
  ({ servo with apEnabled := e }, { st with servo.engaged := e })

/-- The fields that a mask names, from the sample. -/
def applyDriverSample (servo : Servo) (st : PypilotState) (mask nowUs : ℕ) : PypilotState :=
  let st := if mask &&& voltageBit ≠ 0 then { st with servo.voltage := servo.sample.voltage } else st
  let st := if mask &&& currentBit ≠ 0 then { st with servo.current := servo.sample.current } else st
  let st := if mask &&& rudderBit ≠ 0 then
      { st with rudder.raw := servo.sample.rudder, rudder.rawValid := true,
                rudder.rawTimestampUs := nowUs, rudder.lastDevice := lit "servo" }
    else st
  if mask &&& flagsBit ≠ 0 then
    { st with servo.flags := servo.sample.flags,
              servo.engaged := decide (servo.sample.flags &&& engagedFlag ≠ 0) }
  else st

def feedDriverBytes (servo : Servo) (st : PypilotState) (bytes : Text) (nowUs : ℕ) :
    ℕ × Servo × PypilotState :=
  let (rest, mask, sample) := parse (servo.parser ++ bytes) 0 servo.sample
  let servo := { servo with parser := rest, sample := sample }
  (mask, servo, if mask ≠ 0 then servo.applyDriverSample st mask nowUs else st)

def poll (servo : Servo) (st : PypilotState) : Servo × PypilotState :=
  if servo.apEnabled then rawCommand m servo st st.servo.command else disengage servo st

/-- A poll keeps the flag, and of the state it changes the servo's part only. -/
theorem poll_frame (servo : Servo) (st : PypilotState) :
    (servo.poll m st).1.apEnabled = servo.apEnabled ∧ (servo.poll m st).2.ap = st.ap ∧
      (servo.poll m st).2.imu = st.imu := by
  unfold poll
  split_ifs <;> exact ⟨rfl, rfl, rfl⟩

end Servo

/-! ## Rudder -/

namespace RudderState

/-- `0.01f`. -/
def smallScale : ℚ := 5368709 / 536870912

def updateMinmax (r : RudderState) : RudderState :=
  let s : Real := if r.scale.abs < .fin smallScale then 100 else r.scale
  let half : Real := .fin (1 / 2)
  let minRaw := ExtRat.clamp ((-r.range - r.offset) / s) (-half) half
  let maxRaw := ExtRat.clamp ((r.range - r.offset) / s) (-half) half
  if maxRaw < minRaw then { r with minRaw := maxRaw, maxRaw := minRaw }
  else { r with minRaw := minRaw, maxRaw := maxRaw }

def reset (r : RudderState) : RudderState :=
  { r with angle.valid := false, speed.valid := false, rawValid := false }

/-- A sample of another device, or one that is not a number, only resets the rudder. -/
def update (r : RudderState) (raw : Real) (device : Text) (nowUs : ℕ) : Bool × RudderState :=
  if device ≠ r.lastDevice then (false, { r with lastDevice := device }.reset)
  else if raw = .nan then (false, r.reset)
  else
    let r := { r with raw := raw, rawValid := true, rawTimestampUs := nowUs }.updateMinmax
    let angle := r.scale * raw + r.offset + r.nonlinearity * (r.minRaw - raw) * (r.maxRaw - raw)
    (true, { r with angle := { r.angle with value := (angle * 100).round / 100,
                                            timestampUs := nowUs, source := .servo,
                                            valid := true } })

def poll (r : RudderState) (nowUs : ℕ) : RudderState :=
  let r := r.updateMinmax
  if r.rawValid then
    (r.update r.raw (if r.lastDevice = [] then lit "servo" else r.lastDevice) nowUs).2
  else r

end RudderState

end Pypilot
