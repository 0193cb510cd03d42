import Pypilot.Lib.ExtRat
import Pypilot.Lib.Text

/-!
# The data model

`PypilotState`, the one store of runtime state that the autopilot, the servo, the NMEA input and the
value registry share. Fields that no part of the program reads or writes are left out.
-/

namespace Pypilot

open Text

/-- `float`, computed exactly. -/
abbrev Real := ExtRat

/-- What the C++ standard leaves open and the program can run into: the bytes on the stack behind a
local buffer, the result of converting a number that does not fit its integer type, and the `float`
nearest to a number. -/
structure Machine where
  behind : ℕ → Byte
  wildCast : Real → ℕ
  nearest : ℚ → Real

/-- A machine on which everything left open is zero and every number is a `float`. -/
instance : Inhabited Machine := ⟨⟨fun _ => 0, fun _ => 0, .fin⟩⟩

/-- An exact result, such as the value of a literal, brought to the format of a `float`; an infinity or
not-a-number is itself. -/
def Machine.toReal (m : Machine) : ExtRat → Real
  | .fin q => m.nearest q
  | x => x

inductive SensorSource
  | none | gpsd | servo | serial | tcp | signalk | waterWind | gpsWind
  deriving DecidableEq

/-- A value with the time and the source it came from. -/
structure SourceStamped where
  value : Real := 0
  timestampUs : ℕ := 0
  source : SensorSource := .none
  valid : Bool := false
  deriving DecidableEq

structure Server where
  running : Bool := false
  port : ℕ := 23322
  deriving DecidableEq

structure Ap where
  enabled : Bool := false
  heading : Real := 0
  headingCommand : Real := 0
  headingError : Real := 0
  command : Real := 0
  mode : Text := lit "compass"
  pilot : Text := lit "basic"
  tackState : Bool := false
  deriving DecidableEq

structure Imu where
  heading : Real := 0
  valid : Bool := false
  timestampUs : ℕ := 0
  deriving DecidableEq

structure Wind where
  apparentDirection : SourceStamped := {}
  apparentSpeed : SourceStamped := {}
  deriving DecidableEq

structure RudderState where
  angle : SourceStamped := {}
  speed : SourceStamped := {}
  offset : Real := 0
  scale : Real := 100
  nonlinearity : Real := 0
  range : Real := 45
  raw : Real := 0
  rawValid : Bool := false
  rawTimestampUs : ℕ := 0
  -- the `float`s next to -0.45 and 0.45
  minRaw : Real := .fin (-7549747 / 16777216)
  maxRaw : Real := .fin (7549747 / 16777216)
  lastDevice : Text := []
  deriving DecidableEq

structure Apb where
  senderId : Text := []
  modeHint : Bool := false
  deriving DecidableEq

structure ServoState where
  command : Real := 0
  voltage : Real := 0
  current : Real := 0
  rawCommand : Real := 0
  state : Text := lit "none"
  flags : ℕ := 0
  engaged : Bool := false
  fault : Bool := false
  deriving DecidableEq

/-- `DataModel<Real>`. -/
structure PypilotState where
  server : Server := {}
  ap : Ap := {}
  imu : Imu := {}
  wind : Wind := {}
  rudder : RudderState := {}
  apb : Apb := {}
  servo : ServoState := {}
  deriving DecidableEq

end Pypilot
