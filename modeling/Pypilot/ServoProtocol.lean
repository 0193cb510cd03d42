import Pypilot.DataModel

/-!
# The servo protocol

`servo_protocol.hpp`: frames of four bytes (a code, a value with the low byte first, a CRC) to and
from the motor driver, and the parser of the driver's telemetry.
-/

namespace Pypilot

namespace ServoProtocol

/-! ## Codes -/

def commandCode : Byte := 0xc7
def resetCode : Byte := 0xe7
def disengageCode : Byte := 0x68

/-- Bits of a telemetry mask. -/
def flagsBit : ℕ := 1
def currentBit : ℕ := 2
def voltageBit : ℕ := 4
def rudderBit : ℕ := 128

/-- The bit of the driver's flags that says the motor is engaged. -/
def engagedFlag : ℕ := 8

/-! ## Frames -/

def crc8Bit (crc : Byte) : Byte := if crc &&& 0x80 ≠ 0 then (crc <<< 1) ^^^ 0x31 else crc <<< 1

def crc8Update (crc byte : Byte) : Byte := crc8Bit^[8] (crc ^^^ byte)

def crc8 (data : Text) : Byte := data.foldl crc8Update 0xff

/-- Bytes followed by their CRC. -/
def withCrc (payload : Text) : Text := payload ++ [crc8 payload]

def encode (code : Byte) (value : ℕ) : Text :=
  withCrc [code, UInt8.ofNat (value &&& 0xff), UInt8.ofNat ((value >>> 8) &&& 0xff)]

structure Packet where
  code : Byte
  value : ℕ
  deriving DecidableEq

def decode (b₀ b₁ b₂ b₃ : Byte) : Option Packet :=
  if crc8 [b₀, b₁, b₂] ≠ b₃ then none
  else some ⟨b₀, b₁.toNat ||| (b₂.toNat <<< 8)⟩

/-- The clamped command goes out in thousandths above -1; a command that is not a number is converted
all the same. -/
def encodeCommand (m : Machine) (command : Real) : Text :=
  encode commandCode (((ExtRat.clamp command (-1) 1 + 1) * 1000).toUnsigned m.wildCast 16)

def encodeReset : Text := encode resetCode 0

def encodeDisengage : Text := encode disengageCode 0

/-! ## Telemetry -/

structure TelemetrySample where
  mask : ℕ := 0
  current : Real := 0
  voltage : Real := 0
  rudder : Real := .nan
  flags : ℕ := 0
  deriving DecidableEq

/-- The bit of the packet's code, and the sample with its value. -/
def applyPacket (p : Packet) (s : TelemetrySample) : ℕ × TelemetrySample :=
  let v : Real := .fin p.value
  if p.code = 0xb3 then
    (voltageBit, { s with voltage := v / 100, mask := s.mask ||| voltageBit })
  else if p.code = 0x1c then
    (currentBit, { s with current := v / 100, mask := s.mask ||| currentBit })
  else if p.code = 0xa7 then
    (rudderBit, { s with rudder := v / 65472 - .fin (1 / 2), mask := s.mask ||| rudderBit })
  else if p.code = 0x8f then
    (flagsBit, { s with flags := p.value, mask := s.mask ||| flagsBit })
  else (0, s)

/-- The loop of `Parser::feed`: four bytes at a time, whatever their CRC. The bytes left over, the
bits seen and the sample. -/
def parse : Text → ℕ → TelemetrySample → Text × ℕ × TelemetrySample
  | b₀ :: b₁ :: b₂ :: b₃ :: rest, mask, s =>
    match decode b₀ b₁ b₂ b₃ with
    | some p => parse rest (mask ||| (applyPacket p s).1) (applyPacket p s).2
    | none => parse rest mask s
  | rest, mask, s => (rest, mask, s)

end ServoProtocol

end Pypilot
