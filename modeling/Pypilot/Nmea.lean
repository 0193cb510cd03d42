import Pypilot.DataModel
import Pypilot.Lib.Strtof

/-!
# NMEA 0183 input

`nmea0183.hpp` and `nmea.cpp`: sentences `$talker type , fields * checksum` and what they set in the
state.
-/

namespace Pypilot

open Text

namespace Nmea

structure Sentence where
  talker : Text := []
  type : Text := []
  fields : List Text := []
  checksumOk : Bool := false
  deriving DecidableEq

def checksumBody (body : Text) : Byte := body.foldl (· ^^^ ·) 0

/-- The value of a hexadecimal digit, `none` for -1. -/
def hexValue (c : Byte) : Option ℕ := Strtof.digitValue c

/-- `parse_real`: a literal at the front of the field, up to its first NUL. -/
def parseReal (m : Machine) (field : Text) : Option Real :=
  (Strtof.strtof field).map fun p => m.toReal p.1

def splitFields (body : Text) : List Text := body.splitOn (chr ',')

/-- Whether the two characters after the star are the checksum of the body. -/
def checksumMatches (body tail : Text) : Bool :=
  match tail with
  | h :: l :: _ =>
    match hexValue h, hexValue l with
    | some hi, some lo => checksumBody body = UInt8.ofNat ((hi <<< 4) ||| lo)
    | _, _ => false
  | _ => false

/-- `parse_line`: what it returns, and its out-parameter. The verdict on the checksum is there before the
header is looked at, and stays when that is too short. -/
def parseLineOut (line : Text) : Bool × Sentence :=
  match line with
  | [] => (false, {})
  | c :: _ =>
    if c ≠ chr '$' then (false, {})
    else
      let rest := (line.rdropWhile fun c => c = chr '\r' || c = chr '\n').drop 1
      let (body, ok) :=
        match cut (chr '*') rest with
        | some (body, tail) => (body, checksumMatches body tail)
        | none => (rest, false)
      let sentence : Sentence := { checksumOk := ok }
      match splitFields body with
      | [] => (false, sentence)
      | header :: fields =>
        if header.length < 3 then (false, sentence)
        else (true, { sentence with talker := header.take (header.length - 3),
                                    type := header.drop (header.length - 3),
                                    fields := fields })

/-- The sentence of a line that `parse_line` accepts. -/
def parseLine (line : Text) : Option Sentence :=
  match parseLineOut line with
  | (true, sentence) => some sentence
  | (false, _) => none

/-- A new value with its time and source. -/
def stamp (value : Real) (nowUs : ℕ) (source : SensorSource) : SourceStamped :=
  { value := value, timestampUs := nowUs, source := source, valid := true }

/-- `apply_sentence`. The checksum is not looked at. -/
def applySentence (m : Machine) (sentence : Sentence) (st : PypilotState) (nowUs : ℕ)
    (source : SensorSource) : Bool × PypilotState :=
  if sentence.type = lit "HDT" ∨ sentence.type = lit "HDM" then
    match sentence.fields.head?.bind (parseReal m) with
    | some heading => (true, { st with imu := ⟨heading, true, nowUs⟩ })
    | none => (false, st)
  else if sentence.type = lit "MWV" then
    if 4 ≤ sentence.fields.length then
      match (sentence.fields[0]?).bind (parseReal m), (sentence.fields[2]?).bind (parseReal m) with
      | some angle, some speed =>
        (true, { st with wind := ⟨stamp angle nowUs source, stamp speed nowUs source⟩ })
      | _, _ => (false, st)
    else (false, st)
  else if sentence.type = lit "RSA" then
    match sentence.fields.head?.bind (parseReal m) with
    | some angle => (true, { st with rudder.angle := stamp (-angle) nowUs source })
    | none => (false, st)
  else if sentence.type = lit "APB" then
    (true, { st with apb := ⟨sentence.talker, true⟩ })
  else (false, st)

/-- `Nmea::feed_line`, at the clock reading `nowUs`. -/
def feedLine (m : Machine) (line : Text) (source : SensorSource) (nowUs : ℕ)
    (st : PypilotState) : Bool × PypilotState :=
  match parseLine line with
  | none => (false, st)
  | some sentence => applySentence m sentence st nowUs source

end Nmea

end Pypilot
