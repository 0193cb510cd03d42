import Pypilot.DriverStream
import Pypilot.Servo

/-!
# Telemetry

What the packets of the driver make of the six values of the state that come from it. The servo keeps one
sample, collects bits over the packets of a call and copies the fields of these bits; the reference copies
the value of every packet at once (`Telemetry.absorbPacket`). Both give the same
(`feedAll_telemetry`), however the stream is cut into calls.
-/

namespace Pypilot

open ServoProtocol

/-- The values that come from the driver. -/
structure Telemetry where
  voltage : Real
  current : Real
  flags : ℕ
  engaged : Bool
  raw : Real
  rawValid : Bool
  deriving DecidableEq

def PypilotState.telemetry (st : PypilotState) : Telemetry :=
  ⟨st.servo.voltage, st.servo.current, st.servo.flags, st.servo.engaged, st.rudder.raw,
    st.rudder.rawValid⟩

namespace Telemetry

/-! ## The reference -/

/-- The values after one packet. -/
def absorbPacket (t : Telemetry) (p : Packet) : Telemetry :=
  if p.code = 0xb3 then { t with voltage := .fin p.value / 100 }
  else if p.code = 0x1c then { t with current := .fin p.value / 100 }
  else if p.code = 0xa7 then
    { t with raw := .fin p.value / 65472 - .fin (1 / 2), rawValid := true }
  else if p.code = 0x8f then
    { t with flags := p.value, engaged := decide (p.value &&& engagedFlag ≠ 0) }
  else t

/-- The value of the last packet of a code. -/
def lastValue (code : Byte) (ps : List Packet) : Option ℕ :=
  ((ps.filter fun p => p.code = code).getLast?).map Packet.value

/-- The values after some packets, by the last one of each code. -/
def absorb (t : Telemetry) (ps : List Packet) : Telemetry where
  voltage := (lastValue 0xb3 ps).elim t.voltage fun v => .fin v / 100
  current := (lastValue 0x1c ps).elim t.current fun v => .fin v / 100
  flags := (lastValue 0x8f ps).getD t.flags
  engaged := (lastValue 0x8f ps).elim t.engaged fun v => decide (v &&& engagedFlag ≠ 0)
  raw := (lastValue 0xa7 ps).elim t.raw fun v => .fin v / 65472 - .fin (1 / 2)
  rawValid := t.rawValid || (lastValue 0xa7 ps).isSome

theorem lastValue_concat (code : Byte) (ps : List Packet) (p : Packet) :
    lastValue code (ps ++ [p]) = if p.code = code then some p.value else lastValue code ps := by
  unfold lastValue
  by_cases h : p.code = code <;> simp [h]

/-- Packet by packet the last one of each code counts. -/
theorem foldl_absorbPacket (t : Telemetry) (ps : List Packet) :
    ps.foldl absorbPacket t = t.absorb ps := by
  induction ps using List.reverseRecOn with
  | nil => simp [absorb, lastValue]
  | append_singleton ps p ih =>
    rw [List.foldl_append, ih, List.foldl_cons, List.foldl_nil]
    unfold absorb absorbPacket
    simp only [lastValue_concat]
    split_ifs with h₁ h₂ h₃ h₄
    all_goals simp_all

/-! ## The servo -/

/-- The fields of a mask, from a sample. -/
def take (t : Telemetry) (mask : ℕ) (s : TelemetrySample) : Telemetry where
  voltage := if mask &&& voltageBit ≠ 0 then s.voltage else t.voltage
  current := if mask &&& currentBit ≠ 0 then s.current else t.current
  flags := if mask &&& flagsBit ≠ 0 then s.flags else t.flags
  engaged := if mask &&& flagsBit ≠ 0 then decide (s.flags &&& engagedFlag ≠ 0) else t.engaged
  raw := if mask &&& rudderBit ≠ 0 then s.rudder else t.raw
  rawValid := if mask &&& rudderBit ≠ 0 then true else t.rawValid

theorem applyDriverSample_telemetry (servo : Servo) (st : PypilotState) (mask nowUs : ℕ) :
    (servo.applyDriverSample st mask nowUs).telemetry = st.telemetry.take mask servo.sample := by
  unfold Servo.applyDriverSample PypilotState.telemetry take
  dsimp only
  split_ifs <;> rfl

theorem take_zero (t : Telemetry) (s : TelemetrySample) : t.take 0 s = t := by
  unfold take
  simp

/-- A packet applied to the sample and then taken over is absorbed. -/
theorem take_applyPacket (t : Telemetry) (mask : ℕ) (s : TelemetrySample) (p : Packet) :
    t.take (mask ||| (applyPacket p s).1) (applyPacket p s).2 =
      (t.take mask s).absorbPacket p := by
  have hbits : ∀ b c : ℕ, b &&& c = 0 → (mask ||| b) &&& c = mask &&& c := by
    intro b c h
    rw [Nat.and_or_distrib_right, h, Nat.or_zero]
  have hset : ∀ b : ℕ, b ≠ 0 → (mask ||| b) &&& b ≠ 0 := by
    intro b hb h
    rw [Nat.and_or_distrib_right, Nat.and_self, Nat.or_eq_zero_iff] at h
    exact hb h.2
  unfold applyPacket absorbPacket
  dsimp only
  split_ifs with h₁ h₂ h₃ h₄
  · have hv := hset voltageBit (by decide)
    simp [take, hv, hbits voltageBit currentBit (by decide), hbits voltageBit flagsBit (by decide),
      hbits voltageBit rudderBit (by decide)]
  · have hc := hset currentBit (by decide)
    simp [take, hc, hbits currentBit voltageBit (by decide), hbits currentBit flagsBit (by decide),
      hbits currentBit rudderBit (by decide)]
  · have hr := hset rudderBit (by decide)
    simp [take, hr, hbits rudderBit voltageBit (by decide), hbits rudderBit flagsBit (by decide),
      hbits rudderBit currentBit (by decide)]
  · have hf := hset flagsBit (by decide)
    simp [take, hf, hbits flagsBit voltageBit (by decide), hbits flagsBit currentBit (by decide),
      hbits flagsBit rudderBit (by decide)]
  · simp

theorem take_applyAll (t : Telemetry) (ps : List Packet) (mask : ℕ) (s : TelemetrySample) :
    t.take (applyAll ps (mask, s)).1 (applyAll ps (mask, s)).2 =
      ps.foldl absorbPacket (t.take mask s) := by
  induction ps generalizing mask s with
  | nil => rfl
  | cons p ps ih =>
    rw [List.foldl_cons, ← take_applyPacket, ← ih]
    rfl

end Telemetry

/-! ## Calls -/

open Telemetry

namespace Servo

/-- One call: the packets of its bytes are absorbed, and the rest waits. -/
theorem feedDriverBytes_telemetry (servo : Servo) (st : PypilotState) (bytes : Text) (nowUs : ℕ) :
    (servo.feedDriverBytes st bytes nowUs).2.1.parser = leftover (servo.parser ++ bytes) ∧
      (servo.feedDriverBytes st bytes nowUs).2.2.telemetry =
        (packets (servo.parser ++ bytes)).foldl absorbPacket st.telemetry := by
  have htake := take_applyAll st.telemetry (packets (servo.parser ++ bytes)) 0 servo.sample
  rw [take_zero] at htake
  unfold feedDriverBytes
  rw [parse_eq]
  refine ⟨rfl, ?_⟩
  rw [← htake]
  dsimp only
  generalize applyAll (packets (servo.parser ++ bytes)) (0, servo.sample) = q
  split_ifs with hmask
  · exact applyDriverSample_telemetry _ st q.1 nowUs
  · rw [not_not.mp hmask, take_zero]

/-- A sequence of calls, each with its bytes and its clock reading. -/
def feedAll (servo : Servo) (st : PypilotState) (calls : List (Text × ℕ)) : Servo × PypilotState :=
  calls.foldl (fun p call => (p.1.feedDriverBytes p.2 call.1 call.2).2) (servo, st)

/-- **Calls.** The packets of the stream are absorbed, however it is cut. -/
theorem feedAll_telemetry {servo : Servo} (hbuf : servo.parser.length < 4) (st : PypilotState)
    (calls : List (Text × ℕ)) :
    (servo.feedAll st calls).2.telemetry =
      (packets (servo.parser ++ (calls.map Prod.fst).flatten)).foldl absorbPacket st.telemetry := by
  induction calls generalizing servo st with
  | nil =>
    rw [List.map_nil, List.flatten_nil, List.append_nil, packets_eq_nil hbuf]
    rfl
  | cons call calls ih =>
    obtain ⟨hparser, htelemetry⟩ := feedDriverBytes_telemetry servo st call.1 call.2
    have hrest : (servo.feedDriverBytes st call.1 call.2).2.1.parser.length < 4 := by
      rw [hparser, leftover_length]
      exact Nat.mod_lt _ (by decide)
    have hstep := ih hrest (servo.feedDriverBytes st call.1 call.2).2.2
    rw [hparser, htelemetry, ← List.foldl_append, ← packets_append] at hstep
    rw [List.map_cons, List.flatten_cons, ← List.append_assoc]
    exact hstep

end Servo

/-- **Telemetry.** From an empty parser buffer, two ways of cutting a stream into calls give the same
telemetry, and the telemetry of a stream of frames is given by the last frame of each code. -/
theorem telemetry_chunks (servo : Servo) (st : PypilotState) (hempty : servo.parser = [])
    (calls : List (Text × ℕ)) :
    (∀ calls' : List (Text × ℕ),
        (calls'.map Prod.fst).flatten = (calls.map Prod.fst).flatten →
        (servo.feedAll st calls').2.telemetry = (servo.feedAll st calls).2.telemetry) ∧
      ∀ ps : List Packet, (∀ p ∈ ps, p.value < 2 ^ 16) →
        (calls.map Prod.fst).flatten = frames ps →
        (servo.feedAll st calls).2.telemetry = st.telemetry.absorb ps := by
  have hbuf : servo.parser.length < 4 := by rw [hempty]; decide
  constructor
  · intro calls' hsame
    rw [Servo.feedAll_telemetry hbuf, Servo.feedAll_telemetry hbuf, hsame]
  · intro ps hps hframes
    rw [Servo.feedAll_telemetry hbuf, hframes, hempty, List.nil_append, packets_frames hps,
      foldl_absorbPacket]

/-- A voltage and two flag words, the last of them cut in two and followed by an empty call. -/
theorem telemetry_chunks_session :
    let ps : List Packet := [⟨0xb3, 1250⟩, ⟨0x8f, 8⟩, ⟨0x8f, 2⟩]
    let calls : List (Text × ℕ) :=
      [((frames ps).take 9, 1), ((frames ps).drop 9, 2), ([], 3)]
    (Servo.feedAll {} {} calls).2.telemetry = ({} : PypilotState).telemetry.absorb ps :=
  (telemetry_chunks {} {} rfl _).2 _ (by decide) (by decide +kernel)

end Pypilot
