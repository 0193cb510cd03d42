import Pypilot.Lib.Run
import Pypilot.Telemetry

/-!
# The age of rudder samples

Samples of the rudder arrive in packets of the driver and in calls of `Rudder::update`. `Rudder::poll` puts
the stored sample through `update` once more and stamps it with the time of the poll, so the stamps tell
the age of the sample only as long as no such poll comes later than the sample (`rudder_age_iff`).
-/

namespace Pypilot

open Text ServoProtocol Telemetry

/-! ## Arrival -/

/-- The value of the last RUDDER packet that a call completes. -/
def Servo.rudderPacket (servo : Servo) (bytes : Text) : Option ℕ :=
  lastValue 0xa7 (packets (servo.parser ++ bytes))

/-- A call of `feed_driver_bytes` puts in what a RUDDER packet says, with the time. -/
theorem Servo.feedDriverBytes_rudder (servo : Servo) (st : PypilotState) (bytes : Text) (nowUs : ℕ) :
    (servo.feedDriverBytes st bytes nowUs).2.2.rudder =
      (servo.rudderPacket bytes).elim st.rudder fun v =>
        { st.rudder with raw := .fin v / 65472 - .fin (1 / 2), rawValid := true,
                         rawTimestampUs := nowUs, lastDevice := lit "servo" } := by
  have htake : ∀ t : Telemetry, _ :=
    fun t => take_applyAll t (packets (servo.parser ++ bytes)) 0 servo.sample
  simp only [take_zero, foldl_absorbPacket] at htake
  unfold feedDriverBytes rudderPacket
  rw [parse_eq]
  generalize applyAll (packets (servo.parser ++ bytes)) (0, servo.sample) = q at htake ⊢
  obtain ⟨mask, sample⟩ := q
  have hvalid := congrArg rawValid (htake { st.telemetry with rawValid := false })
  have hraw := congrArg raw (htake st.telemetry)
  unfold take absorb at hvalid hraw
  dsimp only at hvalid hraw ⊢
  cases hlast : lastValue 0xa7 (packets (servo.parser ++ bytes)) with
  | none =>
    rw [hlast] at hvalid
    have hbit : ¬ mask &&& rudderBit ≠ 0 := fun h => by simp [h] at hvalid
    unfold applyDriverSample
    dsimp only
    rw [if_neg hbit]
    split_ifs <;> rfl
  | some v =>
    rw [hlast] at hvalid hraw
    have hbit : mask &&& rudderBit ≠ 0 := by
      intro h
      rw [if_neg (not_not.mpr h)] at hvalid
      exact Bool.false_ne_true hvalid
    have hmask : mask ≠ 0 := by
      rintro rfl
      exact hbit (Nat.zero_and _)
    rw [if_pos hbit] at hraw
    unfold applyDriverSample
    dsimp only
    rw [if_pos hmask, if_pos hbit, hraw]
    split_ifs <;> rfl

/-! ## Runs -/

/-- The servo and the state, the time, and the time of the last sample. -/
structure RudderRun where
  servo : Servo
  state : PypilotState
  nowUs : ℕ
  sampleUs : ℕ

inductive RudderCall
  | feedDriverBytes (bytes : Text)
  | update (raw : Real) (device : Text)
  | poll
  deriving DecidableEq

namespace RudderRun

def step (p : RudderRun) (call : ℕ × RudderCall) : RudderRun :=
  let nowUs := p.nowUs + call.1
  match call.2 with
  | .feedDriverBytes bytes =>
    let (_, servo, state) := p.servo.feedDriverBytes p.state bytes nowUs
    { servo := servo, state := state, nowUs := nowUs,
      sampleUs := if (p.servo.rudderPacket bytes).isSome then nowUs else p.sampleUs }
  | .update raw device =>
    { p with state.rudder := (p.state.rudder.update raw device nowUs).2, nowUs := nowUs,
             sampleUs := nowUs }
  | .poll => { p with state.rudder := p.state.rudder.poll nowUs, nowUs := nowUs }

def start (servo : Servo) (st : PypilotState) (nowUs : ℕ) : RudderRun := ⟨servo, st, nowUs, nowUs⟩

/-- Where there is a sample or an angle, the stamps are not later than the last sample. -/
def NotNewer (p : RudderRun) : Prop :=
  p.state.rudder.angle.valid = true ∨ p.state.rudder.rawValid = true →
    p.state.rudder.rawTimestampUs ≤ p.sampleUs ∧ p.state.rudder.angle.timestampUs ≤ p.sampleUs

/-- The call is a poll that finds a sample of a device, and comes after its arrival. -/
def Restamps (p : RudderRun) (call : ℕ × RudderCall) : Prop :=
  call.2 = .poll ∧ p.state.rudder.rawValid = true ∧ p.state.rudder.lastDevice ≠ [] ∧
    p.sampleUs < p.nowUs + call.1

/-- All stamps are those of samples, and a sample is a number. -/
structure Inv (p : RudderRun) : Prop where
  rawTime : p.state.rudder.rawTimestampUs ≤ p.sampleUs
  angleTime : p.state.rudder.angle.timestampUs ≤ p.sampleUs
  sampleTime : p.sampleUs ≤ p.nowUs
  number : p.state.rudder.rawValid = true → p.state.rudder.raw ≠ .nan

end RudderRun

namespace RudderState

theorem updateMinmax_frame (r : RudderState) :
    ∃ lo hi, r.updateMinmax = { r with minRaw := lo, maxRaw := hi } := by
  unfold updateMinmax
  dsimp only
  split_ifs <;> exact ⟨_, _, rfl⟩

theorem update_cases (r : RudderState) (raw : Real) (device : Text) (nowUs : ℕ) :
    (device ≠ r.lastDevice ∨ raw = .nan) ∧ (r.update raw device nowUs).2.angle.valid = false ∧
        (r.update raw device nowUs).2.rawValid = false ∧
        (r.update raw device nowUs).2.rawTimestampUs = r.rawTimestampUs ∧
        (r.update raw device nowUs).2.angle.timestampUs = r.angle.timestampUs ∨
      (device = r.lastDevice ∧ raw ≠ .nan) ∧ (r.update raw device nowUs).2.angle.valid = true ∧
        (r.update raw device nowUs).2.raw = raw ∧
        (r.update raw device nowUs).2.rawTimestampUs = nowUs ∧
        (r.update raw device nowUs).2.angle.timestampUs = nowUs := by
  unfold update
  split_ifs with hdevice hnan
  · exact .inl ⟨.inl hdevice, rfl, rfl, rfl, rfl⟩
  · exact .inl ⟨.inr hnan, rfl, rfl, rfl, rfl⟩
  · obtain ⟨lo, hi, hframe⟩ :=
      updateMinmax_frame { r with raw := raw, rawValid := true, rawTimestampUs := nowUs }
    refine .inr ⟨⟨not_not.mp hdevice, hnan⟩, rfl, ?_, ?_, rfl⟩
    · dsimp only
      rw [hframe]
    · dsimp only
      rw [hframe]

end RudderState

namespace RudderRun

open RudderState

variable {p : RudderRun} {call : ℕ × RudderCall}

/-- What a poll does: nothing but the limits without a sample, a reset where the sample has no device, and
otherwise an update with the sample. -/
theorem poll_cases (h : p.Inv) (nowUs : ℕ) :
    let r := p.state.rudder.poll nowUs
    (p.state.rudder.rawValid = false ∨ p.state.rudder.lastDevice = []) ∧
        (r.angle.valid = true → p.state.rudder.angle.valid = true) ∧ r.rawValid = false ∧
        r.rawTimestampUs = p.state.rudder.rawTimestampUs ∧
        r.angle.timestampUs = p.state.rudder.angle.timestampUs ∨
      (p.state.rudder.rawValid = true ∧ p.state.rudder.lastDevice ≠ []) ∧
        r.angle.valid = true ∧ r.raw ≠ .nan ∧ r.rawTimestampUs = nowUs ∧
        r.angle.timestampUs = nowUs := by
  intro r
  obtain ⟨lo, hi, hframe⟩ := updateMinmax_frame p.state.rudder
  have hr : r = p.state.rudder.poll nowUs := rfl
  unfold poll at hr
  rw [hframe] at hr
  dsimp only at hr
  cases hvalid : p.state.rudder.rawValid with
  | false =>
    rw [hvalid, if_neg Bool.false_ne_true] at hr
    rw [hr]
    exact .inl ⟨.inl rfl, id, rfl, rfl, rfl⟩
  | true =>
    rw [hvalid, if_pos rfl] at hr
    by_cases hdevice : p.state.rudder.lastDevice = []
    · rw [if_pos hdevice] at hr
      rcases update_cases { p.state.rudder with rawValid := true, minRaw := lo, maxRaw := hi }
          p.state.rudder.raw (lit "servo") nowUs with
        ⟨-, hangle, hraw, hrawTime, hangleTime⟩ | ⟨⟨hsame, -⟩, -⟩
      · rw [← hr] at hangle hraw hrawTime hangleTime
        refine .inl ⟨.inr hdevice, fun h => ?_, hraw, hrawTime, hangleTime⟩
        exact absurd (hangle.symm.trans h) (by decide)
      · exact absurd (hsame.trans hdevice) (by decide)
    · rw [if_neg hdevice] at hr
      rcases update_cases { p.state.rudder with rawValid := true, minRaw := lo, maxRaw := hi }
          p.state.rudder.raw p.state.rudder.lastDevice nowUs with
        ⟨hrefused, -⟩ | ⟨-, hangle, hraw, hrawTime, hangleTime⟩
      · exact absurd hrefused (not_or.mpr ⟨not_not.mpr rfl, h.number hvalid⟩)
      · rw [← hr] at hangle hraw hrawTime hangleTime
        exact .inr ⟨⟨rfl, hdevice⟩, hangle, hraw.trans_ne (h.number hvalid), hrawTime, hangleTime⟩

/-- **One call.** The stamps stay those of samples unless a poll renews them. -/
theorem step_inv (h : p.Inv) (hnot : ¬ p.Restamps call) : (p.step call).Inv := by
  obtain ⟨elapsed, call⟩ := call
  have hlater : p.sampleUs ≤ p.nowUs + elapsed := h.sampleTime.trans (Nat.le_add_right _ _)
  cases call with
  | feedDriverBytes bytes =>
    have hrudder := p.servo.feedDriverBytes_rudder p.state bytes (p.nowUs + elapsed)
    unfold step
    dsimp only
    cases hpacket : p.servo.rudderPacket bytes with
    | none =>
      rw [hpacket, Option.elim_none] at hrudder
      refine ⟨?_, ?_, hlater, ?_⟩
      · rw [hrudder]
        exact h.rawTime
      · rw [hrudder]
        exact h.angleTime
      · rw [hrudder]
        exact h.number
    | some v =>
      rw [hpacket, Option.elim_some] at hrudder
      refine ⟨?_, ?_, le_rfl, ?_⟩
      · rw [hrudder]
        exact le_rfl
      · rw [hrudder]
        exact h.angleTime.trans hlater
      · rw [hrudder]
        rintro -
        dsimp only
        rw [show (65472 : Real) = .fin 65472 from rfl, ExtRat.fin_div_fin _ (by norm_num),
          ExtRat.fin_sub_fin]
        exact ExtRat.noConfusion
  | update raw device =>
    unfold step
    dsimp only
    rcases update_cases p.state.rudder raw device (p.nowUs + elapsed) with
      ⟨-, -, hraw, hrawTime, hangleTime⟩ | ⟨⟨-, hnumber⟩, -, hraw, hrawTime, hangleTime⟩
    · refine ⟨?_, ?_, le_rfl, fun hvalid => ?_⟩
      · rw [hrawTime]
        exact h.rawTime.trans hlater
      · rw [hangleTime]
        exact h.angleTime.trans hlater
      · exact absurd (hraw.symm.trans hvalid) (by decide)
    · exact ⟨hrawTime.le, hangleTime.le, le_rfl, fun _ => hraw.trans_ne hnumber⟩
  | poll =>
    unfold step
    dsimp only
    rcases poll_cases h (p.nowUs + elapsed) with
      ⟨-, -, hraw, hrawTime, hangleTime⟩ | ⟨⟨hvalid, hdevice⟩, -, hraw, hrawTime, hangleTime⟩
    · refine ⟨hrawTime.trans_le h.rawTime, hangleTime.trans_le h.angleTime, hlater, fun hvalid => ?_⟩
      exact absurd (hraw.symm.trans hvalid) (by decide)
    · have hnow : p.nowUs + elapsed ≤ p.sampleUs :=
        not_lt.mp fun hlt => hnot ⟨rfl, hvalid, hdevice, hlt⟩
      exact ⟨hrawTime.trans_le hnow, hangleTime.trans_le hnow, hlater, fun _ => hraw⟩

theorem notNewer_step_iff (h : p.Inv) : (p.step call).NotNewer ↔ ¬ p.Restamps call := by
  constructor
  · rintro hnewer ⟨hpoll, hvalid, hdevice, hlt⟩
    obtain ⟨elapsed, call⟩ := call
    obtain rfl : call = .poll := hpoll
    rcases poll_cases h (p.nowUs + elapsed) with ⟨hnone, -⟩ | ⟨-, hangle, -, hrawTime, -⟩
    · rcases hnone with hnone | hnone
      · exact absurd (hvalid.symm.trans hnone) (by decide)
      · exact hdevice hnone
    · have hle : (p.state.rudder.poll (p.nowUs + elapsed)).rawTimestampUs ≤ p.sampleUs :=
        (hnewer (.inl hangle)).1
      omega
  · intro hnot _
    have hnext := step_inv h hnot
    exact ⟨hnext.rawTime, hnext.angleTime⟩

/-- **The age of samples.** From a state with no stamps later than the start, after every call at
nondecreasing times the stamps are not later than the last sample, exactly when no poll that finds the
sample of a device comes later than it. -/
theorem rudder_age_iff (servo : Servo) (st : PypilotState) (nowUs : ℕ)
    (hvalid : st.rudder.rawValid = false) (hraw : st.rudder.rawTimestampUs ≤ nowUs)
    (hangle : st.rudder.angle.timestampUs ≤ nowUs) (calls : List (ℕ × RudderCall)) :
    (∀ q ∈ Run.steps step (start servo st nowUs) calls, (step q.1 q.2).NotNewer) ↔
      ∀ q ∈ Run.steps step (start servo st nowUs) calls, ¬ q.1.Restamps q.2 := by
  have hstart : (start servo st nowUs).Inv :=
    ⟨hraw, hangle, le_rfl, fun h => absurd (hvalid.symm.trans h) (by decide)⟩
  exact Run.forall_steps_congr (P := fun p call => (step p call).NotNewer)
    (C := fun p call => ¬ p.Restamps call) (fun _ _ => step_inv) (fun _ _ => notNewer_step_iff)
    hstart calls

theorem rudder_age_at_once :
    (step (step (start {} {} 0) (5, .feedDriverBytes (encode 0xa7 40000))) (0, .poll)).NotNewer := by
  have hmem : (step (start {} {} 0) (5, .feedDriverBytes (encode 0xa7 40000)), (0, .poll)) ∈
      Run.steps step (start {} {} 0) [(5, .feedDriverBytes (encode 0xa7 40000)), (0, .poll)] :=
    List.mem_cons_of_mem _ (List.mem_singleton.mpr rfl)
  have hnot : ∀ q ∈ Run.steps step (start {} {} 0)
      [(5, .feedDriverBytes (encode 0xa7 40000)), (0, .poll)], ¬ q.1.Restamps q.2 := by
    intro q hq hrestamps
    rcases List.mem_cons.mp hq with rfl | hq
    · exact nomatch hrestamps.1
    · obtain rfl := List.mem_singleton.mp hq
      exact absurd hrestamps.2.2.2 (by decide +kernel)
  have hnewer := (rudder_age_iff {} {} 0 rfl le_rfl le_rfl _).mpr hnot _ hmem
  exact hnewer

/-- A sample of the driver at 5, and a poll at 6, which stamps it with 6. -/
theorem rudder_age_restamped :
    ¬ ∀ (servo : Servo) (st : PypilotState) (nowUs : ℕ), st.rudder.rawValid = false →
      st.rudder.rawTimestampUs ≤ nowUs → st.rudder.angle.timestampUs ≤ nowUs →
      ∀ calls, ∀ q ∈ Run.steps step (start servo st nowUs) calls, (step q.1 q.2).NotNewer := by
  intro hclaim
  have h := hclaim {} {} 0 rfl le_rfl le_rfl
    [(5, .feedDriverBytes (encode 0xa7 40000)), (1, .poll)] _
    (List.mem_cons_of_mem _ (List.mem_singleton.mpr rfl))
  exact absurd (h (.inr (by decide +kernel))).1 (by decide +kernel)

end RudderRun

end Pypilot
