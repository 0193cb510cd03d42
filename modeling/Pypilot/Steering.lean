import Pypilot.DriverFrames
import Pypilot.IterationEnds

/-!
# The steering law

With the autopilot on an iteration turns the difference of the heading command and the heading of the
compass into an angle in [-180, 180), and that into one command for the driver (`iteration_steers`). The
command grows with the angle, and full circles do not matter.
-/

namespace Pypilot

open Text ServoProtocol

/-! ## Angles -/

/-- The angle in [-180, 180) that differs from `q` by full circles. -/
def wrap (q : ℚ) : ℚ := q - 360 * ⌊(q + 180) / 360⌋

theorem wrap_mem (q : ℚ) : -180 ≤ wrap q ∧ wrap q < 180 := by
  have hlow := Int.floor_le ((q + 180) / 360)
  have hhigh := Int.lt_floor_add_one ((q + 180) / 360)
  rw [le_div_iff₀ (by norm_num)] at hlow
  rw [div_lt_iff₀ (by norm_num)] at hhigh
  unfold wrap
  constructor <;> linarith

theorem wrap_add (q : ℚ) (k : ℤ) : wrap (q + 360 * k) = wrap q := by
  have hturn : (q + 360 * k + 180) / 360 = (q + 180) / 360 + k := by ring
  unfold wrap
  rw [hturn, Int.floor_add_intCast]
  push_cast
  ring

theorem wrap_eq_self {e : ℚ} (hlow : -180 ≤ e) (hhigh : e < 180) : wrap e = e := by
  have hfloor : ⌊(e + 180) / 360⌋ = 0 := by
    rw [Int.floor_eq_iff]
    constructor
    · rw [le_div_iff₀ (by norm_num)]
      push_cast
      linarith
    · rw [div_lt_iff₀ (by norm_num)]
      push_cast
      linarith
  unfold wrap
  rw [hfloor]
  simp

/-- There is one such angle. -/
theorem eq_wrap_iff {q e : ℚ} :
    (-180 ≤ e ∧ e < 180 ∧ ∃ k : ℤ, q = e + 360 * k) ↔ e = wrap q := by
  constructor
  · rintro ⟨hlow, hhigh, k, rfl⟩
    rw [wrap_add, wrap_eq_self hlow hhigh]
  · rintro rfl
    exact ⟨(wrap_mem q).1, (wrap_mem q).2, ⌊(q + 180) / 360⌋, by unfold wrap; ring⟩

/-- **Angles.** The loops of `resolv` turn a rational by full circles, the first one until it is at least
-180, the second until it is below 180 as well. -/
theorem resolv_fin {fuel : ℕ} {q : ℚ} {r : Real} (h : resolv fuel (.fin q) = some r) :
    r = .fin (wrap q) := by
  obtain ⟨x, hbelow, habove⟩ := Option.bind_eq_some_iff.mp h
  have hx : ∃ e, x = .fin e ∧ wrap e = wrap q ∧ -180 ≤ e := by
    refine Loop.exec_invariant (fun x => ∃ e : ℚ, x = ExtRat.fin e ∧ wrap e = wrap q)
      (fun x => ∃ e : ℚ, x = ExtRat.fin e ∧ wrap e = wrap q ∧ -180 ≤ e) ?_ ?_ ⟨q, rfl, rfl⟩ hbelow
    · rintro _ x' ⟨e, rfl, he⟩ hb
      rw [belowBody_fin] at hb
      split_ifs at hb
      refine ⟨e + 360, (Sum.inl.inj hb).symm, ?_⟩
      have hturn := wrap_add e 1
      rw [Int.cast_one, mul_one] at hturn
      rw [hturn, he]
    · rintro _ x' ⟨e, rfl, he⟩ hb
      rw [belowBody_fin] at hb
      split_ifs at hb with hlow
      exact ⟨e, (Sum.inr.inj hb).symm, he, not_lt.mp hlow⟩
  have hr : ∃ e, r = .fin e ∧ wrap e = wrap q ∧ -180 ≤ e ∧ e < 180 := by
    refine Loop.exec_invariant (fun x => ∃ e : ℚ, x = ExtRat.fin e ∧ wrap e = wrap q ∧ -180 ≤ e)
      (fun x => ∃ e : ℚ, x = ExtRat.fin e ∧ wrap e = wrap q ∧ -180 ≤ e ∧ e < 180) ?_ ?_ hx habove
    · rintro _ x' ⟨e, rfl, he, -⟩ hb
      rw [aboveBody_fin] at hb
      split_ifs at hb with hhigh
      refine ⟨e - 360, (Sum.inl.inj hb).symm, ?_, by linarith⟩
      have hturn := wrap_add e (-1)
      rw [Int.cast_neg, Int.cast_one, mul_neg, mul_one, ← sub_eq_add_neg] at hturn
      rw [hturn, he]
    · rintro _ x' ⟨e, rfl, he, hlow⟩ hb
      rw [aboveBody_fin] at hb
      split_ifs at hb with hhigh
      exact ⟨e, (Sum.inr.inj hb).symm, he, hlow, not_le.mp hhigh⟩
  obtain ⟨e, rfl, he, hlow, hhigh⟩ := hr
  rw [← he, wrap_eq_self hlow hhigh]

/-! ## Commands -/

/-- The pilot's command for a heading error. -/
def steeringCommand (e : ℚ) : ℚ := max (-1) (min 1 (e / 30))

/-- The value of the frame for a heading error. -/
def steeringValue (e : ℚ) : ℕ := ⌊1000 * (steeringCommand e + 1)⌋₊

theorem steeringCommand_mem (e : ℚ) : -1 ≤ steeringCommand e ∧ steeringCommand e ≤ 1 :=
  ⟨le_max_left _ _, max_le (by norm_num) (min_le_left _ _)⟩

theorem steeringCommand_mono : Monotone steeringCommand := by
  intro e e' h
  unfold steeringCommand
  gcongr

/-- The more the boat has to turn, the more the rudder is moved. -/
theorem steeringValue_mono : Monotone steeringValue := by
  intro e e' h
  have hcommand := steeringCommand_mono h
  unfold steeringValue
  gcongr

theorem clamp_steering (e : ℚ) :
    ExtRat.clamp (.fin e / 30) (-1) 1 = .fin (steeringCommand e) := by
  have hdiv : (.fin e / 30 : ExtRat) = .fin (e / 30) := ExtRat.fin_div_fin e (by norm_num)
  rw [hdiv]
  exact ExtRat.clamp_fin (by norm_num) _

/-- A command in range is not changed. -/
theorem clamp_steeringCommand (e : ℚ) :
    ExtRat.clamp (.fin (steeringCommand e)) (-1) 1 = .fin (steeringCommand e) := by
  obtain ⟨hlow, hhigh⟩ := steeringCommand_mem e
  have hclamp : ExtRat.clamp (.fin (steeringCommand e)) (.fin (-1)) (.fin 1) =
      .fin (max (-1) (min 1 (steeringCommand e))) := ExtRat.clamp_fin (by norm_num) _
  rw [min_eq_right hhigh, max_eq_right hlow] at hclamp
  exact hclamp

theorem encodeCommand_steering (m : Machine) (e : ℚ) :
    encodeCommand m (.fin (steeringCommand e)) = encode commandCode (steeringValue e) := by
  obtain ⟨hlow, hhigh⟩ := steeringCommand_mem e
  rw [encodeCommand_eq, commandValue_fin, min_eq_right hhigh, max_eq_right hlow, mul_comm]
  rfl

/-! ## The iteration -/

/-- What an iteration with the heading error `e` leaves: one more frame, and the error and the command in
the state. -/
structure Steered (ap ap' : Autopilot) (st' : PypilotState) (e : ℚ) : Prop where
  tx : ap'.servo.tx = ap.servo.tx ++ encode commandCode (steeringValue e)
  headingError : st'.ap.headingError = .fin e
  command : st'.ap.command = .fin (steeringCommand e)
  servoCommand : st'.servo.command = .fin (steeringCommand e)
  rawCommand : st'.servo.rawCommand = .fin (steeringCommand e)

section Iteration

variable (m : Machine) {ap ap' : Autopilot}

/-- From the angle on, with the autopilot on and no tack under way. -/
theorem steer_steered (ap : Autopilot) (st : PypilotState) (rudderUs : ℕ) {e : ℚ} (hen : st.ap.enabled = true)
    (htack : st.ap.tackState = false) (he : st.ap.headingError = .fin e) :
    Steered ap (Autopilot.steer m rudderUs ap.servo st).1 (Autopilot.steer m rudderUs ap.servo st).2
      e := by
  unfold Autopilot.steer basicProcess Servo.setAutopilotEnabled Servo.poll Servo.rawCommand
  simp only [htack, hen, he, clamp_steering, clamp_steeringCommand, encodeCommand_steering,
    Bool.not_false, if_true]
  exact ⟨rfl, rfl, rfl, rfl, rfl⟩

/-- **One iteration.** -/
theorem iteration_steered {st st' : PypilotState} {fuel imuUs rudderUs : ℕ} {h c : ℚ} (hen : st.ap.enabled = true)
    (htack : st.ap.tackState = false) (hheading : st.imu.heading = .fin h)
    (hcommand : st.ap.headingCommand = .fin c)
    (hreturns : Autopilot.iteration m fuel imuUs rudderUs ap st = some (ap', st')) :
    Steered ap ap' st' (wrap (c - h)) := by
  have hread : Autopilot.readSensors m imuUs ap st = (ap.servo, (readImu imuUs st).2) := by
    unfold Autopilot.readSensors
    rw [hen]
    rfl
  rw [Autopilot.iteration_eq, Option.map_eq_some_iff] at hreturns
  obtain ⟨error, hresolv, hsteer⟩ := hreturns
  rw [hread] at hresolv hsteer
  unfold headingError at hresolv
  dsimp only [readImu] at hresolv hsteer
  rw [hheading, hcommand, ExtRat.fin_sub_fin] at hresolv
  rw [resolv_fin hresolv] at hsteer
  have hsteered := steer_steered m ap
    { st with
      ap.heading := st.imu.heading, ap.headingError := .fin (wrap (c - h)),
      imu.valid := true, imu.timestampUs := imuUs } rudderUs hen htack rfl
  rw [hsteer] at hsteered
  exact hsteered

end Iteration

/-- **The steering law.** With the autopilot on, no tack under way and rational angles an iteration returns,
and appends the frame of one command for the angle between command and heading. The angle is the only one
in [-180, 180) that differs from the two by full circles; the value of the frame is monotone in it; and
full circles added to the heading or to its command change nothing. -/
theorem iteration_steers (m : Machine) (ap : Autopilot) (st : PypilotState) (h c : ℚ)
    (hen : st.ap.enabled = true) (htack : st.ap.tackState = false)
    (hheading : st.imu.heading = .fin h) (hcommand : st.ap.headingCommand = .fin c) :
    (∀ e : ℚ, (-180 ≤ e ∧ e < 180 ∧ ∃ k : ℤ, c - h = e + 360 * k) ↔ e = wrap (c - h)) ∧
      ap.Returns m st ∧
      (∀ fuel imuUs rudderUs ap' st',
        Autopilot.iteration m fuel imuUs rudderUs ap st = some (ap', st') →
          Steered ap ap' st' (wrap (c - h))) ∧
      Monotone steeringValue ∧
      ∀ (k l : ℤ) fuel imuUs rudderUs ap' st',
        Autopilot.iteration m fuel imuUs rudderUs ap
            { st with
              ap.headingCommand := .fin (c + 360 * k), imu.heading := .fin (h + 360 * l) } =
          some (ap', st') →
        Steered ap ap' st' (wrap (c - h)) := by
  refine ⟨fun e => eq_wrap_iff, ?_, ?_, steeringValue_mono, ?_⟩
  · rw [returns_iff, hheading, hcommand, ExtRat.fin_sub_fin]
    exact ExtRat.not_isInf_fin _
  · exact fun _ _ _ _ _ hreturns => iteration_steered m hen htack hheading hcommand hreturns
  · intro k l fuel imuUs rudderUs ap' st' hreturns
    have hturn : wrap (c + 360 * k - (h + 360 * l)) = wrap (c - h) := by
      rw [← wrap_add (c - h) (k - l)]
      push_cast
      ring_nf
    rw [← hturn]
    have hen' : { st with
        ap.headingCommand := .fin (c + 360 * k), imu.heading := .fin (h + 360 * l) }.ap.enabled =
        true := hen
    exact iteration_steered m hen' htack rfl rfl hreturns

/-- Across the seam: from 170 degrees to -170 the boat turns by 20 to starboard. -/
theorem iteration_steers_seam :
    let st : PypilotState := { ap.enabled := true, ap.headingCommand := .fin (-170), imu.heading := .fin 170 }
    ∀ fuel imuUs rudderUs ap' st',
      Autopilot.iteration default fuel imuUs rudderUs ⟨{}⟩ st = some (ap', st') →
        ap'.servo.tx = encode commandCode 1666 ∧ st'.ap.headingError = .fin 20 := by
  intro st fuel imuUs rudderUs ap' st' hreturns
  have hsteered := (iteration_steers default ⟨{}⟩ st 170 (-170) rfl rfl rfl rfl).2.2.1
    fuel imuUs rudderUs ap' st' hreturns
  have herror : wrap (-170 - 170) = 20 := by decide +kernel
  have hvalue : steeringValue 20 = 1666 := by decide +kernel
  rw [herror] at hsteered
  exact ⟨by rw [hsteered.tx, hvalue]; rfl, hsteered.headingError⟩

end Pypilot
