import Mathlib.Algebra.Order.Archimedean.Basic
import Pypilot.Autopilot
import Pypilot.Effects
import Pypilot.Nmea

/-!
# The end of an iteration

The loops of `resolv` turn an angle by full circles until it is in range. They end on every rational
and on not-a-number, and never on an infinity. The angle is the difference of a command and a heading,
which lines and sentences store as they come.
-/

namespace Pypilot

open Text Server

/-! ## Angles -/

theorem belowBody_fin (q : ℚ) :
    belowBody (.fin q) = if q < -180 then .inl (.fin (q + 360)) else .inr (.fin q) :=
  if_congr ExtRat.fin_lt_fin rfl rfl

theorem aboveBody_fin (q : ℚ) :
    aboveBody (.fin q) = if 180 ≤ q then .inl (.fin (q - 360)) else .inr (.fin q) := by
  rw [← ExtRat.fin_sub_fin]
  exact if_congr ExtRat.fin_le_fin rfl rfl

/-- Below the range by at most `n` circles, `n` turns are enough. -/
theorem exec_belowBody {n : ℕ} {q : ℚ} (hq : -180 - 360 * n ≤ q) :
    ∃ r, Loop.exec belowBody (n + 1) (.fin q) = some (.fin r) := by
  induction n generalizing q with
  | zero =>
    have hin : ¬ q < -180 := by simpa using hq
    exact ⟨q, Loop.exec_leaves (by rw [belowBody_fin, if_neg hin]) 0⟩
  | succ n ih =>
    by_cases hlow : q < -180
    · rw [Loop.exec_goes_on (by rw [belowBody_fin, if_pos hlow])]
      refine ih ?_
      push_cast at hq
      linarith
    · exact ⟨q, Loop.exec_leaves (by rw [belowBody_fin, if_neg hlow]) _⟩

/-- Above the range by less than `n + 1` circles, `n` turns are enough. -/
theorem exec_aboveBody {n : ℕ} {q : ℚ} (hq : q < 180 + 360 * n) :
    ∃ r, Loop.exec aboveBody (n + 1) (.fin q) = some (.fin r) := by
  induction n generalizing q with
  | zero =>
    have hin : ¬ 180 ≤ q := by simpa using hq
    exact ⟨q, Loop.exec_leaves (by rw [aboveBody_fin, if_neg hin]) 0⟩
  | succ n ih =>
    by_cases hhigh : 180 ≤ q
    · rw [Loop.exec_goes_on (by rw [aboveBody_fin, if_pos hhigh])]
      refine ih ?_
      push_cast at hq
      linarith
    · exact ⟨q, Loop.exec_leaves (by rw [aboveBody_fin, if_neg hhigh]) _⟩

/-- An infinity stays where it is. -/
theorem resolv_inf (fuel : ℕ) (s : Bool) : resolv fuel (.inf s) = none := by
  unfold resolv
  cases s with
  | true =>
    have hnone : Loop.exec belowBody fuel (.inf true) = none :=
      Loop.exec_eq_none (I := fun x => x = .inf true)
        (fun x hx => ⟨.inf true, by rw [hx]; exact if_pos rfl, rfl⟩) fuel rfl
    rw [hnone]
    rfl
  | false =>
    have hnone : Loop.exec aboveBody fuel (.inf false) = none :=
      Loop.exec_eq_none (I := fun x => x = .inf false)
        (fun x hx => ⟨.inf false, by rw [hx]; exact if_pos (.inl rfl), rfl⟩) fuel rfl
    cases fuel with
    | zero => rfl
    | succ n =>
      have hout : belowBody (.inf false) = .inr (.inf false) := if_neg Bool.false_ne_true
      rw [Loop.exec_leaves hout]
      exact hnone

/-- **Angles.** The loops of `resolv` end on an angle exactly when it is not infinite. -/
theorem resolv_returns_iff (angle : Real) :
    (∃ fuel, (resolv fuel angle).isSome) ↔ ¬ angle.IsInf := by
  constructor
  · rintro ⟨fuel, h⟩ hinf
    obtain ⟨s, rfl⟩ := ExtRat.isInf_iff.mp hinf
    rw [resolv_inf] at h
    exact Bool.false_ne_true h
  · intro hinf
    cases angle with
    | inf s => exact absurd (ExtRat.isInf_inf s) hinf
    | nan => exact ⟨1, rfl⟩
    | fin q =>
      obtain ⟨n, hn⟩ := exists_nat_ge ((-180 - q) / 360)
      have hn' : -180 - 360 * (n : ℚ) ≤ q := by
        rw [div_le_iff₀ (by norm_num)] at hn
        linarith
      obtain ⟨r, hr⟩ := exec_belowBody hn'
      obtain ⟨k, hk⟩ := exists_nat_gt ((r - 180) / 360)
      have hk' : r < 180 + 360 * (k : ℚ) := by
        rw [div_lt_iff₀ (by norm_num)] at hk
        linarith
      obtain ⟨t, ht⟩ := exec_aboveBody hk'
      refine ⟨max (n + 1) (k + 1), ?_⟩
      unfold resolv
      rw [Loop.exec_mono (Nat.le_max_left _ _) hr, Option.bind_some,
        Loop.exec_mono (Nat.le_max_right _ _) ht]
      rfl

/-! ## The iteration -/

/-- An iteration ends, with enough rounds for its loops, whatever the clock reads. -/
def Autopilot.Returns (m : Machine) (ap : Autopilot) (st : PypilotState) : Prop :=
  ∃ fuel, ∀ imuUs rudderUs, (Autopilot.iteration m fuel imuUs rudderUs ap st).isSome

/-- An iteration gets past its loops when `resolv` does on the command and the heading it finds. -/
theorem iteration_isSome (m : Machine) (fuel imuUs rudderUs : ℕ) (ap : Autopilot)
    (st : PypilotState) :
    (Autopilot.iteration m fuel imuUs rudderUs ap st).isSome =
      (resolv fuel (st.ap.headingCommand - st.imu.heading)).isSome := by
  have hframe := Servo.poll_frame m ap.servo st
  have hread : (Autopilot.readSensors m imuUs ap st).2.ap.headingCommand = st.ap.headingCommand ∧
      (Autopilot.readSensors m imuUs ap st).2.ap.heading = st.imu.heading := by
    unfold Autopilot.readSensors readImu
    by_cases hen : st.ap.enabled = true
    · simp [hen]
    · simp [hen, hframe]
  rw [Autopilot.iteration_eq, Option.isSome_map, headingError, hread.1, hread.2]

theorem iteration_eq_none (m : Machine) {st : PypilotState} {s : Bool}
    (h : st.ap.headingCommand - st.imu.heading = .inf s) (fuel imuUs rudderUs : ℕ)
    (ap : Autopilot) : Autopilot.iteration m fuel imuUs rudderUs ap st = none := by
  rw [← Option.isNone_iff_eq_none, ← Option.not_isSome, iteration_isSome, h, resolv_inf]
  rfl

theorem returns_iff (m : Machine) (ap : Autopilot) (st : PypilotState) :
    ap.Returns m st ↔ ¬ (st.ap.headingCommand - st.imu.heading).IsInf := by
  rw [← resolv_returns_iff]
  unfold Autopilot.Returns
  simp only [iteration_isSome, forall_const]

/-! ## Lines and sentences -/

/-- What comes in from outside: lines to the server and sentences from instruments. -/
inductive Input
  | line (text : Text) (nowUs : ℕ)
  | sentence (text : Text) (source : SensorSource) (nowUs : ℕ)

def Input.step {W : Type} (m : Machine) (out : ValueWriter W) (p : Store × W) :
    Input → Store × W
  | line text nowUs => (handleLine m text nowUs out p.1 p.2).2
  | sentence text source nowUs =>
    ({ p.1 with state := (Nmea.feedLine m text source nowUs p.1.state).2 }, p.2)

/-- The heading command after an input, when it was `v` before. -/
def Input.commanded (m : Machine) (v : Real) : Input → Real
  | line text _ =>
    match request text with
    | .assignment name value =>
      if name = lit "ap.heading_command" then (parseReal m value).getD v else v
    | _ => v
  | sentence _ _ _ => v

/-- The heading of the compass after an input, when it was `v` before. -/
def Input.sensed (m : Machine) (v : Real) : Input → Real
  | line _ _ => v
  | sentence text _ _ =>
    match Nmea.parseLine text with
    | some s =>
      if s.type = lit "HDT" ∨ s.type = lit "HDM" then
        (s.fields.head?.bind (Nmea.parseReal m)).getD v
      else v
    | none => v

theorem readReal_headingCommand {s : Store} (hat : s.values.attached = true) :
    s.readReal .apHeadingCommand = some s.state.ap.headingCommand := by
  unfold Store.readReal
  rw [if_neg (by simp [hat])]

theorem headingCommand_of_sameField {s s' : Store} (hat : s.values.attached = true)
    (hat' : s'.values.attached = true) (h : Store.SameField s s' .apHeadingCommand) :
    s'.state.ap.headingCommand = s.state.ap.headingCommand := by
  have hread := h.real
  rw [readReal_headingCommand hat, readReal_headingCommand hat'] at hread
  exact Option.some.inj hread

/-- An assignment, seen from the loop: only one to the heading command counts. -/
theorem setFromWire_headingCommand (m : Machine) {s : Store} (hat : s.values.attached = true)
    (name value : Text) :
    let s' := (s.setFromWire m name value true).2
    s'.values.attached = true ∧ s'.state.imu = s.state.imu ∧
      s'.state.ap.headingCommand =
        if name = lit "ap.heading_command" then (parseReal m value).getD s.state.ap.headingCommand
        else s.state.ap.headingCommand := by
  by_cases hname : name = lit "ap.heading_command"
  · have hfind : find name = some FieldId.apHeadingCommand.entry := by
      rw [hname]
      exact find_entry .apHeadingCommand
    rw [if_pos hname, Store.setFromWire, hfind]
    cases hparse : parseReal m value with
    | none => exact ⟨hat, rfl, rfl⟩
    | some v =>
      obtain ⟨hok, hread⟩ :=
        Store.setReal_spec m s hat (show FieldId.apHeadingCommand.entry.kind = .real by decide)
          (by decide) v
      rcases Store.setReal_cases m s .apHeadingCommand v with hfail | ⟨-, h⟩
      · rw [hfail] at hok
        exact absurd hok Bool.false_ne_true
      · have hat' := h.attached.trans hat
        rw [readReal_headingCommand hat'] at hread
        exact ⟨hat', h.imu, Option.some.inj hread⟩
  · rw [if_neg hname]
    rcases Store.setFromWire_cases m s name value true with hfail | ⟨d, hfind, -, h⟩
    · rw [hfail]
      exact ⟨hat, rfl, rfl⟩
    · have hother : name ≠ FieldId.apHeadingCommand.entry.name := hname
      have hne : FieldId.apHeadingCommand ≠ d.id := id_ne_of_find hfind hother
      have hat' := h.attached.trans hat
      exact ⟨hat', h.imu, headingCommand_of_sameField hat hat' (h.others _ hne)⟩

theorem Input.step_spec {W : Type} (m : Machine) (out : ValueWriter W) {p : Store × W}
    (hat : p.1.values.attached = true) (i : Input) :
    (i.step m out p).1.values.attached = true ∧
      (i.step m out p).1.state.ap.headingCommand = i.commanded m p.1.state.ap.headingCommand ∧
      (i.step m out p).1.state.imu.heading = i.sensed m p.1.state.imu.heading := by
  cases i with
  | line text nowUs =>
    unfold Input.step Input.commanded Input.sensed
    dsimp only
    rcases handleLine_cases m text nowUs out p.1 p.2 with ⟨name, value, hreq, hset⟩ | ⟨hother, h⟩
    · obtain ⟨hat', himu, hcmd⟩ := setFromWire_headingCommand m hat name value
      rw [hset, hreq]
      exact ⟨hat', hcmd, congrArg Imu.heading himu⟩
    · rw [h.attached, h.state]
      refine ⟨hat, ?_, rfl⟩
      split
      · exact absurd (by assumption) (hother _ _)
      · rfl
  | sentence text source nowUs =>
    refine ⟨hat, ?_, ?_⟩
    · unfold Input.step Input.commanded Nmea.feedLine Nmea.applySentence
      dsimp only
      repeat' split
      all_goals rfl
    · unfold Input.step Input.sensed Nmea.feedLine Nmea.applySentence
      dsimp only
      cases Nmea.parseLine text with
      | none => rfl
      | some sentence =>
        dsimp only
        by_cases hheading : sentence.type = lit "HDT" ∨ sentence.type = lit "HDM"
        · rw [if_pos hheading, if_pos hheading]
          cases sentence.fields.head?.bind (Nmea.parseReal m) <;> rfl
        · rw [if_neg hheading, if_neg hheading]
          repeat' split
          all_goals rfl

/-- The two angles that the loop starts from are the last ones that came in. -/
theorem foldl_step_spec {W : Type} (m : Machine) (out : ValueWriter W) (inputs : List Input)
    {p : Store × W} (hat : p.1.values.attached = true) :
    (inputs.foldl (Input.step m out) p).1.state.ap.headingCommand =
        inputs.foldl (Input.commanded m) p.1.state.ap.headingCommand ∧
      (inputs.foldl (Input.step m out) p).1.state.imu.heading =
        inputs.foldl (Input.sensed m) p.1.state.imu.heading := by
  induction inputs generalizing p with
  | nil => exact ⟨rfl, rfl⟩
  | cons i inputs ih =>
    obtain ⟨hat', hcmd, hheading⟩ := i.step_spec m out hat
    rw [List.foldl_cons, List.foldl_cons, List.foldl_cons, ← hcmd, ← hheading]
    exact ih hat'

/-- **The end of an iteration.** After any lines and sentences, an iteration ends exactly when the
difference between the last heading command and the last heading of the compass is not infinite. -/
theorem iteration_returns_iff {W : Type} (m : Machine) (out : ValueWriter W) (w : W)
    (st : PypilotState) (values : ValueRegistry) (inputs : List Input) (ap : Autopilot) :
    ap.Returns m (inputs.foldl (Input.step m out) (create m st values, w)).1.state ↔
      ¬ (inputs.foldl (Input.commanded m) st.ap.headingCommand -
        inputs.foldl (Input.sensed m) st.imu.heading).IsInf := by
  obtain ⟨hcmd, hheading⟩ := foldl_step_spec m out inputs (p := (create m st values, w)) rfl
  rw [returns_iff, hcmd, hheading]
  rfl

/-- A line with an infinite command, and a sentence with an infinite heading. -/
theorem iteration_hangs :
    let start : Store × Text := (create default {} {}, [])
    let step := Input.step default StringValueWriter
    (∀ fuel imuUs rudderUs ap, Autopilot.iteration default fuel imuUs rudderUs ap
      ([.line (lit "ap.heading_command=inf") 0].foldl step start).1.state = none) ∧
    ∀ fuel imuUs rudderUs ap, Autopilot.iteration default fuel imuUs rudderUs ap
      ([.sentence (lit "$GPHDT,inf,T") .serial 0].foldl step start).1.state = none := by
  intro start step
  refine ⟨iteration_eq_none default (s := false) ?_, iteration_eq_none default (s := true) ?_⟩
  · decide +kernel
  · decide +kernel

end Pypilot
