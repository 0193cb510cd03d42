import Pypilot.Nmea

/-!
# What sentences set

`apply_sentence` tries the types one after the other, and a type whose numbers cannot be read falls through
to the next test (`applySentence_eq_tests`). A sentence sets the whole group of its type, or nothing.
-/

namespace Pypilot.Nmea

open Text

/-! ## The tests one after the other -/

section Tests

variable (m : Machine) (sentence : Sentence) (st : PypilotState) (nowUs : ℕ) (source : SensorSource)

/-- The number at the front of a field. -/
def fieldReal (i : ℕ) : Option Real := (sentence.fields[i]?).bind (parseReal m)

def testHeading : Option PypilotState :=
  if sentence.type = lit "HDT" ∨ sentence.type = lit "HDM" then
    (fieldReal m sentence 0).map fun heading => { st with imu := ⟨heading, true, nowUs⟩ }
  else none

def testWind : Option PypilotState :=
  if sentence.type = lit "MWV" ∧ 4 ≤ sentence.fields.length then
    (fieldReal m sentence 0).bind fun angle => (fieldReal m sentence 2).map fun speed =>
      { st with wind := ⟨stamp angle nowUs source, stamp speed nowUs source⟩ }
  else none

def testRudder : Option PypilotState :=
  if sentence.type = lit "RSA" then
    (fieldReal m sentence 0).map fun angle =>
      { st with rudder.angle := stamp (-angle) nowUs source }
  else none

def testApb : Option PypilotState :=
  if sentence.type = lit "APB" then some { st with apb := ⟨sentence.talker, true⟩ } else none

/-- The tests in their order: the first that succeeds ends the function. -/
def applyTests : Option PypilotState :=
  testHeading m sentence st nowUs <|> testWind m sentence st nowUs source <|>
    testRudder m sentence st nowUs source <|> testApb sentence st

/-- The types are different, so a test that fails could as well end the function. -/
theorem applySentence_eq_tests :
    applySentence m sentence st nowUs source =
      match applyTests m sentence st nowUs source with
      | some st' => (true, st')
      | none => (false, st) := by
  have hwind : lit "HDT" ≠ lit "MWV" ∧ lit "HDM" ≠ lit "MWV" := by decide
  have hrudder : lit "HDT" ≠ lit "RSA" ∧ lit "HDM" ≠ lit "RSA" ∧ lit "MWV" ≠ lit "RSA" := by decide
  have hapb : lit "HDT" ≠ lit "APB" ∧ lit "HDM" ≠ lit "APB" ∧ lit "MWV" ≠ lit "APB" ∧
      lit "RSA" ≠ lit "APB" := by decide
  unfold applySentence applyTests testHeading testWind testRudder testApb fieldReal
  rw [List.head?_eq_getElem?]
  generalize (sentence.fields[0]?).bind (parseReal m) = first
  generalize (sentence.fields[2]?).bind (parseReal m) = third
  by_cases hheading : sentence.type = lit "HDT" ∨ sentence.type = lit "HDM"
  · rcases hheading with htype | htype <;> cases first <;> simp_all
  · by_cases hmwv : sentence.type = lit "MWV"
    · by_cases hlen : 4 ≤ sentence.fields.length
      · cases first <;> cases third <;> simp_all
      · simp only [hlen]
        simp_all
    · by_cases hrsa : sentence.type = lit "RSA"
      · cases first <;> simp_all
      · by_cases happly : sentence.type = lit "APB" <;> simp_all

end Tests

/-! ## Groups -/

/-- What a sentence of a known type makes of a state: the group of the type is replaced as a whole, and
nothing else changes. -/
inductive Applied (sentence : Sentence) (nowUs : ℕ) (source : SensorSource) (st : PypilotState) :
    PypilotState → Prop
  | heading (value : Real) (htype : sentence.type = lit "HDT" ∨ sentence.type = lit "HDM") :
    Applied sentence nowUs source st { st with imu := ⟨value, true, nowUs⟩ }
  | wind (angle speed : Real) (htype : sentence.type = lit "MWV") :
    Applied sentence nowUs source st
      { st with wind := ⟨stamp angle nowUs source, stamp speed nowUs source⟩ }
  | rudder (angle : Real) (htype : sentence.type = lit "RSA") :
    Applied sentence nowUs source st { st with rudder.angle := stamp angle nowUs source }
  | apb (htype : sentence.type = lit "APB") :
    Applied sentence nowUs source st { st with apb := ⟨sentence.talker, true⟩ }

section Groups

variable {m : Machine} {sentence : Sentence} {st st' : PypilotState} {nowUs : ℕ}
  {source : SensorSource}

/-- A test that succeeds sets its group. -/
theorem applied_of_tests (h : applyTests m sentence st nowUs source = some st') :
    Applied sentence nowUs source st st' := by
  unfold applyTests at h
  simp only [Option.orElse_eq_orElse, Option.orElse_eq_or, Option.or_eq_some_iff] at h
  rcases h with h | ⟨-, h | ⟨-, h | ⟨-, h⟩⟩⟩
  · unfold testHeading at h
    split_ifs at h with htype
    obtain ⟨value, -, rfl⟩ := Option.map_eq_some_iff.mp h
    exact .heading value htype
  · unfold testWind at h
    split_ifs at h with htype
    obtain ⟨angle, -, h⟩ := Option.bind_eq_some_iff.mp h
    obtain ⟨speed, -, rfl⟩ := Option.map_eq_some_iff.mp h
    exact .wind angle speed htype.1
  · unfold testRudder at h
    split_ifs at h with htype
    obtain ⟨angle, -, rfl⟩ := Option.map_eq_some_iff.mp h
    exact .rudder (-angle) htype
  · unfold testApb at h
    split_ifs at h with htype
    rw [← Option.some.inj h]
    exact .apb htype

/-- The two wind values are replaced together, with one time and one source, or kept together. -/
theorem Applied.wind_together (h : Applied sentence nowUs source st st') :
    st'.wind = st.wind ∨
      ∃ angle speed, st'.wind = ⟨stamp angle nowUs source, stamp speed nowUs source⟩ := by
  cases h with
  | wind angle speed htype => exact .inr ⟨angle, speed, rfl⟩
  | heading | rudder | apb => exact .inl rfl

end Groups

/-- **Sentences.** A line that is rejected leaves the state as it is. One that is accepted is a sentence of
a known type and sets the group of the type; the wind values are set both or not at all. -/
theorem feedLine_atomic (m : Machine) (line : Text) (source : SensorSource) (nowUs : ℕ)
    (st : PypilotState) :
    let r := feedLine m line source nowUs st
    (r.1 = false → r.2 = st) ∧
      (r.1 = true → ∃ sentence, parseLine line = some sentence ∧
        Applied sentence nowUs source st r.2) ∧
      (r.2.wind = st.wind ∨
        ∃ angle speed, r.2.wind = ⟨stamp angle nowUs source, stamp speed nowUs source⟩) := by
  intro r
  have hcases : r = (false, st) ∨ r.1 = true ∧ ∃ sentence, parseLine line = some sentence ∧
      Applied sentence nowUs source st r.2 := by
    cases hparse : parseLine line with
    | none =>
      refine .inl ?_
      show feedLine m line source nowUs st = _
      unfold feedLine
      rw [hparse]
    | some sentence =>
      have hr : r = applySentence m sentence st nowUs source := by
        show feedLine m line source nowUs st = _
        unfold feedLine
        rw [hparse]
      rw [hr, applySentence_eq_tests]
      cases htests : applyTests m sentence st nowUs source with
      | none => exact .inl rfl
      | some st' => exact .inr ⟨rfl, sentence, rfl, applied_of_tests htests⟩
  rcases hcases with hfail | ⟨hok, sentence, hparse, happlied⟩
  · rw [hfail]
    exact ⟨fun _ => rfl, fun h => absurd h Bool.false_ne_true, .inl rfl⟩
  · refine ⟨fun hfalse => absurd (hok.symm.trans hfalse) (by decide), fun _ => ?_,
      happlied.wind_together⟩
    exact ⟨sentence, hparse, happlied⟩

end Pypilot.Nmea
