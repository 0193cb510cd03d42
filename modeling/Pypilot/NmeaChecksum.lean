import Pypilot.Nmea

/-!
# Sentences with a wrong checksum

`parse_line` works out whether the checksum fits, and nothing asks for the verdict: what a sentence does
is read off its body alone (`feedLine_eq`). A corrupted sentence is harmless only where its values are of
no use to the program either way.
-/

namespace Pypilot.Nmea

open Text

/-! ## What a body carries -/

/-- The sentence that a body stands for, whatever its checksum. -/
def content (body : Text) : Option Sentence :=
  match splitFields body with
  | [] => none
  | header :: fields =>
    if header.length < 3 then none
    else some { talker := header.take (header.length - 3),
                type := header.drop (header.length - 3),
                fields := fields }

/-- The field is there and starts with a number. -/
def numeric (sentence : Sentence) (i : ℕ) : Bool :=
  sentence.fields[i]?.any fun field => (Strtof.strtof field).isSome

/-- The sentence is of a known type and has the numbers of its type. -/
def usable (sentence : Sentence) : Bool :=
  if sentence.type = lit "HDT" ∨ sentence.type = lit "HDM" then numeric sentence 0
  else if sentence.type = lit "MWV" then
    decide (4 ≤ sentence.fields.length) && numeric sentence 0 && numeric sentence 2
  else if sentence.type = lit "RSA" then numeric sentence 0
  else decide (sentence.type = lit "APB")

section Apply

variable (m : Machine) {sentence : Sentence}

theorem numeric_iff {i : ℕ} :
    numeric sentence i = true ↔ ∃ value, (sentence.fields[i]?).bind (parseReal m) = some value := by
  unfold numeric parseReal
  cases sentence.fields[i]? with
  | none => simp
  | some field =>
    rw [Option.any_some, Option.isSome_iff_exists, Option.bind_some]
    simp [Option.map_eq_some_iff]

theorem not_numeric_iff {i : ℕ} :
    numeric sentence i = false ↔ (sentence.fields[i]?).bind (parseReal m) = none := by
  rw [← Bool.not_eq_true, numeric_iff m, ← Option.isSome_iff_exists, Option.not_isSome_iff_eq_none]

/-- A usable sentence is accepted. -/
theorem applySentence_usable (h : usable sentence = true) (st : PypilotState) (nowUs : ℕ)
    (source : SensorSource) : (applySentence m sentence st nowUs source).1 = true := by
  unfold usable at h
  unfold applySentence
  rw [List.head?_eq_getElem?]
  split_ifs at h ⊢ with hheading hwind hlen hrudder
  · obtain ⟨value, hvalue⟩ := (numeric_iff m).mp h
    rw [hvalue]
  · simp only [Bool.and_eq_true] at h
    obtain ⟨angle, hangle⟩ := (numeric_iff m).mp h.1.2
    obtain ⟨speed, hspeed⟩ := (numeric_iff m).mp h.2
    rw [hangle, hspeed]
  · simp [hlen] at h
  · obtain ⟨value, hvalue⟩ := (numeric_iff m).mp h
    rw [hvalue]
  · rfl
  · simp_all

/-- Any other sentence is rejected and does nothing. -/
theorem applySentence_not_usable (h : usable sentence = false) (st : PypilotState) (nowUs : ℕ)
    (source : SensorSource) : applySentence m sentence st nowUs source = (false, st) := by
  unfold usable at h
  unfold applySentence
  rw [List.head?_eq_getElem?]
  split_ifs at h ⊢ with hheading hwind hlen hrudder
  · rw [(not_numeric_iff m).mp h]
  · simp only [hlen, decide_true, Bool.true_and, Bool.and_eq_false_iff] at h
    rcases h with h | h
    · rw [(not_numeric_iff m).mp h]
    · rw [(not_numeric_iff m).mp h]
      cases (sentence.fields[0]?).bind (parseReal m) <;> rfl
  · rfl
  · rw [(not_numeric_iff m).mp h]
  · simp_all
  · rfl

end Apply

/-! ## Lines -/

/-- A hexadecimal digit does not end a line. -/
theorem hexValue_not_lineEnd {c : Byte} {v : ℕ} (h : hexValue c = some v) :
    (decide (c = chr '\r') || decide (c = chr '\n')) = false := by
  rw [Bool.or_eq_false_iff, decide_eq_false_iff_not, decide_eq_false_iff_not]
  constructor <;> rintro rfl <;> exact absurd h (by decide +revert)

/-- The line starts with `$`, and behind its first `*` are two hexadecimal digits that are not the
checksum of the body between them. -/
def Corrupted (line body : Text) : Prop :=
  ∃ h l tail hi lo, cut (chr '*') line = some (chr '$' :: body, h :: l :: tail) ∧
    hexValue h = some hi ∧ hexValue l = some lo ∧ 16 * hi + lo ≠ (checksumBody body).toNat

/-- A digit is below its base. -/
theorem hexValue_lt {c : Byte} {v : ℕ} (h : hexValue c = some v) : v < 16 := by
  unfold hexValue Strtof.digitValue at h
  dsimp only at h
  split_ifs at h <;> have := Option.some.inj h <;> omega

theorem checksumMatches_iff {body tail : Text} {h l : Byte} {hi lo : ℕ} (hhi : hexValue h = some hi)
    (hlo : hexValue l = some lo) :
    checksumMatches body (h :: l :: tail) = true ↔ 16 * hi + lo = (checksumBody body).toNat := by
  have hhi' := hexValue_lt hhi
  have hlo' := hexValue_lt hlo
  have hvalue : (hi <<< 4) ||| lo = 16 * hi + lo := by
    rw [Nat.shiftLeft_eq, Nat.mul_comm]
    exact (Nat.two_pow_add_eq_or_of_lt (i := 4) hlo' hi).symm
  unfold checksumMatches
  dsimp only
  rw [hhi, hlo]
  dsimp only
  rw [decide_eq_true_iff, hvalue, ← UInt8.toNat_inj, UInt8.toNat_ofNat', Nat.mod_eq_of_lt (by omega),
    eq_comm]

/-- The sentence of the body, with a verdict that is read off the digits behind the star; without a
sentence the verdict is left alone. -/
theorem parseLineOut_eq {line body tail : Text} {h l : Byte} {lo : ℕ}
    (hstar : cut (chr '*') line = some (chr '$' :: body, h :: l :: tail))
    (hlo : hexValue l = some lo) :
    ∃ tail, parseLineOut line =
      ((content body).isSome, { (content body).getD {} with
        checksumOk := checksumMatches body (h :: l :: tail) }) := by
  obtain ⟨hline, hbody⟩ := cut_eq_some hstar
  rw [List.mem_cons, not_or] at hbody
  refine ⟨tail.rdropWhile fun c => c = chr '\r' || c = chr '\n', ?_⟩
  generalize htail : (tail.rdropWhile fun c => c = chr '\r' || c = chr '\n') = tail'
  have hstrip : line.rdropWhile (fun c => c = chr '\r' || c = chr '\n') =
      chr '$' :: (body ++ chr '*' :: h :: l :: tail') := by
    have hsplit : line = (chr '$' :: body ++ [chr '*', h]) ++ l :: tail := by simp [hline]
    rw [hsplit, rdropWhile_append_cons (hexValue_not_lineEnd hlo), htail]
    simp
  have hcut : cut (chr '*') (body ++ chr '*' :: h :: l :: tail') = some (body, h :: l :: tail') :=
    cut_append hbody.2 _
  unfold parseLineOut content
  rw [hstrip, List.drop_succ_cons, List.drop_zero, hline]
  dsimp only [List.cons_append]
  rw [if_neg (not_not.mpr rfl), hcut]
  cases splitFields body with
  | nil => rfl
  | cons header fields =>
    dsimp only
    split_ifs <;> rfl

theorem parseLine_eq {line body tail : Text} {h l : Byte} {lo : ℕ}
    (hstar : cut (chr '*') line = some (chr '$' :: body, h :: l :: tail))
    (hlo : hexValue l = some lo) :
    ∃ tail, parseLine line = (content body).map fun sentence =>
      { sentence with checksumOk := checksumMatches body (h :: l :: tail) } := by
  obtain ⟨tail', hout⟩ := parseLineOut_eq hstar hlo
  refine ⟨tail', ?_⟩
  unfold parseLine
  rw [hout]
  cases content body <;> rfl

section Corrupted

variable {line body : Text} (hline : Corrupted line body)

include hline in
/-- The verdict on a corrupted line is right, also where the line is no sentence. -/
theorem parseLineOut_corrupted : (parseLineOut line).2.checksumOk = false := by
  obtain ⟨h, l, tail, hi, lo, hstar, hhi, hlo, hwrong⟩ := hline
  obtain ⟨tail', hout⟩ := parseLineOut_eq hstar hlo
  rw [hout, ← Bool.not_eq_true]
  intro hmatch
  have hmatch' : checksumMatches body (h :: l :: tail') = true := hmatch
  exact hwrong ((checksumMatches_iff hhi hlo).mp hmatch')

include hline in
/-- What a line does is what its body carries. -/
theorem feedLine_eq (m : Machine) (source : SensorSource) (nowUs : ℕ) (st : PypilotState) :
    feedLine m line source nowUs st =
      match content body with
      | none => (false, st)
      | some sentence => applySentence m sentence st nowUs source := by
  obtain ⟨h, l, tail, hi, lo, hstar, -, hlo, -⟩ := hline
  obtain ⟨tail', hparse⟩ := parseLine_eq hstar hlo
  unfold feedLine
  rw [hparse]
  cases content body <;> rfl

end Corrupted

/-- **Corrupted sentences.** A line with a wrong checksum is rejected and does nothing exactly when its
body carries nothing usable. -/
theorem feedLine_corrupted_iff (m : Machine) (line body : Text) (hline : Corrupted line body)
    (source : SensorSource) (nowUs : ℕ) (st : PypilotState) :
    feedLine m line source nowUs st = (false, st) ↔
      (content body).all (fun sentence => !usable sentence) = true := by
  rw [feedLine_eq hline]
  cases content body with
  | none => simp
  | some sentence =>
    dsimp only [Option.all_some]
    cases hu : usable sentence with
    | false => simp [applySentence_not_usable m hu]
    | true =>
      have haccept := applySentence_usable m hu st nowUs source
      refine iff_of_false (fun hreject => ?_) (by decide)
      rw [hreject] at haccept
      exact Bool.false_ne_true haccept

/-- A water depth is of no use to the program. -/
theorem feedLine_corrupted_iff_depth :
    feedLine default (lit "$SDDBT,12.1,f*00") .serial 1 {} = (false, {}) ↔
      (content (lit "SDDBT,12.1,f")).all (fun sentence => !usable sentence) = true :=
  feedLine_corrupted_iff default _ _
    ⟨chr '0', chr '0', [], 0, 0, by decide, by decide, by decide, by decide⟩ .serial 1 {}

/-- A heading with a checksum of zero is taken over. -/
theorem corrupted_heading_accepted :
    Corrupted (lit "$HCHDT,123.4,T*00") (lit "HCHDT,123.4,T") ∧
      (feedLine default (lit "$HCHDT,123.4,T*00") .serial 1 {}).1 = true ∧
      (feedLine default (lit "$HCHDT,123.4,T*00") .serial 1 {}).2.imu =
        ⟨.fin (617 / 5), true, 1⟩ :=
  ⟨⟨chr '0', chr '0', [], 0, 0, by decide, by decide, by decide, by decide⟩,
    by decide +kernel, by decide +kernel⟩

end Pypilot.Nmea
