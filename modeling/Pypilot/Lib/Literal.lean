import Pypilot.Lib.Numeral

/-!
# Decimal literals

The decimal literals of C as data: a sign, digits with a point anywhere among them, an exponent. `strtof`
reads the whole text of a literal and gives its value (`strtof_text`).
-/

namespace Numeral

open Text Strtof

/-! ## Literals -/

inductive Sign
  | absent | plus | minus
  deriving DecidableEq

def Sign.text : Sign → Text
  | absent => []
  | plus => [chr '+']
  | minus => [chr '-']

/-- An exponent, after `e` or `E`. -/
structure Exponent where
  upper : Bool
  sign : Sign
  digits : Text
  isDigits : ∀ c ∈ digits, isDigit 10 c = true
  nonempty : digits ≠ []

/-- A decimal literal; without a point there are no digits behind it. -/
structure Literal where
  sign : Sign := .absent
  whole : Text
  point : Bool := false
  frac : Text := []
  power : Option Exponent := none
  isDigits : ∀ c ∈ whole ++ frac, isDigit 10 c = true
  nonempty : whole ++ frac ≠ []
  pointed : point = false → frac = []

def Exponent.text (e : Exponent) : Text :=
  (if e.upper then chr 'E' else chr 'e') :: (e.sign.text ++ e.digits)

def Exponent.value (e : Exponent) : ℤ :=
  if e.sign = .minus then -(ofDigits 10 0 e.digits : ℤ) else ofDigits 10 0 e.digits

namespace Literal

variable (l : Literal)

def exponentText : Text := l.power.elim [] Exponent.text

def exponentValue : ℤ := l.power.elim 0 Exponent.value

/-- The digits, with the point if there is one. -/
def mantissaText : Text := l.whole ++ if l.point then chr '.' :: l.frac else []

def text : Text := l.sign.text ++ (l.mantissaText ++ l.exponentText)

def magnitude : ℚ :=
  ofDigits 10 0 (l.whole ++ l.frac) / (10 : ℚ) ^ l.frac.length * 10 ^ l.exponentValue

def value : ℚ := if l.sign = .minus then -l.magnitude else l.magnitude

end Literal

/-! ## Bytes -/

/-- A byte that can stand in a literal. -/
def isLiteralByte (c : Byte) : Bool := isDigit 10 c || decide (c ∈ lit ".eE+-")

theorem literalByte_spec {c : Byte} (h : isLiteralByte c = true) :
    isSpace c = false ∧ isBlank c = false ∧ c ≠ chr ',' ∧ lower c ≠ chr 'n' ∧ lower c ≠ chr 'x' := by
  have hdigit : ∀ d < 10, isSpace (Decimal.digit d) = false ∧ isBlank (Decimal.digit d) = false ∧
      Decimal.digit d ≠ chr ',' ∧ lower (Decimal.digit d) ≠ chr 'n' ∧
      lower (Decimal.digit d) ≠ chr 'x' := by decide +kernel
  have hmark : ∀ c ∈ lit ".eE+-", isSpace c = false ∧ isBlank c = false ∧ c ≠ chr ',' ∧
      lower c ≠ chr 'n' ∧ lower c ≠ chr 'x' := by decide +kernel
  rcases Bool.or_eq_true_iff.mp h with h | h
  · obtain ⟨d, hd, rfl⟩ := exists_digit h
    exact hdigit d hd
  · exact hmark c (of_decide_eq_true h)

theorem isLiteralByte_digit {c : Byte} (h : isDigit 10 c = true) : isLiteralByte c = true :=
  Bool.or_eq_true_iff.mpr (.inl h)

theorem isLiteralByte_sign {s : Sign} {c : Byte} (h : c ∈ s.text) : isLiteralByte c = true := by
  cases s with
  | absent => exact absurd h List.not_mem_nil
  | plus | minus =>
    rw [List.mem_singleton.mp h]
    decide

theorem Literal.isLiteralByte_of_mem {l : Literal} {c : Byte} (h : c ∈ l.text) :
    isLiteralByte c = true := by
  unfold text mantissaText exponentText at h
  simp only [List.mem_append] at h
  rcases h with h | (h | h) | h
  · exact isLiteralByte_sign h
  · exact isLiteralByte_digit (l.isDigits c (List.mem_append_left _ h))
  · split_ifs at h
    · rcases List.mem_cons.mp h with rfl | h
      · decide
      · exact isLiteralByte_digit (l.isDigits c (List.mem_append_right _ h))
    · exact absurd h List.not_mem_nil
  · cases he : l.power with
    | none => simp [he] at h
    | some e =>
      rw [he] at h
      rcases List.mem_cons.mp (show c ∈ e.text from h) with rfl | h
      · split_ifs <;> decide
      · rcases List.mem_append.mp h with h | h
        · exact isLiteralByte_sign h
        · exact isLiteralByte_digit (e.isDigits c h)

/-! ## Reading -/

/-- Digits in front of something else. -/
theorem span_digits {ds rest : Text} (hds : ∀ c ∈ ds, isDigit 10 c = true)
    (hrest : ∀ c ∈ rest.head?, isDigit 10 c = false) :
    (ds ++ rest).takeWhile (isDigit 10) = ds ∧ (ds ++ rest).dropWhile (isDigit 10) = rest := by
  rw [List.takeWhile_append_of_pos hds, List.dropWhile_append_of_pos hds]
  cases rest with
  | nil => exact ⟨List.append_nil _, rfl⟩
  | cons c rest =>
    have hc : ¬ isDigit 10 c = true := by simp [hrest c rfl]
    rw [List.takeWhile_cons_of_neg hc, List.dropWhile_cons_of_neg hc]
    exact ⟨List.append_nil _, rfl⟩

theorem signed_text {s : Sign} {rest : Text}
    (hrest : ∀ c ∈ rest.head?, c ≠ chr '-' ∧ c ≠ chr '+') :
    signed (s.text ++ rest) = (decide (s = .minus), rest) := by
  cases s with
  | plus | minus => rfl
  | absent =>
    cases rest with
    | nil => rfl
    | cons c rest =>
      obtain ⟨hminus, hplus⟩ := hrest c rfl
      show signed (c :: rest) = _
      rw [signed, if_neg hminus, if_neg hplus]
      rfl

theorem isDigit_ne_sign {c : Byte} (h : isDigit 10 c = true) : c ≠ chr '-' ∧ c ≠ chr '+' := by
  have hall : ∀ d < 10, Decimal.digit d ≠ chr '-' ∧ Decimal.digit d ≠ chr '+' := by decide +kernel
  obtain ⟨d, hd, rfl⟩ := exists_digit h
  exact hall d hd

theorem exponent_text (e : Exponent) : exponent (chr 'e') e.text = (e.value, []) := by
  have hnil : ∀ c ∈ ([] : Text).head?, isDigit 10 c = false := by simp
  obtain ⟨htake, hdrop⟩ := span_digits e.isDigits hnil
  rw [List.append_nil] at htake hdrop
  have hsigned : signed (e.sign.text ++ e.digits) = (decide (e.sign = .minus), e.digits) :=
    signed_text fun c hc => isDigit_ne_sign (e.isDigits c (List.mem_of_mem_head? hc))
  have hletter : lower (if e.upper then chr 'E' else chr 'e') = chr 'e' := by
    cases e.upper <;> decide
  unfold exponent Exponent.text Exponent.value
  dsimp only
  rw [hsigned]
  dsimp only
  rw [htake, hdrop, if_pos ⟨hletter, e.nonempty⟩]
  simp only [decide_eq_true_eq]

namespace Literal

variable (l : Literal)

theorem mantissa_mantissaText {rest : Text}
    (hrest : ∀ c ∈ rest.head?, isDigit 10 c = false ∧ c ≠ chr '.') :
    mantissa 10 (l.mantissaText ++ rest) =
      some (ofDigits 10 0 (l.whole ++ l.frac), l.frac.length, rest) := by
  have hwhole : ∀ c ∈ l.whole, isDigit 10 c = true := fun c hc =>
    l.isDigits c (List.mem_append_left _ hc)
  have hfrac : ∀ c ∈ l.frac, isDigit 10 c = true := fun c hc =>
    l.isDigits c (List.mem_append_right _ hc)
  have hnonempty := l.nonempty
  unfold mantissaText
  by_cases hpoint : l.point = true
  · have hpoint' : ∀ c ∈ (chr '.' :: (l.frac ++ rest)).head?, isDigit 10 c = false := by
      simp
      decide
    obtain ⟨htake, hdrop⟩ := span_digits hwhole hpoint'
    obtain ⟨htake', hdrop'⟩ := span_digits hfrac fun c hc => (hrest c hc).1
    have hsplit : l.whole ++ (chr '.' :: l.frac) ++ rest =
        l.whole ++ chr '.' :: (l.frac ++ rest) := by simp
    have hsome : ¬ (l.whole = [] ∧ l.frac = []) := by
      rintro ⟨hw, hf⟩
      exact hnonempty (by rw [hw, hf]; rfl)
    rw [if_pos hpoint, hsplit]
    unfold mantissa
    rw [htake, hdrop]
    dsimp only
    rw [if_pos rfl, htake', hdrop', if_neg hsome, ← ofDigits_append]
  · have hnone : l.frac = [] := l.pointed (by simpa using hpoint)
    obtain ⟨htake, hdrop⟩ := span_digits hwhole fun c hc => (hrest c hc).1
    have hsome : l.whole ≠ [] := by
      rintro hw
      exact hnonempty (by rw [hw, hnone]; rfl)
    rw [if_neg hpoint, List.append_nil, hnone, List.append_nil]
    unfold mantissa
    rw [htake, hdrop]
    cases rest with
    | nil =>
      dsimp only
      rw [if_neg hsome]
      rfl
    | cons c rest =>
      dsimp only
      rw [if_neg (hrest c rfl).2, if_neg hsome]
      rfl

theorem number_text :
    number 10 10 (chr 'e') (l.mantissaText ++ l.exponentText) = some (l.magnitude, []) := by
  have hhead : ∀ c ∈ l.exponentText.head?, isDigit 10 c = false ∧ c ≠ chr '.' := by
    unfold exponentText
    cases l.power with
    | none => simp
    | some e =>
      intro c hc
      have hletter : ∀ b : Bool, isDigit 10 (if b then chr 'E' else chr 'e') = false ∧
          (if b then chr 'E' else chr 'e') ≠ chr '.' := by decide +kernel
      rw [← Option.some.inj hc]
      exact hletter e.upper
  have hexponent : exponent (chr 'e') l.exponentText = (l.exponentValue, []) := by
    unfold exponentText exponentValue
    cases l.power with
    | none => rfl
    | some e => exact exponent_text e
  unfold number magnitude
  rw [l.mantissa_mantissaText hhead]
  dsimp only
  rw [hexponent]
  norm_cast

/-- The digits or the point that follow the sign. -/
theorem head_not_sign :
    ∀ c ∈ (l.mantissaText ++ l.exponentText).head?, c ≠ chr '-' ∧ c ≠ chr '+' := by
  intro c hc
  unfold mantissaText at hc
  cases hw : l.whole with
  | cons d ds =>
    rw [hw] at hc
    rw [← Option.some.inj hc]
    exact isDigit_ne_sign (l.isDigits d (by rw [hw]; exact List.mem_cons_self))
  | nil =>
    have hpoint : l.point = true := by
      by_contra hnot
      exact l.nonempty (by rw [hw, l.pointed (by simpa using hnot)]; rfl)
    rw [hw, if_pos hpoint] at hc
    rw [← Option.some.inj hc]
    decide

theorem text_ne_nil : l.text ≠ [] := by
  intro h
  unfold text mantissaText at h
  simp only [List.append_eq_nil_iff] at h
  apply l.nonempty
  rw [h.2.1.1, l.pointed (by by_contra hp; simp [hp] at h)]
  rfl

/-- **Literals.** The text of a literal is read as a whole, and stands for its value. -/
theorem strtof_text : strtof l.text = some (.fin l.value, []) := by
  have hbyte : ∀ c ∈ l.mantissaText ++ l.exponentText, lower c ≠ chr 'n' ∧ lower c ≠ chr 'x' :=
    fun c hc => (literalByte_spec (l.isLiteralByte_of_mem (List.mem_append_right _ hc))).2.2.2
  have hspace : l.text.dropWhile isSpace = l.text := by
    obtain ⟨c, s, htext⟩ := List.exists_cons_of_ne_nil l.text_ne_nil
    have hc : isSpace c = false :=
      (literalByte_spec (l.isLiteralByte_of_mem (htext ▸ List.mem_cons_self))).1
    rw [htext, dropWhile_eq_self hc]
  have hunsigned : unsigned (l.mantissaText ++ l.exponentText) = some (.fin l.magnitude, []) := by
    unfold unsigned
    rw [word_eq_none (c := chr 'n') (by decide) fun c hc => (hbyte c hc).1,
      word_eq_none (c := chr 'n') (by decide) fun c hc => (hbyte c hc).1,
      word_eq_none (c := chr 'n') (by decide) fun c hc => (hbyte c hc).1,
      word_eq_none (c := chr 'x') (by decide) fun c hc => (hbyte c hc).2]
    dsimp only [Option.bind_none]
    rw [l.number_text]
    rfl
  unfold strtof
  rw [hspace]
  unfold text value
  rw [signed_text l.head_not_sign]
  dsimp only
  rw [hunsigned, Option.map_some]
  by_cases hminus : l.sign = .minus
  · rw [if_pos (decide_eq_true hminus), if_pos hminus]
    rfl
  · rw [if_neg (by simpa using hminus), if_neg hminus]

end Literal

/-! ## Numerals without trailing zeros -/

/-- The decimals of a number, up to the last that is not zero. -/
def trimmedFrac (k n : ℕ) : Text := (Decimal.padded k n).rdropWhile fun c => decide (c = chr '0')

theorem trimmedFrac_spec (k n : ℕ) : trimmedFrac k n <+: Decimal.padded k n :=
  List.rdropWhile_prefix _ _

/-- A number of `k` decimals without the zeros at its end, and without its point where no decimals are
left. -/
def trimmed (k : ℕ) (q : ℚ) : Literal where
  sign := if q < 0 then .minus else .absent
  whole := Decimal.natural (Decimal.scaled k q / 10 ^ k)
  point := decide (trimmedFrac k (Decimal.scaled k q) ≠ [])
  frac := trimmedFrac k (Decimal.scaled k q)
  isDigits := by
    intro c hc
    rcases List.mem_append.mp hc with hc | hc
    · exact isDigit_of_mem_natural hc
    · exact isDigit_of_mem_padded ((trimmedFrac_spec k _).subset hc)
  nonempty := by
    intro h
    exact natural_ne_nil _ (List.append_eq_nil_iff.mp h).1
  pointed := by simp

theorem ofDigits_zeros {zeros : Text} (hzeros : ∀ c ∈ zeros, c = chr '0') (b acc : ℕ) :
    ofDigits b acc zeros = acc * b ^ zeros.length := by
  induction zeros generalizing acc with
  | nil => exact (Nat.mul_one acc).symm
  | cons c zeros ih =>
    rw [List.forall_mem_cons] at hzeros
    show ofDigits b (b * acc + (digitValue c).getD 0) zeros = _
    rw [ih hzeros.2, hzeros.1, show (digitValue (chr '0')).getD 0 = 0 by decide, List.length_cons,
      pow_succ]
    ring

/-- Zeros at the end do not count. -/
theorem trimmed_value (k : ℕ) (q : ℚ) : .fin (trimmed k q).value = rounded k (.fin q) := by
  obtain ⟨zeros, hsplit, hzeros⟩ :=
    exists_rdropWhile_append (fun c => decide (c = chr '0')) (Decimal.padded k (Decimal.scaled k q))
  replace hsplit : Decimal.padded k (Decimal.scaled k q) =
      trimmedFrac k (Decimal.scaled k q) ++ zeros := hsplit
  have hlen : (trimmedFrac k (Decimal.scaled k q)).length + zeros.length = k := by
    rw [← List.length_append, ← hsplit, Decimal.padded_length]
  have hdigits : ofDigits 10 0 (Decimal.natural (Decimal.scaled k q / 10 ^ k) ++
      trimmedFrac k (Decimal.scaled k q)) * 10 ^ zeros.length = Decimal.scaled k q := by
    rw [← ofDigits_zeros (fun c hc => of_decide_eq_true (hzeros c hc)), ← ofDigits_append,
      List.append_assoc, ← hsplit, ofDigits_append, ofDigits_natural, ofDigits_padded,
      Nat.div_add_mod']
  have hmagnitude : (trimmed k q).magnitude = Decimal.scaled k q / 10 ^ k := by
    show (ofDigits 10 0 (Decimal.natural (Decimal.scaled k q / 10 ^ k) ++
        trimmedFrac k (Decimal.scaled k q)) : ℚ) /
        10 ^ (trimmedFrac k (Decimal.scaled k q)).length * 10 ^ (0 : ℤ) = _
    have hpow : (10 : ℚ) ^ k =
        10 ^ (trimmedFrac k (Decimal.scaled k q)).length * 10 ^ zeros.length := by
      rw [← pow_add, hlen]
    rw [zpow_zero, mul_one, div_eq_div_iff (by positivity) (by positivity), hpow]
    generalize ofDigits 10 0 (Decimal.natural (Decimal.scaled k q / 10 ^ k) ++
      trimmedFrac k (Decimal.scaled k q)) = digits at hdigits ⊢
    generalize (trimmedFrac k (Decimal.scaled k q)).length = places
    rw [← hdigits]
    push_cast
    ring
  unfold Literal.value rounded
  rw [hmagnitude]
  show ExtRat.fin (if (if q < 0 then Sign.minus else .absent) = .minus then _ else _) = _
  split_ifs <;> simp_all

theorem trimmed_text (k : ℕ) (q : ℚ) :
    (trimmed k q).text = Decimal.sign q ++ (Decimal.natural (Decimal.scaled k q / 10 ^ k) ++
      if trimmedFrac k (Decimal.scaled k q) = [] then []
      else chr '.' :: trimmedFrac k (Decimal.scaled k q)) := by
  have hsign : (trimmed k q).sign.text = Decimal.sign q := by
    show (if q < 0 then Sign.minus else .absent).text = _
    unfold Decimal.sign
    split_ifs <;> rfl
  unfold Literal.text Literal.mantissaText Literal.exponentText
  rw [hsign]
  show Decimal.sign q ++ (Decimal.natural _ ++ (if decide (trimmedFrac k _ ≠ []) = true then _
    else []) ++ []) = _
  by_cases hfrac : trimmedFrac k (Decimal.scaled k q) = []
  · rw [if_neg (by simp [hfrac]), if_pos hfrac, List.append_nil]
  · rw [if_pos (by simp [hfrac]), if_neg hfrac, List.append_nil]
    rfl

end Numeral
