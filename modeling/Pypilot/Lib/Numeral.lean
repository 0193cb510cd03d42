import Mathlib.Tactic.FieldSimp
import Mathlib.Tactic.Ring
import Pypilot.Lib.Decimal
import Pypilot.Lib.Strtof

/-!
# Numerals read back

`strtof` on what `printf` writes: the whole text is a literal, and its value is the number rounded to the
decimals that were written (`strtof_render`). Any text that starts with a digit holds a literal.
-/

namespace Numeral

open Text Decimal Strtof

/-! ## Digits -/

theorem digitValue_digit {d : ℕ} (hd : d < 10) : digitValue (digit d) = some d := by
  unfold digitValue
  rw [digit_toNat hd]
  dsimp only
  rw [if_pos (by omega), Nat.add_sub_cancel_left]

theorem isDigit_digit {d : ℕ} (hd : d < 10) : isDigit 10 (digit d) = true := by
  unfold isDigit
  rw [digitValue_digit hd]
  exact decide_eq_true hd

/-- The decimal digits are the ten. -/
theorem exists_digit {c : Byte} (h : isDigit 10 c = true) : ∃ d < 10, c = digit d := by
  have hrange : 48 ≤ c.toNat ∧ c.toNat ≤ 57 := by
    unfold isDigit digitValue at h
    dsimp only at h
    split_ifs at h with h₁ h₂ h₃
    · exact h₁
    · have := of_decide_eq_true h
      omega
    · have := of_decide_eq_true h
      omega
  refine ⟨c.toNat - 48, by omega, UInt8.toNat_inj.mp ?_⟩
  rw [digit_toNat (by omega)]
  omega

theorem ofDigits_append (b acc : ℕ) (s t : Text) :
    ofDigits b acc (s ++ t) = ofDigits b (ofDigits b acc s) t := List.foldl_append

theorem ofDigits_concat {d : ℕ} (hd : d < 10) (acc : ℕ) (s : Text) :
    ofDigits 10 acc (s ++ [digit d]) = 10 * ofDigits 10 acc s + d := by
  rw [ofDigits_append]
  show 10 * ofDigits 10 acc s + (digitValue (digit d)).getD 0 = _
  rw [digitValue_digit hd, Option.getD_some]

/-- The decimal numeral of a natural number denotes it. -/
theorem ofDigits_natural (n : ℕ) : ofDigits 10 0 (natural n) = n := by
  have hrev : ∀ ds : List ℕ, (∀ d ∈ ds, d < 10) →
      ofDigits 10 0 (ds.map digit).reverse = Nat.ofDigits 10 ds := by
    intro ds hds
    induction ds with
    | nil => rfl
    | cons d ds ih =>
      rw [List.forall_mem_cons] at hds
      rw [List.map_cons, List.reverse_cons, ofDigits_concat hds.1, ih hds.2, Nat.ofDigits_cons]
      omega
  unfold natural
  split_ifs with h0
  · rw [h0]
    decide
  · rw [hrev _ fun d hd => Nat.digits_lt_base (by norm_num) hd, Nat.ofDigits_digits]

theorem ofDigits_padded (acc k n : ℕ) :
    ofDigits 10 acc (padded k n) = acc * 10 ^ k + n % 10 ^ k := by
  induction k generalizing n with
  | zero => simp [padded, ofDigits, Nat.mod_one]
  | succ k ih =>
    rw [padded, ofDigits_concat (Nat.mod_lt _ (by norm_num)), ih, pow_succ', Nat.mod_mul]
    ring

theorem natural_ne_nil (n : ℕ) : natural n ≠ [] := by
  unfold natural
  split_ifs with h0
  · exact List.cons_ne_nil _ _
  · rw [Ne, List.reverse_eq_nil_iff, List.map_eq_nil_iff]
    exact Nat.digits_ne_nil_iff_ne_zero.mpr h0

theorem isDigit_of_mem_natural {n : ℕ} {c : Byte} (h : c ∈ natural n) : isDigit 10 c = true := by
  obtain ⟨d, hd, rfl⟩ := digit_mem_natural h
  exact isDigit_digit hd

theorem isDigit_of_mem_padded {k n : ℕ} {c : Byte} (h : c ∈ padded k n) : isDigit 10 c = true := by
  obtain ⟨d, hd, rfl⟩ := digit_mem_padded h
  exact isDigit_digit hd

/-! ## Literals -/

theorem mantissa_eq {a k n : ℕ} :
    mantissa 10 (natural a ++ chr '.' :: padded k n) = some (a * 10 ^ k + n % 10 ^ k, k, []) := by
  have hpoint : isDigit 10 (chr '.') = false := by decide
  have hwhole : (natural a ++ chr '.' :: padded k n).takeWhile (isDigit 10) = natural a := by
    rw [List.takeWhile_append_of_pos fun c hc => isDigit_of_mem_natural hc,
      List.takeWhile_cons_of_neg (by simp [hpoint]), List.append_nil]
  have hrest : (natural a ++ chr '.' :: padded k n).dropWhile (isDigit 10) =
      chr '.' :: padded k n := by
    rw [List.dropWhile_append_of_pos fun c hc => isDigit_of_mem_natural hc,
      List.dropWhile_cons_of_neg (by simp [hpoint])]
  have htake : (padded k n).takeWhile (isDigit 10) = padded k n :=
    List.takeWhile_eq_self_iff.mpr fun c hc => isDigit_of_mem_padded hc
  have hdrop : (padded k n).dropWhile (isDigit 10) = [] :=
    List.dropWhile_eq_nil_iff.mpr fun c hc => isDigit_of_mem_padded hc
  unfold mantissa
  rw [hwhole, hrest]
  dsimp only
  rw [if_pos rfl, htake, hdrop, if_neg fun h => natural_ne_nil a h.1, ofDigits_natural,
    ofDigits_padded, padded_length]

theorem mantissa_isSome {c : Byte} (hc : isDigit 10 c = true) (s : Text) :
    (mantissa 10 (c :: s)).isSome = true := by
  have hwhole : (c :: s).takeWhile (isDigit 10) ≠ [] := by
    rw [List.takeWhile_cons_of_pos hc]
    exact List.cons_ne_nil _ _
  unfold mantissa
  dsimp only
  split
  · split_ifs with hpoint hnone
    · exact absurd hnone.1 hwhole
    · rfl
    · rfl
  · rw [if_neg hwhole]
    rfl

theorem number_isSome {c : Byte} (hc : isDigit 10 c = true) (s : Text) :
    (number 10 10 (chr 'e') (c :: s)).isSome = true := by
  obtain ⟨⟨n, k, t⟩, hm⟩ := Option.isSome_iff_exists.mp (mantissa_isSome hc s)
  unfold number
  rw [hm]
  rfl

/-- A digit is no blank and no sign. -/
theorem signed_dropWhile_digit {c : Byte} (hc : isDigit 10 c = true) (s : Text) :
    signed ((c :: s).dropWhile isSpace) = (false, c :: s) := by
  have hall : ∀ d < 10, isSpace (digit d) = false ∧ digit d ≠ chr '-' ∧ digit d ≠ chr '+' := by
    decide +kernel
  obtain ⟨d, hd, rfl⟩ := exists_digit hc
  obtain ⟨hspace, hminus, hplus⟩ := hall d hd
  rw [dropWhile_eq_self hspace, signed, if_neg hminus, if_neg hplus]

/-- A text that starts with a digit holds a literal. -/
theorem strtof_isSome {c : Byte} (hc : isDigit 10 c = true) (s : Text) :
    (strtof (c :: s)).isSome = true := by
  unfold strtof
  rw [signed_dropWhile_digit hc]
  dsimp only
  rw [Option.isSome_map]
  unfold unsigned
  split
  · rfl
  · rfl
  · rfl
  · split
    · rfl
    · rw [Option.isSome_map]
      exact number_isSome hc s

/-- A word does not stand in front of a text that has not its letters. -/
theorem word_eq_none {w s : Text} {c : Byte} (hc : c ∈ w) (hs : ∀ b ∈ s, lower b ≠ c) :
    word w s = none := by
  refine if_neg fun h => ?_
  rw [← h] at hc
  obtain ⟨b, hb, rfl⟩ := List.mem_map.mp hc
  exact hs b (List.mem_of_mem_take hb) rfl

/-- The value of a number written with `k` decimals. -/
def rounded (k : ℕ) : ExtRat → ExtRat
  | .fin q => .fin ((if q < 0 then -1 else 1) * (scaled k q / 10 ^ k))
  | x => x

/-- Rounding gives a number of `k` decimals that is at most half a unit of the last one off. -/
theorem rounded_near (k : ℕ) (q : ℚ) :
    ∃ n : ℤ, rounded k (.fin q) = .fin (n / 10 ^ k) ∧ |q - n / 10 ^ k| ≤ 1 / (2 * 10 ^ k) := by
  have hpow : (0 : ℚ) < 10 ^ k := by positivity
  have hround := roundEven_nonneg (mul_nonneg (abs_nonneg q) hpow.le)
  have hscaled : (scaled k q : ℚ) = roundEven (|q| * 10 ^ k) := by
    rw [scaled]
    exact_mod_cast Int.toNat_of_nonneg hround
  have hmag : |(|q| - scaled k q / 10 ^ k)| ≤ 1 / (2 * 10 ^ k) := by
    have hnear := abs_sub_roundEven_le (|q| * 10 ^ k)
    rw [← hscaled] at hnear
    have hfactor : |q| - scaled k q / 10 ^ k = (|q| * 10 ^ k - scaled k q) / 10 ^ k := by
      field_simp
    rw [hfactor, abs_div, abs_of_pos hpow, div_le_div_iff₀ hpow (by positivity)]
    nlinarith [hnear, hpow]
  by_cases hq : q < 0
  · refine ⟨-(scaled k q : ℤ), ?_, ?_⟩
    · unfold rounded
      simp [hq, neg_div]
    · have hneg : q - ((-(scaled k q : ℤ) : ℤ) : ℚ) / 10 ^ k = -(|q| - scaled k q / 10 ^ k) := by
        rw [abs_of_neg hq]
        push_cast
        ring
      rw [hneg, abs_neg]
      exact hmag
  · refine ⟨(scaled k q : ℤ), ?_, ?_⟩
    · unfold rounded
      simp [hq]
    · rw [abs_of_nonneg (not_lt.mp hq)] at hmag
      rw [Int.cast_natCast]
      exact hmag

/-- A natural number is not rounded. -/
theorem rounded_natural (k n : ℕ) : rounded k (.fin n) = .fin n := by
  have hpow : (0 : ℚ) < 10 ^ k := by positivity
  obtain ⟨j, hj, hnear⟩ := rounded_near k n
  have hclose : |(n : ℚ) * 10 ^ k - j| ≤ 1 / 2 := by
    have hfactor : (n : ℚ) * 10 ^ k - j = (n - j / 10 ^ k) * 10 ^ k := by field_simp
    rw [hfactor, abs_mul, abs_of_pos hpow]
    calc |(n : ℚ) - j / 10 ^ k| * 10 ^ k ≤ 1 / (2 * 10 ^ k) * 10 ^ k :=
          mul_le_mul_of_nonneg_right hnear hpow.le
      _ = 1 / 2 := by field_simp
  have hint : |((n * 10 ^ k : ℕ) : ℤ) - j| < 1 := by
    have hcast : |(((n * 10 ^ k : ℕ) : ℤ) - j : ℚ)| < 1 := by
      push_cast
      linarith
    exact_mod_cast hcast
  have heq : j = (n * 10 ^ k : ℕ) := by
    rw [Int.abs_lt_one_iff] at hint
    omega
  rw [hj, heq]
  push_cast
  rw [mul_div_assoc, div_self hpow.ne', mul_one]

/-- The magnitude of a number, written with a point. -/
theorem unsigned_magnitude (k n : ℕ) :
    unsigned (natural (n / 10 ^ k) ++ chr '.' :: padded k n) =
      some (.fin (n / 10 ^ k), []) := by
  have hdigit : ∀ d < 10, lower (digit d) ≠ chr 'n' ∧ lower (digit d) ≠ chr 'x' := by
    decide +kernel
  have hmem : ∀ c ∈ natural (n / 10 ^ k) ++ chr '.' :: padded k n,
      lower c ≠ chr 'n' ∧ lower c ≠ chr 'x' := by
    intro c hc
    rcases List.mem_append.mp hc with h | h
    · obtain ⟨d, hd, rfl⟩ := digit_mem_natural h
      exact hdigit d hd
    · rcases List.mem_cons.mp h with rfl | h
      · decide
      · obtain ⟨d, hd, rfl⟩ := digit_mem_padded h
        exact hdigit d hd
  have hnumber : number 10 10 (chr 'e') (natural (n / 10 ^ k) ++ chr '.' :: padded k n) =
      some ((n : ℚ) / 10 ^ k, []) := by
    have hvalue : n / 10 ^ k * 10 ^ k + n % 10 ^ k = n := Nat.div_add_mod' n (10 ^ k)
    unfold number
    rw [mantissa_eq, hvalue]
    show some ((n : ℚ) / ((10 : ℕ) : ℚ) ^ k * 10 ^ (0 : ℤ), []) = _
    rw [zpow_zero, mul_one]
    norm_cast
  unfold unsigned
  rw [word_eq_none (c := chr 'n') (by decide) fun c hc => (hmem c hc).1,
    word_eq_none (c := chr 'n') (by decide) fun c hc => (hmem c hc).1,
    word_eq_none (c := chr 'n') (by decide) fun c hc => (hmem c hc).1,
    word_eq_none (c := chr 'x') (by decide) fun c hc => (hmem c hc).2]
  dsimp only [Option.bind_none]
  rw [hnumber]
  rfl

/-- **Round trip.** What is written with `k` decimals is read as the number rounded to them. -/
theorem strtof_render (k : ℕ) (x : ExtRat) : strtof (render k x) = some (rounded k x, []) := by
  cases x with
  | nan => show strtof (lit "nan") = some (.nan, []); decide +kernel
  | inf s =>
    cases s
    · show strtof (lit "inf") = some (.inf false, []); decide +kernel
    · show strtof (lit "-inf") = some (.inf true, []); decide +kernel
  | fin q =>
    have hmag := unsigned_magnitude k (scaled k q)
    obtain ⟨c, s, hdigits⟩ := List.exists_cons_of_ne_nil (natural_ne_nil (scaled k q / 10 ^ k))
    have hc : isDigit 10 c = true := isDigit_of_mem_natural (hdigits ▸ List.mem_cons_self)
    show strtof (sign q ++ natural (scaled k q / 10 ^ k) ++ chr '.' :: padded k (scaled k q)) = _
    unfold strtof
    by_cases hq : q < 0
    · have hsigned : signed ((sign q ++ natural (scaled k q / 10 ^ k) ++
          chr '.' :: padded k (scaled k q)).dropWhile isSpace) =
          (true, natural (scaled k q / 10 ^ k) ++ chr '.' :: padded k (scaled k q)) := by
        rw [sign, if_pos hq]
        show signed ((chr '-' :: _).dropWhile isSpace) = _
        rw [dropWhile_eq_self (by decide)]
        rfl
      rw [hsigned]
      dsimp only
      rw [hmag, Option.map_some]
      unfold rounded
      simp [hq]
    · have hsigned : signed ((sign q ++ natural (scaled k q / 10 ^ k) ++
          chr '.' :: padded k (scaled k q)).dropWhile isSpace) =
          (false, natural (scaled k q / 10 ^ k) ++ chr '.' :: padded k (scaled k q)) := by
        rw [sign, if_neg hq, List.nil_append, hdigits]
        exact signed_dropWhile_digit hc _
      rw [hsigned]
      dsimp only
      rw [hmag, Option.map_some]
      unfold rounded
      simp [hq]

end Numeral
