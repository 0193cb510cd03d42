import Mathlib.Data.Nat.Digits.Lemmas
import Mathlib.Algebra.Order.Floor.Semiring
import Pypilot.Lib.ExtRat
import Pypilot.Lib.Text

/-!
# Fixed-point rendering

What `printf` writes for `%.kf`: the value in units of `10 ^ -k`, rounded to the nearest with ties to
even, as a sign, at least one digit, a point and `k` digits. The length of the text is that of the
integer part.
-/

namespace Decimal

open Text

/-- The digit `d`. -/
def digit (d : ℕ) : Byte := UInt8.ofNat (48 + d)

/-- A natural number in decimal, without leading zeros. -/
def natural (n : ℕ) : Text := if n = 0 then [digit 0] else ((Nat.digits 10 n).map digit).reverse

/-- The `k` lowest decimal digits of `n`. -/
def padded : ℕ → ℕ → Text
  | 0, _ => []
  | k + 1, n => padded k (n / 10) ++ [digit (n % 10)]

/-- Rounding to the nearest integer, ties to even. -/
def roundEven (q : ℚ) : ℤ :=
  let f := ⌊q⌋
  if q - f < 1 / 2 then f else if 1 / 2 < q - f then f + 1 else if f % 2 = 0 then f else f + 1

/-- The magnitude of `q` in units of `10 ^ -k`. -/
def scaled (k : ℕ) (q : ℚ) : ℕ := (roundEven (|q| * 10 ^ k)).toNat

/-- The sign in front of a rendered number. -/
def sign (q : ℚ) : Text := if q < 0 then [chr '-'] else []

/-- A rational with `k` decimals. -/
def fixed (k : ℕ) (q : ℚ) : Text :=
  sign q ++ natural (scaled k q / 10 ^ k) ++ chr '.' :: padded k (scaled k q)

/-- `%.kf`. -/
def render (k : ℕ) : ExtRat → Text
  | .fin q => fixed k q
  | .inf s => if s then lit "-inf" else lit "inf"
  | .nan => lit "nan"

/-! ## Lengths -/

theorem natural_length_le_iff {n j : ℕ} (hj : 0 < j) : (natural n).length ≤ j ↔ n < 10 ^ j := by
  unfold natural
  split_ifs with h0
  · subst h0
    have hpow : 0 < 10 ^ j := by positivity
    exact ⟨fun _ => hpow, fun _ => hj⟩
  · rw [List.length_reverse, List.length_map, Nat.digits_length_le_iff (by norm_num)]

@[simp] theorem padded_length (k n : ℕ) : (padded k n).length = k := by
  induction k generalizing n with
  | zero => rfl
  | succ k ih => rw [padded, List.length_append, ih]; rfl

theorem fixed_length (k : ℕ) (q : ℚ) :
    (fixed k q).length = (sign q).length + (natural (scaled k q / 10 ^ k)).length + 1 + k := by
  simp only [fixed, List.length_append, List.length_cons, padded_length]
  omega

theorem sign_length (q : ℚ) : (sign q).length = if q < 0 then 1 else 0 := by
  unfold sign
  split_ifs <;> rfl

/-- Rounding stays below an even number exactly up to the tie below it. -/
theorem roundEven_lt_iff {q : ℚ} {n : ℤ} (hn : n % 2 = 0) : roundEven q < n ↔ q < n - 1 / 2 := by
  have hle := Int.floor_le q
  have hlt := Int.lt_floor_add_one q
  have hcast : ∀ a b : ℤ, a < b → (a : ℚ) + 1 ≤ b := fun a b h => by exact_mod_cast h
  unfold roundEven
  generalize ⌊q⌋ = f at hle hlt ⊢
  dsimp only
  split_ifs with h₁ h₂ h₃
  · refine ⟨fun h => ?_, fun h => ?_⟩
    · linarith [hcast f n h]
    · by_contra hc
      have : (n : ℚ) ≤ f := by exact_mod_cast not_lt.mp hc
      linarith
  · refine ⟨fun h => ?_, fun h => ?_⟩
    · have := hcast _ _ h
      push_cast at this
      linarith
    · by_contra hc
      have : (n : ℚ) ≤ f + 1 := by exact_mod_cast not_lt.mp hc
      linarith
  · -- a tie that goes down: the floor is even, so it is not next to `n`
    refine ⟨fun h => ?_, fun h => ?_⟩
    · have hf : f + 1 < n := by omega
      have := hcast _ _ hf
      push_cast at this
      linarith
    · by_contra hc
      have : (n : ℚ) ≤ f := by exact_mod_cast not_lt.mp hc
      linarith
  · refine ⟨fun h => ?_, fun h => ?_⟩
    · have := hcast _ _ h
      push_cast at this
      linarith
    · by_contra hc
      have : (n : ℚ) ≤ f + 1 := by exact_mod_cast not_lt.mp hc
      linarith

theorem abs_sub_roundEven_le (q : ℚ) : |q - roundEven q| ≤ 1 / 2 := by
  have hle := Int.floor_le q
  have hlt := Int.lt_floor_add_one q
  unfold roundEven
  generalize ⌊q⌋ = f at hle hlt ⊢
  dsimp only
  rw [abs_le]
  split_ifs with h₁ h₂ h₃
  · exact ⟨by linarith, by linarith⟩
  · push_cast
    exact ⟨by linarith, by linarith⟩
  · exact ⟨by linarith, by linarith⟩
  · push_cast
    exact ⟨by linarith, by linarith⟩

theorem roundEven_nonneg {q : ℚ} (hq : 0 ≤ q) : 0 ≤ roundEven q := by
  have hf : 0 ≤ ⌊q⌋ := Int.floor_nonneg.mpr hq
  unfold roundEven
  dsimp only
  split_ifs <;> omega

/-- A number renders with an integer part of at most `j` digits when its magnitude stays below
`10 ^ j`, half a unit of the last decimal off. -/
theorem integer_digits_le_iff {j k : ℕ} (hj : 0 < j) (hk : 0 < k) (q : ℚ) :
    (natural (scaled k q / 10 ^ k)).length ≤ j ↔ |q| < 10 ^ j - 1 / (2 * 10 ^ k) := by
  have hpow : (0 : ℚ) < 10 ^ k := by positivity
  have hround := roundEven_nonneg (mul_nonneg (abs_nonneg q) hpow.le)
  have heven : ((10 ^ (j + k) : ℕ) : ℤ) % 2 = 0 := by
    obtain ⟨i, hi⟩ : ∃ i, j + k = i + 1 := ⟨j + k - 1, by omega⟩
    rw [hi, pow_succ]
    omega
  rw [natural_length_le_iff hj, Nat.div_lt_iff_lt_mul (by positivity), ← pow_add, scaled,
    Int.toNat_lt hround, roundEven_lt_iff heven]
  push_cast
  rw [pow_add]
  constructor
  · intro h
    have h' : |q| * 10 ^ k < (10 ^ j - 1 / (2 * 10 ^ k)) * 10 ^ k := by
      rw [sub_mul, one_div, mul_inv, mul_assoc, inv_mul_cancel₀ hpow.ne']
      linarith
    exact lt_of_mul_lt_mul_right h' hpow.le
  · intro h
    have h' := mul_lt_mul_of_pos_right h hpow
    rw [sub_mul, one_div, mul_inv, mul_assoc, inv_mul_cancel₀ hpow.ne'] at h'
    linarith

/-! ## Characters -/

theorem digit_toNat {d : ℕ} (hd : d < 10) : (digit d).toNat = 48 + d := by
  unfold digit
  rw [UInt8.toNat_ofNat']
  omega

theorem digit_mem_natural {n : ℕ} {c : Byte} (h : c ∈ natural n) : ∃ d < 10, c = digit d := by
  unfold natural at h
  split_ifs at h with h0
  · exact ⟨0, by norm_num, List.mem_singleton.mp h⟩
  · obtain ⟨d, hd, rfl⟩ := List.mem_map.mp (List.mem_reverse.mp h)
    exact ⟨d, Nat.digits_lt_base (by norm_num) hd, rfl⟩

theorem digit_mem_padded {k n : ℕ} {c : Byte} (h : c ∈ padded k n) : ∃ d < 10, c = digit d := by
  induction k generalizing n with
  | zero => simp [padded] at h
  | succ k ih =>
    rcases List.mem_append.mp h with h | h
    · exact ih h
    · exact ⟨n % 10, Nat.mod_lt _ (by norm_num), List.mem_singleton.mp h⟩

/-- A rendered number holds no control character. -/
theorem le_of_mem_render {k : ℕ} {x : ExtRat} {c : Byte} (h : c ∈ render k x) : 45 ≤ c.toNat := by
  have hdigit : ∀ c : Byte, (∃ d < 10, c = digit d) → 45 ≤ c.toNat := by
    rintro c ⟨d, hd, rfl⟩
    rw [digit_toNat hd]
    omega
  have hword : ∀ w : Text, w.all (fun c => decide (45 ≤ c.toNat)) = true →
      ∀ c ∈ w, 45 ≤ c.toNat :=
    fun w hw c hc => of_decide_eq_true (List.all_eq_true.mp hw c hc)
  cases x with
  | fin q =>
    simp only [render, fixed, List.mem_append, List.mem_cons] at h
    rcases h with (h | h) | rfl | h
    · unfold sign at h
      split_ifs at h
      · rw [List.mem_singleton.mp h]; decide
      · exact absurd h List.not_mem_nil
    · exact hdigit c (digit_mem_natural h)
    · decide
    · exact hdigit c (digit_mem_padded h)
  | inf s =>
    cases s
    · exact hword (lit "inf") (by decide) c h
    · exact hword (lit "-inf") (by decide) c h
  | nan => exact hword (lit "nan") (by decide) c h

end Decimal
