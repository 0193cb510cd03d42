import Mathlib.Data.Rat.Floor
import Mathlib.Tactic.Linarith

/-!
# Extended rationals

The values of an IEEE number format computed exactly: a rational, an infinity or not a number.
Comparisons and arithmetic follow IEEE 754; rounding and the sign of zero are not kept.
-/

/-- A rational, an infinity (`inf true` is the negative one), or not a number. -/
inductive ExtRat
  | fin (q : ℚ)
  | inf (neg : Bool)
  | nan
  deriving DecidableEq

namespace ExtRat

instance : Inhabited ExtRat := ⟨fin 0⟩

instance (n : ℕ) : OfNat ExtRat n := ⟨fin n⟩

/-! ## Arithmetic -/

protected def neg : ExtRat → ExtRat
  | fin q => fin (-q)
  | inf s => inf !s
  | nan => nan

protected def add : ExtRat → ExtRat → ExtRat
  | fin a, fin b => fin (a + b)
  | inf s, inf t => if s = t then inf s else nan
  | inf s, fin _ => inf s
  | fin _, inf t => inf t
  | nan, _ => nan
  | _, nan => nan

protected def mul : ExtRat → ExtRat → ExtRat
  | fin a, fin b => fin (a * b)
  | inf s, inf t => inf (s ^^ t)
  | inf s, fin b => if b = 0 then nan else inf (s ^^ decide (b < 0))
  | fin a, inf t => if a = 0 then nan else inf (t ^^ decide (a < 0))
  | nan, _ => nan
  | _, nan => nan

protected def div : ExtRat → ExtRat → ExtRat
  | fin a, fin b =>
    if b = 0 then (if a = 0 then nan else inf (decide (a < 0))) else fin (a / b)
  | inf _, inf _ => nan
  | inf s, fin b => inf (s ^^ decide (b < 0))
  | fin _, inf _ => fin 0
  | nan, _ => nan
  | _, nan => nan

instance : Neg ExtRat := ⟨ExtRat.neg⟩
instance : Add ExtRat := ⟨ExtRat.add⟩
instance : Sub ExtRat := ⟨fun a b => a + -b⟩
instance : Mul ExtRat := ⟨ExtRat.mul⟩
instance : Div ExtRat := ⟨ExtRat.div⟩

theorem ofNat_eq (n : ℕ) : (OfNat.ofNat n : ExtRat) = fin n := rfl

@[simp] theorem neg_fin (a : ℚ) : -fin a = fin (-a) := rfl
@[simp] theorem fin_add_fin (a b : ℚ) : fin a + fin b = fin (a + b) := rfl
@[simp] theorem fin_mul_fin (a b : ℚ) : fin a * fin b = fin (a * b) := rfl

theorem sub_eq (a b : ExtRat) : a - b = a + -b := rfl

@[simp] theorem fin_sub_fin (a b : ℚ) : fin a - fin b = fin (a - b) := by
  rw [sub_eq, neg_fin, fin_add_fin, sub_eq_add_neg]

theorem fin_div_fin (a : ℚ) {b : ℚ} (hb : b ≠ 0) : fin a / fin b = fin (a / b) := if_neg hb

/-- A rational times a finite factor is rational, and nothing else is. -/
theorem mul_fin_eq_fin_iff {x : ExtRat} {b q : ℚ} (hb : b ≠ 0) :
    x * fin b = fin q ↔ ∃ a, x = fin a ∧ a * b = q := by
  cases x with
  | fin a =>
    constructor
    · exact fun h => ⟨a, rfl, fin.inj h⟩
    · rintro ⟨a', ha, rfl⟩
      rw [fin.inj ha]
      rfl
  | inf s =>
    have hinf : inf s * fin b = inf (s ^^ decide (b < 0)) := if_neg hb
    rw [hinf]
    exact iff_of_false (fun h => nomatch h) fun ⟨_, h, _⟩ => nomatch h
  | nan => exact iff_of_false (fun h => nomatch h) fun ⟨_, h, _⟩ => nomatch h

/-! ## Comparisons -/

/-- The IEEE comparison `a < b`. -/
protected def lt : ExtRat → ExtRat → Bool
  | fin a, fin b => a < b
  | fin _, inf t => !t
  | inf s, fin _ => s
  | inf s, inf t => s && !t
  | nan, _ => false
  | _, nan => false

/-- The IEEE equality `a == b`: nothing equals not-a-number. -/
def feq : ExtRat → ExtRat → Bool
  | fin a, fin b => a = b
  | inf s, inf t => s = t
  | _, _ => false

instance : LT ExtRat := ⟨fun a b => ExtRat.lt a b = true⟩
instance : LE ExtRat := ⟨fun a b => ExtRat.lt a b = true ∨ feq a b = true⟩
instance : DecidableRel fun a b : ExtRat => a < b := fun a b =>
  inferInstanceAs (Decidable (ExtRat.lt a b = true))
instance : DecidableRel fun a b : ExtRat => a ≤ b := fun a b =>
  inferInstanceAs (Decidable (ExtRat.lt a b = true ∨ feq a b = true))

@[simp] theorem fin_lt_fin {a b : ℚ} : fin a < fin b ↔ a < b := by
  show (decide (a < b)) = true ↔ _
  rw [decide_eq_true_eq]

@[simp] theorem fin_le_fin {a b : ℚ} : fin a ≤ fin b ↔ a ≤ b := by
  show (decide (a < b)) = true ∨ (decide (a = b)) = true ↔ _
  rw [decide_eq_true_eq, decide_eq_true_eq, le_iff_lt_or_eq]

@[simp] theorem fin_lt_inf {a : ℚ} {t : Bool} : fin a < inf t ↔ t = false := by
  show (!t) = true ↔ _
  rw [Bool.not_eq_true']

@[simp] theorem inf_lt_fin {s : Bool} {b : ℚ} : inf s < fin b ↔ s = true := Iff.rfl

@[simp] theorem not_nan_lt (x : ExtRat) : ¬ nan < x := by
  cases x <;> exact Bool.false_ne_true

@[simp] theorem not_lt_nan (x : ExtRat) : ¬ x < nan := by
  cases x <;> exact Bool.false_ne_true

@[simp] theorem not_nan_le (x : ExtRat) : ¬ nan ≤ x := by
  rintro (h | h) <;> cases x <;> exact Bool.false_ne_true h

@[simp] theorem not_le_nan (x : ExtRat) : ¬ x ≤ nan := by
  rintro (h | h) <;> cases x <;> exact Bool.false_ne_true h

/-! ## Clamping, rounding, infinities and truncation -/

/-- `std::clamp`: a value that compares with neither bound is passed on. -/
def clamp (v lo hi : ExtRat) : ExtRat := if v < lo then lo else if hi < v then hi else v

/-- `std::fabs`. -/
def abs : ExtRat → ExtRat
  | fin q => fin |q|
  | inf _ => inf false
  | nan => nan

/-- `std::round`: to the nearest integer, ties away from zero. -/
def round : ExtRat → ExtRat
  | fin q => fin (if 0 ≤ q then ⌊q + 1 / 2⌋ else ⌈q - 1 / 2⌉)
  | x => x

/-- The infinities. -/
def IsInf : ExtRat → Prop
  | inf _ => True
  | _ => False

instance : DecidablePred IsInf
  | fin _ => isFalse not_false
  | inf _ => isTrue trivial
  | nan => isFalse not_false

@[simp] theorem isInf_inf (s : Bool) : (inf s).IsInf := trivial
@[simp] theorem not_isInf_fin (q : ℚ) : ¬ (fin q).IsInf := not_false
@[simp] theorem not_isInf_nan : ¬ nan.IsInf := not_false

theorem isInf_iff {x : ExtRat} : x.IsInf ↔ ∃ s, x = inf s := by
  cases x <;> simp

/-- The integer part of a rational, towards zero. -/
def trunc (q : ℚ) : ℤ := if 0 ≤ q then ⌊q⌋ else ⌈q⌉

/-- The integer part fits into `width` bits. -/
theorem trunc_fits_iff {q : ℚ} {width : ℕ} :
    (0 ≤ trunc q ∧ trunc q < 2 ^ width) ↔ -1 < q ∧ q < 2 ^ width := by
  have hpow : (0 : ℚ) < 2 ^ width := by positivity
  unfold trunc
  split_ifs with hq
  · have hfloor : ⌊q⌋ < 2 ^ width ↔ q < 2 ^ width := by
      rw [Int.floor_lt]
      norm_cast
    rw [hfloor, and_iff_right (Int.floor_nonneg.mpr hq), and_iff_right (by linarith)]
  · have hceil : ⌈q⌉ ≤ 0 := Int.ceil_le.mpr (by simpa using (not_le.mp hq).le)
    have hlt : ⌈q⌉ < 2 ^ width := hceil.trans_lt (by positivity)
    rw [Int.le_ceil_iff, and_iff_left hlt, and_iff_left (by linarith)]
    norm_num

theorem sub_trunc_mem (q : ℚ) : -1 < q - trunc q ∧ q - trunc q < 1 := by
  unfold trunc
  split_ifs
  · have hlow := Int.floor_le q
    have hhigh := Int.lt_floor_add_one q
    constructor <;> linarith
  · have hlow := Int.ceil_lt_add_one q
    have hhigh := Int.le_ceil q
    constructor <;> linarith

/-- `std::fmod`: what is left of `a` by whole multiples of `b`, with the sign of `a`. -/
def fmod : ExtRat → ExtRat → ExtRat
  | fin a, fin b => if b = 0 then nan else fin (a - b * trunc (a / b))
  | fin a, inf _ => fin a
  | _, _ => nan

theorem fmod_fin (a : ℚ) {b : ℚ} (hb : b ≠ 0) :
    fmod (fin a) (fin b) = fin (a - b * trunc (a / b)) := if_neg hb

/-- The rest is smaller than the divisor. -/
theorem rest_mem (a : ℚ) {b : ℚ} (hb : 0 < b) :
    -b < a - b * trunc (a / b) ∧ a - b * trunc (a / b) < b := by
  obtain ⟨hlow, hhigh⟩ := sub_trunc_mem (a / b)
  have hrest : a - b * trunc (a / b) = b * (a / b - trunc (a / b)) := by
    rw [mul_sub, mul_div_cancel₀ a hb.ne']
  rw [hrest]
  constructor <;> nlinarith

/-- Conversion to an unsigned integer of `width` bits: the truncated value where it fits. What the
conversion gives elsewhere is undefined and left to `wild`. -/
def toUnsigned (wild : ExtRat → ℕ) (width : ℕ) (x : ExtRat) : ℕ :=
  match x with
  | fin q => if 0 ≤ trunc q ∧ trunc q < 2 ^ width then (trunc q).toNat else wild x % 2 ^ width
  | _ => wild x % 2 ^ width

theorem toUnsigned_lt (wild : ExtRat → ℕ) (width : ℕ) (x : ExtRat) :
    toUnsigned wild width x < 2 ^ width := by
  have hwild : wild x % 2 ^ width < 2 ^ width := Nat.mod_lt _ (by positivity)
  unfold toUnsigned
  cases x with
  | fin q =>
    dsimp only
    split_ifs with hfits
    · exact (Int.toNat_lt hfits.1).mpr (by exact_mod_cast hfits.2)
    · exact hwild
  | inf s => exact hwild
  | nan => exact hwild

/-- A nonnegative rational that fits is rounded down. -/
theorem toUnsigned_fin (wild : ExtRat → ℕ) {width : ℕ} {q : ℚ} (hq : 0 ≤ q) (hlt : q < 2 ^ width) :
    toUnsigned wild width (fin q) = ⌊q⌋₊ := by
  have htrunc : trunc q = ⌊q⌋ := if_pos hq
  have hfits : ⌊q⌋ < 2 ^ width := by
    rw [Int.floor_lt]
    exact_mod_cast hlt
  unfold toUnsigned
  dsimp only
  rw [htrunc, if_pos ⟨Int.floor_nonneg.mpr hq, hfits⟩, Int.floor_toNat]

/-! ### Clamping -/

section Clamp

variable {lo hi : ℚ} (h : lo ≤ hi)

include h

theorem clamp_fin (q : ℚ) : clamp (fin q) (fin lo) (fin hi) = fin (max lo (min hi q)) := by
  unfold clamp
  simp only [fin_lt_fin]
  split_ifs with hlow hhigh
  · rw [min_eq_right (hlow.le.trans h), max_eq_left hlow.le]
  · rw [min_eq_left hhigh.le, max_eq_right h]
  · rw [min_eq_right (not_lt.mp hhigh), max_eq_right (not_lt.mp hlow)]

/-- Every number, infinite ones included, is brought between the bounds. -/
theorem exists_clamp {v : ExtRat} (hv : v ≠ nan) :
    ∃ q, clamp v (fin lo) (fin hi) = fin q ∧ lo ≤ q ∧ q ≤ hi := by
  cases v with
  | fin q => exact ⟨_, clamp_fin h q, le_max_left _ _, max_le h (min_le_left _ _)⟩
  | inf s =>
    unfold clamp
    cases s with
    | true => exact ⟨lo, if_pos rfl, le_rfl, h⟩
    | false => exact ⟨hi, by rw [if_neg (by simp), if_pos (by simp)], h, le_rfl⟩
  | nan => exact absurd rfl hv

end Clamp

end ExtRat
