import Mathlib.Algebra.Order.Group.MinMax
import Mathlib.Data.Rat.Floor
import Mathlib.Data.Sign.Basic
import Mathlib.Tactic.FieldSimp
import Mathlib.Tactic.Linarith
import Mathlib.Tactic.Ring
import Pypilot.Servo

/-!
# The calibration of the rudder

Over exact numbers: the limits that `update_minmax` computes lie between -1/2 and 1/2 in order, and where
they are not cut there, a raw value at a limit is turned into the end of the range (`calibration`).
-/

namespace Pypilot

open ExtRat

namespace RudderState

/-- A rudder with this calibration. -/
def calibrated (r : RudderState) (scale offset range nonlinearity : ℚ) : RudderState :=
  { r with scale := .fin scale, offset := .fin offset, range := .fin range,
           nonlinearity := .fin nonlinearity }

/-- The scale that `update_minmax` divides by. -/
def divisor (scale : ℚ) : ℚ := if |scale| < smallScale then 100 else scale

/-- Cut to the limits of raw values. -/
def cutRaw (q : ℚ) : ℚ := max (-(1 / 2)) (min (1 / 2) q)

/-- The limits of a calibration: the two ends of the range as raw values, cut and put in order. -/
def lowLimit (scale offset range : ℚ) : ℚ :=
  min (cutRaw ((-range - offset) / divisor scale)) (cutRaw ((range - offset) / divisor scale))

def highLimit (scale offset range : ℚ) : ℚ :=
  max (cutRaw ((-range - offset) / divisor scale)) (cutRaw ((range - offset) / divisor scale))

/-- Rounded to hundredths, halves away from zero. -/
def hundredths (q : ℚ) : ℚ :=
  (if 0 ≤ q * 100 then (⌊q * 100 + 1 / 2⌋ : ℚ) else ⌈q * 100 - 1 / 2⌉) / 100

theorem smallScale_pos : 0 < smallScale := by
  unfold smallScale
  norm_num

theorem smallScale_le : smallScale ≤ 1 / 100 := by
  unfold smallScale
  norm_num

theorem divisor_ne_zero (scale : ℚ) : divisor scale ≠ 0 := by
  unfold divisor
  split_ifs with hsmall
  · norm_num
  · rintro rfl
    exact hsmall (by rw [abs_zero]; exact smallScale_pos)

theorem cutRaw_spec (q : ℚ) : -(1 / 2) ≤ cutRaw q ∧ cutRaw q ≤ 1 / 2 :=
  ⟨le_max_left _ _, max_le (by norm_num) (min_le_left _ _)⟩

theorem cutRaw_of_abs_le {q : ℚ} (hq : |q| ≤ 1 / 2) : cutRaw q = q := by
  obtain ⟨hlow, hhigh⟩ := abs_le.mp hq
  unfold cutRaw
  rw [min_eq_right hhigh, max_eq_right hlow]

/-! ## Limits -/

section Limits

variable {r : RudderState} {scale offset range : ℚ}

theorem updateMinmax_eq (hscale : r.scale = .fin scale) (hoffset : r.offset = .fin offset)
    (hrange : r.range = .fin range) :
    r.updateMinmax = { r with minRaw := .fin (lowLimit scale offset range),
                              maxRaw := .fin (highLimit scale offset range) } := by
  have hdivisor : (if r.scale.abs < fin smallScale then 100 else r.scale) = fin (divisor scale) := by
    rw [hscale]
    show (if fin |scale| < fin smallScale then fin 100 else fin scale) = _
    unfold divisor
    simp only [fin_lt_fin]
    split_ifs <;> rfl
  have hcut : ∀ q : ℚ, clamp (fin q / fin (divisor scale)) (-fin (1 / 2)) (fin (1 / 2)) =
      fin (cutRaw (q / divisor scale)) := by
    intro q
    rw [fin_div_fin q (divisor_ne_zero scale), neg_fin, clamp_fin (by norm_num)]
    rfl
  unfold updateMinmax lowLimit highLimit
  dsimp only
  rw [hdivisor, hoffset, hrange, neg_fin range, fin_sub_fin, fin_sub_fin, hcut, hcut]
  simp only [fin_lt_fin]
  split_ifs with hswap
  · rw [min_eq_right hswap.le, max_eq_left hswap.le]
  · rw [min_eq_left (not_lt.mp hswap), max_eq_right (not_lt.mp hswap)]

/-- The raw values of the two ends of the range, in order: the lower one belongs to the end on the side
that the sign of the scale tells. -/
theorem ends_in_order (hscale : scale ≠ 0) :
    scale * min ((-range - offset) / scale) ((range - offset) / scale) + offset =
        -(SignType.sign scale * |range|) ∧
      scale * max ((-range - offset) / scale) ((range - offset) / scale) + offset =
        SignType.sign scale * |range| := by
  have hend : ∀ q : ℚ, scale * ((q - offset) / scale) = q - offset := fun q =>
    mul_div_cancel₀ _ hscale
  have hmin : min (-range - offset) (range - offset) + offset = -|range| := by
    rw [min_sub_sub_right, sub_add_cancel, abs_eq_max_neg, ← min_neg_neg, neg_neg]
  have hmax : max (-range - offset) (range - offset) + offset = |range| := by
    rw [max_sub_sub_right, sub_add_cancel, max_comm, ← abs_eq_max_neg]
  rcases lt_or_gt_of_ne hscale with hneg | hpos
  · have hflip : Antitone fun q : ℚ => scale * q := antitone_mul_left hneg.le
    have hlow := hflip.map_min (a := (-range - offset) / scale) (b := (range - offset) / scale)
    have hhigh := hflip.map_max (a := (-range - offset) / scale) (b := (range - offset) / scale)
    simp only [hend] at hlow hhigh
    rw [hlow, hhigh, hmin, hmax, sign_neg hneg]
    simp
  · have hkeep : Monotone fun q : ℚ => scale * q := monotone_mul_left_of_nonneg hpos.le
    have hlow := hkeep.map_min (a := (-range - offset) / scale) (b := (range - offset) / scale)
    have hhigh := hkeep.map_max (a := (-range - offset) / scale) (b := (range - offset) / scale)
    simp only [hend] at hlow hhigh
    rw [hlow, hhigh, hmin, hmax, sign_pos hpos]
    simp

end Limits

/-! ## Angles -/

theorem round_hundredths (q : ℚ) : (fin q * 100).round / 100 = fin (hundredths q) := by
  rw [ofNat_eq, fin_mul_fin]
  exact fin_div_fin _ (by norm_num)

/-- The angle of a raw value: a line through the ends of the range, and a correction that vanishes at both
limits. -/
theorem update_calibrated {r : RudderState} {scale offset range nonlinearity : ℚ}
    (hscale : r.scale = .fin scale) (hoffset : r.offset = .fin offset)
    (hrange : r.range = .fin range) (hnonlinearity : r.nonlinearity = .fin nonlinearity) (raw : ℚ)
    (nowUs : ℕ) :
    ∃ r', r.update (.fin raw) r.lastDevice nowUs = (true, r') ∧ r'.angle.valid = true ∧
      r'.angle.value = .fin (hundredths (scale * raw + offset +
        nonlinearity * (lowLimit scale offset range - raw) *
          (highLimit scale offset range - raw))) := by
  have hlimits := @updateMinmax_eq
    { r with raw := .fin raw, rawValid := true, rawTimestampUs := nowUs } scale offset range
    hscale hoffset hrange
  unfold update
  rw [if_neg (not_not.mpr rfl), if_neg (by exact fun h => nomatch h), hlimits]
  refine ⟨_, rfl, rfl, ?_⟩
  dsimp only
  rw [hscale, hoffset, hnonlinearity]
  simp only [fin_mul_fin, fin_add_fin, fin_sub_fin]
  exact round_hundredths _

/-- Limits that the clamp leaves alone are at the ends of the range. -/
theorem limits_at_ends {scale offset range : ℚ} (hscale : 1 / 100 ≤ |scale|)
    (hlow : |(-range - offset) / scale| ≤ 1 / 2) (hhigh : |(range - offset) / scale| ≤ 1 / 2) :
    scale * lowLimit scale offset range + offset = -(SignType.sign scale * |range|) ∧
      scale * highLimit scale offset range + offset = SignType.sign scale * |range| := by
  have hne : scale ≠ 0 := by
    rintro rfl
    norm_num at hscale
  have hdivisor : divisor scale = scale := if_neg (not_lt.mpr (smallScale_le.trans hscale))
  have hlo : lowLimit scale offset range =
      min ((-range - offset) / scale) ((range - offset) / scale) := by
    unfold lowLimit
    rw [hdivisor, cutRaw_of_abs_le hlow, cutRaw_of_abs_le hhigh]
  have hhi : highLimit scale offset range =
      max ((-range - offset) / scale) ((range - offset) / scale) := by
    unfold highLimit
    rw [hdivisor, cutRaw_of_abs_le hlow, cutRaw_of_abs_le hhigh]
  rw [hlo, hhi]
  exact ends_in_order hne

/-- **Calibration.** The limits lie in order between -1/2 and 1/2. Where the scale counts as such and the
clamp leaves the limits alone, a raw value at a limit gives the end of the range on its side. -/
theorem calibration (r : RudderState) (scale offset range nonlinearity : ℚ) :
    let r' := (r.calibrated scale offset range nonlinearity).updateMinmax
    ∃ lo hi : ℚ, r'.minRaw = .fin lo ∧ r'.maxRaw = .fin hi ∧ -(1 / 2) ≤ lo ∧ lo ≤ hi ∧ hi ≤ 1 / 2 ∧
      (1 / 100 ≤ |scale| → |(-range - offset) / scale| ≤ 1 / 2 → |(range - offset) / scale| ≤ 1 / 2 →
        ∀ nowUs, ∃ low high,
          r'.update r'.minRaw r'.lastDevice nowUs = (true, low) ∧ low.angle.valid = true ∧
            low.angle.value = .fin (hundredths (-(SignType.sign scale * |range|))) ∧
          r'.update r'.maxRaw r'.lastDevice nowUs = (true, high) ∧ high.angle.valid = true ∧
            high.angle.value = .fin (hundredths (SignType.sign scale * |range|))) := by
  intro r'
  have hr' : r' = _ := @updateMinmax_eq (r.calibrated scale offset range nonlinearity) scale offset
    range rfl rfl rfl
  have hminRaw : r'.minRaw = .fin (lowLimit scale offset range) := by rw [hr']
  have hmaxRaw : r'.maxRaw = .fin (highLimit scale offset range) := by rw [hr']
  have hangle := @update_calibrated r' scale offset range nonlinearity (by rw [hr']; rfl)
    (by rw [hr']; rfl) (by rw [hr']; rfl) (by rw [hr']; rfl)
  rw [hminRaw, hmaxRaw]
  refine ⟨_, _, rfl, rfl, le_min (cutRaw_spec _).1 (cutRaw_spec _).1, min_le_max,
    max_le (cutRaw_spec _).2 (cutRaw_spec _).2, fun hscale hlow hhigh nowUs => ?_⟩
  obtain ⟨hend, hend'⟩ := limits_at_ends hscale hlow hhigh
  obtain ⟨low, hupdate, hvalid, hvalue⟩ := hangle (lowLimit scale offset range) nowUs
  obtain ⟨high, hupdate', hvalid', hvalue'⟩ := hangle (highLimit scale offset range) nowUs
  rw [sub_self, mul_zero, zero_mul, add_zero, hend] at hvalue
  rw [sub_self, mul_zero, add_zero, hend'] at hvalue'
  exact ⟨low, high, hupdate, hvalid, hvalue, hupdate', hvalid', hvalue'⟩

/-- With a negative scale the lower limit is the upper end of the range. -/
theorem calibration_reversed :
    let r' := (({} : RudderState).calibrated (-100) 5 30 3).updateMinmax
    ∃ low high, r'.update r'.minRaw r'.lastDevice 7 = (true, low) ∧ low.angle.value = .fin 30 ∧
      r'.update r'.maxRaw r'.lastDevice 7 = (true, high) ∧ high.angle.value = .fin (-30) := by
  intro r'
  obtain ⟨-, -, -, -, -, -, -, hends⟩ := calibration {} (-100) 5 30 3
  obtain ⟨low, high, hlow, -, hvalue, hhigh, -, hvalue'⟩ :=
    hends (by norm_num) (by norm_num) (by norm_num) 7
  exact ⟨low, high, hlow, hvalue.trans (by decide +kernel), hhigh, hvalue'.trans (by decide +kernel)⟩

end RudderState

end Pypilot
