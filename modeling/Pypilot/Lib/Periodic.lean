import Mathlib.Data.BitVec
import Mathlib.Data.Nat.Basic
import Mathlib.Tactic.Ring
import Pypilot.Lib.Loop

/-!
# Due times with a phase

What is periodic is due whole periods after its start. A loop that adds the period until the due time lies
behind the clock, entered when one is due, ends at the next due time of that phase (`run_catchUp`). On
words of a machine the sums of this loop wrap, and it ends at the same time as long as that time is a word
(`returns_words`).
-/

namespace Periodic

variable {start period last now : ℕ}

/-- The first due time after `now`. -/
def nextDue (start period now : ℕ) : ℕ := start + period * ((now - start) / period + 1)

theorem nextDue_start (start period : ℕ) : nextDue start period start = start + period := by
  rw [nextDue, Nat.sub_self, Nat.zero_div, Nat.zero_add, Nat.mul_one]

theorem lt_nextDue (hperiod : 0 < period) : now < nextDue start period now := by
  have hlt : now - start < period * ((now - start) / period + 1) :=
    Nat.lt_mul_div_succ (now - start) hperiod
  unfold nextDue
  omega

/-- A due time is reached when a whole period has been completed. -/
theorem nextDue_le_iff (hperiod : 0 < period) :
    nextDue start period last ≤ now ↔ (last - start) / period < (now - start) / period := by
  have hpos : 0 < period * ((last - start) / period + 1) := Nat.mul_pos hperiod (Nat.succ_pos _)
  rw [← Nat.succ_le_iff, Nat.le_div_iff_mul_le hperiod, Nat.mul_comm, Nat.succ_eq_add_one]
  unfold nextDue
  omega

/-- Where none is reached, the next due time stays. -/
theorem nextDue_eq_of_lt (hperiod : 0 < period) (hlast : last ≤ now)
    (hnot : now < nextDue start period last) :
    nextDue start period now = nextDue start period last := by
  have hmono : (last - start) / period ≤ (now - start) / period :=
    Nat.div_le_div_right (Nat.sub_le_sub_right hlast start)
  have hsame : (now - start) / period = (last - start) / period :=
    le_antisymm (not_lt.mp fun hlt => absurd ((nextDue_le_iff hperiod).mpr hlt) (not_le.mpr hnot)) hmono
  rw [nextDue, hsame, nextDue]

section CatchUp

variable {body : ℕ → ℕ ⊕ ℕ} {μ : ℕ → ℕ} {hμ : Loop.Variant body μ} (hperiod : 0 < period)
  (hbody : ∀ due, body due =
    if period ≠ 0 ∧ due + period ≤ now then .inl (due + period) else .inr (due + period))

include hperiod hbody

/-- From any due time that is reached, the loop ends at the next one. -/
theorem run_from_due (k : ℕ) (hdue : start + period * k ≤ now) :
    Loop.run body μ hμ (start + period * k) = nextDue start period now := by
  induction hn : now - (start + period * k) using Nat.strong_induction_on generalizing k with
  | _ n ih =>
    have hnext : start + period * k + period = start + period * (k + 1) := by ring
    by_cases hreached : start + period * k + period ≤ now
    · have hgo : body (start + period * k) = .inl (start + period * (k + 1)) := by
        rw [hbody, if_pos ⟨hperiod.ne', hreached⟩, hnext]
      rw [Loop.run_goes_on hgo]
      exact ih _ (by omega) (k + 1) (by omega) rfl
    · have hleave : body (start + period * k) = .inr (start + period * (k + 1)) := by
        rw [hbody, if_neg fun h => hreached h.2, hnext]
      have hperiods : (now - start) / period = k := by
        refine Nat.div_eq_of_lt_le ?_ ?_
        · rw [Nat.mul_comm]
          omega
        · rw [Nat.mul_comm]
          omega
      rw [Loop.run_leaves hleave, nextDue, hperiods]

/-- The loop keeps the phase. -/
theorem run_catchUp (hdue : nextDue start period last ≤ now) :
    Loop.run body μ hμ (nextDue start period last) = nextDue start period now :=
  run_from_due hperiod hbody _ hdue

end CatchUp

/-! ## Words -/

section Words

variable {w : ℕ}

/-- The loop on words of `w` bits. -/
def wordBody (period now due : BitVec w) : BitVec w ⊕ BitVec w :=
  if period ≠ 0 ∧ due + period ≤ now then .inl (due + period) else .inr (due + period)

theorem toNat_ofNat_add {a b : ℕ} (hfits : a + b < 2 ^ w) :
    (BitVec.ofNat w a + BitVec.ofNat w b).toNat = a + b := by
  rw [BitVec.ofNat_add_ofNat, BitVec.toNat_ofNat, Nat.mod_eq_of_lt hfits]

variable {body : ℕ → ℕ ⊕ ℕ} {n due next : ℕ} (hbody : ∀ due, body due =
    if period ≠ 0 ∧ due + period ≤ now then .inl (due + period) else .inr (due + period))

include hbody

/-- The loop adds the period at least once. -/
theorem add_le_of_exec (hexec : Loop.exec body n due = some next) : due + period ≤ next := by
  refine Loop.exec_invariant (fun t => due ≤ t) (fun r => due + period ≤ r) ?_ ?_ le_rfl hexec
  all_goals
    intro t t' hle hb
    rw [hbody] at hb
    split_ifs at hb
  · have := Sum.inl.inj hb
    omega
  · have := Sum.inr.inj hb
    omega

/-- A loop that ends at a word does the same on words. -/
theorem exec_words (hnow : now < 2 ^ w) (hexec : Loop.exec body n due = some next)
    (hnext : next < 2 ^ w) :
    Loop.exec (wordBody (BitVec.ofNat w period) (BitVec.ofNat w now)) n (BitVec.ofNat w due) =
      some (BitVec.ofNat w next) := by
  induction n generalizing due with
  | zero => exact nomatch hexec
  | succ n ih =>
    have hle := add_le_of_exec hbody hexec
    have hsum : BitVec.ofNat w due + BitVec.ofNat w period = BitVec.ofNat w (due + period) :=
      BitVec.ofNat_add_ofNat ..
    have hzero : BitVec.ofNat w period ≠ 0 ↔ period ≠ 0 := by
      rw [not_iff_not, BitVec.toNat_eq, BitVec.toNat_ofNat, Nat.mod_eq_of_lt (by omega)]
      rfl
    have hreached : BitVec.ofNat w (due + period) ≤ BitVec.ofNat w now ↔ due + period ≤ now := by
      rw [BitVec.le_def, BitVec.toNat_ofNat, BitVec.toNat_ofNat, Nat.mod_eq_of_lt (by omega),
        Nat.mod_eq_of_lt hnow]
    have hword : wordBody (BitVec.ofNat w period) (BitVec.ofNat w now) (BitVec.ofNat w due) =
        if period ≠ 0 ∧ due + period ≤ now then .inl (BitVec.ofNat w (due + period))
        else .inr (BitVec.ofNat w (due + period)) := by
      unfold wordBody
      rw [hsum]
      exact if_congr (and_congr hzero hreached) rfl rfl
    by_cases hgo : period ≠ 0 ∧ due + period ≤ now
    · rw [if_pos hgo] at hword
      rw [Loop.exec_goes_on ((hbody due).trans (if_pos hgo))] at hexec
      rw [Loop.exec_goes_on hword]
      exact ih hexec
    · rw [if_neg hgo] at hword
      rw [Loop.exec_leaves ((hbody due).trans (if_neg hgo))] at hexec
      rw [Loop.exec_leaves hword, Option.some.inj hexec]

theorem returns_words {μ : ℕ → ℕ} {hμ : Loop.Variant body μ} (hnow : now < 2 ^ w)
    (hnext : Loop.run body μ hμ due < 2 ^ w) :
    Loop.Returns (wordBody (BitVec.ofNat w period) (BitVec.ofNat w now)) (BitVec.ofNat w due)
      (BitVec.ofNat w (Loop.run body μ hμ due)) :=
  ⟨_, exec_words hbody hnow (Loop.exec_run due) hnext⟩

end Words

end Periodic
