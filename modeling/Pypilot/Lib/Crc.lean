import Mathlib.Algebra.BigOperators.Fin
import Mathlib.Algebra.Field.ZMod
import Mathlib.Algebra.Ring.Parity
import Mathlib.Data.ZMod.Basic
import Mathlib.Tactic.Common
import Mathlib.Tactic.Ring

/-!
# Cyclic redundancy checks

The shift register of a CRC of any width: a bit is added at the top, and the register is multiplied by x
modulo the generator. It is linear, so an error goes unseen exactly when it leads the register from 0 to
0. A generator with lowest coefficient 1 sees every burst as long as the register, one divisible by x + 1
every odd number of flipped bits.
-/

namespace Crc

variable {w : ℕ}

/-! ## The register -/

def top (w : ℕ) : BitVec w := BitVec.twoPow w (w - 1)

/-- Multiplication by x modulo the generator; `poly` is the generator without its highest term. -/
def shift (poly r : BitVec w) : BitVec w := (r <<< 1) ^^^ if r.msb then poly else 0#w

def feed (poly r : BitVec w) (b : Bool) : BitVec w := shift poly (r ^^^ if b then top w else 0#w)

def register (poly r : BitVec w) (bits : List Bool) : BitVec w := bits.foldl (feed poly) r

theorem shift_xor (poly a b : BitVec w) : shift poly (a ^^^ b) = shift poly a ^^^ shift poly b := by
  have hswap : ∀ c d e f : BitVec w, c ^^^ d ^^^ (e ^^^ f) = c ^^^ e ^^^ (d ^^^ f) := by
    intro c d e f
    ac_rfl
  unfold shift
  rw [BitVec.shiftLeft_xor_distrib, BitVec.msb_xor, hswap]
  cases a.msb <;> cases b.msb <;> simp

theorem shift_zero (poly : BitVec w) : shift poly 0#w = 0#w := by
  unfold shift
  simp

theorem iterate_shift_zero (poly : BitVec w) (n : ℕ) : (shift poly)^[n] 0#w = 0#w :=
  Function.iterate_fixed (shift_zero poly) n

theorem register_append (poly r : BitVec w) (a b : List Bool) :
    register poly r (a ++ b) = register poly (register poly r a) b := List.foldl_append

theorem register_cons (poly r : BitVec w) (b : Bool) (bits : List Bool) :
    register poly r (b :: bits) = register poly (feed poly r b) bits := rfl

theorem register_zeros (poly r : BitVec w) (n : ℕ) :
    register poly r (List.replicate n false) = (shift poly)^[n] r := by
  induction n generalizing r with
  | zero => rfl
  | succ n ih =>
    have hfeed : feed poly r false = shift poly r := by
      unfold feed
      simp
    rw [List.replicate_succ, register_cons, ih, hfeed, Function.iterate_succ_apply]

/-! ## Generators with lowest coefficient 1 -/

section Injective

variable {poly : BitVec w} (hpoly : poly.getLsbD 0 = true)

include hpoly

theorem shift_eq_zero {r : BitVec w} (h : shift poly r = 0#w) : r = 0#w := by
  have hmsb : r.msb = false := by
    by_contra hmsb
    have hlow := congrArg (fun x : BitVec w => x.getLsbD 0) h
    unfold shift at hlow
    rw [Bool.not_eq_false] at hmsb
    simp [hmsb, hpoly] at hlow
  apply BitVec.eq_of_getLsbD_eq
  intro i hi
  by_cases hlast : i + 1 < w
  · have hbit := congrArg (fun x : BitVec w => x.getLsbD (i + 1)) h
    unfold shift at hbit
    rw [BitVec.getLsbD_eq_getElem hi]
    simpa [hmsb, hlast] using hbit
  · rw [BitVec.msb_eq_getLsbD_last] at hmsb
    have hi' : w - 1 = i := by omega
    rw [hi'] at hmsb
    simp [hmsb]

theorem shift_injective : Function.Injective (shift poly) := by
  intro a b h
  have hdiff : shift poly (a ^^^ b) = 0#w := by rw [shift_xor, h, BitVec.xor_self]
  exact BitVec.xor_eq_zero_iff.mp (shift_eq_zero hpoly hdiff)

theorem iterate_shift_eq_zero_iff {n : ℕ} {r : BitVec w} : (shift poly)^[n] r = 0#w ↔ r = 0#w :=
  ((shift_injective hpoly).iterate n).eq_iff' (iterate_shift_zero poly n)

/-- Zeros around an error do not matter. -/
theorem register_framed_eq_zero_iff (n k : ℕ) (bits : List Bool) :
    register poly 0#w (List.replicate n false ++ bits ++ List.replicate k false) = 0#w ↔
      register poly 0#w bits = 0#w := by
  rw [register_append, register_append, register_zeros, register_zeros, iterate_shift_zero,
    iterate_shift_eq_zero_iff hpoly]

end Injective

/-! ## Odd errors -/

/-- The number of set bits, modulo 2. -/
def weight (r : BitVec w) : ZMod 2 := ∑ i : Fin w, if r.getLsbD i then 1 else 0

theorem weight_zero : weight 0#w = 0 := by
  unfold weight
  simp

theorem weight_xor (a b : BitVec w) : weight (a ^^^ b) = weight a + weight b := by
  unfold weight
  rw [← Finset.sum_add_distrib]
  refine Finset.sum_congr rfl fun i _ => ?_
  rw [BitVec.getLsbD_xor]
  cases a.getLsbD i <;> cases b.getLsbD i <;> decide

theorem weight_top (hw : 0 < w) : weight (top w) = 1 := by
  unfold weight top
  simp only [BitVec.getLsbD_twoPow]
  rw [Finset.sum_eq_single ⟨w - 1, by omega⟩]
  · simp [hw]
  · intro i _ hne
    have hval : w - 1 ≠ i := fun h => hne (Fin.ext h.symm)
    simp [hval]
  · simp

theorem weight_eq_shiftLeft (r : BitVec w) :
    weight r = weight (r <<< 1) + if r.msb then 1 else 0 := by
  cases w with
  | zero =>
    have hmsb : r.msb = false := by rw [BitVec.msb_eq_getLsbD_last]; simp
    rw [hmsb]
    rfl
  | succ n =>
    have hlow : (r <<< 1).getLsbD ((0 : Fin (n + 1)) : ℕ) = false := by simp
    have hup : ∀ i : Fin n, (r <<< 1).getLsbD (i.succ : ℕ) = r.getLsbD (i.castSucc : ℕ) := by
      intro i
      simp
    have hlast : r.msb = r.getLsbD (Fin.last n : ℕ) := by
      rw [BitVec.msb_eq_getLsbD_last]
      rfl
    unfold weight
    rw [Fin.sum_univ_castSucc, Fin.sum_univ_succ]
    simp only [hlow, hup, hlast]
    simp

section Odd

variable {poly : BitVec w} (hpoly : weight poly = 1)

include hpoly

/-- The generator has an even number of terms, so the bit that falls out is made up for. -/
theorem weight_shift (r : BitVec w) : weight (shift poly r) = weight r := by
  unfold shift
  rw [weight_xor, weight_eq_shiftLeft r]
  cases r.msb
  · simp [weight_zero]
  · simp [hpoly]

theorem weight_register (r : BitVec w) (bits : List Bool) :
    weight (register poly r bits) = weight r + (bits.count true : ZMod 2) := by
  have hw : 0 < w := by
    rcases Nat.eq_zero_or_pos w with rfl | hw
    · exact absurd hpoly (by simp [weight])
    · exact hw
  induction bits generalizing r with
  | nil => simp [register]
  | cons b bits ih =>
    rw [register_cons, ih]
    unfold feed
    rw [weight_shift hpoly, weight_xor, List.count_cons]
    cases b
    · simp [weight_zero]
    · simp only [weight_top hw, if_true, beq_self_eq_true, Nat.cast_add, Nat.cast_one]
      ring

/-- **Odd errors.** -/
theorem register_odd_ne_zero {bits : List Bool} (hodd : Odd (bits.count true)) :
    register poly 0#w bits ≠ 0#w := by
  intro h
  have hweight := weight_register hpoly 0#w bits
  rw [h, weight_zero, zero_add, eq_comm, ZMod.natCast_eq_zero_iff_even] at hweight
  exact Nat.not_even_iff_odd.mpr hodd hweight

end Odd

/-! ## Bursts -/

/-- At most `w` bits as the highest ones of a register, the first bit on top. -/
def align (w : ℕ) : List Bool → BitVec w
  | [] => 0#w
  | b :: bits => (if b then top w else 0#w) ^^^ (align w bits >>> 1)

theorem align_low {bits : List Bool} {i : ℕ} (hi : i + bits.length < w) :
    (align w bits).getLsbD i = false := by
  induction bits generalizing i with
  | nil => simp [align]
  | cons b bits ih =>
    rw [List.length_cons] at hi
    have hshift : (align w bits >>> 1).getLsbD i = false := by
      rw [BitVec.getLsbD_ushiftRight]
      exact ih (by omega)
    have htop : (if b then top w else 0#w).getLsbD i = false := by
      cases b
      · simp
      · have hne : w - 1 ≠ i := by omega
        simp [top, BitVec.getLsbD_twoPow, hne]
    rw [align, BitVec.getLsbD_xor, htop, hshift]
    rfl

theorem msb_ushiftRight_one (a : BitVec w) : (a >>> 1).msb = false := by
  rw [BitVec.msb_eq_getLsbD_last, BitVec.getLsbD_ushiftRight]
  exact BitVec.getLsbD_of_ge a _ (by omega)

/-- Nothing falls out of a register that has just been shifted down. -/
theorem shift_ushiftRight (poly : BitVec w) {a : BitVec w} (ha : a.getLsbD 0 = false) :
    shift poly (a >>> 1) = a := by
  unfold shift
  rw [msb_ushiftRight_one]
  apply BitVec.eq_of_getLsbD_eq
  intro i hi
  rcases i with _ | i
  · simp [ha]
  · simp [hi, Nat.add_comm]

/-- Bits that fit the register can be added all at once. -/
theorem register_eq_align (poly r : BitVec w) {bits : List Bool} (hlen : bits.length ≤ w) :
    register poly r bits = (shift poly)^[bits.length] (r ^^^ align w bits) := by
  induction bits generalizing r with
  | nil => simp [register, align]
  | cons b bits ih =>
    rw [List.length_cons] at hlen
    have hlow : (align w bits).getLsbD 0 = false := align_low (by omega)
    rw [register_cons, ih _ (by omega), List.length_cons, Function.iterate_succ_apply, align,
      ← BitVec.xor_assoc, shift_xor, shift_ushiftRight poly hlow]
    rfl

theorem not_mem_of_align_eq_zero {bits : List Bool} (hlen : bits.length ≤ w)
    (h : align w bits = 0#w) : true ∉ bits := by
  induction bits with
  | nil => exact List.not_mem_nil
  | cons b bits ih =>
    rw [List.length_cons] at hlen
    have hb : b = false := by
      have hbit := congrArg BitVec.msb h
      rw [align, BitVec.msb_xor, msb_ushiftRight_one] at hbit
      cases b
      · rfl
      · have hw : 0 < w := by omega
        simp [top, BitVec.msb_twoPow, hw] at hbit
    subst hb
    have hrest : align w bits = 0#w := by
      have hlow : (align w bits).getLsbD 0 = false := align_low (by omega)
      have hzero : align w bits >>> 1 = 0#w := by simpa [align] using h
      have hback := shift_ushiftRight 0#w hlow
      rwa [hzero, shift_zero, eq_comm] at hback
    simpa using ih (by omega) hrest

/-- **Bursts.** -/
theorem register_burst_ne_zero {poly : BitVec w} (hpoly : poly.getLsbD 0 = true) {bits : List Bool}
    (hlen : bits.length ≤ w) (hset : true ∈ bits) : register poly 0#w bits ≠ 0#w := by
  rw [register_eq_align poly _ hlen, BitVec.zero_xor, Ne, iterate_shift_eq_zero_iff hpoly]
  exact fun h => not_mem_of_align_eq_zero hlen h hset

/-! ## Double errors -/

theorem eq_zeros_of_not_mem {bits : List Bool} (h : true ∉ bits) :
    bits = List.replicate bits.length false := by
  refine List.eq_replicate_iff.mpr ⟨rfl, fun b hb => ?_⟩
  cases b
  · rfl
  · exact absurd hb h

/-- The first set bit. -/
theorem exists_first_of_count {bits : List Bool} {n : ℕ} (h : bits.count true = n + 1) :
    ∃ k rest, bits = List.replicate k false ++ true :: rest ∧ rest.count true = n := by
  obtain ⟨before, rest, rfl, hbefore⟩ :=
    List.eq_append_cons_of_mem (List.count_pos_iff.mp (by omega : 0 < bits.count true))
  refine ⟨before.length, rest, by rw [← eq_zeros_of_not_mem hbefore], ?_⟩
  rw [List.count_append, List.count_eq_zero_of_not_mem hbefore, List.count_cons_self] at h
  omega

section Double

variable {poly : BitVec w} (hpoly : poly.getLsbD 0 = true)

include hpoly

theorem register_pair_eq_zero_iff (gap : ℕ) :
    register poly 0#w (true :: List.replicate gap false ++ [true]) = 0#w ↔
      (shift poly)^[gap + 1] (top w) = top w := by
  have hregister : register poly 0#w (true :: List.replicate gap false ++ [true]) =
      shift poly ((shift poly)^[gap + 1] (top w) ^^^ top w) := by
    rw [register_append, ← List.singleton_append, register_append, register_zeros]
    simp [register, feed, Function.iterate_succ_apply]
  rw [hregister, (shift_injective hpoly).eq_iff' (shift_zero poly), BitVec.xor_eq_zero_iff]

/-- **Double errors.** Two bits closer than the order of x are seen. -/
theorem register_double_ne_zero {bits : List Bool} (hcount : bits.count true = 2)
    (horder : ∀ k, 0 < k → k < bits.length → (shift poly)^[k] (top w) ≠ top w) :
    register poly 0#w bits ≠ 0#w := by
  obtain ⟨n, rest, rfl, hrest⟩ := exists_first_of_count hcount
  obtain ⟨gap, rest', rfl, hrest'⟩ := exists_first_of_count hrest
  rw [List.count_eq_zero] at hrest'
  rw [eq_zeros_of_not_mem hrest'] at horder ⊢
  generalize rest'.length = k at horder ⊢
  have hframed : List.replicate n false ++ true :: (List.replicate gap false ++
      true :: List.replicate k false) =
      List.replicate n false ++ (true :: List.replicate gap false ++ [true]) ++
        List.replicate k false := by simp
  rw [hframed, Ne, register_framed_eq_zero_iff hpoly, register_pair_eq_zero_iff hpoly]
  apply horder
  · omega
  · simp only [List.length_append, List.length_cons, List.length_replicate]
    omega

end Double

end Crc
