import Pypilot.DriverStream
import Pypilot.Lib.Crc

/-!
# The check of the frames

The CRC of the servo protocol is a register of eight bits with the generator 0x131, started at 0xff. Its
lowest coefficient is 1 and it has four terms, so errors in an odd number of bits and bursts within eight
bits are seen in messages of any length; no two bits of a frame are as far apart as the order of x, so
double errors are seen in frames as well (`frame_check_strength`).
-/

namespace Pypilot.ServoProtocol

open Text

/-- The generator without its highest term. -/
def generator : BitVec 8 := 0x31#8

/-- The bits of a byte, the most significant one first. -/
def byteBits (b : Byte) : List Bool := (List.range 8).map b.toBitVec.getMsbD

def bitsOf (s : Text) : List Bool := s.flatMap byteBits

/-- The set bits lie within eight consecutive ones. -/
def WithinByte (bits : List Bool) : Prop :=
  ∃ before burst after, bits = before ++ burst ++ after ∧ burst.length ≤ 8 ∧ true ∉ before ∧
    true ∉ after

/-- The last byte is the CRC of the bytes before it. -/
def CrcOk (s : Text) : Prop := s.getLast? = some (crc8 s.dropLast)

/-- A message with the bits of an error pattern flipped. -/
def flipBits (s e : Text) : Text := List.zipWith (· ^^^ ·) s e

/-! ## The register -/

theorem crc8Bit_toBitVec (crc : Byte) : (crc8Bit crc).toBitVec = Crc.shift generator crc.toBitVec := by
  have hall : ∀ v : BitVec 8, (crc8Bit ⟨v⟩).toBitVec = Crc.shift generator v := by decide +kernel
  exact hall crc.toBitVec

theorem iterate_crc8Bit_toBitVec (n : ℕ) (crc : Byte) :
    (crc8Bit^[n] crc).toBitVec = (Crc.shift generator)^[n] crc.toBitVec := by
  induction n generalizing crc with
  | zero => rfl
  | succ n ih => rw [Function.iterate_succ_apply, ih, crc8Bit_toBitVec, Function.iterate_succ_apply]

/-- The eight bits of a byte added at once. -/
theorem crc8Update_toBitVec (crc byte : Byte) :
    (crc8Update crc byte).toBitVec = Crc.register generator crc.toBitVec (byteBits byte) := by
  have halign : ∀ v : BitVec 8, Crc.align 8 ((List.range 8).map v.getMsbD) = v := by decide +kernel
  rw [Crc.register_eq_align generator _ (by simp [byteBits]), byteBits, halign]
  exact iterate_crc8Bit_toBitVec 8 (crc ^^^ byte)

theorem foldl_crc8Update_toBitVec (data : Text) (crc : Byte) :
    (data.foldl crc8Update crc).toBitVec = Crc.register generator crc.toBitVec (bitsOf data) := by
  induction data generalizing crc with
  | nil => rfl
  | cons byte data ih =>
    rw [List.foldl_cons, ih, crc8Update_toBitVec, ← Crc.register_append]
    rfl

theorem crc8Update_xor (crc crc' byte byte' : Byte) :
    crc8Update (crc ^^^ crc') (byte ^^^ byte') = crc8Update crc byte ^^^ crc8Update crc' byte' := by
  have hiterate : ∀ (n : ℕ) (a b : Byte), crc8Bit^[n] (a ^^^ b) = crc8Bit^[n] a ^^^ crc8Bit^[n] b := by
    intro n
    induction n with
    | zero => exact fun _ _ => rfl
    | succ n ih =>
      intro a b
      have hbit : crc8Bit (a ^^^ b) = crc8Bit a ^^^ crc8Bit b := by
        apply UInt8.toBitVec_inj.mp
        rw [crc8Bit_toBitVec, UInt8.toBitVec_xor, UInt8.toBitVec_xor, Crc.shift_xor, crc8Bit_toBitVec,
          crc8Bit_toBitVec]
      rw [Function.iterate_succ_apply, hbit, ih]
      rfl
  have hswap : crc ^^^ crc' ^^^ (byte ^^^ byte') = crc ^^^ byte ^^^ (crc' ^^^ byte') := by ac_rfl
  unfold crc8Update
  rw [hswap, hiterate]

theorem foldl_crc8Update_flipBits {d e : Text} (hlen : e.length = d.length) (crc crc' : Byte) :
    (flipBits d e).foldl crc8Update (crc ^^^ crc') =
      d.foldl crc8Update crc ^^^ e.foldl crc8Update crc' := by
  induction d generalizing e crc crc' with
  | nil => rw [List.length_eq_zero_iff.mp hlen]; rfl
  | cons x d ih =>
    obtain ⟨y, e, rfl⟩ := List.exists_cons_of_length_eq_add_one hlen
    rw [List.length_cons, List.length_cons, Nat.add_right_cancel_iff] at hlen
    show (flipBits d e).foldl crc8Update (crc8Update (crc ^^^ crc') (x ^^^ y)) = _
    rw [crc8Update_xor, ih hlen]
    rfl

/-! ## Errors -/

theorem crcOk_concat (s : Text) (c : Byte) : CrcOk (s ++ [c]) ↔ c = crc8 s := by
  unfold CrcOk
  rw [List.getLast?_concat, List.dropLast_concat, Option.some_inj]

/-- **Errors.** An error goes unseen exactly when it leads the register from 0 to 0. -/
theorem crcOk_flipBits_iff {d e : Text} (hlen : e.length = d.length + 1) :
    CrcOk (flipBits (withCrc d) e) ↔ Crc.register generator 0#8 (bitsOf e) = 0#8 := by
  rcases List.eq_nil_or_concat' e with rfl | ⟨p, c, rfl⟩
  · exact absurd hlen (by simp)
  rw [List.length_append, List.length_singleton, Nat.add_right_cancel_iff] at hlen
  have hflip : flipBits (withCrc d) (p ++ [c]) = flipBits d p ++ [crc8 d ^^^ c] :=
    List.zipWith_append hlen.symm
  have hcrc : crc8 (flipBits d p) = crc8 d ^^^ p.foldl crc8Update 0 :=
    foldl_crc8Update_flipBits hlen 0xff 0
  have hregister : Crc.register generator 0#8 (bitsOf (p ++ [c])) =
      (Crc.shift generator)^[8] (p.foldl crc8Update 0 ^^^ c).toBitVec := by
    have hfold := foldl_crc8Update_toBitVec (p ++ [c]) 0
    rw [List.foldl_append] at hfold
    exact hfold.symm.trans (iterate_crc8Bit_toBitVec 8 _)
  have hzero : ∀ {a : Byte}, a.toBitVec = 0#8 ↔ a = 0 := UInt8.toBitVec_inj (b := 0)
  rw [hflip, crcOk_concat, hcrc, UInt8.xor_right_inj, hregister,
    Crc.iterate_shift_eq_zero_iff (by decide), hzero, UInt8.xor_eq_zero_iff, eq_comm]

/-- The errors that are seen in messages of any length. -/
theorem not_crcOk_flipBits {d e : Text} (hlen : e.length = d.length + 1) (hset : true ∈ bitsOf e)
    (h : Odd ((bitsOf e).count true) ∨ WithinByte (bitsOf e)) : ¬ CrcOk (flipBits (withCrc d) e) := by
  rw [crcOk_flipBits_iff hlen]
  rcases h with hodd | ⟨before, burst, after, heq, hburst, hbefore, hafter⟩
  · exact Crc.register_odd_ne_zero (by decide) hodd
  · rw [heq, List.mem_append, List.mem_append, or_iff_left hafter, or_iff_right hbefore] at hset
    rw [heq, Crc.eq_zeros_of_not_mem hbefore, Crc.eq_zeros_of_not_mem hafter,
      Crc.register_framed_eq_zero_iff (by decide)]
    exact Crc.register_burst_ne_zero (by decide) hburst hset

/-! ## Frames -/

theorem decode_eq_some_iff {b₀ b₁ b₂ b₃ : Byte} {p : Packet} :
    decode b₀ b₁ b₂ b₃ = some p ↔ p.value < 2 ^ 16 ∧ encode p.code p.value = [b₀, b₁, b₂, b₃] := by
  constructor
  · intro h
    unfold decode at h
    split_ifs at h with hcrc
    obtain rfl := Option.some.inj h
    have hb₁ := b₁.toNat_lt
    have hb₂ := b₂.toNat_lt
    have hvalue : b₁.toNat ||| (b₂.toNat <<< 8) = 256 * b₂.toNat + b₁.toNat := by
      rw [Nat.or_comm, ← Nat.shiftLeft_add_eq_or_of_lt hb₁, Nat.shiftLeft_eq, Nat.mul_comm]
    have hlow : UInt8.ofNat ((256 * b₂.toNat + b₁.toNat) &&& 0xff) = b₁ := by
      rw [show (0xff : ℕ) = 2 ^ 8 - 1 from rfl, Nat.and_two_pow_sub_one_eq_mod]
      rw [show (256 * b₂.toNat + b₁.toNat) % 2 ^ 8 = b₁.toNat by omega, UInt8.ofNat_toNat]
    have hhigh : UInt8.ofNat (((256 * b₂.toNat + b₁.toNat) >>> 8) &&& 0xff) = b₂ := by
      rw [show (0xff : ℕ) = 2 ^ 8 - 1 from rfl, Nat.and_two_pow_sub_one_eq_mod,
        Nat.shiftRight_eq_div_pow]
      rw [show (256 * b₂.toNat + b₁.toNat) / 2 ^ 8 % 2 ^ 8 = b₂.toNat by omega, UInt8.ofNat_toNat]
    unfold encode withCrc
    dsimp only
    rw [hvalue, hlow, hhigh, not_not.mp hcrc]
    exact ⟨by omega, rfl⟩
  · rintro ⟨hvalue, hencode⟩
    have hdecode := decode_encode p.code hvalue
    rw [hencode] at hdecode
    exact hdecode

theorem decode_isSome_iff (b₀ b₁ b₂ b₃ : Byte) :
    (decode b₀ b₁ b₂ b₃).isSome ↔ CrcOk [b₀, b₁, b₂, b₃] := by
  have hcrc : CrcOk [b₀, b₁, b₂, b₃] ↔ b₃ = crc8 [b₀, b₁, b₂] := crcOk_concat [b₀, b₁, b₂] b₃
  rw [hcrc]
  unfold decode
  split_ifs with h
  · exact iff_of_false (by simp) (Ne.symm h)
  · exact iff_of_true rfl (not_not.mp h).symm

/-- **Strength of the check.** The frames that are accepted are those that are encoded. An error in an odd
number of bits, or within eight consecutive ones, is seen in messages of any length, and in a frame also
any error in up to three bits. -/
theorem frame_check_strength :
    (∀ b₀ b₁ b₂ b₃ p, decode b₀ b₁ b₂ b₃ = some p ↔
      p.value < 2 ^ 16 ∧ encode p.code p.value = [b₀, b₁, b₂, b₃]) ∧
    (∀ d e : Text, e.length = d.length + 1 → true ∈ bitsOf e →
      Odd ((bitsOf e).count true) ∨ WithinByte (bitsOf e) → ¬ CrcOk (flipBits (withCrc d) e)) ∧
    ∀ code value (e : Text), e.length = 4 → 1 ≤ (bitsOf e).count true → (bitsOf e).count true ≤ 3 →
      ∀ b₀ b₁ b₂ b₃, flipBits (encode code value) e = [b₀, b₁, b₂, b₃] → decode b₀ b₁ b₂ b₃ = none := by
  refine ⟨fun _ _ _ _ _ => decode_eq_some_iff, fun _ _ => not_crcOk_flipBits, ?_⟩
  intro code value e hlen hpos hle b₀ b₁ b₂ b₃ hflip
  rw [← Option.not_isSome_iff_eq_none, decode_isSome_iff, ← hflip]
  by_cases hdouble : (bitsOf e).count true = 2
  · -- the order of x modulo the generator is more than the length of a frame
    have hbits : (bitsOf e).length = 32 := by
      have hbyte : ∀ b : Byte, (byteBits b).length = 8 := fun b => by simp [byteBits]
      unfold bitsOf
      rw [List.length_flatMap]
      simp [hbyte, hlen]
    have horder : ∀ k < 32, 0 < k → (Crc.shift generator)^[k] (Crc.top 8) ≠ Crc.top 8 := by
      decide +kernel
    have hne : Crc.register generator 0#8 (bitsOf e) ≠ 0#8 :=
      Crc.register_double_ne_zero (by decide) hdouble fun k hpos hk => horder k (hbits ▸ hk) hpos
    exact fun hok => hne ((crcOk_flipBits_iff hlen).mp hok)
  · have hodd : Odd ((bitsOf e).count true) := by
      rw [Nat.odd_iff]
      omega
    exact not_crcOk_flipBits hlen (List.count_pos_iff.mp hpos) (.inl hodd)

end Pypilot.ServoProtocol
