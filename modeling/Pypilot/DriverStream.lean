import Pypilot.ServoProtocol

/-!
# The stream from the driver

The parser reads its input in steps of four bytes from where it started, whatever the CRC of a step
says: the packets it finds are those at the multiples of four (`packets`), and how the stream is cut
into feeds does not matter (`feeds_eq`). A stream that begins with bytes which are no frame is read from
the wrong places for good, unless their number is a multiple of four (`feeds_frames_iff`).
-/

namespace Pypilot.ServoProtocol

/-! ## Packets of a stream -/

/-- The packet in the first four bytes. -/
def frontPacket : Text → Option Packet
  | b₀ :: b₁ :: b₂ :: b₃ :: _ => decode b₀ b₁ b₂ b₃
  | _ => none

/-- The packets in the four-byte steps of a stream. -/
def packets : Text → List Packet
  | b₀ :: b₁ :: b₂ :: b₃ :: rest => (decode b₀ b₁ b₂ b₃).toList ++ packets rest
  | _ => []

/-- The bytes behind the last whole step. -/
def leftover : Text → Text
  | _ :: _ :: _ :: _ :: rest => leftover rest
  | rest => rest

/-- Packets applied one after the other, with the bits seen. -/
def applyAll (ps : List Packet) (p : ℕ × TelemetrySample) : ℕ × TelemetrySample :=
  ps.foldl (fun p packet => (p.1 ||| (applyPacket packet p.2).1, (applyPacket packet p.2).2)) p

theorem length_lt_of_no_step {bytes : Text}
    (h : ∀ b₀ b₁ b₂ b₃ rest, bytes = b₀ :: b₁ :: b₂ :: b₃ :: rest → False) : bytes.length < 4 := by
  rcases bytes with _ | ⟨b₀, _ | ⟨b₁, _ | ⟨b₂, _ | ⟨b₃, rest⟩⟩⟩⟩
  all_goals first
    | exact absurd rfl (h b₀ b₁ b₂ b₃ rest)
    | (simp only [List.length_cons, List.length_nil]; omega)

theorem packets_eq_nil {bytes : Text} (h : bytes.length < 4) : packets bytes = [] := by
  rcases bytes with _ | ⟨b₀, _ | ⟨b₁, _ | ⟨b₂, _ | ⟨b₃, rest⟩⟩⟩⟩
  all_goals first
    | rfl
    | (simp only [List.length_cons] at h; omega)

theorem leftover_eq_self {bytes : Text} (h : bytes.length < 4) : leftover bytes = bytes := by
  rcases bytes with _ | ⟨b₀, _ | ⟨b₁, _ | ⟨b₂, _ | ⟨b₃, rest⟩⟩⟩⟩
  all_goals first
    | rfl
    | (simp only [List.length_cons] at h; omega)

theorem leftover_length (bytes : Text) : (leftover bytes).length = bytes.length % 4 := by
  fun_induction leftover bytes with
  | case1 b₀ b₁ b₂ b₃ rest ih => simp only [ih, List.length_cons]; omega
  | case2 rest hshort => rw [Nat.mod_eq_of_lt (length_lt_of_no_step hshort)]

/-- The parser applies the packets of its input. -/
theorem parse_eq (bytes : Text) (mask : ℕ) (s : TelemetrySample) :
    parse bytes mask s = (leftover bytes, applyAll (packets bytes) (mask, s)) := by
  fun_induction parse bytes mask s with
  | case1 mask s b₀ b₁ b₂ b₃ rest p hp ih => rw [ih, packets, leftover, hp]; rfl
  | case2 mask s b₀ b₁ b₂ b₃ rest hp ih => rw [ih, packets, leftover, hp]; rfl
  | case3 mask s rest hshort =>
    have hlt := length_lt_of_no_step hshort
    rw [leftover_eq_self hlt, packets_eq_nil hlt]
    rfl

theorem packets_append (a b : Text) : packets (a ++ b) = packets a ++ packets (leftover a ++ b) := by
  fun_induction leftover a with
  | case1 b₀ b₁ b₂ b₃ rest ih =>
    show (decode b₀ b₁ b₂ b₃).toList ++ packets (rest ++ b) = _
    rw [ih, packets, List.append_assoc]
  | case2 rest hshort => rw [packets_eq_nil (length_lt_of_no_step hshort), List.nil_append]

theorem leftover_append (a b : Text) : leftover (a ++ b) = leftover (leftover a ++ b) := by
  fun_induction leftover a with
  | case1 b₀ b₁ b₂ b₃ rest ih => exact ih
  | case2 rest hshort => rfl

/-! ## Feeds -/

/-- `Parser::feed`, with the bytes `buf` left over from before. -/
def feed (buf bytes : Text) (s : TelemetrySample) : Text × ℕ × TelemetrySample :=
  parse (buf ++ bytes) 0 s

/-- A sequence of feeds, with the bits of all of them. -/
def feeds (buf : Text) : List Text → TelemetrySample → Text × ℕ × TelemetrySample
  | [], s => (buf, 0, s)
  | bytes :: chunks, s =>
    let (buf, mask, s) := feed buf bytes s
    let (buf, mask', s) := feeds buf chunks s
    (buf, mask ||| mask', s)

theorem applyAll_append (ps qs : List Packet) (p : ℕ × TelemetrySample) :
    applyAll (ps ++ qs) p = applyAll qs (applyAll ps p) := List.foldl_append

/-- The bits of the packets are added to those seen before. -/
theorem applyAll_mask (ps : List Packet) (mask : ℕ) (s : TelemetrySample) :
    applyAll ps (mask, s) = (mask ||| (applyAll ps (0, s)).1, (applyAll ps (0, s)).2) := by
  induction ps generalizing mask s with
  | nil => simp [applyAll]
  | cons p ps ih =>
    show applyAll ps (mask ||| (applyPacket p s).1, (applyPacket p s).2) =
      (mask ||| (applyAll ps (0 ||| (applyPacket p s).1, (applyPacket p s).2)).1,
        (applyAll ps (0 ||| (applyPacket p s).1, (applyPacket p s).2)).2)
    rw [ih, ih (0 ||| _), Nat.zero_or, Nat.or_assoc]

/-- **Feeds.** How a stream is cut into feeds does not matter. -/
theorem feeds_eq {buf : Text} (hbuf : buf.length < 4) (chunks : List Text) (s : TelemetrySample) :
    feeds buf chunks s =
      (leftover (buf ++ chunks.flatten), applyAll (packets (buf ++ chunks.flatten)) (0, s)) := by
  induction chunks generalizing buf s with
  | nil =>
    rw [List.flatten_nil, List.append_nil, leftover_eq_self hbuf, packets_eq_nil hbuf]
    rfl
  | cons bytes chunks ih =>
    have hrest : (leftover (buf ++ bytes)).length < 4 := by
      rw [leftover_length]
      exact Nat.mod_lt _ (by decide)
    rw [List.flatten_cons, ← List.append_assoc, packets_append, leftover_append, applyAll_append]
    unfold feeds feed
    rw [parse_eq]
    dsimp only
    rw [ih hrest]
    dsimp only
    conv_rhs => rw [applyAll_mask]

/-! ## Frames -/

/-- The frames of some packets. -/
def frames (ps : List Packet) : Text := ps.flatMap fun p => encode p.code p.value

theorem decode_encode (code : Byte) {value : ℕ} (hvalue : value < 2 ^ 16) :
    frontPacket (encode code value) = some ⟨code, value⟩ := by
  have hlow : (UInt8.ofNat (value &&& 0xff)).toNat = value % 2 ^ 8 := by
    rw [UInt8.toNat_ofNat', show (0xff : ℕ) = 2 ^ 8 - 1 from rfl, Nat.and_two_pow_sub_one_eq_mod,
      Nat.mod_mod]
  have hhigh : (UInt8.ofNat ((value >>> 8) &&& 0xff)).toNat = value / 2 ^ 8 := by
    rw [UInt8.toNat_ofNat', show (0xff : ℕ) = 2 ^ 8 - 1 from rfl, Nat.and_two_pow_sub_one_eq_mod,
      Nat.mod_mod, Nat.shiftRight_eq_div_pow]
    omega
  have hvalue' : value % 2 ^ 8 ||| (value / 2 ^ 8) <<< 8 = value := by
    rw [Nat.or_comm, ← Nat.shiftLeft_add_eq_or_of_lt (Nat.mod_lt _ (by decide)), Nat.shiftLeft_eq]
    omega
  unfold encode withCrc
  show decode _ _ _ _ = _
  unfold decode
  rw [if_neg (not_not.mpr rfl), hlow, hhigh, hvalue']

theorem packets_frames {ps : List Packet} (hps : ∀ p ∈ ps, p.value < 2 ^ 16) :
    packets (frames ps) = ps := by
  induction ps with
  | nil => rfl
  | cons p ps ih =>
    rw [List.forall_mem_cons] at hps
    have hfront := decode_encode p.code hps.1
    have hcons : packets (encode p.code p.value ++ frames ps) =
        (frontPacket (encode p.code p.value)).toList ++ packets (frames ps) := rfl
    show packets (encode p.code p.value ++ frames ps) = _
    rw [hcons, hfront, ih hps.2]
    rfl

/-! ## Alignment -/

/-- The codes of telemetry packets. -/
def telemetryCodes : List Byte := [0xb3, 0x1c, 0xa7, 0x8f]

theorem applyPacket_unknown {p : Packet} (h : p.code ∉ telemetryCodes) (s : TelemetrySample) :
    applyPacket p s = (0, s) := by
  simp only [telemetryCodes, List.mem_cons, List.not_mem_nil, or_false, not_or] at h
  unfold applyPacket
  dsimp only
  rw [if_neg h.1, if_neg h.2.1, if_neg h.2.2.1, if_neg h.2.2.2]

theorem applyPacket_known {p : Packet} (h : p.code ∈ telemetryCodes) (s : TelemetrySample) :
    (applyPacket p s).1 ≠ 0 := by
  simp only [telemetryCodes, List.mem_cons, List.not_mem_nil, or_false] at h
  unfold applyPacket
  dsimp only
  rcases h with h | h | h | h <;> simp [h, voltageBit, currentBit, rudderBit, flagsBit]

/-- Packets do nothing exactly when their codes are all unknown. -/
theorem applyAll_eq_self_iff {ps : List Packet} {s : TelemetrySample} :
    applyAll ps (0, s) = (0, s) ↔ ∀ p ∈ ps, p.code ∉ telemetryCodes := by
  constructor
  · intro hnone p hp hknown
    obtain ⟨before, after, rfl⟩ := List.append_of_mem hp
    have hmask := congrArg Prod.fst hnone
    rw [applyAll_append] at hmask
    generalize applyAll before (0, s) = q at hmask
    have hcons : applyAll (p :: after) q =
        applyAll after (q.1 ||| (applyPacket p q.2).1, (applyPacket p q.2).2) := rfl
    rw [hcons, applyAll_mask, Nat.or_eq_zero_iff, Nat.or_eq_zero_iff] at hmask
    exact applyPacket_known hknown q.2 hmask.1.2
  · intro hall
    induction ps with
    | nil => rfl
    | cons p ps ih =>
      rw [List.forall_mem_cons] at hall
      have hcons : applyAll (p :: ps) (0, s) =
          applyAll ps (0 ||| (applyPacket p s).1, (applyPacket p s).2) := rfl
      rw [hcons, applyPacket_unknown hall.1, Nat.zero_or]
      exact ih hall.2

theorem packets_eq_nil_of_windows {bytes : Text}
    (h : ∀ k, frontPacket (bytes.drop (4 * k)) = none) : packets bytes = [] := by
  fun_induction packets bytes with
  | case1 b₀ b₁ b₂ b₃ rest ih =>
    have hfirst : decode b₀ b₁ b₂ b₃ = none := h 0
    rw [hfirst, ih fun k => by simpa [Nat.mul_add] using h (k + 1)]
    rfl
  | case2 rest hshort => rfl

theorem frontPacket_append {a : Text} {p : Packet} (h : frontPacket a = some p) (b : Text) :
    frontPacket (a ++ b) = some p := by
  rcases a with _ | ⟨b₀, _ | ⟨b₁, _ | ⟨b₂, _ | ⟨b₃, rest⟩⟩⟩⟩
  all_goals first
    | exact h
    | exact absurd h (by simp [frontPacket])

/-- **Alignment.** Behind bytes that are no frame the parser applies the packets of a stream of frames
exactly when the number of the bytes is a multiple of four or there is nothing to apply. -/
theorem feeds_frames_iff (g : Text) {ps : List Packet} (hps : ∀ p ∈ ps, p.value < 2 ^ 16)
    (hwindows : ∀ i, (∀ k, i ≠ g.length + 4 * k) → frontPacket ((g ++ frames ps).drop i) = none)
    {chunks : List Text} (hchunks : chunks.flatten = g ++ frames ps) (s : TelemetrySample) :
    (feeds [] chunks s).2 = applyAll ps (0, s) ↔
      4 ∣ g.length ∨ ∀ p ∈ ps, p.code ∉ telemetryCodes := by
  rw [feeds_eq (by decide), List.nil_append, hchunks]
  dsimp only
  by_cases hdvd : 4 ∣ g.length
  · -- every step before the first frame lies in `g`
    have hg : packets g = [] := by
      refine packets_eq_nil_of_windows fun k => ?_
      by_contra hsome
      obtain ⟨p, hp⟩ := Option.ne_none_iff_exists'.mp hsome
      have hk : 4 * k < g.length := by
        by_contra hge
        rw [List.drop_eq_nil_of_le (by omega)] at hp
        exact absurd hp (by simp [frontPacket])
      have hwindow := hwindows (4 * k) fun j => by omega
      rw [List.drop_append_of_le_length hk.le, frontPacket_append hp] at hwindow
      exact Option.some_ne_none _ hwindow
    have hrest : leftover g = [] := by
      rw [← List.length_eq_zero_iff, leftover_length]
      exact Nat.mod_eq_zero_of_dvd hdvd
    rw [packets_append, hg, hrest, List.nil_append, List.nil_append, packets_frames hps]
    exact iff_of_true rfl (.inl hdvd)
  · -- no step meets a frame
    have hnone : packets (g ++ frames ps) = [] :=
      packets_eq_nil_of_windows fun k => hwindows (4 * k) fun j => by omega
    rw [hnone, or_iff_right hdvd, ← applyAll_eq_self_iff (s := s)]
    exact eq_comm

/-- **Resynchronisation.** A frame behind bytes in which no packet starts is applied exactly when the
number of the bytes is a multiple of four or its code is unknown, and so are the frames of a stream whose
misaligned windows fail the CRC. -/
theorem resynchronised_iff (g : Text) (chunks : List Text) (s : TelemetrySample) :
    (∀ code value, value < 2 ^ 16 → chunks.flatten = g ++ encode code value →
        (∀ i < g.length, frontPacket ((g ++ encode code value).drop i) = none) →
        ((feeds [] chunks s).2 = applyPacket ⟨code, value⟩ s ↔
          4 ∣ g.length ∨ code ∉ telemetryCodes)) ∧
      ∀ ps : List Packet, (∀ p ∈ ps, p.value < 2 ^ 16) → chunks.flatten = g ++ frames ps →
        (∀ i, (∀ k, i ≠ g.length + 4 * k) → frontPacket ((g ++ frames ps).drop i) = none) →
        ((feeds [] chunks s).2 = applyAll ps (0, s) ↔
          4 ∣ g.length ∨ ∀ p ∈ ps, p.code ∉ telemetryCodes) := by
  refine ⟨fun code value hvalue hchunks hwindows => ?_,
    fun ps hps hchunks hwindows => feeds_frames_iff g hps hwindows hchunks s⟩
  have hframes : frames [⟨code, value⟩] = encode code value := List.append_nil _
  have hone : applyAll [⟨code, value⟩] (0, s) = applyPacket ⟨code, value⟩ s := by
    show (0 ||| _, _) = _
    rw [Nat.zero_or]
  have hall : ∀ i, (∀ k, i ≠ g.length + 4 * k) →
      frontPacket ((g ++ frames [⟨code, value⟩]).drop i) = none := by
    intro i hi
    rw [hframes]
    by_cases hlt : i < g.length
    · exact hwindows i hlt
    · -- behind the start of the frame there are fewer than four bytes
      have hlen : ((g ++ encode code value).drop i).length < 4 := by
        have h0 := hi 0
        rw [List.length_drop, List.length_append]
        show g.length + 4 - i < 4
        omega
      rcases hd : (g ++ encode code value).drop i with _ | ⟨b₀, _ | ⟨b₁, _ | ⟨b₂, _ | ⟨b₃, rest⟩⟩⟩⟩
      all_goals first
        | rfl
        | (rw [hd] at hlen; simp only [List.length_cons] at hlen; omega)
  have hvalues : ∀ p ∈ [(⟨code, value⟩ : Packet)], p.value < 2 ^ 16 := by simpa using hvalue
  have h := feeds_frames_iff g hvalues hall (by rw [hframes, hchunks]) s
  rw [hone] at h
  simpa using h

/-- Four zeros before a frame of the voltage. -/
theorem resynchronised_iff_zeros :
    (feeds [] [[0, 0, 0], 0 :: encode 0xb3 1200] {}).2 = applyPacket ⟨0xb3, 1200⟩ {} ↔
      4 ∣ [(0 : Byte), 0, 0, 0].length ∨ (0xb3 : Byte) ∉ telemetryCodes :=
  (resynchronised_iff [0, 0, 0, 0] [[0, 0, 0], 0 :: encode 0xb3 1200] {}).1 0xb3 1200 (by decide)
    (by decide +kernel) (by decide +kernel)

/-- A spurious byte before a frame of the voltage: nothing is applied. -/
theorem misaligned_frame_lost :
    (∀ i < [(0 : Byte)].length, frontPacket (([0] ++ encode 0xb3 1200).drop i) = none) ∧
      (feeds [] [[0], encode 0xb3 1200] {}).2 = (0, {}) ∧
      (applyPacket ⟨0xb3, 1200⟩ {}).2.voltage = 12 := by
  decide +kernel

end Pypilot.ServoProtocol
