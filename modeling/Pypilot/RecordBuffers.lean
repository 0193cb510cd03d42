import Pypilot.StringSetting

/-!
# Records in bounded buffers

Records are put into a buffer of `cap` characters piece by piece, each piece as far as there is room for it
and a NUL. Whether a piece was cut off is told at the end, from the last position alone. Here the buffer is
memory that is written character by character; `makeRecord` of the client is what a reader of the C string
gets (`makeRecord_read`).
-/

namespace Pypilot

open Text

/-- The memory a pointer leads to, and the positions written so far. -/
structure CharBuffer where
  mem : ℕ → Byte
  written : List ℕ := []

namespace CharBuffer

def put (out : CharBuffer) (pos : ℕ) (c : Byte) : CharBuffer :=
  ⟨Function.update out.mem pos c, out.written ++ [pos]⟩

/-- The first `n` characters. -/
def chars (out : CharBuffer) (n : ℕ) : Text := (List.range n).map out.mem

/-- The loop of `append_raw`. -/
def appendLoop (cap : ℕ) : ℕ → Text → CharBuffer → ℕ × CharBuffer
  | pos, [], out => (pos, out)
  | pos, c :: s, out => if cap ≤ pos + 1 then (pos, out) else appendLoop cap (pos + 1) s (out.put pos c)

/-- `append_raw`, into a buffer that is not null. -/
def appendRaw (out : CharBuffer) (cap pos : ℕ) (s : Text) : ℕ × CharBuffer :=
  if cap = 0 then (pos, out)
  else
    let (pos, out) := appendLoop cap pos s out
    (pos, out.put pos 0)

/-- Pieces put into the buffer from the start, and whether all of them seem to be there. -/
def makeRecord (out : CharBuffer) (cap : ℕ) (pieces : List Text) : Bool × CharBuffer :=
  let (pos, out) := pieces.foldl (fun p piece => p.2.appendRaw cap p.1 piece) (0, out)
  (decide (0 < pos ∧ pos + 1 < cap), out)

def makeRecordRaw (out : CharBuffer) (cap : ℕ) (name json : Text) : Bool × CharBuffer :=
  out.makeRecord cap [name, lit "=", json, lit "\n"]

def makeWatch (out : CharBuffer) (cap : ℕ) (name periodJson : Text) : Bool × CharBuffer :=
  out.makeRecord cap [lit "watch=\x7b\"", name, lit "\":", periodJson, lit "\x7d\n"]

/-! ## Memory -/

theorem chars_length (out : CharBuffer) (n : ℕ) : (out.chars n).length = n := by
  rw [chars, List.length_map, List.length_range]

theorem chars_succ (out : CharBuffer) (n : ℕ) : out.chars (n + 1) = out.chars n ++ [out.mem n] := by
  rw [chars, List.range_succ, List.map_append]
  rfl

theorem put_mem (out : CharBuffer) (n : ℕ) (c : Byte) : (out.put n c).mem n = c := by
  simp [put]

/-- A character put behind the first ones leaves them as they are. -/
theorem chars_put (out : CharBuffer) (n : ℕ) (c : Byte) : (out.put n c).chars n = out.chars n := by
  refine List.map_congr_left fun i hi => ?_
  exact Function.update_of_ne (List.mem_range.mp hi).ne c out.mem

theorem chars_put_succ (out : CharBuffer) (n : ℕ) (c : Byte) :
    (out.put n c).chars (n + 1) = out.chars n ++ [c] := by
  rw [chars_succ, chars_put, put_mem]

/-! ## Pieces -/

/-- The position is behind `text`, which the buffer holds from its start; nothing but positions below `cap`
has been written since `before`. -/
structure Holds (before : CharBuffer) (cap : ℕ) (text : Text) (p : ℕ × CharBuffer) : Prop where
  pos_eq : p.1 = text.length
  chars_eq : p.2.chars text.length = text
  within : ∀ i ∈ p.2.written, i ∈ before.written ∨ i < cap

section Holds

variable {before out : CharBuffer} {cap pos : ℕ} {text : Text}

theorem Holds.put (hp : Holds before cap text (pos, out)) (hroom : text.length + 1 < cap) (c : Byte) :
    Holds before cap (text ++ [c]) (pos + 1, out.put pos c) := by
  obtain ⟨rfl, hchars, hwithin⟩ := hp
  refine ⟨by rw [List.length_append]; rfl, ?_, fun i hi => ?_⟩
  · rw [List.length_append, List.length_singleton]
    dsimp only at hchars ⊢
    rw [chars_put_succ, hchars]
  · rcases List.mem_append.mp hi with hi | hi
    · exact hwithin i hi
    · rw [List.mem_singleton.mp hi]
      exact .inr (by omega)

/-- The loop takes what there is room for. -/
theorem Holds.appendLoop (hp : Holds before cap text (pos, out)) (hroom : text.length < cap)
    (s : Text) :
    Holds before cap (Client.appendRaw cap text s) (appendLoop cap pos s out) := by
  unfold Client.appendRaw
  induction s generalizing pos out text with
  | nil =>
    rw [List.take_nil, List.append_nil]
    exact hp
  | cons c s ih =>
    have hpos := hp.pos_eq
    dsimp only at hpos
    unfold CharBuffer.appendLoop
    split_ifs with hfull
    · rw [show cap - 1 - text.length = 0 by omega, List.take_zero, List.append_nil]
      exact hp
    · have hnext := ih (hp.put (by omega) c) (by rw [List.length_append]; simp; omega)
      rw [List.append_assoc, List.length_append, List.length_singleton] at hnext
      rw [show cap - 1 - text.length = cap - 1 - (text.length + 1) + 1 by omega, List.take_succ_cons]
      exact hnext

/-- The NUL behind the text. -/
theorem Holds.terminate (hp : Holds before cap text (pos, out)) (hroom : text.length < cap) :
    Holds before cap text (pos, out.put pos 0) ∧ (out.put pos 0).mem text.length = 0 := by
  obtain ⟨rfl, hchars, hwithin⟩ := hp
  refine ⟨⟨rfl, ?_, fun i hi => ?_⟩, put_mem out _ 0⟩
  · dsimp only at hchars ⊢
    rw [chars_put, hchars]
  · rcases List.mem_append.mp hi with hi | hi
    · exact hwithin i hi
    · rw [List.mem_singleton.mp hi]
      exact .inr hroom

omit before in
theorem appendRaw_length (hroom : text.length < cap) (s : Text) :
    (Client.appendRaw cap text s).length < cap := by
  rw [Client.appendRaw, List.length_append, List.length_take]
  omega

/-- **One append.** -/
theorem Holds.appendRaw (hp : Holds before cap text (pos, out)) (hroom : text.length < cap)
    (s : Text) :
    Holds before cap (Client.appendRaw cap text s) (out.appendRaw cap pos s) ∧
      (out.appendRaw cap pos s).2.mem (Client.appendRaw cap text s).length = 0 := by
  unfold CharBuffer.appendRaw
  rw [if_neg (show cap ≠ 0 by omega)]
  exact (hp.appendLoop hroom s).terminate (appendRaw_length hroom s)

/-- **A record.** Piece by piece. -/
theorem Holds.pieces (hp : Holds before cap text (pos, out)) (hroom : text.length < cap)
    (piece : Text) (pieces : List Text) :
    let p := (piece :: pieces).foldl (fun p piece => p.2.appendRaw cap p.1 piece) (pos, out)
    let held := (piece :: pieces).foldl (Client.appendRaw cap) text
    Holds before cap held p ∧ p.2.mem held.length = 0 := by
  induction pieces generalizing pos out text piece with
  | nil => exact hp.appendRaw hroom piece
  | cons next pieces ih =>
    exact ih (hp.appendRaw hroom piece).1 (appendRaw_length hroom piece) next

end Holds

/-! ## Records -/

/-- A record is reported to be there exactly when it leaves two bytes of the buffer free, and then it is
there, with a NUL behind it. Nothing is written at `cap` or beyond. -/
structure AllOrNothing (before : CharBuffer) (cap : ℕ) (record : Text) (r : Bool × CharBuffer) :
    Prop where
  complete_iff : r.1 = true ↔ record.length + 2 ≤ cap
  holds : r.1 = true → r.2.chars record.length = record ∧ r.2.mem record.length = 0
  within : ∀ i ∈ r.2.written, i ∈ before.written ∨ i < cap

theorem holds_chars (out : CharBuffer) (cap pos : ℕ) : Holds out cap (out.chars pos) (pos, out) :=
  ⟨(out.chars_length pos).symm, by rw [chars_length], fun _ hi => .inl hi⟩

/-- Without any room nothing happens. -/
theorem foldl_appendRaw_zero (p : ℕ × CharBuffer) (pieces : List Text) :
    pieces.foldl (fun p piece => p.2.appendRaw 0 p.1 piece) p = p := by
  induction pieces with
  | nil => rfl
  | cons piece pieces ih => exact ih

theorem makeRecord_zero (out : CharBuffer) (pieces : List Text) :
    out.makeRecord 0 pieces = (false, out) := by
  unfold makeRecord
  rw [foldl_appendRaw_zero]
  rfl

/-- The answer, in terms of what the buffer holds. -/
theorem makeRecord_complete (out : CharBuffer) {cap : ℕ} (hcap : 0 < cap) (piece : Text)
    (pieces : List Text) :
    (out.makeRecord cap (piece :: pieces)).1 =
      decide (0 < ((piece :: pieces).foldl (Client.appendRaw cap) []).length ∧
        ((piece :: pieces).foldl (Client.appendRaw cap) []).length + 1 < cap) := by
  obtain ⟨⟨hpos, -, -⟩, -⟩ := (holds_chars out cap 0).pieces hcap piece pieces
  unfold makeRecord
  dsimp only
  rw [hpos]
  rfl

theorem makeRecord_allOrNothing (out : CharBuffer) (cap : ℕ) (piece : Text) (pieces : List Text)
    (hpos : 0 < (piece :: pieces).flatten.length) :
    AllOrNothing out cap (piece :: pieces).flatten (out.makeRecord cap (piece :: pieces)) := by
  rcases Nat.eq_zero_or_pos cap with rfl | hcap
  · rw [makeRecord_zero]
    refine ⟨iff_of_false Bool.false_ne_true (by omega), fun h => absurd h Bool.false_ne_true, ?_⟩
    exact fun _ hi => .inl hi
  · obtain ⟨hheld, hnul⟩ := (holds_chars out cap 0).pieces hcap piece pieces
    rw [show out.chars 0 = [] from rfl, foldl_appendRaw _ (Nat.zero_le _), List.nil_append] at hheld hnul
    have hlength : ((piece :: pieces).flatten.take (cap - 1)).length =
        min (cap - 1) (piece :: pieces).flatten.length := List.length_take
    have hiff : (out.makeRecord cap (piece :: pieces)).1 = true ↔
        (piece :: pieces).flatten.length + 2 ≤ cap := by
      rw [makeRecord_complete out hcap, foldl_appendRaw _ (Nat.zero_le _), List.nil_append,
        decide_eq_true_eq, hlength]
      omega
    refine ⟨hiff, fun hcomplete => ?_, hheld.within⟩
    -- what fits has not been cut off
    have hfits := hiff.mp hcomplete
    rw [List.take_of_length_le (by omega)] at hheld hnul
    exact ⟨hheld.chars_eq, hnul⟩

/-- A C string ends at its first NUL, whatever the buffer holds behind it. -/
theorem cstr_chars (out : CharBuffer) {n m : ℕ} (hlt : n < m) (hnul : out.mem n = 0) :
    cstr (out.chars m) = cstr (out.chars n) := by
  obtain ⟨k, rfl⟩ := Nat.exists_eq_add_of_lt hlt
  have hsplit : out.chars (n + k + 1) =
      out.chars n ++ 0 :: (List.range k).map fun i => out.mem (n + (i + 1)) := by
    unfold chars
    rw [Nat.add_assoc, List.range_add, List.map_append, List.range_succ_eq_map, List.map_map,
      List.map_cons, List.map_map, ← hnul]
    rfl
  rw [hsplit]
  unfold cstr
  induction out.chars n with
  | nil => rfl
  | cons c s ih => rw [List.cons_append, List.takeWhile_cons, List.takeWhile_cons, ih]

/-- The record of the client is what a reader of the buffer finds up to the first NUL. -/
theorem makeRecord_read (out : CharBuffer) (cap : ℕ) (piece : Text) (pieces : List Text) :
    Client.makeRecord cap (piece :: pieces) =
      if (out.makeRecord cap (piece :: pieces)).1 then
        some (cstr ((out.makeRecord cap (piece :: pieces)).2.chars cap))
      else none := by
  rcases Nat.eq_zero_or_pos cap with rfl | hcap
  · rw [makeRecord_zero]
    exact if_neg fun h => Nat.not_lt_zero _ h.2
  · obtain ⟨hheld, hnul⟩ := (holds_chars out cap 0).pieces hcap piece pieces
    rw [makeRecord_complete out hcap]
    unfold Client.makeRecord
    dsimp only
    by_cases hfits : 0 < ((piece :: pieces).foldl (Client.appendRaw cap) []).length ∧
        ((piece :: pieces).foldl (Client.appendRaw cap) []).length + 1 < cap
    · have hread := cstr_chars _ (Nat.lt_of_succ_lt hfits.2) hnul
      rw [if_pos hfits, decide_eq_true hfits, if_pos rfl]
      exact congrArg some ((congrArg cstr hheld.chars_eq).symm.trans hread.symm)
    · rw [if_neg hfits, decide_eq_false hfits, if_neg Bool.false_ne_true]

end CharBuffer

/-- **Records are all or nothing.** For every capacity: an append that starts below it writes below it and
ends below it; a record and a watch request are reported to be there exactly when they have at most
`cap - 2` bytes, and the buffer then holds them and a NUL. -/
theorem records_all_or_nothing (cap : ℕ) (out : CharBuffer) :
    (∀ pos s, pos < cap →
        (out.appendRaw cap pos s).1 < cap ∧
          ∀ i ∈ (out.appendRaw cap pos s).2.written, i ∈ out.written ∨ i < cap) ∧
      ∀ name text,
        out.AllOrNothing cap (name ++ lit "=" ++ text ++ lit "\n")
            (out.makeRecordRaw cap name text) ∧
          out.AllOrNothing cap (lit "watch=\x7b\"" ++ name ++ lit "\":" ++ text ++ lit "\x7d\n")
            (out.makeWatch cap name text) := by
  refine ⟨fun pos s hpos => ?_, fun name text => ⟨?_, ?_⟩⟩
  · have hroom : (out.chars pos).length < cap := by rwa [CharBuffer.chars_length]
    have hheld := ((out.holds_chars cap pos).appendRaw hroom s).1
    refine ⟨?_, hheld.within⟩
    rw [hheld.pos_eq]
    exact CharBuffer.appendRaw_length hroom s
  · have hrecord := out.makeRecord_allOrNothing cap name [lit "=", text, lit "\n"] (by simp [lit])
    simp only [List.flatten_cons, List.flatten_nil, List.append_nil] at hrecord
    simp only [List.append_assoc]
    exact hrecord
  · have hrecord := out.makeRecord_allOrNothing cap (lit "watch=\x7b\"")
      [name, lit "\":", text, lit "\x7d\n"] (by simp [lit])
    simp only [List.flatten_cons, List.flatten_nil, List.append_nil] at hrecord
    simp only [List.append_assoc]
    exact hrecord

/-- Four bytes in six, and in five, where the record and its NUL would fit. -/
theorem records_all_or_nothing_edge :
    let out : CharBuffer := ⟨fun _ => chr 'x', []⟩
    (out.makeRecordRaw 6 (lit "a") (lit "1")).1 = true ∧
      (out.makeRecordRaw 5 (lit "a") (lit "1")).1 ≠ true := by
  intro out
  have hsix := ((records_all_or_nothing 6 out).2 (lit "a") (lit "1")).1.complete_iff
  have hfive := ((records_all_or_nothing 5 out).2 (lit "a") (lit "1")).1.complete_iff
  exact ⟨hsix.mpr (by decide), mt hfive.mp (by decide)⟩

end Pypilot
