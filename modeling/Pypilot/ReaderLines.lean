import Pypilot.Lib.Lines
import Pypilot.ProtocolReader

/-!
# What the line reader delivers

With `drop_overflow` set, an overflow empties the buffer and drops the byte at hand, and the reader
goes on in the middle of the line. Of a line of `n` bytes a buffer of `bufferSize` bytes therefore
holds the last `n % (bufferSize + 1)` bytes at the delimiter (`kept`), and these are delivered
(`polls_lines`): a line is delivered as it stands exactly when it fits.
-/

namespace AsyncEventLoop.LineProtocolReader

open Text Lines

variable (bufferSize : ℕ)

/-! ## The buffer -/

/-- What the buffer holds of the bytes `line` read since the last delimiter. -/
def kept (line : Text) : Text := line.drop (line.length / (bufferSize + 1) * (bufferSize + 1))

theorem kept_length (line : Text) :
    (kept bufferSize line).length = line.length % (bufferSize + 1) := by
  have h := Nat.div_add_mod' line.length (bufferSize + 1)
  rw [kept, List.length_drop]
  omega

theorem kept_nil : kept bufferSize [] = [] := by
  simp [kept]

theorem kept_of_fits {line : Text} (h : line.length ≤ bufferSize) : kept bufferSize line = line := by
  rw [kept, Nat.div_eq_of_lt (by omega), Nat.zero_mul, List.drop_zero]

/-- One more byte: the buffer takes it, or is emptied when it is full. -/
theorem kept_snoc (line : Text) (c : Byte) :
    kept bufferSize (line ++ [c]) =
      if bufferSize ≤ (kept bufferSize line).length then [] else kept bufferSize line ++ [c] := by
  have hlen := kept_length bufferSize line
  have hmod := Nat.div_add_mod' line.length (bufferSize + 1)
  have hlt : line.length % (bufferSize + 1) < bufferSize + 1 := Nat.mod_lt _ (Nat.succ_pos _)
  split_ifs with hfull
  · have hroom : line.length % (bufferSize + 1) = bufferSize := by omega
    have hnext : (line.length + 1) % (bufferSize + 1) = 0 := by
      rw [Nat.add_mod, hroom]
      rcases Nat.eq_zero_or_pos bufferSize with h0 | hpos
      · subst h0; rfl
      · rw [Nat.mod_eq_of_lt (show 1 < bufferSize + 1 by omega), Nat.mod_self]
    apply List.eq_nil_of_length_eq_zero
    rw [kept_length, List.length_append, List.length_singleton, hnext]
  · have hdiv : (line.length + 1) / (bufferSize + 1) = line.length / (bufferSize + 1) := by
      rw [Nat.succ_div_of_not_dvd]
      intro hd
      have := Nat.mod_eq_zero_of_dvd hd
      rw [Nat.add_mod] at this
      have hroom : line.length % (bufferSize + 1) + 1 < bufferSize + 1 := by omega
      rcases Nat.eq_zero_or_pos bufferSize with h0 | hpos
      · omega
      · rw [Nat.mod_eq_of_lt (show 1 < bufferSize + 1 by omega), Nat.mod_eq_of_lt hroom] at this
        omega
    unfold kept
    rw [List.length_append, List.length_singleton, hdiv, List.drop_append_of_le_length]
    omega

/-! ## Deliveries -/

theorem poll_cons (r : LineProtocolReader) (c : Byte) (input : Text) :
    r.poll bufferSize (c :: input) =
      (let p := { r with stats.bytes := r.stats.bytes + 1 }.consume bufferSize c
       (p.1 ++ (p.2.poll bufferSize input).1, (p.2.poll bufferSize input).2)) := rfl

theorem poll_append (r : LineProtocolReader) (a b : Text) :
    r.poll bufferSize (a ++ b) =
      ((r.poll bufferSize a).1 ++ ((r.poll bufferSize a).2.poll bufferSize b).1,
        ((r.poll bufferSize a).2.poll bufferSize b).2) := by
  induction a generalizing r with
  | nil => simp [poll]
  | cons c a ih => simp [poll_cons, ih]

theorem polls_cons (r : LineProtocolReader) (input : Text) (inputs : List Text) :
    r.polls bufferSize (input :: inputs) =
      ((r.poll bufferSize input).1 ++ ((r.poll bufferSize input).2.polls bufferSize inputs).1,
        ((r.poll bufferSize input).2.polls bufferSize inputs).2) := rfl

/-- How the bytes are spread over polls does not matter. -/
theorem polls_eq_poll (r : LineProtocolReader) (inputs : List Text) :
    r.polls bufferSize inputs = r.poll bufferSize inputs.flatten := by
  induction inputs generalizing r with
  | nil => rfl
  | cons input inputs ih => rw [polls_cons, List.flatten_cons, poll_append, ih]

/-- A byte changes neither the options nor the callback. -/
theorem consume_settings (r : LineProtocolReader) (c : Byte) :
    (r.consume bufferSize c).2.options = r.options ∧
      (r.consume bufferSize c).2.callback = r.callback := by
  unfold consume emitLine
  split_ifs <;> exact ⟨rfl, rfl⟩

/-- A reader that drops overflows and has a callback. -/
def dropping (delimiter : Byte) (stripCr : Bool) : LineProtocolReader :=
  { options := ⟨delimiter, stripCr, true⟩ : LineProtocolReader }.onDataReady

/-- A reader in the middle of a line of which it has read `line`. -/
structure Midway (delimiter : Byte) (stripCr : Bool) (line : Text) (r : LineProtocolReader) :
    Prop where
  options : r.options = ⟨delimiter, stripCr, true⟩
  callback : r.callback = true
  buffer : r.buffer = kept bufferSize line

theorem midway_dropping (delimiter : Byte) (stripCr : Bool) :
    Midway bufferSize delimiter stripCr [] (dropping delimiter stripCr) :=
  ⟨rfl, rfl, (kept_nil bufferSize).symm⟩

section Step

variable {bufferSize} {delimiter : Byte} {stripCr : Bool} {line : Text} {r : LineProtocolReader}

theorem Midway.count (hr : Midway bufferSize delimiter stripCr line r) :
    Midway bufferSize delimiter stripCr line { r with stats.bytes := r.stats.bytes + 1 } :=
  ⟨hr.options, hr.callback, hr.buffer⟩

/-- The delimiter delivers the buffer and starts a line. -/
theorem Midway.consume_delimiter (hr : Midway bufferSize delimiter stripCr line r) :
    (r.consume bufferSize delimiter).1 = [stripped stripCr (kept bufferSize line)] ∧
      Midway bufferSize delimiter stripCr [] (r.consume bufferSize delimiter).2 := by
  have he : r.consume bufferSize delimiter = r.emitLine := by
    rw [consume, hr.options, if_pos rfl]
  rw [he]
  refine ⟨?_, hr.options, hr.callback, (kept_nil bufferSize).symm⟩
  rw [emitLine, hr.callback, hr.options, hr.buffer]
  rfl

/-- Any other byte delivers nothing and makes the line longer. -/
theorem Midway.consume_other (hr : Midway bufferSize delimiter stripCr line r) {c : Byte}
    (hc : c ≠ delimiter) :
    (r.consume bufferSize c).1 = [] ∧
      Midway bufferSize delimiter stripCr (line ++ [c]) (r.consume bufferSize c).2 := by
  have hsnoc := kept_snoc bufferSize line c
  rw [← hr.buffer] at hsnoc
  unfold consume
  rw [if_neg (by rw [hr.options]; exact hc)]
  by_cases hfull : bufferSize ≤ r.buffer.length
  · rw [if_pos hfull] at hsnoc ⊢
    exact ⟨rfl, hr.options, hr.callback, by rw [hsnoc, hr.options]; rfl⟩
  · rw [if_neg hfull] at hsnoc ⊢
    exact ⟨rfl, hr.options, hr.callback, hsnoc.symm⟩

theorem poll_lines (hr : Midway bufferSize delimiter stripCr line r) (input : Text) :
    (r.poll bufferSize input).1 =
      (complete delimiter line input).map fun l => stripped stripCr (kept bufferSize l) := by
  induction input generalizing line r with
  | nil => rfl
  | cons c input ih =>
    rw [poll_cons]
    dsimp only
    by_cases hc : c = delimiter
    · subst hc
      obtain ⟨hout, hnext⟩ := hr.count.consume_delimiter
      rw [hout, ih hnext, complete_delimiter]
      rfl
    · obtain ⟨hout, hnext⟩ := hr.count.consume_other hc
      rw [hout, ih hnext, complete_cons delimiter hc]
      rfl

/-- The line that is not ended stays under way. -/
theorem poll_midway (hr : Midway bufferSize delimiter stripCr line r) (input : Text) :
    Midway bufferSize delimiter stripCr (unended delimiter line input) (r.poll bufferSize input).2 := by
  induction input generalizing line r with
  | nil => exact hr
  | cons c input ih =>
    rw [poll_cons]
    by_cases hc : c = delimiter
    · subst hc
      rw [unended_delimiter]
      exact ih hr.count.consume_delimiter.2
    · rw [unended_cons delimiter hc]
      exact ih (hr.count.consume_other hc).2

end Step

/-- **Deliveries.** Every terminated line is delivered, cut down to what the buffer kept of it. -/
theorem polls_lines (delimiter : Byte) (stripCr : Bool) (inputs : List Text) :
    ((dropping delimiter stripCr).polls bufferSize inputs).1 =
      (complete delimiter [] inputs.flatten).map fun l => stripped stripCr (kept bufferSize l) := by
  rw [polls_eq_poll]
  exact poll_lines (midway_dropping bufferSize delimiter stripCr) inputs.flatten

/-! ## Dropping overlong lines -/

/-- The lines a reader should deliver that drops overlong lines whole. -/
def wholeLines (delimiter : Byte) (stripCr : Bool) (stream : Text) : List Text :=
  ((complete delimiter [] stream).filter fun l => l.length ≤ bufferSize).map (stripped stripCr)

/-- The reader drops overlong lines whole on exactly the streams that have none. -/
theorem polls_eq_wholeLines_iff (delimiter : Byte) (stripCr : Bool) (inputs : List Text) :
    ((dropping delimiter stripCr).polls bufferSize inputs).1 =
        wholeLines bufferSize delimiter stripCr inputs.flatten ↔
      ∀ l ∈ complete delimiter [] inputs.flatten, l.length ≤ bufferSize := by
  rw [polls_lines, wholeLines]
  generalize complete delimiter [] inputs.flatten = lines
  constructor
  · intro h
    -- one delivery a line, so none is filtered out
    have hlen := congrArg List.length h
    rw [List.length_map, List.length_map] at hlen
    simpa using List.length_filter_eq_length_iff.mp hlen.symm
  · intro h
    rw [List.filter_eq_self.mpr (by simpa using h)]
    exact List.map_congr_left fun l hl => by rw [kept_of_fits bufferSize (h l hl)]

/-- Four bytes of buffer, a line of eight: its last three bytes come out as a line. -/
theorem overlong_tail_delivered :
    ((dropping (chr '\n') true).polls 4 [lit "long", lit "=ap=", lit "\n"]).1 ≠
      wholeLines 4 (chr '\n') true (lit "long=ap=\n") := by
  decide

end AsyncEventLoop.LineProtocolReader
