import Mathlib.Algebra.Ring.Nat
import Pypilot.PacketBoundaries

/-!
# What the line reader reports

A full buffer meets a byte in one of two ways: the byte and the buffer are dropped, or the byte alone. For
both, and for every buffer size, the lines handed out, the buffer and the three counters are functions of
the bytes read since the last reset, and together they account for every byte (`reader_reports`).
-/

namespace AsyncEventLoop.LineProtocolReader

open Text Lines

variable (bufferSize : ℕ) (o : LineProtocolOptions)

/-! ## One line -/

/-- What the buffer holds of the bytes `line` read since the last delimiter, for either way of meeting a full
buffer. -/
def heldOf (line : Text) : Text :=
  if o.dropOverflow then kept bufferSize line else line.take bufferSize

/-- How often the buffer was full when a byte of `line` came in. -/
def overflowsOf (line : Text) : ℕ :=
  if o.dropOverflow then line.length / (bufferSize + 1) else line.length - bufferSize

/-- The bytes that are lost when the buffer is full. -/
def lossOf : ℕ := if o.dropOverflow then bufferSize + 1 else 1

theorem heldOf_nil : heldOf bufferSize o [] = [] := by
  unfold heldOf
  split_ifs
  · exact kept_nil bufferSize
  · exact List.take_nil

theorem overflowsOf_nil : overflowsOf bufferSize o [] = 0 := by
  simp [overflowsOf]

theorem heldOf_snoc (line : Text) (c : Byte) :
    heldOf bufferSize o (line ++ [c]) =
      if bufferSize ≤ (heldOf bufferSize o line).length then
        if o.dropOverflow then [] else heldOf bufferSize o line
      else heldOf bufferSize o line ++ [c] := by
  unfold heldOf
  cases o.dropOverflow with
  | true => exact kept_snoc bufferSize line c
  | false =>
    simp only [Bool.false_eq_true, if_false, List.length_take]
    split_ifs with hfull
    · exact List.take_append_of_le_length (by omega)
    · rw [List.take_of_length_le (by rw [List.length_append, List.length_singleton]; omega),
        List.take_of_length_le (by omega)]

/-- The buffer is full once more when it holds as much as it can. -/
theorem overflowsOf_snoc (line : Text) (c : Byte) :
    overflowsOf bufferSize o (line ++ [c]) =
      overflowsOf bufferSize o line +
        if bufferSize ≤ (heldOf bufferSize o line).length then 1 else 0 := by
  unfold overflowsOf heldOf
  rw [List.length_append, List.length_singleton]
  cases o.dropOverflow with
  | true =>
    have hlt : line.length % (bufferSize + 1) < bufferSize + 1 := Nat.mod_lt _ (Nat.succ_pos _)
    have hdvd : bufferSize + 1 ∣ line.length + 1 ↔ bufferSize ≤ line.length % (bufferSize + 1) := by
      have hmod := Nat.div_add_mod' line.length (bufferSize + 1)
      have hsplit : line.length + 1 = line.length / (bufferSize + 1) * (bufferSize + 1) +
          (line.length % (bufferSize + 1) + 1) := by omega
      rw [hsplit, Nat.dvd_add_right (Nat.dvd_mul_left _ _)]
      constructor
      · intro hd
        exact Nat.le_of_succ_le_succ (Nat.le_of_dvd (Nat.succ_pos _) hd)
      · intro hfull
        have hroom : line.length % (bufferSize + 1) = bufferSize := by omega
        exact ⟨1, by omega⟩
    simp only [if_true, kept_length]
    rw [Nat.succ_div]
    exact congrArg _ (if_congr hdvd rfl rfl)
  | false =>
    simp only [Bool.false_eq_true, if_false, List.length_take]
    split_ifs <;> omega

theorem heldOf_length (line : Text) :
    (heldOf bufferSize o line).length + overflowsOf bufferSize o line * lossOf bufferSize o =
      line.length := by
  unfold heldOf overflowsOf lossOf
  cases o.dropOverflow with
  | true =>
    simp only [if_true, kept_length]
    rw [Nat.add_comm]
    exact Nat.div_add_mod' line.length (bufferSize + 1)
  | false =>
    simp only [Bool.false_eq_true, if_false, List.length_take]
    omega

/-! ## A stream -/

/-- The overflows of a stream, the line under way included. -/
def overflowsIn (stream : Text) : ℕ :=
  ((complete o.delimiter [] stream).map (overflowsOf bufferSize o)).sum +
    overflowsOf bufferSize o (unended o.delimiter [] stream)

theorem overflowsIn_concat (stream : Text) (c : Byte) :
    overflowsIn bufferSize o (stream ++ [c]) =
      overflowsIn bufferSize o stream +
        if c ≠ o.delimiter ∧
            bufferSize ≤ (heldOf bufferSize o (unended o.delimiter [] stream)).length then 1
        else 0 := by
  unfold overflowsIn
  rw [complete_concat, unended_concat]
  by_cases hc : c = o.delimiter
  · simp [hc, overflowsOf_nil]
  · simp [hc, overflowsOf_snoc, Nat.add_assoc]

/-- What a reader has handed out and what it is like when it has read a stream from its reset on. -/
structure Report (r : LineProtocolReader) (stream : Text) (p : List Text × LineProtocolReader) :
    Prop where
  options : p.2.options = r.options
  callback : p.2.callback = r.callback
  lines : p.1 =
    if r.callback then
      (complete r.options.delimiter [] stream).map fun l =>
        stripped r.options.stripCr (heldOf bufferSize r.options l)
    else []
  buffer : p.2.buffer = heldOf bufferSize r.options (unended r.options.delimiter [] stream)
  messages : p.2.stats.messages = UInt32.ofNat (complete r.options.delimiter [] stream).length
  bytes : p.2.stats.bytes = UInt32.ofNat stream.length
  overflows : p.2.stats.overflows = UInt32.ofNat (overflowsIn bufferSize r.options stream)

theorem report_reset (r : LineProtocolReader) : Report bufferSize r [] ([], r.reset) where
  options := rfl
  callback := rfl
  lines := by simp [complete]
  buffer := (heldOf_nil bufferSize r.options).symm
  messages := rfl
  bytes := rfl
  overflows := by
    have hzero : overflowsIn bufferSize r.options [] = 0 := by
      simp [overflowsIn, complete, unended, overflowsOf_nil]
    rw [hzero]
    rfl

theorem ofNat_succ (n : ℕ) : UInt32.ofNat n + 1 = UInt32.ofNat (n + 1) := (UInt32.ofNat_add n 1).symm

section Step

variable {bufferSize} {r : LineProtocolReader} {stream : Text} {p : List Text × LineProtocolReader}

theorem Report.consume (h : Report bufferSize r stream p) (c : Byte) :
    let q := { p.2 with stats.bytes := p.2.stats.bytes + 1 }.consume bufferSize c
    Report bufferSize r (stream ++ [c]) (p.1 ++ q.1, q.2) := by
  intro q
  obtain ⟨lines, p⟩ := p
  obtain ⟨hoptions, hcallback, hlines, hbuffer, hmessages, hbytes, hoverflows⟩ := h
  dsimp only at hoptions hcallback hlines hbuffer hmessages hbytes hoverflows
  have hbytes' : p.stats.bytes + 1 = UInt32.ofNat (stream ++ [c]).length := by
    rw [hbytes, ofNat_succ, List.length_append, List.length_singleton]
  have hcomplete := complete_concat r.options.delimiter [] stream c
  have hunended := unended_concat r.options.delimiter [] stream c
  have hin := overflowsIn_concat bufferSize r.options stream c
  have hsnoc := heldOf_snoc bufferSize r.options (unended r.options.delimiter [] stream) c
  rw [← hbuffer] at hin hsnoc
  by_cases hc : c = r.options.delimiter
  · -- the line under way is handed out
    rw [if_pos hc] at hcomplete hunended
    rw [if_neg fun h => h.1 hc, Nat.add_zero] at hin
    have hq : q = { p with stats.bytes := p.stats.bytes + 1 }.emitLine :=
      if_pos (by rw [hc]; exact congrArg LineProtocolOptions.delimiter hoptions.symm)
    rw [hq]
    refine ⟨hoptions, hcallback, ?_, ?_, ?_, hbytes', by rw [hin]; exact hoverflows⟩
    · rw [hcomplete, hlines]
      unfold emitLine
      dsimp only
      rw [hcallback, hoptions, hbuffer]
      split_ifs
      · rw [List.map_append, List.map_singleton]
      · rfl
    · rw [hunended]
      exact (heldOf_nil bufferSize r.options).symm
    · rw [hcomplete, List.length_append, List.length_singleton, ← ofNat_succ, ← hmessages]
      rfl
  · rw [if_neg hc, List.append_nil] at hcomplete
    rw [if_neg hc] at hunended
    have hother : ¬ c = p.options.delimiter := by rwa [hoptions]
    by_cases hfull : bufferSize ≤ p.buffer.length
    · rw [if_pos ⟨hc, hfull⟩] at hin
      rw [if_pos hfull] at hsnoc
      have hq : q = ([], { p with
          stats.bytes := p.stats.bytes + 1, stats.overflows := p.stats.overflows + 1,
          buffer := if p.options.dropOverflow then [] else p.buffer }) := by
        show LineProtocolReader.consume _ _ _ = _
        unfold LineProtocolReader.consume
        rw [if_neg hother, if_pos hfull]
      rw [hq]
      refine ⟨hoptions, hcallback, ?_, ?_, ?_, hbytes', ?_⟩
      · rw [hcomplete, List.append_nil]
        exact hlines
      · rw [hunended, hsnoc, hoptions]
      · rw [hcomplete]
        exact hmessages
      · rw [hin, ← ofNat_succ, ← hoverflows]
    · rw [if_neg fun h => hfull h.2, Nat.add_zero] at hin
      rw [if_neg hfull] at hsnoc
      have hq : q = ([], { p with
          stats.bytes := p.stats.bytes + 1, buffer := p.buffer ++ [c] }) := by
        show LineProtocolReader.consume _ _ _ = _
        unfold LineProtocolReader.consume
        rw [if_neg hother, if_neg hfull]
      rw [hq]
      refine ⟨hoptions, hcallback, ?_, ?_, ?_, hbytes', by rw [hin]; exact hoverflows⟩
      · rw [hcomplete, List.append_nil]
        exact hlines
      · rw [hunended, hsnoc]
      · rw [hcomplete]
        exact hmessages

theorem report_poll (r : LineProtocolReader) (input : Text) :
    Report bufferSize r input (r.reset.poll bufferSize input) := by
  induction input using List.reverseRecOn with
  | nil => exact report_reset bufferSize r
  | append_singleton input c ih =>
    rw [poll_concat]
    exact ih.consume c

end Step

/-- The bytes of a stream are its delimiters, what was handed out or is in the buffer, and what the overflows
have lost. -/
theorem length_stream (stream : Text) :
    stream.length = (complete o.delimiter [] stream).length +
      ((complete o.delimiter [] stream).map fun l => (heldOf bufferSize o l).length).sum +
      (heldOf bufferSize o (unended o.delimiter [] stream)).length +
      overflowsIn bufferSize o stream * lossOf bufferSize o := by
  have hlines : ∀ ls : List Text, (joined o.delimiter ls).length =
      ls.length + (ls.map fun l => (heldOf bufferSize o l).length).sum +
        (ls.map (overflowsOf bufferSize o)).sum * lossOf bufferSize o := by
    intro ls
    induction ls with
    | nil => simp [joined]
    | cons l ls ih =>
      have hl := heldOf_length bufferSize o l
      rw [joined_cons, List.length_append, List.length_cons, ih, List.map_cons, List.map_cons,
        List.sum_cons, List.sum_cons, List.length_cons, Nat.add_mul]
      omega
  have hstream := congrArg List.length (joined_complete o.delimiter [] stream)
  have hrest := heldOf_length bufferSize o (unended o.delimiter [] stream)
  rw [List.nil_append, List.length_append, hlines] at hstream
  unfold overflowsIn
  rw [← hstream, Nat.add_mul]
  omega

/-- **The report.** Whatever stream the bytes after a reset come from and however they are spread over calls, with
any buffer size, options and callback: the lines handed out are what the buffer held of each terminated line,
the counters count the lines, the bytes and the times that the buffer was full, up to 32 bits, and no byte
goes missing but those of the overflows. -/
theorem reader_reports {W : Type*} (stream : ByteStream W) (onLine : Text → W → W) (r : LineProtocolReader)
    {inputs lines : List Text} {r' : LineProtocolReader}
    (hcalls : Calls stream onLine bufferSize r.reset inputs lines r') :
    let text := inputs.flatten
    let whole := complete r.options.delimiter [] text
    Report bufferSize r text (lines, r') ∧
      text.length = whole.length +
        (whole.map fun l => (heldOf bufferSize r.options l).length).sum + r'.buffer.length +
        overflowsIn bufferSize r.options text * lossOf bufferSize r.options := by
  intro text whole
  have hreport : Report bufferSize r text (lines, r') := by
    rw [← hcalls.eq_poll]
    exact report_poll r text
  refine ⟨hreport, ?_⟩
  rw [hreport.buffer]
  exact length_stream bufferSize r.options text

/-- Four bytes of buffer, and a reader that drops the bytes behind it: of a line of eight the front comes out. -/
theorem reader_reports_overlong :
    let r := { options := ⟨chr '\n', true, false⟩, buffer := lit "x" : LineProtocolReader }.onDataReady
    ∃ lines r', Calls held (fun _ world => world) 4 r.reset [lit "long=", lit "ap=\nab"] lines r' ∧
      lines = [lit "long"] ∧ r'.buffer = lit "ab" ∧ r'.stats = ⟨1, 11, 4⟩ := by
  intro r
  obtain ⟨lines, r', hcalls⟩ := calls_held 4 r.reset [lit "long=", lit "ap=\nab"]
  obtain ⟨hreport, -⟩ := reader_reports 4 held (fun _ world => world) r hcalls
  refine ⟨lines, r', hcalls, hreport.lines.trans (by decide), hreport.buffer.trans (by decide), ?_⟩
  have hmessages := hreport.messages
  have hbytes := hreport.bytes
  have hoverflows := hreport.overflows
  obtain ⟨_, _, ⟨messages, bytes, overflows⟩, _⟩ := r'
  dsimp only at hmessages hbytes hoverflows ⊢
  rw [hmessages, hbytes, hoverflows]
  decide

end AsyncEventLoop.LineProtocolReader
