import Pypilot.Lib.Loop
import Pypilot.ReaderLines

/-!
# Packet boundaries

`poll` reads its stream byte by byte as long as this is readable. Whatever the stream does in between, and
however its bytes are spread over calls, the lines and the reader that come out are those of one call that
reads all the bytes (`Calls.eq_poll`).
-/

namespace AsyncEventLoop

open Text

variable {W W' : Type*}

/-- `IByteStream`, as a reader sees it. -/
structure ByteStream (W : Type*) where
  readable : W → Bool
  /-- `read` with room for one byte; none when it returns 0 or an error. -/
  read : W → Option Byte × W

namespace LineProtocolReader

/-- A call of `poll` under way: the bytes that it has read and the lines that it has handed out. -/
structure Polling (W : Type*) where
  world : W
  reader : LineProtocolReader
  bytes : Text := []
  lines : List Text := []

section Calls

variable (stream : ByteStream W) (onLine : Text → W → W) (bufferSize : ℕ)

/-- One round of `poll`. The callback may do anything to the stream. -/
def pollBody (p : Polling W) : Polling W ⊕ Polling W :=
  if stream.readable p.world then
    match stream.read p.world with
    | (none, world) => .inr { p with world := world }
    | (some byte, world) =>
      let (lines, reader) :=
        { p.reader with stats.bytes := p.reader.stats.bytes + 1 }.consume bufferSize byte
      .inl ⟨lines.foldl (fun world line => onLine line world) world, reader, p.bytes ++ [byte],
        p.lines ++ lines⟩
  else .inr p

/-- Calls of `poll` with no reset between them, each in a world of its own: the bytes read by each, the
lines handed out and the reader after them. `poll_line_reader` leaves out a call when the stream is not
readable. -/
inductive Calls : LineProtocolReader → List Text → List Text → LineProtocolReader → Prop
  | nil (r : LineProtocolReader) : Calls r [] [] r
  | poll {r r' : LineProtocolReader} (world : W) {p : Polling W} {inputs lines : List Text}
      (hreturns : Loop.Returns (pollBody stream onLine bufferSize) ⟨world, r, [], []⟩ p)
      (hrest : Calls p.reader inputs lines r') : Calls r (p.bytes :: inputs) (p.lines ++ lines) r'
  | skipped {r r' : LineProtocolReader} {world : W} {inputs lines : List Text}
      (hreadable : stream.readable world = false) (hrest : Calls r inputs lines r') :
      Calls r ([] :: inputs) lines r'

theorem pollBody_cases (p : Polling W) :
    (∃ byte world, pollBody stream onLine bufferSize p = .inl ⟨world,
        ({ p.reader with stats.bytes := p.reader.stats.bytes + 1 }.consume bufferSize byte).2,
        p.bytes ++ [byte], p.lines ++
          ({ p.reader with stats.bytes := p.reader.stats.bytes + 1 }.consume bufferSize byte).1⟩) ∨
      ∃ world, pollBody stream onLine bufferSize p = .inr { p with world := world } := by
  unfold pollBody
  by_cases hreadable : stream.readable p.world = true
  · rw [if_pos hreadable]
    rcases stream.read p.world with ⟨_ | byte, world⟩
    · exact .inr ⟨world, rfl⟩
    · exact .inl ⟨byte, _, rfl⟩
  · rw [if_neg hreadable]
    exact .inr ⟨p.world, rfl⟩

variable {stream onLine bufferSize} {r : LineProtocolReader}

theorem poll_concat (input : Text) (byte : Byte) :
    r.poll bufferSize (input ++ [byte]) =
      (let p := r.poll bufferSize input
       let q := { p.2 with stats.bytes := p.2.stats.bytes + 1 }.consume bufferSize byte
       (p.1 ++ q.1, q.2)) := by
  rw [poll_append, poll_cons]
  simp [poll]

theorem poll_of_returns {world : W} {p : Polling W}
    (hreturns : Loop.Returns (pollBody stream onLine bufferSize) ⟨world, r, [], []⟩ p) :
    r.poll bufferSize p.bytes = (p.lines, p.reader) := by
  obtain ⟨n, hn⟩ := hreturns
  refine Loop.exec_invariant (fun p : Polling W => r.poll bufferSize p.bytes = (p.lines, p.reader))
    (fun p => r.poll bufferSize p.bytes = (p.lines, p.reader)) ?_ ?_ rfl hn
  · intro p p' hp hgo
    rcases pollBody_cases stream onLine bufferSize p with ⟨byte, world, heq⟩ | ⟨world, heq⟩
    · obtain rfl := Sum.inl.inj (heq.symm.trans hgo)
      dsimp only
      rw [poll_concat, hp]
    · exact nomatch heq.symm.trans hgo
  · intro p p' hp hout
    rcases pollBody_cases stream onLine bufferSize p with ⟨byte, world, heq⟩ | ⟨world, heq⟩
    · exact nomatch heq.symm.trans hout
    · obtain rfl := Sum.inr.inj (heq.symm.trans hout)
      exact hp

theorem Calls.eq_poll {r' : LineProtocolReader} {inputs lines : List Text}
    (hcalls : Calls stream onLine bufferSize r inputs lines r') :
    r.poll bufferSize inputs.flatten = (lines, r') := by
  rw [← polls_eq_poll]
  induction hcalls with
  | nil r => rfl
  | poll world hreturns hrest ih => rw [polls_cons, poll_of_returns hreturns, ih]
  | skipped hreadable hrest ih =>
    rw [polls_cons]
    exact ih

end Calls

/-! ## Bytes that are there -/

/-- A stream that gives out the bytes it holds. -/
def held : ByteStream Text := ⟨fun input => !input.isEmpty, fun input => (input.head?, input.tail)⟩

section Held

variable (bufferSize : ℕ) (r : LineProtocolReader)

theorem held_returns (bytes : Text) (lines : List Text) (input : Text) : ∃ p,
    Loop.Returns (pollBody held (fun _ world => world) bufferSize) ⟨input, r, bytes, lines⟩ p ∧
      p.bytes = bytes ++ input := by
  induction input generalizing r bytes lines with
  | nil => exact ⟨⟨[], r, bytes, lines⟩, ⟨1, rfl⟩, (List.append_nil bytes).symm⟩
  | cons byte input ih =>
    let next := { r with stats.bytes := r.stats.bytes + 1 }.consume bufferSize byte
    obtain ⟨p, ⟨n, hn⟩, hbytes⟩ := ih next.2 (bytes ++ [byte]) (lines ++ next.1)
    have hround : pollBody held (fun _ world => world) bufferSize ⟨byte :: input, r, bytes, lines⟩ =
        .inl ⟨input, next.2, bytes ++ [byte], lines ++ next.1⟩ := by
      show Sum.inl (Polling.mk (next.1.foldl (fun world _ => world) input) next.2 (bytes ++ [byte])
        (lines ++ next.1)) = _
      rw [List.foldl_fixed]
    refine ⟨p, ⟨n + 1, (Loop.exec_goes_on hround n).trans hn⟩, ?_⟩
    rw [hbytes, List.append_assoc]
    rfl

theorem calls_held (inputs : List Text) :
    ∃ lines r', Calls held (fun _ world => world) bufferSize r inputs lines r' := by
  induction inputs generalizing r with
  | nil => exact ⟨[], r, .nil r⟩
  | cons input inputs ih =>
    obtain ⟨p, hreturns, rfl⟩ := held_returns bufferSize r [] [] input
    obtain ⟨lines, r', hrest⟩ := ih p.reader
    exact ⟨p.lines ++ lines, r', .poll _ hreturns hrest⟩

end Held

/-- **Packet boundaries.** For every buffer size and every reader, its options, its open line and its counters
included, calls that read the same bytes, from any streams and spread in any way, hand out the same lines
and leave the same reader; and the bytes can be spread in every way. -/
theorem lines_of_bytes (bufferSize : ℕ) (r : LineProtocolReader) (stream : ByteStream W)
    (stream' : ByteStream W') (onLine : Text → W → W) (onLine' : Text → W' → W')
    (inputs inputs' : List Text) (hsame : inputs.flatten = inputs'.flatten) :
    (∀ lines lines' r₁ r₂, Calls stream onLine bufferSize r inputs lines r₁ →
        Calls stream' onLine' bufferSize r inputs' lines' r₂ → lines = lines' ∧ r₁ = r₂) ∧
      ∃ lines r₁, Calls held (fun _ world => world) bufferSize r inputs lines r₁ := by
  refine ⟨fun lines lines' r₁ r₂ hcalls hcalls' => ?_, calls_held bufferSize r inputs⟩
  have heq := hcalls.eq_poll
  rw [hsame, hcalls'.eq_poll] at heq
  obtain ⟨hlines, hreader⟩ := Prod.mk.inj heq
  exact ⟨hlines.symm, hreader.symm⟩

/-- A packet that ends between a carriage return and its delimiter. -/
theorem lines_of_bytes_cr :
    ∃ lines r', Calls held (fun _ world => world) 4 (dropping (chr '\n') true)
        [lit "ab\r", lit "\ncd"] lines r' ∧
      Calls held (fun _ world => world) 4 (dropping (chr '\n') true)
        [lit "a", lit "b\r\nc", [], lit "d"] lines r' := by
  have hsame : [lit "ab\r", lit "\ncd"].flatten = [lit "a", lit "b\r\nc", [], lit "d"].flatten := by decide
  obtain ⟨lines, r₁, hcalls⟩ := calls_held 4 (dropping (chr '\n') true) [lit "ab\r", lit "\ncd"]
  obtain ⟨lines', r₂, hcalls'⟩ :=
    calls_held 4 (dropping (chr '\n') true) [lit "a", lit "b\r\nc", [], lit "d"]
  obtain ⟨rfl, rfl⟩ := (lines_of_bytes 4 _ held held (fun _ world => world) (fun _ world => world) _ _
    hsame).1 _ _ _ _ hcalls hcalls'
  exact ⟨lines, r₁, hcalls, hcalls'⟩

end LineProtocolReader

end AsyncEventLoop
