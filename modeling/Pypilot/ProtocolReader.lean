import Pypilot.Lib.Text

/-!
# The line reader

`protocol_reader.hpp`: a reader that cuts a byte stream into lines with a buffer of fixed size and
hands each line to a callback.
-/

namespace AsyncEventLoop

open Text

structure LineProtocolOptions where
  delimiter : Byte := chr '\n'
  stripCr : Bool := true
  dropOverflow : Bool := true
  deriving DecidableEq

structure ProtocolReaderStats where
  messages : UInt32 := 0
  bytes : UInt32 := 0
  overflows : UInt32 := 0
  deriving DecidableEq

/-- `LineProtocolReader<BufferSize>`; `buffer` is the used part of the buffer, `callback` whether a
callback is set. -/
structure LineProtocolReader where
  options : LineProtocolOptions := {}
  buffer : Text := []
  stats : ProtocolReaderStats := {}
  callback : Bool := false
  deriving DecidableEq

namespace LineProtocolReader

def onDataReady (r : LineProtocolReader) : LineProtocolReader := { r with callback := true }

def reset (r : LineProtocolReader) : LineProtocolReader := { r with buffer := [], stats := {} }

/-- The line that `emit_line` hands out. -/
def stripped (stripCr : Bool) (line : Text) : Text :=
  if stripCr ∧ line.getLast? = some (chr '\r') then line.dropLast else line

/-- `emit_line`: the lines handed to the callback, and the reader after it. -/
def emitLine (r : LineProtocolReader) : List Text × LineProtocolReader :=
  (if r.callback then [stripped r.options.stripCr r.buffer] else [],
    { r with buffer := [], stats.messages := r.stats.messages + 1 })

variable (bufferSize : ℕ)

def consume (r : LineProtocolReader) (c : Byte) : List Text × LineProtocolReader :=
  if c = r.options.delimiter then r.emitLine
  else if bufferSize ≤ r.buffer.length then
    ([], { r with stats.overflows := r.stats.overflows + 1,
                  buffer := if r.options.dropOverflow then [] else r.buffer })
  else ([], { r with buffer := r.buffer ++ [c] })

/-- `poll`, when the stream has the bytes `input`: all of them are read. -/
def poll (r : LineProtocolReader) : Text → List Text × LineProtocolReader
  | [] => ([], r)
  | c :: input =>
    let r := { r with stats.bytes := r.stats.bytes + 1 }
    let (lines, r) := r.consume bufferSize c
    let (lines', r) := poll r input
    (lines ++ lines', r)

/-- A sequence of polls, each with the bytes that have arrived since the one before. -/
def polls (r : LineProtocolReader) : List Text → List Text × LineProtocolReader
  | [] => ([], r)
  | input :: inputs =>
    let (lines, r) := r.poll bufferSize input
    let (lines', r) := polls r inputs
    (lines ++ lines', r)

end LineProtocolReader

end AsyncEventLoop
