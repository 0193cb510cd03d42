import Pypilot.DataModel
import Pypilot.EventLoop
import Pypilot.Lib.Decimal
import Pypilot.Lib.SlotTable
import Pypilot.ProtocolReader

/-!
# The client

`client.cpp`: the records a client sends, the watches it wants, and the lines that wait for a
connection. Connections are objects of the environment: an interface gives their answers, and every
write to one is recorded.
-/

namespace Pypilot

open Text AsyncEventLoop

/-! ## Records -/

namespace Client

def maxClientWatches : ℕ := 32
def maxPendingLines : ℕ := 16
def maxLineSize : ℕ := 192
def maxNameSize : ℕ := 64

/-- `append_raw`: a buffer of `cap` bytes that holds `buf` takes what leaves room for the NUL. -/
def appendRaw (cap : ℕ) (buf s : Text) : Text := buf ++ s.take (cap - 1 - buf.length)

/-- `trim_number`: no leading blanks, no trailing zeros, no trailing point, at least one digit. -/
def trimNumber (s : Text) : Text :=
  let s := s.dropWhile (· = chr ' ')
  let s := s.rdropWhile (· = chr '0')
  let s := if s.getLast? = some (chr '.') then s.dropLast else s
  if s = [] ∨ s = [chr '-'] then s ++ [chr '0'] else s

/-- `append_real`: `snprintf` cuts the number at 31 characters. -/
def appendReal (cap : ℕ) (buf : Text) (value : Real) : Text :=
  appendRaw cap buf (trimNumber ((Decimal.render 6 value).take 31))

/-- The bytes that `append_json_string` puts for `c`. -/
def escape (c : Byte) : List Text :=
  if c = chr '"' ∨ c = chr '\\' then [lit "\\", [c]]
  else if c = chr '\n' then [lit "\\n"]
  else if c = chr '\r' then [lit "\\r"]
  else if c = chr '\t' then [lit "\\t"]
  else [[c]]

def appendJsonString (cap : ℕ) (buf s : Text) : Text :=
  ([lit "\""] ++ s.flatMap escape ++ [lit "\""]).foldl (appendRaw cap) buf

/-- The pieces of a record put into a buffer of `cap` bytes, and what a reader of the C string gets;
`none` when the record does not fit. -/
def makeRecord (cap : ℕ) (pieces : List Text) : Option Text :=
  let buf := pieces.foldl (appendRaw cap) []
  if 0 < buf.length ∧ buf.length + 1 < cap then some (cstr buf) else none

def makeRecordRaw (cap : ℕ) (name json : Text) : Option Text :=
  makeRecord cap [name, lit "=", json, lit "\n"]

def makeWatch (cap : ℕ) (name periodJson : Text) : Option Text :=
  makeRecord cap [lit "watch=\x7b\"", name, lit "\":", periodJson, lit "\x7d\n"]

def makeWatchPeriod (cap : ℕ) (name : Text) (periodSeconds : Real) : Option Text :=
  if periodSeconds ≤ 0 then makeWatch cap name (lit "true")
  else makeWatch cap name (cstr (appendReal 32 [] periodSeconds))

/-! ### The lines of the calls -/

def watchLine (name : Text) (periodSeconds : Real) : Option Text :=
  makeWatchPeriod maxLineSize name periodSeconds

def unwatchLine (name : Text) : Option Text := makeWatch maxLineSize name (lit "false")

def setLine (name wireValue : Text) : Option Text := makeRecordRaw maxLineSize name wireValue

def setBoolLine (name : Text) (value : Bool) : Option Text :=
  makeRecordRaw maxLineSize name (if value then lit "true" else lit "false")

def setRealLine (name : Text) (value : Real) : Option Text :=
  makeRecordRaw maxLineSize name (cstr (appendReal 32 [] value))

def setStringLine (name value : Text) : Option Text :=
  makeRecordRaw maxLineSize name (cstr (appendJsonString 128 [] value))

end Client

/-! ## Connections -/

/-- The address of a connection object. -/
abbrev ConnId := ℕ

/-- `ITcpConnection` for all connection objects at once, over the environment's state `W`. `write`
gives the number of bytes taken. -/
structure Net (W : Type) where
  valid : ConnId → W → Bool
  write : ConnId → Text → W → ℤ × W
  close : ConnId → W → W
  /-- The answer of a write is an `int`. -/
  write_int : ∀ conn bytes w, -2 ^ 31 ≤ (write conn bytes w).1 ∧ (write conn bytes w).1 < 2 ^ 31

theorem zero_int : -2 ^ 31 ≤ (0 : ℤ) ∧ (0 : ℤ) < 2 ^ 31 := by decide

/-- The answer of a connection that takes lines below 2 GiB whole, and fails on longer ones. -/
theorem taken_int (bytes : Text) :
    -2 ^ 31 ≤ (if bytes.length < 2 ^ 31 then (bytes.length : ℤ) else -1) ∧
      (if bytes.length < 2 ^ 31 then (bytes.length : ℤ) else -1) < 2 ^ 31 := by
  split_ifs <;> omega

/-- A write: the connection, the bytes offered and the answer. -/
structure Sent where
  conn : ConnId
  bytes : Text
  taken : ℤ
  deriving DecidableEq

/-- The environment with the record of the writes to it. -/
structure Wire (W : Type) where
  world : W
  log : List Sent := []

/-- `static_cast<int>` of a size. -/
def toInt32 (n : ℕ) : ℤ := (n : ℤ).bmod (2 ^ 32)

def Wire.write {W : Type} (net : Net W) (wire : Wire W) (conn : ConnId) (bytes : Text) :
    ℤ × Wire W :=
  let (n, world) := net.write conn bytes wire.world
  (n, ⟨world, wire.log ++ [⟨conn, bytes, n⟩]⟩)

/-! ## The client -/

structure ClientWatch where
  active : Bool := false
  name : Text := []
  periodSeconds : Real := 0
  deriving DecidableEq

theorem Client.nil_fits : ([] : Text).length < Client.maxLineSize := by decide

/-- A slot of the pending store; `bytes` are the first `size` bytes of its buffer, which has room for
a NUL behind them. -/
structure PendingLine where
  active : Bool := false
  bytes : Text := []
  fits : bytes.length < Client.maxLineSize := by exact Client.nil_fits
  deriving DecidableEq

structure PypilotClient where
  connection : Option ConnId := none
  tcpStream : Option ConnId := none
  lineReader : LineProtocolReader := ({} : LineProtocolReader).onDataReady
  lineEvent : EventHandle := 0
  watches : List.Vector ClientWatch Client.maxClientWatches :=
    List.Vector.replicate Client.maxClientWatches {}
  pending : List.Vector PendingLine Client.maxPendingLines :=
    List.Vector.replicate Client.maxPendingLines {}
  lastError : ℤ := 0

/-- Callbacks on the event loop: the client's line reader, and those of other components. -/
inductive LoopCallback
  | pollLineReader
  | other (k : ℕ)
  deriving DecidableEq

/-- A client with the event loop and the environment it works on. -/
structure ClientSystem (W : Type) where
  client : PypilotClient
  loop : EventLoop LoopCallback := {}
  wire : Wire W

namespace ClientSystem

open Client

variable {W : Type} (net : Net W) (sys : ClientSystem W)

/-- The connection that `connected()` finds valid. -/
def connected : Option ConnId := sys.client.connection.filter fun conn => net.valid conn sys.wire.world

def queueLine (line : Text) : Bool × ClientSystem W :=
  let free (slot : PendingLine) : Bool := !slot.active
  if h : maxLineSize ≤ line.length then (false, sys)
  else if sys.client.pending.toList.any free then
    (true, { sys with
      client.pending :=
        SlotTable.update free (fun _ => ⟨true, line, Nat.lt_of_not_le h⟩) sys.client.pending })
  else (false, sys)

def queueOrWrite (line : Text) : Bool × ClientSystem W :=
  match sys.connected net with
  | none => sys.queueLine line
  | some conn =>
    let (n, wire) := sys.wire.write net conn line
    let sys := { sys with wire := wire }
    if n = toInt32 line.length then (true, sys) else sys.queueLine line

/-- One slot of `flush_pending`. -/
def flushSlot (conn : ConnId) (slot : PendingLine) (wire : Wire W) : PendingLine × Wire W :=
  if !slot.active then (slot, wire)
  else
    let (n, wire) := wire.write net conn slot.bytes
    if n = toInt32 slot.bytes.length then ({}, wire) else (slot, wire)

def flushPending : ClientSystem W :=
  match sys.connected net with
  | none => sys
  | some conn =>
    let (pending, wire) := SlotTable.sweep (flushSlot net conn) sys.client.pending sys.wire
    { sys with client.pending := pending, wire := wire }

/-! ### Calls -/

/-- Hands the line on, when there is one. -/
def send (line : Option Text) : ClientSystem W :=
  match line with
  | some line => (sys.queueOrWrite net line).2
  | none => sys

def rememberWatch (name : Text) (periodSeconds : Real) : ClientSystem W :=
  let held (watch : ClientWatch) : Bool := watch.active && name = watch.name
  let free (watch : ClientWatch) : Bool := !watch.active
  let watches := sys.client.watches
  if watches.toList.any held then
    { sys with
      client.watches := SlotTable.update held
        (fun watch => { watch with periodSeconds := periodSeconds }) watches }
  else
    -- a name is cut at 63 bytes, and read back up to its first NUL
    { sys with
      client.watches := SlotTable.update free
        (fun _ => ⟨true, cstr (name.take (maxNameSize - 1)), periodSeconds⟩) watches }

def watch (name : Text) (periodSeconds : Real) : ClientSystem W :=
  (sys.rememberWatch name periodSeconds).send net (watchLine name periodSeconds)

/-- Every watch of the name made inactive. -/
def forgetWatch (name : Text) : ClientSystem W :=
  let drop (watch : ClientWatch) : ClientWatch :=
    if watch.active && name = watch.name then { watch with active := false } else watch
  { sys with client.watches := sys.client.watches.map drop }

def unwatch (name : Text) : ClientSystem W := (sys.forgetWatch name).send net (unwatchLine name)

def set (name wireValue : Text) : ClientSystem W := sys.send net (setLine name wireValue)

def setBool (name : Text) (value : Bool) : ClientSystem W := sys.send net (setBoolLine name value)

def setReal (name : Text) (value : Real) : ClientSystem W := sys.send net (setRealLine name value)

def setString (name value : Text) : ClientSystem W := sys.send net (setStringLine name value)

def sendRaw (line : Text) : Bool × ClientSystem W := sys.queueOrWrite net line

def popOutgoing : Option Text × ClientSystem W :=
  let pending := sys.client.pending
  match pending.toList.find? PendingLine.active with
  | none => (none, sys)
  | some slot =>
    (some slot.bytes,
      { sys with
        client.pending := SlotTable.update PendingLine.active (fun _ => {}) pending })

/-! ### Connection events -/

def replayWatches : ClientSystem W :=
  sys.client.watches.toList.foldl
    (fun sys watch =>
      if watch.active then sys.send net (watchLine watch.name watch.periodSeconds) else sys) sys

/-- The line event cancelled and forgotten. -/
def dropLineEvent : ClientSystem W :=
  if sys.client.lineEvent ≠ 0 then
    { sys with loop := sys.loop.cancel sys.client.lineEvent, client.lineEvent := 0 }
  else sys

/-- The client without a connection, its reader empty. -/
def detached : ClientSystem W :=
  { sys.dropLineEvent with
    client.connection := none, client.tcpStream := none,
    client.lineReader := sys.client.lineReader.reset }

def close : ClientSystem W :=
  let sys := sys.dropLineEvent
  let world := match sys.client.connection with
    | some conn => net.close conn sys.wire.world
    | none => sys.wire.world
  { sys with wire.world := world }.detached

def attached (conn : ConnId) : ClientSystem W :=
  let loop := if sys.client.lineEvent ≠ 0 then sys.loop.cancel sys.client.lineEvent else sys.loop
  let (event, loop) := loop.onBytesReady .pollLineReader
  { sys with
    loop := loop, client.connection := some conn, client.tcpStream := some conn,
    client.lineReader := sys.client.lineReader.reset, client.lineEvent := event }

def onConnect (conn : ConnId) : ClientSystem W :=
  ((sys.attached conn).flushPending net).replayWatches net

/-- A connection other than the current one may close without effect. -/
def onClose (conn : ConnId) : ClientSystem W :=
  if sys.client.connection = some conn then sys.detached else sys

def onError (errorCode : ℤ) : ClientSystem W :=
  { sys with client.lastError := errorCode }.detached

end ClientSystem

end Pypilot
