import Pypilot.Lib.Reentrant
import Pypilot.LoopRuns
import Pypilot.Outbox
import Pypilot.ReaderLines

/-!
# The sessions of the client

A client on an event loop that other components use as well: connections come, deliver bytes, close and
fail in any order, and passes of the loop poll the line reader. Throughout, the stream is attached to the
connection held, the client has at most one registration, and none without a connection, and each line
that is delivered consists of consecutive bytes of one session (`sessions_sound`).
-/

namespace Pypilot

open Text AsyncEventLoop SlotTable Client

variable {W : Type}

/-! ## The line reader on a connection -/

/-- The input side of `ITcpConnection`: `read` of one byte gives none when nothing is read. -/
structure Inlet (W : Type) where
  inputSize : ConnId → W → ℕ
  read : ConnId → W → Option Byte × W

/-- What can be seen of a client from its connections and its lines. -/
inductive ClientEvent
  | connected (conn : ConnId)
  | read (conn : ConnId) (byte : Byte)
  | delivered (line : Text)
  deriving DecidableEq

namespace ClientSystem

variable (net : Net W) (inlet : Inlet W)

/-- `readable` of the stream while it is attached to `conn`. -/
def readable (conn : ConnId) (w : W) : Bool := net.valid conn w && decide (0 < inlet.inputSize conn w)

/-- `poll` of the line reader, whose stream is attached to `conn`, up to `rounds` rounds of its loop: the
bytes read and the lines handed to `handle_line`, in order. -/
def pollReader (conn : ConnId) : ℕ → ClientSystem W → List ClientEvent × ClientSystem W
  | 0, sys => ([], sys)
  | rounds + 1, sys =>
    if readable net inlet conn sys.wire.world then
      match inlet.read conn sys.wire.world with
      | (none, world) => ([], { sys with wire.world := world })
      | (some byte, world) =>
        let reader := { sys.client.lineReader with stats.bytes := sys.client.lineReader.stats.bytes + 1 }
        let (lines, reader) := reader.consume maxLineSize byte
        let (events, sys) := pollReader conn rounds
          { sys with wire.world := world, client.lineReader := reader }
        (.read conn byte :: lines.map .delivered ++ events, sys)
    else ([], sys)

def pollLineReader (rounds : ℕ) (sys : ClientSystem W) : List ClientEvent × ClientSystem W :=
  match sys.client.tcpStream with
  | none => ([], sys)
  | some conn =>
    if readable net inlet conn sys.wire.world then sys.pollReader net inlet conn rounds else ([], sys)

/-- The connection that has data is not asked which one it is. -/
def onData (rounds : ℕ) (sys : ClientSystem W) (_conn : ConnId) :
    List ClientEvent × ClientSystem W := sys.pollLineReader net inlet rounds

end ClientSystem

/-! ## Sessions on an event loop -/

/-- A client system with what has been seen of it. -/
structure Sessions (W : Type) where
  sys : ClientSystem W
  trace : List ClientEvent := []

/-- The calls and events of the client, and the uses of the loop by other components. -/
inductive SystemUse (W : Type)
  | op (op : ClientOp W)
  | onData (conn : ConnId)
  | onDelayUs (delayUs : ℕ) (k : ℕ)
  | onRepeatUs (periodUs : ℕ) (k : ℕ)
  | onBytesReady (k : ℕ)
  | cancel (h : EventHandle)

namespace Sessions

variable (net : Net W) (inlet : Inlet W) (rounds : ℕ)

/-- A result of the client, seen. -/
def see (t : Sessions W) (result : List ClientEvent × ClientSystem W) : Sessions W :=
  ⟨result.2, t.trace ++ result.1⟩

def withLoop (t : Sessions W) (loop : EventLoop LoopCallback) : Sessions W :=
  { t with sys.loop := loop }

def perform (use : SystemUse W) (now : ℕ) (t : Sessions W) : Sessions W :=
  match use with
  | .op (.onConnect conn) => t.see ([.connected conn], t.sys.onConnect net conn)
  | .op op => t.see ([], op.run net t.sys)
  | .onData conn => t.see (t.sys.onData net inlet rounds conn)
  | .onDelayUs delayUs k => t.withLoop (t.sys.loop.onDelayUs delayUs now (some (.other k))).2
  | .onRepeatUs periodUs k => t.withLoop (t.sys.loop.onRepeatUs periodUs now (some (.other k))).2
  | .onBytesReady k => t.withLoop (t.sys.loop.onBytesReady (.other k)).2
  | .cancel h => t.withLoop (t.sys.loop.cancel h)

/-- The callback of the client returns within the visit; those of other components may use the system. -/
def visit (now : ℕ) (i : Fin maxCallbacks) (t : Sessions W) : Bool × Sessions W :=
  match t.sys.loop.visit now i with
  | (some (_, .pollLineReader), loop) =>
    (false, (t.withLoop loop).see ((t.withLoop loop).sys.pollLineReader net inlet rounds))
  | (some (_, .other _), loop) => (true, t.withLoop loop)
  | (none, loop) => (false, t.withLoop loop)

def program : Reentrant.Program (Sessions W) (Fin maxCallbacks) (SystemUse W) :=
  ⟨List.finRange maxCallbacks, perform net inlet rounds, visit net inlet rounds⟩

/-- A new client in the environment `world`. -/
def start (world : W) : Sessions W := { sys := { client := {}, wire := { world := world } } }

end Sessions

/-! ## The registration of the client -/

/-- Slots in use have different handles that were given out, and one with the client's callback has the
handle that the client holds. -/
structure OwnEvent (loop : EventLoop LoopCallback) (event : EventHandle) : Prop where
  distinct : Distinct Slot.active Slot.id loop.slots
  next_pos : 0 < loop.nextId
  issued : ∀ i, (loop.slots.get i).active = true → (loop.slots.get i).id < loop.nextId
  event_lt : event < loop.nextId
  own : ∀ i, (loop.slots.get i).active = true → (loop.slots.get i).cb = some .pollLineReader →
    (loop.slots.get i).id = event ∧ 0 < event

namespace OwnEvent

variable {loop : EventLoop LoopCallback} {event : EventHandle}

theorem start : OwnEvent {} 0 where
  distinct := by intro i j hi; simp at hi
  next_pos := Int.one_pos
  issued := by intro i hi; simp at hi
  event_lt := Int.one_pos
  own := by intro i hi; simp at hi

/-- A slot that is freed, or that keeps its handle and its callback. -/
theorem set (h : OwnEvent loop event) {i : Fin maxCallbacks} {slot : Slot LoopCallback}
    (hslot : slot.active = true → (loop.slots.get i).active = true ∧
      slot.id = (loop.slots.get i).id ∧ slot.cb = (loop.slots.get i).cb) :
    OwnEvent { loop with slots := loop.slots.set i slot } event where
  distinct := Distinct.set h.distinct fun hact j hj hactj hid => by
    obtain ⟨hacti, hidi, -⟩ := hslot hact
    exact hj (h.distinct j i hactj hacti (hid.trans hidi))
  next_pos := h.next_pos
  issued := forall_get_set (Q := fun slot : Slot LoopCallback => slot.active = true → slot.id < loop.nextId)
    (fun hact => by
      obtain ⟨hacti, hidi, -⟩ := hslot hact
      rw [hidi]
      exact h.issued i hacti) fun j _ => h.issued j
  event_lt := h.event_lt
  own := forall_get_set
    (Q := fun slot : Slot LoopCallback => slot.active = true → slot.cb = some .pollLineReader →
      slot.id = event ∧ 0 < event)
    (fun hact hcb => by
      obtain ⟨hacti, hidi, hcbi⟩ := hslot hact
      rw [hidi]
      exact h.own i hacti (hcbi.symm.trans hcb)) fun j _ => h.own j

theorem cancel (h : OwnEvent loop event) (handle : EventHandle) :
    OwnEvent (loop.cancel handle) event := by
  rcases loop.cancel_cases handle with ⟨i, -, -, heq⟩ | ⟨-, heq⟩
  · rw [heq]
    exact h.set fun hact => nomatch hact
  · rw [heq]
    exact h

/-- The client's own handle cancelled leaves it without a registration. -/
theorem cancel_own (h : OwnEvent loop event) :
    OwnEvent (if event ≠ 0 then loop.cancel event else loop) 0 := by
  have hnone : ∀ loop' : EventLoop LoopCallback, OwnEvent loop' event →
      (∀ i, (loop'.slots.get i).active = true → (loop'.slots.get i).cb ≠ some .pollLineReader) →
      OwnEvent loop' 0 := fun loop' h' hnot =>
    ⟨h'.distinct, h'.next_pos, h'.issued, h'.next_pos, fun i hact hcb => absurd hcb (hnot i hact)⟩
  split_ifs with hzero
  · refine hnone _ (h.cancel event) fun i hact hcb => ?_
    rcases loop.cancel_cases event with ⟨j, hactj, hidj, heq⟩ | ⟨hnot, heq⟩
    · rw [heq] at hact hcb
      dsimp only at hact hcb
      by_cases hij : j = i
      · subst hij
        rw [List.Vector.get_set_same] at hact
        exact nomatch hact
      · rw [List.Vector.get_set_of_ne hij] at hact hcb
        exact hij (h.distinct j i hactj hact (hidj.trans (h.own i hact hcb).1.symm))
    · rw [heq] at hact hcb
      obtain ⟨hid, hpos⟩ := h.own i hact hcb
      exact hnot hpos i hact hid
  · refine hnone _ h fun i hact hcb => ?_
    exact hzero (h.own i hact hcb).2.ne'

/-- A slot taken under the next handle, by the client when it holds none or by another component. -/
theorem fresh (h : OwnEvent loop event) {i : Fin maxCallbacks} {slot : Slot LoopCallback}
    (hid : slot.id = loop.nextId) {event' : EventHandle}
    (hevent : event' = event ∧ slot.cb ≠ some .pollLineReader ∨ event' = loop.nextId ∧ event = 0) :
    OwnEvent { slots := loop.slots.set i slot, nextId := loop.nextId + 1 } event' where
  distinct := Distinct.set h.distinct fun _ j _ hactj hidj => by
    have hlt := h.issued j hactj
    rw [hidj, hid] at hlt
    exact lt_irrefl _ hlt
  next_pos := h.next_pos.trans (Int.lt_succ _)
  issued := forall_get_set (Q := fun slot : Slot LoopCallback => slot.active = true → slot.id < loop.nextId + 1)
    (fun _ => hid ▸ Int.lt_succ _) fun j _ hactj => (h.issued j hactj).trans (Int.lt_succ _)
  event_lt := by
    rcases hevent with ⟨rfl, -⟩ | ⟨rfl, -⟩
    · exact h.event_lt.trans (Int.lt_succ _)
    · exact Int.lt_succ _
  own := forall_get_set
    (Q := fun slot : Slot LoopCallback => slot.active = true → slot.cb = some .pollLineReader →
      slot.id = event' ∧ 0 < event')
    (fun _ hcb => by
      rcases hevent with ⟨-, hne⟩ | ⟨rfl, -⟩
      · exact absurd hcb hne
      · exact ⟨hid, h.next_pos⟩)
    (fun j _ hactj hcbj => by
      obtain ⟨hidj, hpos⟩ := h.own j hactj hcbj
      rcases hevent with ⟨rfl, -⟩ | ⟨-, rfl⟩
      · exact ⟨hidj, hpos⟩
      · exact absurd hpos (lt_irrefl _))

/-- A registration of another component. -/
theorem add_other (h : OwnEvent loop event) {fill : Slot LoopCallback → Slot LoopCallback}
    (hfill : ∀ slot, (fill slot).cb ≠ some .pollLineReader) : OwnEvent (loop.add fill).2 event := by
  rcases loop.add_cases fill with ⟨i, -, heq⟩ | ⟨-, heq⟩
  · rw [heq]
    exact h.fresh rfl (.inl ⟨rfl, hfill _⟩)
  · rw [heq]
    exact h

/-- The registration of the client, when it holds none. -/
theorem register (h : OwnEvent loop 0) :
    OwnEvent (loop.onBytesReady .pollLineReader).2 (loop.onBytesReady .pollLineReader).1 := by
  unfold EventLoop.onBytesReady EventLoop.addPoll
  rcases loop.add_cases fun slot =>
    { slot with periodicPoll := true, cb := some LoopCallback.pollLineReader } with
    ⟨i, -, heq⟩ | ⟨-, heq⟩
  · rw [heq]
    exact h.fresh rfl (.inr ⟨rfl, rfl⟩)
  · rw [heq]
    exact h

theorem visit (h : OwnEvent loop event) (now : ℕ) (i : Fin maxCallbacks) :
    OwnEvent (loop.visit now i).2 event := by
  rcases loop.visit_cases now i with ⟨cb, -, hready, heq⟩ | ⟨-, heq⟩
  · rw [heq]
    obtain ⟨hid, hkeep, -⟩ := Slot.fire_spec now (loop.slots.get i)
    have hact := Slot.active_of_ready hready
    exact h.set fun hfire => ⟨hact, hid, (hkeep hfire).1⟩
  · rw [heq]
    exact h

end OwnEvent

/-! ## Bytes of a session -/

/-- The event does not end a session of the connection: another connection does, and so would a byte
read from elsewhere. -/
def ClientEvent.continues (conn : ConnId) : ClientEvent → Bool
  | connected _ => false
  | read conn' _ => conn' = conn
  | delivered _ => true

def ClientEvent.byte : ClientEvent → Option Byte
  | read _ byte => some byte
  | _ => none

def ClientEvent.line : ClientEvent → Option Text
  | delivered line => some line
  | _ => none

/-- The trace ends in a session of `conn`: since its `on_connect` no other connection has come, and
`bytes` have been read, all from `conn`. -/
def InSession (trace : List ClientEvent) (conn : ConnId) (bytes : Text) : Prop :=
  ∃ before since, trace = before ++ .connected conn :: since ∧
    since.all (ClientEvent.continues conn) = true ∧ since.filterMap ClientEvent.byte = bytes

section InSession

variable {trace : List ClientEvent} {conn : ConnId} {bytes : Text}

theorem inSession_connected (trace : List ClientEvent) (conn : ConnId) :
    InSession (trace ++ [.connected conn]) conn [] := ⟨trace, [], rfl, rfl, rfl⟩

theorem InSession.concat (h : InSession trace conn bytes) {e : ClientEvent}
    (he : e.continues conn = true) : InSession (trace ++ [e]) conn (bytes ++ e.byte.toList) := by
  obtain ⟨before, since, rfl, hall, rfl⟩ := h
  refine ⟨before, since ++ [e], by simp, ?_, ?_⟩
  · rw [List.all_append, hall, List.all_cons, he]
    rfl
  · rw [List.filterMap_append]
    cases e <;> rfl

theorem InSession.read (h : InSession trace conn bytes) (byte : Byte) :
    InSession (trace ++ [.read conn byte]) conn (bytes ++ [byte]) :=
  h.concat (decide_eq_true rfl)

theorem InSession.delivered (h : InSession trace conn bytes) (line : Text) :
    InSession (trace ++ [.delivered line]) conn bytes := by
  have hnext := h.concat (e := .delivered line) rfl
  rwa [show (ClientEvent.delivered line).byte.toList = [] from rfl, List.append_nil] at hnext

end InSession

/-- Every line delivered so far consists of consecutive bytes read in one session, the one in which it is
delivered. -/
def Unmixed (trace : List ClientEvent) : Prop :=
  ∀ before line after, trace = before ++ .delivered line :: after →
    ∃ conn bytes, InSession before conn bytes ∧ line <:+: bytes

theorem Unmixed.concat {trace : List ClientEvent} (h : Unmixed trace) {e : ClientEvent}
    (he : ∀ line, e = .delivered line → ∃ conn bytes, InSession trace conn bytes ∧ line <:+: bytes) :
    Unmixed (trace ++ [e]) := by
  intro before line after heq
  rcases Run.concat_eq_append_cons heq with ⟨hline, rfl⟩ | ⟨after', heq'⟩
  · exact he line hline.symm
  · exact h before line after' heq'

/-! ## The line reader -/

/-- A byte that is read makes the buffer longer, or empties it and delivers what it held. -/
theorem consume_spec {reader : LineProtocolReader} (hoptions : reader.options = {}) (size : ℕ)
    {bytes : Text} (hbuffer : reader.buffer <:+ bytes) (byte : Byte) :
    (∀ line ∈ (reader.consume size byte).1, line <:+: bytes) ∧
      (reader.consume size byte).2.options = {} ∧
      (reader.consume size byte).2.buffer <:+ bytes ++ [byte] := by
  unfold LineProtocolReader.consume
  split_ifs with hend hfull hdrop
  · refine ⟨fun line hline => ?_, hoptions, List.nil_suffix⟩
    unfold LineProtocolReader.emitLine at hline
    dsimp only at hline
    split_ifs at hline
    · rw [List.mem_singleton.mp hline]
      have hprefix : LineProtocolReader.stripped reader.options.stripCr reader.buffer <+:
          reader.buffer := by
        unfold LineProtocolReader.stripped
        split_ifs
        · exact List.dropLast_prefix _
        · exact List.prefix_refl _
      exact hprefix.isInfix.trans hbuffer.isInfix
    · exact absurd hline List.not_mem_nil
  · exact ⟨fun _ h => absurd h List.not_mem_nil, hoptions, List.nil_suffix⟩
  · rw [hoptions] at hdrop
    exact absurd rfl hdrop
  · refine ⟨fun _ h => absurd h List.not_mem_nil, hoptions, ?_⟩
    obtain ⟨front, hfront⟩ := hbuffer
    exact ⟨front, by rw [← hfront, List.append_assoc]⟩

/-- What is delivered is what `poll` of the line reader makes of the bytes that were read. -/
theorem pollReader_poll (net : Net W) (inlet : Inlet W) (conn : ConnId) (rounds : ℕ)
    (sys : ClientSystem W) :
    let (events, sys') := sys.pollReader net inlet conn rounds
    (events.filterMap ClientEvent.line, sys'.client.lineReader) =
      sys.client.lineReader.poll maxLineSize (events.filterMap ClientEvent.byte) := by
  induction rounds generalizing sys with
  | zero => rfl
  | succ rounds ih =>
    unfold ClientSystem.pollReader
    split_ifs with hreadable
    · rcases hread : inlet.read conn sys.wire.world with ⟨_ | byte, world⟩
      · rfl
      · have hlines : ∀ lines : List Text,
            (lines.map ClientEvent.delivered).filterMap ClientEvent.line = lines ∧
              (lines.map ClientEvent.delivered).filterMap ClientEvent.byte = [] := by
          intro lines
          induction lines with
          | nil => exact ⟨rfl, rfl⟩
          | cons line lines ih => exact ⟨congrArg (line :: ·) ih.1, ih.2⟩
        dsimp only
        generalize hresult : { sys.client.lineReader with
          stats.bytes := sys.client.lineReader.stats.bytes + 1 }.consume maxLineSize byte = result
        obtain ⟨lines, reader⟩ := result
        have hnext := ih { sys with wire.world := world, client.lineReader := reader }
        dsimp only at hnext ⊢
        rw [List.cons_append, List.filterMap_cons_none rfl,
          List.filterMap_cons_some (show (ClientEvent.read conn byte).byte = some byte from rfl),
          List.filterMap_append, List.filterMap_append, (hlines lines).1, (hlines lines).2,
          List.nil_append, LineProtocolReader.poll_cons, hresult]
        dsimp only
        rw [← hnext]
    · rfl

/-! ## The invariant -/

namespace Sessions

/-- The stream follows the connection, the registration of the client is the one it holds, and the bytes
of an open line are the last ones read in the session at hand. -/
structure Sound (t : Sessions W) : Prop where
  stream : t.sys.client.tcpStream = t.sys.client.connection
  event : OwnEvent t.sys.loop t.sys.client.lineEvent
  detached : t.sys.client.connection = none → t.sys.client.lineEvent = 0
  options : t.sys.client.lineReader.options = {}
  midline : ∀ conn, t.sys.client.connection = some conn →
    ∃ bytes, InSession t.trace conn bytes ∧ t.sys.client.lineReader.buffer <:+ bytes
  unmixed : Unmixed t.trace

theorem sound_start (world : W) : (start world).Sound where
  stream := rfl
  event := OwnEvent.start
  detached _ := rfl
  options := rfl
  midline _ h := nomatch h
  unmixed _ _ _ h := by simp [start] at h

/-- A change of the client that leaves its session as it is. -/
structure SameSession (sys sys' : ClientSystem W) : Prop where
  connection : sys'.client.connection = sys.client.connection
  tcpStream : sys'.client.tcpStream = sys.client.tcpStream
  lineReader : sys'.client.lineReader = sys.client.lineReader
  lineEvent : sys'.client.lineEvent = sys.client.lineEvent
  loop : sys'.loop = sys.loop

theorem SameSession.refl (sys : ClientSystem W) : SameSession sys sys := ⟨rfl, rfl, rfl, rfl, rfl⟩

theorem SameSession.trans {sys₁ sys₂ sys₃ : ClientSystem W} (h : SameSession sys₁ sys₂)
    (h' : SameSession sys₂ sys₃) : SameSession sys₁ sys₃ :=
  ⟨h'.connection.trans h.connection, h'.tcpStream.trans h.tcpStream,
    h'.lineReader.trans h.lineReader, h'.lineEvent.trans h.lineEvent, h'.loop.trans h.loop⟩

variable {sys sys' : ClientSystem W} {trace : List ClientEvent}

theorem Sound.same (h : Sound ⟨sys, trace⟩) (hsame : SameSession sys sys') : Sound ⟨sys', trace⟩ where
  stream := hsame.tcpStream.trans (h.stream.trans hsame.connection.symm)
  event := by
    show OwnEvent sys'.loop sys'.client.lineEvent
    rw [hsame.loop, hsame.lineEvent]
    exact h.event
  detached hc := hsame.lineEvent.trans (h.detached (hsame.connection.symm.trans hc))
  options := hsame.lineReader ▸ h.options
  midline conn hc := by
    show ∃ bytes, _ ∧ sys'.client.lineReader.buffer <:+ bytes
    rw [hsame.lineReader]
    exact h.midline conn (hsame.connection.symm.trans hc)
  unmixed := h.unmixed

theorem Sound.withLoop {t : Sessions W} (h : t.Sound) {loop : EventLoop LoopCallback}
    (hloop : OwnEvent loop t.sys.client.lineEvent) : (t.withLoop loop).Sound :=
  ⟨h.stream, hloop, h.detached, h.options, h.midline, h.unmixed⟩

/-! ### Calls -/

section Calls

variable (net : Net W) (sys)

theorem same_queueLine (line : Text) : SameSession sys (sys.queueLine line).2 := by
  unfold ClientSystem.queueLine
  dsimp only
  split_ifs <;> exact ⟨rfl, rfl, rfl, rfl, rfl⟩

theorem same_queueOrWrite (line : Text) : SameSession sys (sys.queueOrWrite net line).2 := by
  unfold ClientSystem.queueOrWrite
  split
  · exact same_queueLine sys line
  · have hwritten : ∀ wire, SameSession sys { sys with wire := wire } :=
      fun _ => ⟨rfl, rfl, rfl, rfl, rfl⟩
    dsimp only
    split_ifs
    · exact hwritten _
    · exact (hwritten _).trans (same_queueLine _ line)

theorem same_send (line : Option Text) : SameSession sys (sys.send net line) := by
  cases line with
  | none => exact .refl sys
  | some line => exact same_queueOrWrite sys net line

theorem same_flushPending : SameSession sys (sys.flushPending net) := by
  unfold ClientSystem.flushPending
  split <;> exact ⟨rfl, rfl, rfl, rfl, rfl⟩

theorem same_replayWatches : SameSession sys (sys.replayWatches net) := by
  unfold ClientSystem.replayWatches
  generalize sys.client.watches.toList = watches
  induction watches generalizing sys with
  | nil => exact .refl sys
  | cons watch watches ih =>
    rw [List.foldl_cons]
    refine SameSession.trans ?_ (ih _)
    split_ifs
    · exact same_send sys net _
    · exact .refl sys

end Calls

/-! ### Connections -/

/-- The client without its registration. -/
theorem Sound.dropLineEvent (h : Sound ⟨sys, trace⟩) :
    OwnEvent sys.dropLineEvent.loop 0 ∧ sys.dropLineEvent.client =
      { sys.client with lineEvent := 0 } := by
  have hown := h.event.cancel_own
  dsimp only at hown
  unfold ClientSystem.dropLineEvent
  split_ifs at hown ⊢ with hzero
  · exact ⟨hown, rfl⟩
  · refine ⟨hown, ?_⟩
    rw [← not_not.mp hzero]

theorem Sound.detach (h : Sound ⟨sys, trace⟩) : Sound ⟨sys.detached, trace⟩ where
  stream := rfl
  event := by
    obtain ⟨hown, hclient⟩ := h.dropLineEvent
    show OwnEvent sys.dropLineEvent.loop sys.dropLineEvent.client.lineEvent
    rw [hclient]
    exact hown
  detached _ := by
    show sys.dropLineEvent.client.lineEvent = 0
    rw [h.dropLineEvent.2]
  options := h.options
  midline _ hc := nomatch hc
  unmixed := h.unmixed

/-- `close` tells the connection, and is a detachment for the rest. -/
theorem Sound.close (net : Net W) (h : Sound ⟨sys, trace⟩) : Sound ⟨sys.close net, trace⟩ := by
  obtain ⟨hown, hclient⟩ := h.dropLineEvent
  unfold ClientSystem.close
  refine Sound.detach ⟨?_, ?_, ?_, ?_, ?_, h.unmixed⟩
  · show sys.dropLineEvent.client.tcpStream = sys.dropLineEvent.client.connection
    rw [hclient]
    exact h.stream
  · show OwnEvent sys.dropLineEvent.loop sys.dropLineEvent.client.lineEvent
    rw [hclient]
    exact hown
  · show sys.dropLineEvent.client.connection = none → sys.dropLineEvent.client.lineEvent = 0
    rw [hclient]
    exact fun _ => rfl
  · show sys.dropLineEvent.client.lineReader.options = {}
    rw [hclient]
    exact h.options
  · show ∀ conn, sys.dropLineEvent.client.connection = some conn → ∃ bytes, _ ∧
      sys.dropLineEvent.client.lineReader.buffer <:+ bytes
    rw [hclient]
    exact h.midline

/-- A new connection starts a session with an empty line, whatever came before. -/
theorem Sound.attach (h : Sound ⟨sys, trace⟩) (conn : ConnId) :
    Sound ⟨sys.attached conn, trace ++ [.connected conn]⟩ where
  stream := rfl
  event := h.event.cancel_own.register
  detached hc := nomatch hc
  options := h.options
  midline conn' hc := by
    rw [← Option.some.inj hc]
    exact ⟨[], inSession_connected trace conn, List.nil_suffix⟩
  unmixed := h.unmixed.concat fun _ heq => nomatch heq

/-! ### Data -/

variable (net : Net W) (inlet : Inlet W)

/-- A byte read from the connection that is held. -/
theorem Sound.readByte (h : Sound ⟨sys, trace⟩) {conn : ConnId}
    (hc : sys.client.connection = some conn) (byte : Byte) (world : W) :
    let result := { sys.client.lineReader with
      stats.bytes := sys.client.lineReader.stats.bytes + 1 }.consume maxLineSize byte
    Sound ⟨{ sys with wire.world := world, client.lineReader := result.2 },
      trace ++ .read conn byte :: result.1.map .delivered⟩ := by
  obtain ⟨bytes, hsession, hbuffer⟩ := h.midline conn hc
  have hcounted : { sys.client.lineReader with
    stats.bytes := sys.client.lineReader.stats.bytes + 1 }.options = {} := h.options
  have hspec := consume_spec hcounted maxLineSize hbuffer byte
  dsimp only
  generalize { sys.client.lineReader with
    stats.bytes := sys.client.lineReader.stats.bytes + 1 }.consume maxLineSize byte = result at hspec ⊢
  obtain ⟨lines, reader⟩ := result
  obtain ⟨hlines, hoptions, hnext⟩ := hspec
  dsimp only at hlines hoptions hnext ⊢
  have hread := hsession.read byte
  have hunmixed : Unmixed (trace ++ [.read conn byte]) := h.unmixed.concat fun _ heq => nomatch heq
  -- the lines are delivered within the session
  have hdelivered : ∀ (delivered : List Text), (∀ line ∈ delivered, line <:+: bytes) →
      InSession (trace ++ .read conn byte :: delivered.map .delivered) conn (bytes ++ [byte]) ∧
        Unmixed (trace ++ .read conn byte :: delivered.map .delivered) := by
    intro delivered
    induction delivered using List.reverseRecOn with
    | nil => exact fun _ => ⟨hread, hunmixed⟩
    | append_singleton delivered line ih =>
      intro hall
      obtain ⟨hin, hun⟩ := ih fun l hl => hall l (List.mem_append_left _ hl)
      have hsplit : trace ++ .read conn byte :: (delivered ++ [line]).map ClientEvent.delivered =
          (trace ++ .read conn byte :: delivered.map .delivered) ++ [.delivered line] := by simp
      rw [hsplit]
      refine ⟨hin.delivered line, hun.concat fun line' heq => ?_⟩
      rw [← ClientEvent.delivered.inj heq]
      refine ⟨conn, _, hin, ?_⟩
      exact (hall line (List.mem_append_right _ List.mem_cons_self)).trans
        (List.prefix_append bytes [byte]).isInfix
  obtain ⟨hin, hun⟩ := hdelivered lines hlines
  refine ⟨h.stream, h.event, h.detached, hoptions, fun conn' hc' => ?_, hun⟩
  rw [← Option.some.inj (hc.symm.trans hc')]
  exact ⟨_, hin, hnext⟩

theorem Sound.pollReader (rounds : ℕ) (h : Sound ⟨sys, trace⟩) {conn : ConnId}
    (hc : sys.client.connection = some conn) :
    (see ⟨sys, trace⟩ (sys.pollReader net inlet conn rounds)).Sound := by
  induction rounds generalizing sys trace with
  | zero =>
    show Sound ⟨sys, trace ++ []⟩
    rw [List.append_nil]
    exact h
  | succ rounds ih =>
    unfold ClientSystem.pollReader
    split_ifs with hreadable
    · rcases hread : inlet.read conn sys.wire.world with ⟨_ | byte, world⟩
      · show Sound ⟨_, trace ++ []⟩
        rw [List.append_nil]
        exact h.same ⟨rfl, rfl, rfl, rfl, rfl⟩
      · have hnext := ih (h.readByte hc byte world) hc
        unfold see at hnext ⊢
        rw [List.append_assoc] at hnext
        exact hnext
    · show Sound ⟨sys, trace ++ []⟩
      rw [List.append_nil]
      exact h

theorem Sound.pollLineReader (rounds : ℕ) (h : Sound ⟨sys, trace⟩) :
    (see ⟨sys, trace⟩ (sys.pollLineReader net inlet rounds)).Sound := by
  have hnothing : (see ⟨sys, trace⟩ ([], sys)).Sound := by
    show Sound ⟨sys, trace ++ []⟩
    rw [List.append_nil]
    exact h
  unfold ClientSystem.pollLineReader
  cases hs : sys.client.tcpStream with
  | none => exact hnothing
  | some conn =>
    dsimp only
    split_ifs
    · exact h.pollReader net inlet rounds (h.stream.symm.trans hs)
    · exact hnothing

/-! ## Runs -/

theorem Sound.perform (rounds : ℕ) {t : Sessions W} (h : t.Sound) (use : SystemUse W) (now : ℕ) :
    (t.perform net inlet rounds use now).Sound := by
  have hop : ∀ {sys' : ClientSystem W}, Sound ⟨sys', t.trace⟩ → (t.see ([], sys')).Sound := by
    intro sys' h'
    show Sound ⟨sys', t.trace ++ []⟩
    rw [List.append_nil]
    exact h'
  have hother : ∀ k, some (LoopCallback.other k) ≠ some .pollLineReader := fun _ heq => nomatch heq
  cases use with
  | op op =>
    cases op with
    | onConnect conn =>
      exact (h.attach conn).same ((same_flushPending _ net).trans (same_replayWatches _ net))
    | watch name periodSeconds =>
      refine hop (h.same (SameSession.trans ?_ (same_send _ net _)))
      unfold ClientSystem.rememberWatch
      dsimp only
      split_ifs <;> exact ⟨rfl, rfl, rfl, rfl, rfl⟩
    | unwatch name =>
      have hforget : SameSession t.sys (t.sys.forgetWatch name) := ⟨rfl, rfl, rfl, rfl, rfl⟩
      exact hop (h.same (hforget.trans (same_send _ net _)))
    | set name wireValue => exact hop (h.same (same_send _ net _))
    | setBool name value => exact hop (h.same (same_send _ net _))
    | setReal name value => exact hop (h.same (same_send _ net _))
    | setString name value => exact hop (h.same (same_send _ net _))
    | sendRaw line => exact hop (h.same (same_queueOrWrite _ net line))
    | popOutgoing =>
      refine hop (h.same ?_)
      show SameSession t.sys t.sys.popOutgoing.2
      unfold ClientSystem.popOutgoing
      dsimp only
      split <;> exact ⟨rfl, rfl, rfl, rfl, rfl⟩
    | onClose conn =>
      refine hop ?_
      show Sound ⟨t.sys.onClose conn, t.trace⟩
      unfold ClientSystem.onClose
      split_ifs
      · exact h.detach
      · exact h
    | onError errorCode =>
      refine hop (Sound.detach ?_)
      exact h.same ⟨rfl, rfl, rfl, rfl, rfl⟩
    | close => exact hop (h.close net)
    | environment f => exact hop (h.same ⟨rfl, rfl, rfl, rfl, rfl⟩)
  | onData conn => exact h.pollLineReader net inlet rounds
  | onDelayUs delayUs k => exact h.withLoop (h.event.add_other fun _ => hother k)
  | onRepeatUs periodUs k => exact h.withLoop (h.event.add_other fun _ => hother k)
  | onBytesReady k => exact h.withLoop (h.event.add_other fun _ => hother k)
  | cancel handle => exact h.withLoop (h.event.cancel handle)

theorem Sound.visit (rounds : ℕ) {t : Sessions W} (h : t.Sound) (now : ℕ) (i : Fin maxCallbacks) :
    (t.visit net inlet rounds now i).2.Sound := by
  have hloop := h.withLoop (h.event.visit now i)
  unfold Sessions.visit
  rcases hv : t.sys.loop.visit now i with ⟨_ | ⟨handle, _ | k⟩, loop⟩
  all_goals
    rw [hv] at hloop
    dsimp only at hloop ⊢
  · exact hloop
  · exact hloop.pollLineReader net inlet rounds
  · exact hloop

/-- The slot holds a registration of the client. -/
def Registered (t : Sessions W) (i : Fin maxCallbacks) : Prop :=
  (t.sys.loop.slots.get i).active = true ∧ (t.sys.loop.slots.get i).cb = some .pollLineReader

end Sessions

/-- **Sessions.** In every run of the client on a loop, with connections that come, deliver, close and fail
in any order: the stream is attached to the connection held; the loop holds at most one registration of
the client, and none without a connection; and each line that is delivered consists of consecutive bytes
read from one connection since its `on_connect`. -/
theorem sessions_sound (net : Net W) (inlet : Inlet W) (rounds : ℕ) (world : W)
    (moves : List (Reentrant.Move (SystemUse W))) :
    ∀ s ∈ Run.states (Reentrant.State.step (Sessions.program net inlet rounds))
        ⟨Sessions.start world, 0, []⟩ moves,
      s.sys.sys.client.tcpStream = s.sys.sys.client.connection ∧
        ((∀ i j, s.sys.Registered i → s.sys.Registered j → i = j) ∧
          (s.sys.sys.client.connection = none → ∀ i, ¬ s.sys.Registered i)) ∧
        ∀ before line after, s.sys.trace = before ++ .delivered line :: after →
          ∃ conn bytes, InSession before conn bytes ∧ line <:+: bytes := by
  intro s hs
  have h := Reentrant.states_invariant (p := Sessions.program net inlet rounds)
    (I := Sessions.Sound) (fun now i t ht => ht.visit net inlet rounds now i)
    (fun use now t ht => ht.perform net inlet rounds use now) (s := ⟨Sessions.start world, 0, []⟩)
    (Sessions.sound_start world) moves s hs
  refine ⟨h.stream, ⟨fun i j hi hj => ?_, fun hnone i hi => ?_⟩, h.unmixed⟩
  · refine h.event.distinct i j hi.1 hj.1 ?_
    exact (h.event.own i hi.1 hi.2).1.trans (h.event.own j hj.1 hj.2).1.symm
  · have hpos := (h.event.own i hi.1 hi.2).2
    rw [h.detached hnone] at hpos
    exact absurd hpos (lt_irrefl _)

/-- Connections that take all lines, and a shared input that any of them hands on. -/
def shared : Net Text × Inlet Text where
  fst :=
    { valid _ _ := true
      write _ bytes w := (if bytes.length < 2 ^ 31 then bytes.length else -1, w)
      close _ w := w
      write_int _ bytes _ := taken_int bytes }
  snd :=
    { inputSize _ w := w.length
      read _ w := (w.head?, w.tail) }

/-- A line half read from one connection is not continued from the next. -/
theorem sessions_sound_reconnect :
    let moves : List (Reentrant.Move (SystemUse Text)) :=
      [.perform (.op (.onConnect 1)) 0, .perform (.onData 1) 0, .perform (.op (.onConnect 2)) 0,
        .runOnce 5, .perform (.op (.onClose 1)) 0]
    let s := moves.foldl (Reentrant.State.step (Sessions.program shared.1 shared.2 4))
      ⟨Sessions.start (lit "ap.x=1\n"), 0, []⟩
    s.sys.sys.client.tcpStream = some 2 ∧
      ∃ conn bytes, InSession [.connected 1, .read 1 (chr 'a'), .read 1 (chr 'p'), .read 1 (chr '.'),
          .read 1 (chr 'x'), .connected 2, .read 2 (chr '='), .read 2 (chr '1'),
          .read 2 (chr '\n')] conn bytes ∧ lit "=1" <:+: bytes := by
  intro moves s
  have htrace : s.sys.trace = [.connected 1, .read 1 (chr 'a'), .read 1 (chr 'p'), .read 1 (chr '.'),
      .read 1 (chr 'x'), .connected 2, .read 2 (chr '='), .read 2 (chr '1'),
      .read 2 (chr '\n')] ++ .delivered (lit "=1") :: [] := by decide +kernel
  have h := sessions_sound shared.1 shared.2 4 (lit "ap.x=1\n") moves s (Run.foldl_mem_states _ _ moves)
  have hconn : s.sys.sys.client.connection = some 2 := by decide +kernel
  exact ⟨h.1.trans hconn, h.2.2 _ _ _ htrace⟩

end Pypilot
