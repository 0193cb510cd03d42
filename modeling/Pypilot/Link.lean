import Pypilot.Coherence
import Pypilot.Mirror
import Pypilot.Reconnect
import Pypilot.Sessions

/-!
# Client and server on a connection

A client and a server with what is on its way between them: the lines that the client's connection has
taken and the server has not handled yet, and the bytes that the server has written and the client has not
read yet. A connection takes every line whole, and loses what is on its way when it ends. Calls of the
client, polls of its line reader, lines and polls of the server, everything else that uses the server, and
connections that come and go interleave in any order. Throughout, the client has what some first part of
the lines written to it says (`link_mirrors`).
-/

namespace Pypilot

open Text Server AsyncEventLoop Client

/-! ## The link -/

/-- A client, whose world is the bytes on their way to it, its registry `copy`, and a program with a
server. Seen of them: the emissions that were written to the client and not lost, how many of their lines
it has handled, and which fields it wants to watch. -/
structure Link where
  client : ClientSystem Text
  copy : Store
  program : Observed
  up : List Text := []
  log : List (Store × Emission) := []
  heard : ℕ := 0
  wants : FieldId → Option Real := fun _ => none

inductive LinkOp
  | call (call : FieldCall)
  | receive (rounds : ℕ)
  | connect (conn : ConnId)
  | closed
  | failed (errorCode : ℤ)
  | close
  | handle (nowUs : ℕ)
  | poll (nowUs : ℕ)
  | elsewhere (op : SystemOp)

/-- The fields that are wanted after a call, with their periods. -/
def FieldCall.wants (wants : FieldId → Option Real) : FieldCall → FieldId → Option Real
  | .watch id periodSeconds => Function.update wants id (some periodSeconds)
  | .unwatch id => Function.update wants id none
  | _ => wants

/-- The texts of emissions. -/
def emissionTexts (m : Machine) (entries : List (Store × Emission)) : Text :=
  (entries.map fun p => emissionText m p.1 p.2).flatten

namespace Link

/-- A new client whose registry is `c₀`, and a new server over `st` with an autopilot. -/
def start (m : Machine) (st : PypilotState) (ap : Autopilot) (c₀ : Store) : Link :=
  { client := { client := {}, wire := { world := [] } }, copy := c₀,
    program := Observed.start m st ap }

variable (m : Machine) (l : Link)

def connected : Bool := l.client.client.connection.isSome

/-- A call of the server whose output goes to the client. -/
def serve (call : ServerCall) : Link :=
  let l' := { l with program := l.program.call m call }
  if l.connected then
    { l' with
      client.wire.world := l.client.wire.world ++ call.output m l.program.store
      log := l.log ++ (call.emissions m l.program.store).map (call.written l.program.store, ·) }
  else l'

/-- What is on its way is lost. -/
def cut (sys : ClientSystem Text) : Link :=
  { l with client := { sys with wire.world := [] }, up := [], log := l.log.take l.heard }

/-- The call of the server that an operation makes for this client. -/
def serverCall : LinkOp → Option ServerCall
  | .handle nowUs => l.up.head?.map fun text => .line text nowUs
  | .poll nowUs => some (.poll id nowUs)
  | _ => none

def step : LinkOp → Link
  | .call call =>
    { l with
      client := call.op.run shared.1 l.client
      up := l.up ++ delivered shared.1 l.client call.op
      wants := call.wants l.wants }
  | .receive rounds =>
    let (events, sys) := l.client.pollLineReader shared.1 shared.2 rounds
    let lines := events.filterMap ClientEvent.line
    { l with
      client := sys
      copy := lines.foldl (fun c line => Client.handleLine m line c) l.copy
      heard := l.heard + lines.length }
  | .connect conn =>
    let up := delivered shared.1 l.client (.onConnect conn)
    { l.cut (l.client.onConnect shared.1 conn) with
      up := up
      program := { l.program with shown := fun _ => none, stale := fun _ => false } }
  | .closed =>
    match l.client.client.connection with
    | some conn => l.cut (l.client.onClose conn)
    | none => l
  | .failed errorCode => l.cut (l.client.onError errorCode)
  | .close => l.cut (l.client.close shared.1)
  | .handle nowUs =>
    match l.up with
    | text :: up => { l with up := up }.serve m (.line text nowUs)
    | [] => l
  | .poll nowUs => l.serve m (.poll id nowUs)
  | .elsewhere op => { l with program := l.program.step m op }

/-- What the operation writes to the client gets through. -/
def Transmits (op : LinkOp) : Prop :=
  l.connected = true → ∀ call ∈ l.serverCall op, ∀ e ∈ call.emissions m l.program.store,
    e.Transmissible m (call.written l.program.store)

instance (op : LinkOp) : Decidable (l.Transmits m op) := inferInstanceAs (Decidable (_ → ∀ _ ∈ _, _))

end Link

/-! ## The stream of emissions -/

section Stream

variable {m : Machine} {entries : List (Store × Emission)}

theorem emissionTexts_append (entries entries' : List (Store × Emission)) :
    emissionTexts m (entries ++ entries') = emissionTexts m entries ++ emissionTexts m entries' := by
  unfold emissionTexts
  rw [List.map_append, List.flatten_append]

/-- An emission that can be written: its store is that of a server, and the line gets through. -/
structure Sendable (m : Machine) (p : Store × Emission) : Prop where
  attached : p.1.values.attached = true
  port : p.1.state.server.port < 2 ^ 16
  known : p.2.Known
  transmissible : p.2.Transmissible m p.1

/-- The client after the lines of emissions. -/
def heardOf (m : Machine) (entries : List (Store × Emission)) (c : Store) : Store :=
  entries.foldl (fun c p => applied m p.1 p.2 c) c

/-- Emissions that get through are lines, and the first of the lines do what the first of the emissions
do. -/
theorem exists_lines (h : ∀ p ∈ entries, Sendable m p) : ∃ lines : List Text,
    (lines.map fun line => line ++ [chr '\n']) = (entries.map fun p => emissionText m p.1 p.2) ∧
      (∀ line ∈ lines, chr '\n' ∉ line) ∧ ∀ k c,
        (((lines.take k).map fun line => LineProtocolReader.stripped true
          (LineProtocolReader.kept maxLineSize line)).foldl
            (fun c line => Client.handleLine m line c) c) = heardOf m (entries.take k) c := by
  induction entries with
  | nil => exact ⟨[], rfl, by simp, fun k c => by simp [heardOf]⟩
  | cons p entries ih =>
    obtain ⟨hp, hentries⟩ := List.forall_mem_cons.mp h
    obtain ⟨lines, htexts, hnl, hfold⟩ := ih hentries
    obtain ⟨line, hline, hfree, hhandle⟩ :=
      emission_delivered hp.attached hp.known hp.transmissible
    refine ⟨line :: lines, ?_, List.forall_mem_cons.mpr ⟨hfree, hnl⟩, fun k c => ?_⟩
    · rw [List.map_cons, List.map_cons, htexts, hline]
    · cases k with
      | zero => simp [heardOf]
      | succ k =>
        rw [List.take_succ_cons, List.take_succ_cons, List.map_cons, List.foldl_cons, hhandle,
          hfold]
        rfl

/-- **More lines.** -/
theorem Mirrors.append {c₀ c : Store} {log : List (Store × Emission)} (h : Mirrors m c₀ log c)
    (hentries : ∀ p ∈ entries, Sendable m p) :
    Mirrors m c₀ (log ++ entries) (heardOf m entries c) := by
  induction entries generalizing log c with
  | nil =>
    rw [List.append_nil]
    exact h
  | cons p entries ih =>
    obtain ⟨hp, hrest⟩ := List.forall_mem_cons.mp hentries
    rw [List.append_cons]
    exact ih (h.concat hp.attached hp.transmissible) hrest

end Stream

/-! ## The line reader on the link -/

/-- A poll reads as many bytes as are there, up to the number of its rounds. -/
theorem pollReader_shared (conn : ConnId) (rounds : ℕ) (sys : ClientSystem Text) :
    let (events, sys') := sys.pollReader shared.1 shared.2 conn rounds
    events.filterMap ClientEvent.byte = sys.wire.world.take rounds ∧
      sys'.wire.world = sys.wire.world.drop rounds ∧
      sys'.client.connection = sys.client.connection ∧
      sys'.client.tcpStream = sys.client.tcpStream ∧
      sys'.client.watches = sys.client.watches ∧ sys'.client.pending = sys.client.pending ∧
      sys'.client.lineReader.options = sys.client.lineReader.options ∧
      sys'.client.lineReader.callback = sys.client.lineReader.callback := by
  induction rounds generalizing sys with
  | zero => exact ⟨rfl, rfl, rfl, rfl, rfl, rfl, rfl, rfl⟩
  | succ rounds ih =>
    have hlines : ∀ lines : List Text,
        (lines.map ClientEvent.delivered).filterMap ClientEvent.byte = [] := by
      intro lines
      induction lines with
      | nil => rfl
      | cons line lines ih => exact ih
    unfold ClientSystem.pollReader
    cases hworld : sys.wire.world with
    | nil =>
      have hreadable : ClientSystem.readable shared.1 shared.2 conn [] = false := rfl
      rw [hreadable]
      exact ⟨rfl, hworld, rfl, rfl, rfl, rfl, rfl, rfl⟩
    | cons byte world =>
      have hreadable : ClientSystem.readable shared.1 shared.2 conn (byte :: world) = true := rfl
      have hread : shared.2.read conn (byte :: world) = (some byte, world) := rfl
      rw [hreadable, if_pos rfl, hread]
      dsimp only
      have hsame := LineProtocolReader.consume_settings maxLineSize { sys.client.lineReader with
        stats.bytes := sys.client.lineReader.stats.bytes + 1 } byte
      generalize { sys.client.lineReader with
        stats.bytes := sys.client.lineReader.stats.bytes + 1 }.consume maxLineSize byte = result
        at hsame ⊢
      obtain ⟨lines, reader⟩ := result
      obtain ⟨hbytes, hworld', hconnection, hstream, hwatches, hpending, hoptions, hcallback⟩ :=
        ih { sys with wire.world := world, client.lineReader := reader }
      refine ⟨?_, hworld', hconnection, hstream, hwatches, hpending, hoptions.trans hsame.1,
        hcallback.trans hsame.2⟩
      rw [List.cons_append, List.filterMap_cons_some (show (ClientEvent.read conn byte).byte = _
        from rfl), List.filterMap_append, hlines, List.nil_append, hbytes]
      rfl

/-! ## The server of the link -/

/-- The registry is attached, and the port is one. -/
structure Serving (s : Store) : Prop where
  attached : s.values.attached = true
  port : s.state.server.port < 2 ^ 16

namespace Serving

variable {m : Machine} {s : Store}

theorem create (st : PypilotState) : Serving (create m st {}) := ⟨rfl, create_port_lt m st {}⟩

theorem line (h : Serving s) (text : Text) (nowUs : ℕ) :
    Serving (ServerCall.step m s (.line text nowUs)) where
  attached := (ServerCall.step_attached m s (.line text nowUs)).trans h.attached
  port := by
    have hadopts := ControlCall.step_adopts m StringValueWriter (s, []) (.line text nowUs)
    exact lt_of_eq_of_lt (congrArg (fun st : PypilotState => st.server.port) hadopts) h.port

theorem poll (h : Serving s) (nowUs : ℕ) : Serving (ServerCall.step m s (.poll id nowUs)) := by
  rw [Observed.poll_step]
  exact ⟨h.attached, h.port⟩

theorem overwrite (h : Serving s) {st : PypilotState} (hst : LeavesSettings s.state st) :
    Serving { s with state := st } := ⟨h.attached, by rw [hst.server]; exact h.port⟩

theorem step {o : Observed} (h : Serving o.store) (op : SystemOp) : Serving (o.step m op).store := by
  cases op with
  | handleLine text nowUs => exact h.line text nowUs
  | poll nowUs => exact h.poll nowUs
  | iterate fuel imuUs rudderUs =>
    unfold Observed.step
    dsimp only
    cases hit : Autopilot.iteration m fuel imuUs rudderUs o.ap o.store.state with
    | none => exact h
    | some p => exact h.overwrite (leavesSettings_iteration m hit)
  | feedDriverBytes bytes nowUs =>
    exact h.overwrite (leavesSettings_feedDriverBytes o.ap.servo o.store.state bytes nowUs)
  | feedLine text source nowUs =>
    exact h.overwrite (leavesSettings_feedLine m text source nowUs o.store.state)

end Serving

namespace Link

/-! ## The invariant -/

/-- The client has what the lines that it has handled say; what it has read of the next line and what is
on its way are the lines that it has not handled. -/
structure Sound (m : Machine) (c₀ : Store) (l : Link) : Prop where
  mirrors : Mirrors m c₀ (l.log.take l.heard) l.copy
  heard_le : l.heard ≤ l.log.length
  sendable : ∀ p ∈ l.log, Sendable m p
  serving : Serving l.program.store
  stream : l.client.client.tcpStream = l.client.client.connection
  options : l.client.client.lineReader.options = {}
  callback : l.client.client.lineReader.callback = true
  detached : l.connected = false → l.client.wire.world = [] ∧ l.log.take l.heard = l.log
  midway : l.connected = true → ∃ part, chr '\n' ∉ part ∧
    part ++ l.client.wire.world = emissionTexts m (l.log.drop l.heard) ∧
    LineProtocolReader.Midway maxLineSize (chr '\n') true part l.client.client.lineReader

variable {m : Machine} {c₀ : Store} {l : Link}

theorem sound_start (st : PypilotState) (ap : Autopilot) (hc : c₀.values.attached = true) :
    (start m st ap c₀).Sound m c₀ where
  mirrors := Mirrors.start m hc
  heard_le := le_rfl
  sendable := fun _ h => absurd h List.not_mem_nil
  serving := .create st
  stream := rfl
  options := rfl
  callback := rfl
  detached _ := ⟨rfl, rfl⟩
  midway h := nomatch h

/-- The client changes nothing of its session. -/
theorem Sound.client (h : l.Sound m c₀) {sys : ClientSystem Text}
    (hsame : Sessions.SameSession l.client sys) (hworld : sys.wire.world = l.client.wire.world)
    (up : List Text) (wants : FieldId → Option Real) :
    Sound m c₀ { l with client := sys, up := up, wants := wants } := by
  have hconnected : connected { l with client := sys, up := up, wants := wants } = l.connected :=
    congrArg Option.isSome hsame.connection
  refine ⟨h.mirrors, h.heard_le, h.sendable, h.serving,
    hsame.tcpStream.trans (h.stream.trans hsame.connection.symm), hsame.lineReader ▸ h.options,
    hsame.lineReader ▸ h.callback, fun hnot => ?_, fun hconn => ?_⟩
  · obtain ⟨hempty, hall⟩ := h.detached (hconnected ▸ hnot)
    exact ⟨hworld.trans hempty, hall⟩
  · dsimp only
    rw [hworld, hsame.lineReader]
    exact h.midway (hconnected ▸ hconn)

/-- A connection is lost, or a new one comes: what the client has not handled is lost. -/
theorem Sound.cut (h : l.Sound m c₀) (sys : ClientSystem Text)
    (hstream : sys.client.tcpStream = sys.client.connection)
    (hreader : sys.client.lineReader = l.client.client.lineReader.reset) (up : List Text)
    {program : Observed} (hserving : Serving program.store) :
    Sound m c₀ { l.cut sys with up := up, program := program } := by
  have htake : (l.log.take l.heard).length = l.heard := by
    rw [List.length_take]
    exact min_eq_left h.heard_le
  have hall : (l.log.take l.heard).take l.heard = l.log.take l.heard := by
    rw [List.take_take, min_self]
  refine ⟨?_, htake.ge, fun p hp => h.sendable p (List.mem_of_mem_take hp), hserving, hstream,
    ?_, ?_, fun _ => ⟨rfl, hall⟩, fun _ => ⟨[], List.not_mem_nil, ?_, ?_⟩⟩
  · show Mirrors m c₀ ((l.log.take l.heard).take l.heard) l.copy
    rw [hall]
    exact h.mirrors
  · exact (congrArg LineProtocolReader.options hreader).trans h.options
  · exact (congrArg LineProtocolReader.callback hreader).trans h.callback
  · show [] ++ [] = emissionTexts m ((l.log.take l.heard).drop l.heard)
    rw [List.drop_eq_nil_of_le htake.le]
    rfl
  · show LineProtocolReader.Midway _ _ _ _ sys.client.lineReader
    rw [hreader]
    exact ⟨h.options, h.callback, (LineProtocolReader.kept_nil _).symm⟩

/-! ## Steps -/

/-- The client's line reader reads some of the bytes. -/
theorem Sound.receive (h : l.Sound m c₀) (rounds : ℕ) : (l.step m (.receive rounds)).Sound m c₀ := by
  unfold step ClientSystem.pollLineReader
  dsimp only
  cases hconn : l.client.client.connection with
  | none =>
    rw [h.stream, hconn]
    exact h
  | some conn =>
    rw [h.stream, hconn]
    dsimp only
    have hconnected : l.connected = true := congrArg Option.isSome hconn
    by_cases hreadable : ClientSystem.readable shared.1 shared.2 conn l.client.wire.world = true
    · rw [if_pos hreadable]
      have hread := pollReader_shared conn rounds l.client
      have hpoll := pollReader_poll shared.1 shared.2 conn rounds l.client
      generalize l.client.pollReader shared.1 shared.2 conn rounds = result at hread hpoll ⊢
      obtain ⟨events, sys⟩ := result
      obtain ⟨hbytes, hworld, hconnection, hstream, -⟩ := hread
      dsimp only at hpoll ⊢
      obtain ⟨part, hpart, hbytesLeft, hmidway⟩ := h.midway hconnected
      have hrest : ∀ p ∈ l.log.drop l.heard, Sendable m p := fun p hp =>
        h.sendable p (List.mem_of_mem_drop hp)
      obtain ⟨lines, htexts, hnl, hfold⟩ := exists_lines hrest
      have hlen : lines.length = (l.log.drop l.heard).length := by
        simpa using congrArg List.length htexts
      have hjoined : ∀ k, Lines.joined (chr '\n') (lines.drop k) =
          emissionTexts m ((l.log.drop l.heard).drop k) := by
        intro k
        unfold Lines.joined emissionTexts
        rw [List.map_drop, htexts, ← List.map_drop]
      -- the bytes that are read end the first `k` of the lines
      have hall := hjoined 0
      rw [List.drop_zero, List.drop_zero] at hall
      rw [← hall, ← List.take_append_drop rounds l.client.wire.world] at hbytesLeft
      obtain ⟨k, hk, hcomplete, hopen, hleft⟩ := Lines.complete_of_joined hnl hpart hbytesLeft
      rw [hbytes] at hpoll
      have hlines := LineProtocolReader.poll_lines hmidway (l.client.wire.world.take rounds)
      have hreader := LineProtocolReader.poll_midway hmidway (l.client.wire.world.take rounds)
      rw [← hpoll] at hlines hreader
      rw [hcomplete] at hlines
      dsimp only at hlines hreader
      have hcount : (events.filterMap ClientEvent.line).length = k := by
        rw [hlines, List.length_map, List.length_take, min_eq_left hk]
      have hdrop : k ≤ (l.log.drop l.heard).length := hk.trans_eq hlen
      have hmirrors := h.mirrors.append fun p hp => hrest p (List.mem_of_mem_take (i := k) hp)
      rw [← List.take_add, ← hfold, ← hlines] at hmirrors
      rw [hcount]
      refine ⟨hmirrors, ?_, h.sendable, h.serving, hstream.trans (h.stream.trans hconnection.symm),
        hreader.options, hreader.callback, fun hnot => ?_, fun _ =>
        ⟨_, hopen, ?_, hreader⟩⟩
      · rw [List.length_drop] at hdrop
        have hle := h.heard_le
        dsimp only
        omega
      · have hsome : sys.client.connection.isSome = true := by rw [hconnection]; exact hconnected
        exact absurd (hsome.symm.trans hnot) (Bool.false_ne_true ·.symm)
      · show _ ++ sys.wire.world = emissionTexts m (l.log.drop (l.heard + k))
        rw [hworld, hleft, hjoined, List.drop_drop]
    · rw [if_neg hreadable]
      exact h

/-- The server writes to the client, or it changes without it. -/
theorem Sound.serve (h : l.Sound m c₀) {call : ServerCall}
    (hserving : Serving (call.step m l.program.store)) (hwritten : Serving (call.written l.program.store))
    (hsends : l.connected = true → ∀ e ∈ call.emissions m l.program.store,
      e.Transmissible m (call.written l.program.store)) : (l.serve m call).Sound m c₀ := by
  unfold Link.serve
  by_cases hconn : l.connected = true
  · rw [if_pos hconn]
    have hnew : ∀ p ∈ (call.emissions m l.program.store).map (call.written l.program.store, ·),
        Sendable m p := by
      intro p hp
      obtain ⟨e, he, rfl⟩ := List.mem_map.mp hp
      exact ⟨hwritten.attached, hwritten.port, call.emissions_known m l.program.store e he,
        hsends hconn e he⟩
    refine ⟨?_, ?_, ?_, hserving, h.stream, h.options, h.callback, fun hnot => ?_, fun _ => ?_⟩
    · dsimp only
      rw [List.take_append_of_le_length h.heard_le]
      exact h.mirrors
    · dsimp only
      rw [List.length_append]
      exact h.heard_le.trans (Nat.le_add_right _ _)
    · intro p hp
      rcases List.mem_append.mp hp with hp | hp
      · exact h.sendable p hp
      · exact hnew p hp
    · exact absurd (hconn.symm.trans hnot) (Bool.false_ne_true ·.symm)
    · obtain ⟨part, hpart, hbytes, hmidway⟩ := h.midway hconn
      refine ⟨part, hpart, ?_, hmidway⟩
      dsimp only
      rw [List.drop_append_of_le_length h.heard_le, emissionTexts_append, ← hbytes,
        ← List.append_assoc, call.output_eq]
      unfold emissionTexts
      rw [List.map_map]
      rfl
  · rw [if_neg hconn]
    exact ⟨h.mirrors, h.heard_le, h.sendable, hserving, h.stream, h.options, h.callback, h.detached,
      h.midway⟩

/-- What the client sends leaves the bytes on their way to it alone. -/
theorem send_world (sys : ClientSystem Text) (line : Option Text) :
    (sys.send shared.1 line).wire.world = sys.wire.world := by
  have hqueue : ∀ (sys : ClientSystem Text) (line : Text),
      (sys.queueLine line).2.wire.world = sys.wire.world := by
    intro sys line
    unfold ClientSystem.queueLine
    dsimp only
    split_ifs <;> rfl
  cases line with
  | none => rfl
  | some line =>
    show (sys.queueOrWrite shared.1 line).2.wire.world = _
    unfold ClientSystem.queueOrWrite
    split
    · exact hqueue sys line
    · dsimp only
      split_ifs
      · rfl
      · exact hqueue _ line

/-- A call hands on its line, and else it changes at most the watches. -/
theorem call_eq_send (sys : ClientSystem Text) (call : FieldCall) : ∃ sys' : ClientSystem Text,
    call.op.run shared.1 sys = sys'.send shared.1 call.line ∧ sys'.wire = sys.wire ∧
      sys'.client.pending = sys.client.pending ∧ Sessions.SameSession sys sys' := by
  cases call with
  | watch id periodSeconds =>
    refine ⟨sys.rememberWatch id.entry.name periodSeconds, rfl,
      ClientSystem.rememberWatch_wire sys _ periodSeconds,
      ClientSystem.rememberWatch_pending sys _ periodSeconds, ?_⟩
    unfold ClientSystem.rememberWatch
    dsimp only
    split_ifs <;> exact ⟨rfl, rfl, rfl, rfl, rfl⟩
  | unwatch id => exact ⟨sys.forgetWatch id.entry.name, rfl, rfl, rfl, rfl, rfl, rfl, rfl, rfl⟩
  | set id wireValue => exact ⟨sys, rfl, rfl, rfl, .refl sys⟩
  | setBool id value => exact ⟨sys, rfl, rfl, rfl, .refl sys⟩
  | setReal id value => exact ⟨sys, rfl, rfl, rfl, .refl sys⟩
  | setString id value => exact ⟨sys, rfl, rfl, rfl, .refl sys⟩

theorem onConnect_session (sys : ClientSystem Text) (conn : ConnId) :
    Sessions.SameSession (sys.attached conn) (sys.onConnect shared.1 conn) :=
  (Sessions.same_flushPending (sys.attached conn) shared.1).trans
    (Sessions.same_replayWatches _ shared.1)

theorem close_reader (sys : ClientSystem Text) :
    (sys.close shared.1).client.lineReader = sys.client.lineReader.reset := by
  show sys.dropLineEvent.client.lineReader.reset = _
  unfold ClientSystem.dropLineEvent
  split_ifs <;> rfl

/-- **Steps.** An operation whose output gets through keeps the link sound. -/
theorem Sound.step (h : l.Sound m c₀) {op : LinkOp} (hsends : l.Transmits m op) :
    (l.step m op).Sound m c₀ := by
  cases op with
  | call call =>
    obtain ⟨sys, hrun, hwire, -, hsame⟩ := call_eq_send l.client call
    unfold Link.step
    dsimp only
    rw [hrun]
    refine h.client (hsame.trans (Sessions.same_send sys shared.1 _)) ?_ _ _
    rw [send_world, hwire]
  | receive rounds => exact h.receive rounds
  | connect conn =>
    have hsame := onConnect_session l.client conn
    refine h.cut _ ?_ hsame.lineReader _ h.serving
    exact hsame.tcpStream.trans hsame.connection.symm
  | closed =>
    unfold Link.step
    dsimp only
    cases hconn : l.client.client.connection with
    | none => exact h
    | some conn =>
      have hclosed : l.client.onClose conn = l.client.detached := if_pos hconn
      dsimp only
      rw [hclosed]
      exact h.cut l.client.detached rfl rfl [] h.serving
  | failed errorCode =>
    exact h.cut (l.client.onError errorCode) rfl rfl [] h.serving
  | close => exact h.cut (l.client.close shared.1) rfl (close_reader l.client) [] h.serving
  | handle nowUs =>
    unfold Link.step
    dsimp only
    cases hup : l.up with
    | nil => exact h
    | cons text up =>
      have hl := h.client (.refl l.client) rfl up l.wants
      refine hl.serve (h.serving.line text nowUs) h.serving fun hconn => ?_
      refine hsends hconn _ ?_
      show _ ∈ l.up.head?.map _
      rw [hup]
      rfl
  | poll nowUs => exact h.serve (h.serving.poll nowUs) h.serving fun hconn => hsends hconn _ rfl
  | elsewhere op =>
    exact ⟨h.mirrors, h.heard_le, h.sendable, h.serving.step op, h.stream, h.options, h.callback,
      h.detached, h.midway⟩

theorem states_sound (st : PypilotState) (ap : Autopilot) (hc : c₀.values.attached = true)
    {ops : List LinkOp}
    (hsends : ∀ p ∈ Run.steps (Link.step m) (start m st ap c₀) ops, p.1.Transmits m p.2) :
    ∀ l ∈ Run.states (Link.step m) (start m st ap c₀) ops, l.Sound m c₀ :=
  Run.states_invariant (I := Sound m c₀) (C := Transmits m) (fun _ _ h hsends => h.step hsends)
    (sound_start st ap hc) hsends

end Link

/-- When nothing is on its way, the client has handled all lines. -/
theorem Link.Sound.heard_all {m : Machine} {c₀ : Store} {l : Link} (h : l.Sound m c₀)
    (hempty : l.client.wire.world = []) : l.log.take l.heard = l.log := by
  by_cases hconn : l.connected = true
  · obtain ⟨part, hpart, hbytes, -⟩ := h.midway hconn
    obtain ⟨lines, htexts, -⟩ :=
      exists_lines fun p hp => h.sendable p (List.mem_of_mem_drop (i := l.heard) hp)
    have hjoined : part = Lines.joined (chr '\n') lines := by
      rw [hempty, List.append_nil] at hbytes
      rw [hbytes]
      unfold Lines.joined emissionTexts
      rw [htexts]
    have hnil : lines = [] := Lines.eq_nil_of_joined (hjoined ▸ hpart)
    rw [hnil] at htexts
    have hdrop : l.log.drop l.heard = [] := List.map_eq_nil_iff.mp htexts.symm
    rw [List.take_of_length_le (List.drop_eq_nil_iff.mp hdrop)]
  · exact (h.detached (by simpa using hconn)).2

theorem mem_of_lastShown {log : List (Store × Emission)} {id : FieldId} {s : Store}
    (h : lastShown log id = some s) : (s, .value id) ∈ log := by
  obtain ⟨p, hp, rfl⟩ := Option.map_eq_some_iff.mp h
  obtain ⟨hin, hvalue⟩ := List.mem_filter.mp (List.mem_of_getLast? hp)
  have heq : p.2 = .value id := by simpa using hvalue
  rw [← heq]
  exact hin

/-! ## Runs -/

open Link

/-- **The mirror.** Client and server on a connection, all interleavings of their operations included: when
what the server writes to the client gets through, the client has at any time what some first part of the
emissions says that were written and not lost, and all of them say when nothing is on its way. -/
theorem link_mirrors (m : Machine) (hm : m.HoldsIntegers) (st : PypilotState) (ap : Autopilot)
    {c₀ : Store} (hc : c₀.values.attached = true) {ops : List LinkOp}
    (hsends : ∀ p ∈ Run.steps (Link.step m) (start m st ap c₀) ops, p.1.Transmits m p.2) :
    ∀ l ∈ Run.states (Link.step m) (start m st ap c₀) ops,
      l.heard ≤ l.log.length ∧ (l.client.wire.world = [] → l.log.take l.heard = l.log) ∧
        (∀ id s, lastShown (l.log.take l.heard) id = some s → Copied m s l.copy id) ∧
        ∀ id, lastShown (l.log.take l.heard) id = none → Store.SameField c₀ l.copy id := by
  intro l hl
  have h := states_sound st ap hc hsends l hl
  refine ⟨h.heard_le, h.heard_all, fun id s hlast => ?_, h.mirrors.keeps⟩
  obtain ⟨text, htext, htold⟩ := h.mirrors.shown id s hlast
  have hsend := h.sendable _ (List.mem_of_mem_take (mem_of_lastShown hlast))
  exact htold.copied hm hsend.attached hsend.port hsend.transmissible htext

/-- Of the two lines for `ap.enabled` the client has read one and a part of the other. -/
theorem link_mirrors_session :
    let l := [LinkOp.connect 7, .call (.watch .apEnabled 0), .handle 0,
      .elsewhere (.handleLine (lit "ap.enabled=true") 1), .poll 2, .receive 20].foldl
        (Link.step default) (start default {} ⟨{}⟩ (create default {} {}))
    l.log.length = 2 ∧ l.heard = 1 ∧
      ∀ s, lastShown (l.log.take l.heard) .apEnabled = some s → Copied default s l.copy .apEnabled := by
  intro l
  have hl := Run.foldl_mem_states (Link.step default)
    (start default {} ⟨{}⟩ (create default {} {}))
    [LinkOp.connect 7, .call (.watch .apEnabled 0), .handle 0,
      .elsewhere (.handleLine (lit "ap.enabled=true") 1), .poll 2, .receive 20]
  have hmirrors := link_mirrors default (fun _ _ => rfl) {} ⟨{}⟩ rfl (by decide +kernel) l hl
  exact ⟨by decide +kernel, by decide +kernel, hmirrors.2.2.1 .apEnabled⟩

end Pypilot
