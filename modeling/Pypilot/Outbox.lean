import Pypilot.Client
import Pypilot.Lib.Lines
import Pypilot.Lib.Run

/-!
# The outgoing side of the client

Every call and every event of the client is a short program of actions on its outgoing lines: a line
is handed to `queue_or_write`, the pending lines are flushed, one is popped, or the rest of the client
changes (`run_program`). A history adds to the client the lines it has accepted and the lines that
have left it, through a connection that took the whole of them or through `pop_outgoing`.
-/

namespace Pypilot

open Text AsyncEventLoop SlotTable

variable {W : Type}

/-! ## Calls and events -/

/-- The calls of a client, the events of its connections, and the environment moving on. -/
inductive ClientOp (W : Type)
  | watch (name : Text) (periodSeconds : Real)
  | unwatch (name : Text)
  | set (name wireValue : Text)
  | setBool (name : Text) (value : Bool)
  | setReal (name : Text) (value : Real)
  | setString (name value : Text)
  | sendRaw (line : Text)
  | popOutgoing
  | onConnect (conn : ConnId)
  | onClose (conn : ConnId)
  | onError (errorCode : ℤ)
  | close
  | environment (f : W → W)

def ClientOp.run (net : Net W) (sys : ClientSystem W) : ClientOp W → ClientSystem W
  | watch name periodSeconds => sys.watch net name periodSeconds
  | unwatch name => sys.unwatch net name
  | set name wireValue => sys.set net name wireValue
  | setBool name value => sys.setBool net name value
  | setReal name value => sys.setReal net name value
  | setString name value => sys.setString net name value
  | sendRaw line => (sys.sendRaw net line).2
  | popOutgoing => sys.popOutgoing.2
  | onConnect conn => sys.onConnect net conn
  | onClose conn => sys.onClose conn
  | onError errorCode => sys.onError errorCode
  | close => sys.close net
  | environment f => { sys with wire.world := f sys.wire.world }

/-! ## Actions -/

/-- A change of the client that touches neither the pending lines nor a connection. -/
structure Quiet (W : Type) where
  run : ClientSystem W → ClientSystem W
  pending : ∀ sys, (run sys).client.pending = sys.client.pending
  log : ∀ sys, (run sys).wire.log = sys.wire.log

inductive Action (W : Type)
  | offer (line : Text)
  | flush
  | pop
  | quiet (change : Quiet W)

namespace Action

variable (net : Net W)

def run (sys : ClientSystem W) : Action W → ClientSystem W
  | offer line => (sys.queueOrWrite net line).2
  | flush => sys.flushPending net
  | pop => sys.popOutgoing.2
  | quiet change => change.run sys

/-- The writes of an action, with the answers of the connection. -/
def writes (sys : ClientSystem W) (a : Action W) : List Sent :=
  (a.run net sys).wire.log.drop sys.wire.log.length

/-- The line for which `queue_or_write` returns true. -/
def accepts (sys : ClientSystem W) : Action W → List Text
  | offer line => if (sys.queueOrWrite net line).1 then [line] else []
  | _ => []

end Action

/-- The connection took the whole line. -/
def Sent.whole (e : Sent) : Bool := e.taken = e.bytes.length

/-- The connection took a part of the line. -/
def Sent.short (e : Sent) : Bool := 0 < e.taken ∧ e.taken < e.bytes.length

namespace Action

/-- The lines that leave the client. -/
def leaves (net : Net W) (sys : ClientSystem W) (a : Action W) : List Text :=
  ((a.writes net sys).filter Sent.whole).map Sent.bytes ++
    match a with
    | pop => sys.popOutgoing.1.toList
    | _ => []

end Action

/-! ## Programs -/

namespace ClientSystem

theorem dropLineEvent_pending (sys : ClientSystem W) :
    sys.dropLineEvent.client.pending = sys.client.pending := by
  unfold dropLineEvent; split_ifs <;> rfl

theorem dropLineEvent_wire (sys : ClientSystem W) : sys.dropLineEvent.wire = sys.wire := by
  unfold dropLineEvent; split_ifs <;> rfl

theorem detached_pending (sys : ClientSystem W) :
    sys.detached.client.pending = sys.client.pending := dropLineEvent_pending sys

theorem detached_wire (sys : ClientSystem W) : sys.detached.wire = sys.wire :=
  dropLineEvent_wire sys

theorem rememberWatch_pending (sys : ClientSystem W) (name : Text) (periodSeconds : Real) :
    (sys.rememberWatch name periodSeconds).client.pending = sys.client.pending := by
  unfold rememberWatch; dsimp only; split_ifs <;> rfl

theorem rememberWatch_wire (sys : ClientSystem W) (name : Text) (periodSeconds : Real) :
    (sys.rememberWatch name periodSeconds).wire = sys.wire := by
  unfold rememberWatch; dsimp only; split_ifs <;> rfl

theorem flushPending_watches (net : Net W) (sys : ClientSystem W) :
    (sys.flushPending net).client.watches = sys.client.watches := by
  unfold flushPending; split <;> rfl

end ClientSystem

namespace Quiet

open ClientSystem

def rememberWatch (name : Text) (periodSeconds : Real) : Quiet W where
  run sys := sys.rememberWatch name periodSeconds
  pending sys := rememberWatch_pending sys name periodSeconds
  log sys := by rw [rememberWatch_wire]

def forgetWatch (name : Text) : Quiet W where
  run sys := sys.forgetWatch name
  pending _ := rfl
  log _ := rfl

def attached (conn : ConnId) : Quiet W where
  run sys := sys.attached conn
  pending _ := rfl
  log _ := rfl

def onClose (conn : ConnId) : Quiet W where
  run sys := sys.onClose conn
  pending sys := by
    unfold ClientSystem.onClose
    split_ifs
    · exact detached_pending sys
    · rfl
  log sys := by
    unfold ClientSystem.onClose
    split_ifs
    · rw [detached_wire]
    · rfl

def onError (errorCode : ℤ) : Quiet W where
  run sys := sys.onError errorCode
  pending _ := detached_pending _
  log _ := by rw [ClientSystem.onError, detached_wire]

def close (net : Net W) : Quiet W where
  run sys := sys.close net
  pending sys := by
    rw [ClientSystem.close, detached_pending]
    exact dropLineEvent_pending sys
  log sys := by
    rw [ClientSystem.close, detached_wire]
    show sys.dropLineEvent.wire.log = _
    rw [dropLineEvent_wire]

def environment (f : W → W) : Quiet W where
  run sys := { sys with wire.world := f sys.wire.world }
  pending _ := rfl
  log _ := rfl

end Quiet

namespace ClientOp

open Pypilot.Action Client

/-- The offer of a line, when there is one. -/
def offers (line : Option Text) : List (Action W) := line.toList.map offer

/-- The lines that `replay_watches` hands on. -/
def replayed (watches : List ClientWatch) : List (Action W) :=
  watches.flatMap fun watch =>
    if watch.active then offers (watchLine watch.name watch.periodSeconds) else []

/-- What a call or event does to the outgoing lines, in order. -/
def program (net : Net W) (sys : ClientSystem W) : ClientOp W → List (Action W)
  | watch name periodSeconds =>
    quiet (.rememberWatch name periodSeconds) :: offers (watchLine name periodSeconds)
  | unwatch name => quiet (.forgetWatch name) :: offers (unwatchLine name)
  | set name wireValue => offers (setLine name wireValue)
  | setBool name value => offers (setBoolLine name value)
  | setReal name value => offers (setRealLine name value)
  | setString name value => offers (setStringLine name value)
  | sendRaw line => [offer line]
  | popOutgoing => [pop]
  | onConnect conn =>
    quiet (.attached conn) :: flush :: replayed sys.client.watches.toList
  | onClose conn => [quiet (.onClose conn)]
  | onError errorCode => [quiet (.onError errorCode)]
  | close => [quiet (.close net)]
  | environment f => [quiet (.environment f)]

theorem run_offers (net : Net W) (sys : ClientSystem W) (line : Option Text) :
    (offers line).foldl (Action.run net) sys = sys.send net line := by
  cases line <;> rfl

theorem run_replayed (net : Net W) (watches : List ClientWatch) (sys : ClientSystem W) :
    (replayed watches).foldl (Action.run net) sys =
      watches.foldl (fun sys watch =>
        if watch.active then sys.send net (watchLine watch.name watch.periodSeconds) else sys)
        sys := by
  induction watches generalizing sys with
  | nil => rfl
  | cons watch watches ih =>
    rw [replayed, List.flatMap_cons, List.foldl_append, ← replayed, ih, List.foldl_cons]
    congr 1
    split_ifs
    · exact run_offers net sys _
    · rfl

/-- **Programs.** A call or event does what its program does. -/
theorem run_program (net : Net W) (sys : ClientSystem W) (op : ClientOp W) :
    (op.program net sys).foldl (Action.run net) sys = op.run net sys := by
  cases op with
  | watch name periodSeconds => exact run_offers net (sys.rememberWatch name periodSeconds) _
  | unwatch name => exact run_offers net (sys.forgetWatch name) _
  | set name wireValue => exact run_offers net sys _
  | setBool name value => exact run_offers net sys _
  | setReal name value => exact run_offers net sys _
  | setString name value => exact run_offers net sys _
  | onConnect conn =>
    show (replayed sys.client.watches.toList).foldl (Action.run net)
      ((sys.attached conn).flushPending net) = _
    rw [run_replayed, run, ClientSystem.onConnect, ClientSystem.replayWatches,
      ClientSystem.flushPending_watches]
    rfl
  | sendRaw line => rfl
  | popOutgoing => rfl
  | onClose conn => rfl
  | onError errorCode => rfl
  | close => rfl
  | environment f => rfl

end ClientOp

/-! ## Histories -/

/-- A client with the lines it has accepted and the lines that have left it, in order. -/
structure History (W : Type) where
  sys : ClientSystem W
  accepted : List Text := []
  left : List Text := []

namespace History

variable (net : Net W)

def act (h : History W) (a : Action W) : History W :=
  { sys := a.run net h.sys
    accepted := h.accepted ++ a.accepts net h.sys
    left := h.left ++ a.leaves net h.sys }

/-- A call or event, action by action. -/
def step (h : History W) (op : ClientOp W) : History W := (op.program net h.sys).foldl (act net) h

/-- A new client in the environment `world`. -/
def start (world : W) : History W := { sys := { client := {}, wire := { world := world } } }

theorem foldl_act_sys (h : History W) (actions : List (Action W)) :
    (actions.foldl (act net) h).sys = actions.foldl (Action.run net) h.sys := by
  induction actions generalizing h with
  | nil => rfl
  | cons a actions ih => exact ih (h.act net a)

/-- The client of a history is the client. -/
theorem step_sys (h : History W) (op : ClientOp W) : (h.step net op).sys = op.run net h.sys := by
  rw [step, foldl_act_sys, ClientOp.run_program]

/-- **Invariants.** What every action keeps under a condition holds throughout a run whose actions all
meet the condition. -/
theorem run_invariant {I : History W → Prop} {C : History W → Action W → Prop}
    (hact : ∀ h a, I h → C h a → I (h.act net a)) {h : History W} (hI : I h)
    {ops : List (ClientOp W)}
    (hC : ∀ p ∈ Run.steps (step net) h ops,
      ∀ q ∈ Run.steps (act net) p.1 (p.2.program net p.1.sys), C q.1 q.2) :
    ∀ t ∈ Run.states (step net) h ops, I t := by
  refine Run.states_invariant (I := I) (C := fun h op =>
    ∀ q ∈ Run.steps (act net) h (op.program net h.sys), C q.1 q.2) ?_ hI hC
  intro h op hI hop
  exact Run.foldl_invariant hact hI hop

end History

/-! ## What the actions do -/

theorem toInt32_of_lt {n : ℕ} (hn : n < 2 ^ 31) : toInt32 n = n := by
  unfold toInt32
  rw [Int.bmod_def]
  split_ifs <;> omega

namespace ClientSystem

open Client

variable (net : Net W) (sys : ClientSystem W)

/-- The lines waiting in the pending store, in the order of the slots. -/
def waiting : List Text :=
  (sys.client.pending.toList.filter PendingLine.active).map PendingLine.bytes

/-- The store has room for the line. -/
def hasRoom (line : Text) : Bool :=
  line.length < maxLineSize && sys.client.pending.toList.any fun slot => !slot.active

theorem free_of_hasRoom {line : Text} (h : sys.hasRoom line = true) :
    sys.client.pending.toList.any (fun slot => !slot.active) = true := by
  unfold hasRoom at h
  exact (Bool.and_eq_true_iff.mp h).2

/-- `queue_line` takes a line exactly when there is room for it. -/
theorem queueLine_of_room {line : Text} (h : sys.hasRoom line = true) :
    ∃ slot : PendingLine, slot.active = true ∧ slot.bytes = line ∧
      sys.queueLine line = (true, { sys with
        client.pending := SlotTable.update (fun slot => !slot.active) (fun _ => slot)
          sys.client.pending }) := by
  simp only [hasRoom, Bool.and_eq_true, decide_eq_true_eq] at h
  refine ⟨⟨true, line, h.1⟩, rfl, rfl, ?_⟩
  unfold queueLine
  dsimp only
  rw [dif_neg (by omega), if_pos h.2]

theorem queueLine_of_no_room {line : Text} (h : sys.hasRoom line = false) :
    sys.queueLine line = (false, sys) := by
  unfold queueLine
  dsimp only
  by_cases hlen : maxLineSize ≤ line.length
  · rw [dif_pos hlen]
  · have hfree : ¬ (sys.client.pending.toList.any fun slot => !slot.active) = true := by
      intro hfree
      rw [hasRoom, hfree, Bool.and_true, decide_eq_false_iff_not] at h
      omega
    rw [dif_neg hlen, if_neg hfree]

/-- The client after a write, whatever the answer. -/
def written (conn : ConnId) (line : Text) : ClientSystem W :=
  { sys with wire := (sys.wire.write net conn line).2 }

/-- The answer of the connection to a line. -/
def answer (conn : ConnId) (line : Text) : ℤ := (net.write conn line sys.wire.world).1

theorem queueOrWrite_disconnected {line : Text} (h : sys.connected net = none) :
    sys.queueOrWrite net line = sys.queueLine line := by
  rw [queueOrWrite, h]

theorem queueOrWrite_taken {conn : ConnId} {line : Text} (h : sys.connected net = some conn)
    (hn : sys.answer net conn line = toInt32 line.length) :
    sys.queueOrWrite net line = (true, sys.written net conn line) := by
  rw [queueOrWrite, h]
  exact if_pos hn

theorem queueOrWrite_refused {conn : ConnId} {line : Text} (h : sys.connected net = some conn)
    (hn : sys.answer net conn line ≠ toInt32 line.length) :
    sys.queueOrWrite net line = (sys.written net conn line).queueLine line := by
  rw [queueOrWrite, h]
  exact if_neg hn

@[simp] theorem written_waiting (conn : ConnId) (line : Text) :
    (sys.written net conn line).waiting = sys.waiting := rfl

@[simp] theorem written_log (conn : ConnId) (line : Text) :
    (sys.written net conn line).wire.log =
      sys.wire.log ++ [⟨conn, line, sys.answer net conn line⟩] := rfl

/-- An answer is an `int`, so that of a line taken whole is its size cast to `int`. -/
theorem answer_of_whole {conn : ConnId} {line : Text}
    (hwhole : sys.answer net conn line = line.length) :
    sys.answer net conn line = toInt32 line.length := by
  have hint : sys.answer net conn line < 2 ^ 31 := (net.write_int conn line sys.wire.world).2
  rw [hwhole] at hint ⊢
  exact (toInt32_of_lt (by exact_mod_cast hint)).symm

theorem queueLine_log (line : Text) : (sys.queueLine line).2.wire.log = sys.wire.log := by
  unfold queueLine
  dsimp only
  split_ifs <;> rfl

end ClientSystem

namespace Action

open ClientSystem

variable (net : Net W) (sys : ClientSystem W)

theorem writes_of_log_eq {a : Action W} {entries : List Sent}
    (h : (a.run net sys).wire.log = sys.wire.log ++ entries) : a.writes net sys = entries := by
  rw [writes, h, List.drop_left]

@[simp] theorem writes_pop : (pop : Action W).writes net sys = [] := by
  apply writes_of_log_eq
  show sys.popOutgoing.2.wire.log = _
  unfold popOutgoing
  dsimp only
  split <;> simp

@[simp] theorem writes_quiet (change : Quiet W) : (quiet change).writes net sys = [] :=
  writes_of_log_eq net sys (by rw [List.append_nil]; exact change.log sys)

theorem writes_offer_disconnected {line : Text} (h : sys.connected net = none) :
    (offer line).writes net sys = [] := by
  apply writes_of_log_eq
  show (sys.queueOrWrite net line).2.wire.log = _
  rw [queueOrWrite_disconnected net sys h, queueLine_log, List.append_nil]

theorem writes_offer {conn : ConnId} {line : Text} (h : sys.connected net = some conn) :
    (offer line).writes net sys = [⟨conn, line, sys.answer net conn line⟩] := by
  apply writes_of_log_eq
  show (sys.queueOrWrite net line).2.wire.log = _
  by_cases hn : sys.answer net conn line = toInt32 line.length
  · rw [queueOrWrite_taken net sys h hn, written_log]
  · rw [queueOrWrite_refused net sys h hn, queueLine_log, written_log]

end Action

/-! ## Flushing -/

section Flush

open ClientSystem

variable (net : Net W) (conn : ConnId)

/-- A flush writes the lines in use, in the order of the slots, and keeps those that it could not
write. -/
theorem flush_slots (slots : List PendingLine) (wire : Wire W) :
    ∃ entries : List Sent,
      (sweepList (flushSlot net conn) slots wire).2.log = wire.log ++ entries ∧
      entries.map Sent.bytes = (slots.filter PendingLine.active).map PendingLine.bytes ∧
      (∀ e ∈ entries, e.conn = conn ∧ ∃ w, e.taken = (net.write conn e.bytes w).1) ∧
      ((sweepList (flushSlot net conn) slots wire).1.filter PendingLine.active).map
        PendingLine.bytes = (entries.filter fun e => !e.whole).map Sent.bytes := by
  induction slots generalizing wire with
  | nil => exact ⟨[], by simp [sweepList]⟩
  | cons slot slots ih =>
    by_cases hact : slot.active = true
    · obtain ⟨entries, hlog, hbytes, hconn, hrest⟩ := ih (wire.write net conn slot.bytes).2
      have hcast := toInt32_of_lt (lt_trans slot.fits (by decide))
      refine ⟨⟨conn, slot.bytes, (wire.write net conn slot.bytes).1⟩ :: entries, ?_, ?_, ?_, ?_⟩
      · have hwire : (flushSlot net conn slot wire).2 = (wire.write net conn slot.bytes).2 := by
          unfold flushSlot
          rw [if_neg (by simp [hact])]
          dsimp only
          split_ifs <;> rfl
        rw [sweepList, hwire, hlog]
        simp [Wire.write]
      · simp [hact, hbytes]
      · intro e he
        rcases List.mem_cons.mp he with rfl | he
        · exact ⟨rfl, wire.world, rfl⟩
        · exact hconn e he
      · by_cases hn : (wire.write net conn slot.bytes).1 = toInt32 slot.bytes.length
        · have hslot : flushSlot net conn slot wire =
              ({}, (wire.write net conn slot.bytes).2) := by
            unfold flushSlot
            rw [if_neg (by simp [hact])]
            exact if_pos hn
          rw [sweepList, hslot]
          simp [Sent.whole, hn, hcast, hrest]
        · have hslot : flushSlot net conn slot wire =
              (slot, (wire.write net conn slot.bytes).2) := by
            unfold flushSlot
            rw [if_neg (by simp [hact])]
            exact if_neg hn
          have hne : (wire.write net conn slot.bytes).1 ≠ slot.bytes.length := by rwa [hcast] at hn
          rw [sweepList, hslot]
          simp [Sent.whole, hne, hact, hrest]
    · have hslot : flushSlot net conn slot wire = (slot, wire) := by
        unfold flushSlot
        rw [if_pos (by simpa using hact)]
      obtain ⟨entries, hlog, hbytes, hconn, hrest⟩ := ih wire
      refine ⟨entries, ?_, ?_, hconn, ?_⟩
      · rw [sweepList, hslot]
        exact hlog
      · simp [hact, hbytes]
      · rw [sweepList, hslot]
        simp [hact, hrest]

variable (sys : ClientSystem W)

variable {conn} in
/-- A flush over a connection offers the waiting lines in order and keeps those not taken whole. -/
theorem flush_connected (hc : sys.connected net = some conn) :
    (sys.flushPending net).wire.log = sys.wire.log ++ Action.flush.writes net sys ∧
      (Action.flush.writes net sys).map Sent.bytes = sys.waiting ∧
      (∀ e ∈ Action.flush.writes net sys,
        e.conn = conn ∧ ∃ w, e.taken = (net.write conn e.bytes w).1) ∧
      (sys.flushPending net).waiting =
        ((Action.flush.writes net sys).filter fun e => !e.whole).map Sent.bytes := by
  obtain ⟨entries, hlog, hbytes, hconn, hrest⟩ :=
    flush_slots net conn sys.client.pending.toList sys.wire
  have hflush : sys.flushPending net =
      { sys with
        client.pending := (sweep (flushSlot net conn) sys.client.pending sys.wire).1
        wire := (sweep (flushSlot net conn) sys.client.pending sys.wire).2 } := by
    rw [flushPending, hc]
  have hwrites : Action.flush.writes net sys = entries := by
    apply Action.writes_of_log_eq
    show (sys.flushPending net).wire.log = _
    rw [hflush]
    exact hlog
  rw [hwrites, hflush]
  exact ⟨hlog, hbytes, hconn, hrest⟩

/-- A flush does nothing, or it offers the waiting lines in order and keeps those not taken whole. -/
theorem flush_cases :
    (Action.flush.run net sys).wire.log = sys.wire.log ++ Action.flush.writes net sys ∧
      ((Action.flush.writes net sys = [] ∧ sys.flushPending net = sys) ∨
        (Action.flush.writes net sys).map Sent.bytes = sys.waiting ∧
          (∀ e ∈ Action.flush.writes net sys, ∃ w, e.taken = (net.write e.conn e.bytes w).1) ∧
          (sys.flushPending net).waiting =
            ((Action.flush.writes net sys).filter fun e => !e.whole).map Sent.bytes) := by
  show (sys.flushPending net).wire.log = _ ∧ _
  cases hc : sys.connected net with
  | none =>
    have hflush : sys.flushPending net = sys := by rw [flushPending, hc]
    have hwrites : Action.flush.writes net sys = [] := by
      apply Action.writes_of_log_eq
      show (sys.flushPending net).wire.log = _
      rw [hflush, List.append_nil]
    rw [hwrites, hflush]
    exact ⟨(List.append_nil _).symm, .inl ⟨rfl, rfl⟩⟩
  | some conn =>
    obtain ⟨hlog, hbytes, hconn, hrest⟩ := flush_connected net sys hc
    refine ⟨hlog, .inr ⟨hbytes, ?_, hrest⟩⟩
    intro e he
    obtain ⟨rfl, w, hw⟩ := hconn e he
    exact ⟨w, hw⟩

end Flush

/-- An action adds its writes to the log, with the answers that the connection gave. -/
theorem Action.run_log (net : Net W) (sys : ClientSystem W) (a : Action W) :
    (a.run net sys).wire.log = sys.wire.log ++ a.writes net sys ∧
      ∀ e ∈ a.writes net sys, ∃ w, e.taken = (net.write e.conn e.bytes w).1 := by
  cases a with
  | offer line =>
    show (sys.queueOrWrite net line).2.wire.log = _ ∧ _
    cases hc : sys.connected net with
    | none =>
      rw [Action.writes_offer_disconnected net sys hc, ClientSystem.queueOrWrite_disconnected net sys hc,
        ClientSystem.queueLine_log]
      simp
    | some conn =>
      rw [Action.writes_offer net sys hc]
      refine ⟨?_, by simpa using ⟨sys.wire.world, rfl⟩⟩
      by_cases hn : sys.answer net conn line = toInt32 line.length
      · rw [ClientSystem.queueOrWrite_taken net sys hc hn, ClientSystem.written_log]
      · rw [ClientSystem.queueOrWrite_refused net sys hc hn, ClientSystem.queueLine_log,
          ClientSystem.written_log]
  | flush =>
    obtain ⟨hlog, ⟨hw, -⟩ | ⟨-, hw, -⟩⟩ := flush_cases net sys
    · exact ⟨hlog, by simp [hw]⟩
    · exact ⟨hlog, hw⟩
  | pop =>
    rw [Action.writes_pop]
    refine ⟨?_, by simp⟩
    show sys.popOutgoing.2.wire.log = _
    unfold ClientSystem.popOutgoing
    dsimp only
    split <;> simp
  | quiet change =>
    rw [Action.writes_quiet, List.append_nil]
    exact ⟨change.log sys, by simp⟩

end Pypilot
