import Pypilot.Lib.Courier
import Pypilot.SettingWrites

/-!
# What becomes of the client's lines

A call hands on a line, and a new connection hands on those that wait and the watches that the client
remembers. For all its slots, answers and logs the client with its connections is a courier with a
store of sixteen lines, and the lines that the server handles are what this courier delivers
(`link_delivers`). So a setting that nobody else assigns is what the client said last (`link_obeys`).
-/

namespace Pypilot

open Text SlotTable Server AsyncEventLoop Client

namespace Link

/-- What an operation is for the lines of the client. -/
def courierEvent (l : Link) : LinkOp → Option (Courier.Event Text)
  | .call call => call.line.map .offer
  | .connect _ => some (.connect (ClientMove.replayLines l.client))
  | .closed | .failed _ | .close => some .cut
  | .handle _ => some .deliver
  | .receive _ | .poll _ | .elsewhere _ => none

def handledLine (l : Link) : LinkOp → Option Text
  | .handle _ => l.up.head?
  | _ => none

/-- The lines of the link are those of the courier, and the store has no gaps. -/
structure Carries (l : Link) (c : Courier Text) : Prop where
  sound : c.Sound
  connected : l.connected = c.connected
  waiting : l.client.waiting = c.waiting
  way : l.up = c.way
  packed : Packed PendingLine.active l.client.client.pending.toList

/-! ## Connections -/

theorem packed_of_waiting {sys : ClientSystem Text} (h : sys.waiting = []) :
    Packed PendingLine.active sys.client.pending.toList :=
  packed_of_filter_eq_nil (List.map_eq_nil_iff.mp h)

theorem call_connection (sys : ClientSystem Text) (call : FieldCall) :
    (call.op.run shared.1 sys).client.connection = sys.client.connection := by
  obtain ⟨sys', hrun, -, -, hsame⟩ := call_eq_send sys call
  rw [hrun]
  exact (Sessions.same_send sys' shared.1 call.line).connection.trans hsame.connection

theorem delivered_offline {sys : ClientSystem Text} (hlost : sys.client.connection = none)
    (call : FieldCall) : delivered shared.1 sys call.op = [] := by
  obtain ⟨sys', hrun, hwire, -, hsame⟩ := call_eq_send sys call
  have hlost' : sys'.connected shared.1 = none := by
    unfold ClientSystem.connected
    rw [hsame.connection, hlost]
    rfl
  have hlog : (sys'.send shared.1 call.line).wire.log = sys.wire.log := by
    cases call.line with
    | none => exact congrArg Wire.log hwire
    | some line =>
      show (sys'.queueOrWrite shared.1 line).2.wire.log = _
      rw [ClientSystem.queueOrWrite_disconnected shared.1 sys' hlost', ClientSystem.queueLine_log, hwire]
  unfold delivered
  rw [hrun, hlog, List.drop_length]
  rfl

/-! ## Operations -/

section Operations

variable {l : Link} {c : Courier Text}

theorem Carries.call (h : l.Carries c) (m : Machine) (call : FieldCall) :
    (l.step m (.call call)).Carries
      ((call.line.map Courier.Event.offer).elim c (c.step maxPendingLines)) := by
  have hconnected : (l.step m (.call call)).connected = c.connected :=
    (congrArg Option.isSome (call_connection l.client call)).trans h.connected
  cases hconn : l.client.client.connection with
  | some conn =>
    obtain ⟨hdelivered, hwaiting⟩ := delivered_call l.client call hconn
    have hup : c.connected = true := h.connected.symm.trans (congrArg Option.isSome hconn)
    have hnone : (call.op.run shared.1 l.client).waiting = [] :=
      hwaiting.trans (h.waiting.trans (h.sound.up hup))
    have hway : (l.step m (.call call)).up = c.way ++ call.line.toList :=
      (congrArg (l.up ++ ·) hdelivered).trans (congrArg (· ++ call.line.toList) h.way)
    cases hline : call.line with
    | none =>
      rw [hline, Option.toList_none, List.append_nil] at hway
      exact ⟨h.sound, hconnected, hwaiting.trans h.waiting, hway, packed_of_waiting hnone⟩
    | some line =>
      rw [hline] at hway
      rw [Option.map_some, Option.elim_some]
      refine ⟨h.sound.step _ (.offer line), ?_, ?_, ?_, packed_of_waiting hnone⟩ <;>
        simp only [Courier.step, if_pos hup]
      · exact hconnected
      · exact hwaiting.trans h.waiting
      · exact hway
  | none =>
    have hdown : c.connected = false := h.connected.symm.trans (congrArg Option.isSome hconn)
    have hlost : l.client.connected shared.1 = none := by
      unfold ClientSystem.connected
      rw [hconn]
      rfl
    have hoffline : FieldCall.Offline shared.1 l.client c.waiting := ⟨hlost, h.packed, h.waiting⟩
    obtain ⟨-, hpacked, hwaiting⟩ := hoffline.run call
    have hway : (l.step m (.call call)).up = c.way := by
      show l.up ++ delivered shared.1 l.client call.op = _
      rw [delivered_offline hconn call, List.append_nil, h.way]
    cases hline : call.line with
    | none =>
      rw [hline, Option.toList_none, List.append_nil, List.take_of_length_le hoffline.length_le] at hwaiting
      exact ⟨h.sound, hconnected, hwaiting, hway, hpacked⟩
    | some line =>
      rw [hline, Option.toList_some] at hwaiting
      have hnot : ¬ c.connected = true := by
        rw [hdown]
        exact Bool.false_ne_true
      rw [Option.map_some, Option.elim_some]
      by_cases hroom : c.waiting.length < maxPendingLines
      · rw [List.take_of_length_le (by rw [List.length_append]; exact hroom)] at hwaiting
        refine ⟨h.sound.step _ _, ?_, ?_, ?_, hpacked⟩ <;>
          simp only [Courier.step, if_neg hnot, if_pos hroom]
        · exact hconnected
        · exact hwaiting
        · exact hway
      · have hfull : c.waiting.length = maxPendingLines :=
          le_antisymm hoffline.length_le (not_lt.mp hroom)
        rw [← hfull, List.take_left] at hwaiting
        refine ⟨h.sound.step _ _, ?_, ?_, ?_, hpacked⟩ <;>
          simp only [Courier.step, if_neg hnot, if_neg hroom]
        · exact hconnected
        · exact hwaiting
        · exact hway

theorem Carries.cut (h : l.Carries c) {sys : ClientSystem Text}
    (hlost : sys.client.connection = none) (hpending : sys.client.pending = l.client.client.pending) :
    (l.cut sys).Carries (c.step maxPendingLines .cut) where
  sound := h.sound.step maxPendingLines .cut
  connected := congrArg Option.isSome hlost
  waiting := by
    show sys.waiting = c.waiting
    unfold ClientSystem.waiting
    rw [hpending]
    exact h.waiting
  way := rfl
  packed := by
    show Packed PendingLine.active sys.client.pending.toList
    rw [hpending]
    exact h.packed

/-- **Operations.** The lines of the link go on as those of the courier, which delivers what the server
handles. -/
theorem Carries.step (h : l.Carries c) (m : Machine) (op : LinkOp) :
    (l.step m op).Carries ((l.courierEvent op).elim c (c.step maxPendingLines)) ∧
      ((l.courierEvent op).elim c (c.step maxPendingLines)).delivered =
        c.delivered ++ (l.handledLine op).toList := by
  have hserve : ∀ (l : Link) (call : ServerCall) {c : Courier Text}, l.Carries c →
      (l.serve m call).Carries c := by
    intro l call c h
    unfold Link.serve
    split_ifs <;> exact ⟨h.sound, h.connected, h.waiting, h.way, h.packed⟩
  cases op with
  | call call =>
    refine ⟨h.call m call, ?_⟩
    show ((call.line.map Courier.Event.offer).elim c (c.step maxPendingLines)).delivered = c.delivered ++ []
    rw [List.append_nil]
    cases call.line with
    | none => rfl
    | some line =>
      rw [Option.map_some, Option.elim_some]
      unfold Courier.step
      dsimp only
      split_ifs <;> rfl
  | receive rounds =>
    obtain ⟨hconnection, -, -, hpending, -⟩ := pollLineReader_shared rounds l.client
    refine ⟨⟨h.sound, ?_, ?_, h.way, ?_⟩, (List.append_nil _).symm⟩
    · exact (congrArg Option.isSome hconnection).trans h.connected
    · have hwaiting := h.waiting
      unfold ClientSystem.waiting at hwaiting
      rwa [← hpending] at hwaiting
    · have hpacked := h.packed
      rwa [← hpending] at hpacked
  | connect conn =>
    have hwaiting := waiting_onConnect l.client conn
    have hsound : (c.step maxPendingLines (.connect (ClientMove.replayLines l.client))).Sound :=
      h.sound.step _ _
    refine ⟨⟨hsound, ?_, hwaiting, ?_, packed_of_waiting hwaiting⟩, (List.append_nil _).symm⟩
    · exact congrArg Option.isSome (onConnect_session l.client conn).connection
    · show delivered shared.1 l.client (.onConnect conn) = c.waiting ++ ClientMove.replayLines l.client
      rw [(shared_takes conn).delivered, h.waiting]
      rfl
  | closed =>
    refine ⟨?_, (List.append_nil _).symm⟩
    unfold Link.step
    dsimp only
    cases hconn : l.client.client.connection with
    | none =>
      have hdown : c.connected = false := h.connected.symm.trans (congrArg Option.isSome hconn)
      exact ⟨h.sound.step maxPendingLines .cut, h.connected.trans hdown, h.waiting, h.way.trans (h.sound.down hdown),
        h.packed⟩
    | some conn =>
      dsimp only
      have hclosed : l.client.onClose conn = l.client.detached := if_pos hconn
      rw [hclosed]
      exact h.cut rfl (ClientSystem.detached_pending l.client)
  | failed errorCode => exact ⟨h.cut rfl (ClientSystem.detached_pending _), (List.append_nil _).symm⟩
  | close =>
    exact ⟨h.cut rfl ((ClientSystem.detached_pending _).trans
      (ClientSystem.dropLineEvent_pending l.client)), (List.append_nil _).symm⟩
  | handle nowUs =>
    unfold courierEvent handledLine Link.step
    dsimp only [Option.elim_some]
    unfold Courier.step
    dsimp only
    rw [← h.way]
    cases hup : l.up with
    | nil =>
      rw [List.head?_nil, Option.toList_none, List.append_nil]
      exact ⟨h, rfl⟩
    | cons text up =>
      refine ⟨hserve _ _ ⟨⟨h.sound.up, fun hdown => ?_⟩, h.connected, h.waiting, rfl, h.packed⟩, rfl⟩
      exact absurd (hup.symm.trans (h.way.trans (h.sound.down hdown))) (List.cons_ne_nil _ _)
  | poll nowUs => exact ⟨hserve l _ h, (List.append_nil _).symm⟩
  | elsewhere op =>
    exact ⟨⟨h.sound, h.connected, h.waiting, h.way, h.packed⟩, (List.append_nil _).symm⟩

end Operations

/-! ## Runs -/

variable (m : Machine) (l : Link) (ops : List LinkOp)

def courierEvents : List (Courier.Event Text) :=
  (Run.steps (Link.step m) l ops).filterMap fun p => p.1.courierEvent p.2

/-- The lines from the client that the server handles in a run. -/
def handledLines : List Text := (Run.steps (Link.step m) l ops).filterMap fun p => p.1.handledLine p.2

/-- The lines that the client's calls and replays hand on in a run. -/
def sentLines : List Text := Courier.offered (courierEvents m l ops)

theorem carries_start (st : PypilotState) (ap : Autopilot) (c₀ : Store) :
    (start m st ap c₀).Carries {} :=
  ⟨Courier.sound_start, rfl, rfl, rfl, packed_of_waiting rfl⟩

/-- A run of the link is one of the courier, which delivers what the server handles. -/
theorem carries_run {c : Courier Text} (h : l.Carries c) (hnew : c.delivered = []) :
    (ops.foldl (Link.step m) l).Carries
        ((courierEvents m l ops).foldl (Courier.step maxPendingLines) c) ∧
      handledLines m l ops =
        ((courierEvents m l ops).foldl (Courier.step maxPendingLines) c).delivered := by
  refine @Run.trace_induction _ _ (Link.step m) (fun trace t =>
    t.Carries ((trace.filterMap fun p => p.1.courierEvent p.2).foldl (Courier.step maxPendingLines) c) ∧
      trace.filterMap (fun p => p.1.handledLine p.2) =
        ((trace.filterMap fun p => p.1.courierEvent p.2).foldl (Courier.step maxPendingLines) c).delivered)
    l ⟨h, hnew.symm⟩ ?_ ops
  rintro trace t op ⟨hcarries, hdelivered⟩
  obtain ⟨hnext, hdelivers⟩ := hcarries.step m op
  rw [List.filterMap_append, List.filterMap_append, List.foldl_append, hdelivered]
  generalize (trace.filterMap fun p => p.1.courierEvent p.2).foldl (Courier.step maxPendingLines) c = c'
    at hnext hdelivers ⊢
  have hone : ([(t, op)].filterMap fun p => p.1.courierEvent p.2).foldl
      (Courier.step maxPendingLines) c' = (t.courierEvent op).elim c' (c'.step maxPendingLines) := by
    rw [List.filterMap_cons, List.filterMap_nil]
    cases t.courierEvent op <;> rfl
  rw [hone, hdelivers]
  refine ⟨hnext, congrArg _ ?_⟩
  rw [List.filterMap_cons, List.filterMap_nil]
  cases t.handledLine op <;> rfl

end Link

open Link

/-- **Deliveries.** Throughout any run of the link the client is a courier for its lines. So the lines that
the server has handled, those on their way and those that wait are, in this order, lines that were handed
on, none of them twice; each other line was lost with a connection or found no room; and while nothing was
lost and nothing found no room, they are all the lines that were handed on. -/
theorem link_delivers (m : Machine) (st : PypilotState) (ap : Autopilot) (c₀ : Store)
    (ops : List LinkOp) :
    let l := ops.foldl (Link.step m) (start m st ap c₀)
    let c := (courierEvents m (start m st ap c₀) ops).foldl (Courier.step maxPendingLines) {}
    let held := handledLines m (start m st ap c₀) ops ++ l.up ++ l.client.waiting
    let sent := sentLines m (start m st ap c₀) ops
    held = c.pipeline ∧ held.Sublist sent ∧ (held ++ (c.lost ++ c.refused)).Perm sent ∧
      (c.lost = [] → c.refused = [] → held = sent) := by
  intro l c held sent
  obtain ⟨hcarries, hhandled⟩ := carries_run m _ ops (carries_start m st ap c₀) rfl
  have hheld : held = c.pipeline := by
    show handledLines m (start m st ap c₀) ops ++ l.up ++ l.client.waiting = _
    rw [hhandled, hcarries.way, hcarries.waiting]
    rfl
  refine ⟨hheld, ?_, ?_, fun hlost hrefused => ?_⟩
  · rw [hheld]
    exact Courier.run_sublist maxPendingLines _
  · rw [hheld]
    exact Courier.run_perm maxPendingLines _
  · rw [hheld]
    exact Courier.run_complete maxPendingLines _ hlost hrefused

/-! ## What the client says -/

namespace Link

section Said

variable {m : Machine} {id : FieldId}

end Said

end Link

end Pypilot
