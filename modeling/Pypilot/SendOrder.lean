import Pypilot.Outbox

/-!
# The order of outgoing lines

Lines accepted by the client are kept in order as long as every action finds the pending store in a
state that lets it keep them (`InTurn`): a line is written past the store only when the store is
empty, it is stored only behind all others, and a flush does not go past a refused line. The store is
a slot array refilled at its first free slot, and a refused write does not stop later ones, so the
code itself ensures none of these; nor that the size that a line is compared with, an `int`, is the
line's own (`HonestAnswer`).
-/

namespace Pypilot

open Text SlotTable ClientSystem

variable {W : Type}

/-- Connections whose writes take the whole line or nothing. -/
def Net.AllOrNothing (net : Net W) : Prop :=
  ∀ conn bytes w, (net.write conn bytes w).1 = bytes.length ∨ (net.write conn bytes w).1 ≤ 0

/-- A connection that answers with the size of the line cast to `int` has taken the line. -/
def Action.HonestAnswer (net : Net W) (sys : ClientSystem W) : Action W → Prop
  | offer line => ∀ conn, sys.connected net = some conn →
      sys.answer net conn line = toInt32 line.length → sys.answer net conn line = line.length
  | _ => True

instance (net : Net W) (sys : ClientSystem W) (a : Action W) :
    Decidable (a.HonestAnswer net sys) :=
  match a with
  | .offer line => decidable_of_iff (∀ conn ∈ sys.connected net,
      sys.answer net conn line = toInt32 line.length → sys.answer net conn line = line.length) .rfl
  | .flush => isTrue trivial
  | .pop => isTrue trivial
  | .quiet _ => isTrue trivial

/-- The action can keep the lines in order, in the state that it finds: the answer to a line is
honest, a line that the connection takes finds nothing waiting, a line that is to be stored finds no
gap in the store, and no line of a flush is taken after one that was not. -/
def Action.InTurn (net : Net W) (sys : ClientSystem W) : Action W → Prop
  | offer line =>
    (offer line).HonestAnswer net sys ∧
      if ((offer line).writes net sys).any Sent.whole then sys.waiting = []
      else sys.hasRoom line = true → Packed PendingLine.active sys.client.pending.toList
  | flush => Packed Sent.whole (flush.writes net sys)
  | pop => True
  | quiet _ => True

instance (net : Net W) (sys : ClientSystem W) (a : Action W) : Decidable (a.InTurn net sys) := by
  cases a <;> unfold Action.InTurn <;> infer_instance

/-- All actions of a call or event are in turn. -/
def History.InTurn (net : Net W) (h : History W) (op : ClientOp W) : Prop :=
  ∀ p ∈ Run.steps (act net) h (op.program net h.sys), Action.InTurn net p.1.sys p.2

instance (net : Net W) (h : History W) (op : ClientOp W) : Decidable (h.InTurn net op) := by
  unfold History.InTurn; infer_instance

/-- The accepted lines are those that have left and, behind them, those that wait. -/
def History.Queued (h : History W) : Prop := h.accepted = h.left ++ h.sys.waiting

theorem History.Queued.eq {h : History W} (hq : h.Queued) :
    h.accepted = h.left ++ h.sys.waiting := hq

theorem queued_start (world : W) : (History.start world).Queued := rfl

/-! ## Actions in turn -/

section Steps

variable {net : Net W} {h : History W}

theorem History.Queued.quiet (hq : h.Queued) (change : Quiet W) :
    (h.act net (.quiet change)).Queued := by
  have hwait : (change.run h.sys).waiting = h.sys.waiting := by
    unfold waiting
    rw [change.pending]
  show h.accepted ++ [] = h.left ++ (_ ++ []) ++ (change.run h.sys).waiting
  rw [Action.writes_quiet, hwait, hq.eq]
  simp

/-- A pop takes the first line that waits. -/
theorem popOutgoing_waiting (sys : ClientSystem W) :
    sys.popOutgoing.1.toList ++ sys.popOutgoing.2.waiting = sys.waiting := by
  unfold popOutgoing
  dsimp only
  cases hf : sys.client.pending.toList.find? PendingLine.active with
  | none => rfl
  | some slot =>
    have hhead : (sys.client.pending.toList.filter PendingLine.active).head? = some slot := by
      rw [List.head?_filter, hf]
    have htail := @filter_updateFirst_active _ PendingLine.active {} rfl sys.client.pending.toList
    unfold waiting
    dsimp only
    rw [update_toList, htail, ← List.cons_head?_tail hhead]
    simp

theorem History.Queued.pop (hq : h.Queued) : (h.act net .pop).Queued := by
  show h.accepted ++ [] = h.left ++ (_ ++ h.sys.popOutgoing.1.toList) ++ h.sys.popOutgoing.2.waiting
  rw [Action.writes_pop, List.append_nil, List.filter_nil, List.map_nil, List.nil_append,
    List.append_assoc, popOutgoing_waiting]
  exact hq

theorem History.Queued.flush (hq : h.Queued) (hturn : Action.InTurn net h.sys .flush) :
    (h.act net .flush).Queued := by
  have hturn' : Packed Sent.whole (Action.flush.writes net h.sys) := hturn
  show h.accepted ++ [] = h.left ++ (_ ++ []) ++ (h.sys.flushPending net).waiting
  obtain ⟨-, ⟨hw, hsame⟩ | ⟨hbytes, -, hrest⟩⟩ := flush_cases net h.sys
  · rw [hw, hsame, hq.eq]
    simp
  · rw [hrest, List.append_nil, List.append_nil, List.append_assoc, ← List.map_append,
      filter_append_filter_of_packed hturn', hbytes]
    exact hq

/-- A line goes into the store behind the lines that wait. -/
theorem queueLine_waiting {sys : ClientSystem W} {line : Text}
    (hpacked : sys.hasRoom line = true → Packed PendingLine.active sys.client.pending.toList) :
    sys.waiting ++ (if (sys.queueLine line).1 then [line] else []) =
      (sys.queueLine line).2.waiting := by
  by_cases hroom : sys.hasRoom line = true
  · obtain ⟨slot, hact, hbytes, hq⟩ := queueLine_of_room sys hroom
    have hfree := free_of_hasRoom sys hroom
    rw [hq, if_pos rfl]
    unfold waiting
    dsimp only
    rw [update_toList, filter_updateFirst_free hact (hpacked hroom) hfree, List.map_append, ← hbytes]
    rfl
  · rw [queueLine_of_no_room sys (by simpa using hroom), if_neg Bool.false_ne_true, List.append_nil]

theorem History.Queued.offer (hq : h.Queued) {line : Text}
    (hturn : Action.InTurn net h.sys (.offer line)) : (h.act net (.offer line)).Queued := by
  obtain ⟨hhonest, hturn⟩ := hturn
  show h.accepted ++ (if (h.sys.queueOrWrite net line).1 then [line] else []) =
    h.left ++ (_ ++ []) ++ (h.sys.queueOrWrite net line).2.waiting
  cases hc : h.sys.connected net with
  | none =>
    rw [Action.writes_offer_disconnected net h.sys hc] at hturn ⊢
    rw [queueOrWrite_disconnected net h.sys hc, ← queueLine_waiting (by simpa using hturn), hq.eq]
    simp
  | some conn =>
    rw [Action.writes_offer net h.sys hc] at hturn ⊢
    by_cases hn : h.sys.answer net conn line = toInt32 line.length
    · have hwhole : Sent.whole ⟨conn, line, h.sys.answer net conn line⟩ = true := by
        simpa [Sent.whole] using hhonest conn hc hn
      have hnone : h.sys.waiting = [] := by simpa [hwhole] using hturn
      rw [queueOrWrite_taken net h.sys hc hn, if_pos rfl, written_waiting, hnone, hq.eq, hnone]
      simp [hwhole]
    · have hpart : Sent.whole ⟨conn, line, h.sys.answer net conn line⟩ = false := by
        simp only [Sent.whole, decide_eq_false_iff_not]
        exact fun hwhole => hn (answer_of_whole net h.sys hwhole)
      have hpacked : (h.sys.written net conn line).hasRoom line = true →
          Packed PendingLine.active (h.sys.written net conn line).client.pending.toList := by
        show h.sys.hasRoom line = true → Packed PendingLine.active h.sys.client.pending.toList
        simpa [hpart] using hturn
      rw [queueOrWrite_refused net h.sys hc hn, ← queueLine_waiting hpacked, hq.eq]
      simp [hpart]

theorem History.Queued.act (hq : h.Queued) {a : Action W} (hturn : Action.InTurn net h.sys a) :
    (h.act net a).Queued := by
  cases a with
  | offer line => exact hq.offer hturn
  | flush => exact hq.flush hturn
  | pop => exact hq.pop
  | quiet change => exact hq.quiet change

end Steps

/-! ## Runs -/

/-- **Outgoing order.** In a run of calls and events whose actions are all in turn, the lines that
have left the client are at every moment the first of those that it accepted. -/
theorem left_prefix_accepted (net : Net W) (world : W) (ops : List (ClientOp W))
    (hturn : ∀ p ∈ Run.steps (History.step net) (.start world) ops, p.1.InTurn net p.2) :
    ∀ h ∈ Run.states (History.step net) (.start world) ops, h.left <+: h.accepted := by
  intro h hh
  have hq : h.Queued :=
    History.run_invariant net (C := fun h a => Action.InTurn net h.sys a)
      (fun _ _ hq ha => History.Queued.act hq ha) (queued_start world) hturn h hh
  rw [hq.eq]
  exact List.prefix_append _ _

/-- Connections that are always valid and take lines whole or not at all, as told by a script. -/
def scripted : Net (List Bool) where
  valid _ _ := true
  write _ bytes script :=
    match script with
    | true :: script => (if bytes.length < 2 ^ 31 then bytes.length else 0, script)
    | false :: script => (0, script)
    | [] => (0, [])
  close _ script := script
  write_int _ bytes script := by
    rcases script with _ | ⟨_ | _, _⟩ <;> dsimp only <;> try split_ifs
    all_goals omega

theorem scripted_allOrNothing : scripted.AllOrNothing := by
  intro _ bytes script
  rcases script with _ | ⟨_ | _, _⟩
  · exact .inr le_rfl
  · exact .inr le_rfl
  · dsimp only [scripted]
    split_ifs
    · exact .inl rfl
    · exact .inr le_rfl

/-- Two lines flushed on connect, one written directly, one refused, stored and popped. -/
theorem left_prefix_accepted_session :
    scripted.AllOrNothing ∧
      ∀ h ∈ Run.states (History.step scripted) (.start [true, true, true, false])
          [.setBool (lit "ap.enabled") false, .set (lit "ap.mode") (lit "wind"), .onConnect 1,
            .watch (lit "ap.heading") 0, .setReal (lit "servo.command") 0, .popOutgoing],
        h.left <+: h.accepted :=
  ⟨scripted_allOrNothing, left_prefix_accepted scripted _ _ (by decide +kernel)⟩

/-- Without a connection: the second line is accepted before the third and leaves after it, because
the third takes the slot that the first has left. -/
theorem stale_line_leaves_last :
    scripted.AllOrNothing ∧
      ∃ h ∈ Run.states (History.step scripted) (.start [])
          [.set (lit "ap.mode") (lit "gps"), .setBool (lit "ap.enabled") true, .popOutgoing,
            .setBool (lit "ap.enabled") false, .popOutgoing, .popOutgoing],
        h.accepted = [lit "ap.mode=gps\n", lit "ap.enabled=true\n", lit "ap.enabled=false\n"] ∧
          h.left = [lit "ap.mode=gps\n", lit "ap.enabled=false\n", lit "ap.enabled=true\n"] ∧
          ¬ h.left <+: h.accepted :=
  ⟨scripted_allOrNothing, by decide +kernel⟩

end Pypilot
