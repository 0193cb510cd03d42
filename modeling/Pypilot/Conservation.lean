import Pypilot.SendOrder

/-!
# Conservation of outgoing lines

Every accepted line has left the client through a connection that took the whole of it, was popped, or
waits in the pending store, each as often as it was accepted. The one exception is a line so long that its
size does not fit an `int`: `queue_or_write` compares the answer of the connection with the size cast to
`int`, and takes a refusal with just that number for a success.
-/

namespace Pypilot

open Text SlotTable ClientSystem
open scoped List

variable {W : Type}

/-- The accepted lines are, up to their order, those that have left and those that wait. -/
def History.Conserved (h : History W) : Prop := h.accepted ~ h.left ++ h.sys.waiting

theorem History.Conserved.perm {h : History W} (hc : h.Conserved) :
    h.accepted ~ h.left ++ h.sys.waiting := hc

theorem conserved_start (world : W) : (History.start world).Conserved := .refl _

/-! ## Actions -/

section Steps

variable {net : Net W} {h : History W}

theorem queueLine_waiting_perm (sys : ClientSystem W) (line : Text) :
    (if (sys.queueLine line).1 then [line] else []) ++ sys.waiting ~
      (sys.queueLine line).2.waiting := by
  by_cases hroom : sys.hasRoom line = true
  · obtain ⟨slot, hact, hbytes, hq⟩ := queueLine_of_room sys hroom
    have hperm := (filter_updateFirst_free_perm hact (free_of_hasRoom sys hroom)).map PendingLine.bytes
    rw [List.map_cons, hbytes] at hperm
    rw [hq, if_pos rfl]
    exact hperm.symm
  · rw [queueLine_of_no_room sys (by simpa using hroom), if_neg Bool.false_ne_true, List.nil_append]

theorem History.Conserved.quiet (hc : h.Conserved) (change : Quiet W) :
    (h.act net (.quiet change)).Conserved := by
  have hwait : (change.run h.sys).waiting = h.sys.waiting := by
    unfold waiting
    rw [change.pending]
  show h.accepted ++ [] ~ h.left ++ (_ ++ []) ++ (change.run h.sys).waiting
  rw [Action.writes_quiet, hwait]
  simpa using hc.perm

theorem History.Conserved.pop (hc : h.Conserved) : (h.act net .pop).Conserved := by
  show h.accepted ++ [] ~
    h.left ++ (_ ++ h.sys.popOutgoing.1.toList) ++ h.sys.popOutgoing.2.waiting
  rw [Action.writes_pop, List.append_nil, List.filter_nil, List.map_nil, List.nil_append,
    List.append_assoc, popOutgoing_waiting]
  exact hc

theorem History.Conserved.flush (hc : h.Conserved) : (h.act net .flush).Conserved := by
  show h.accepted ++ [] ~ h.left ++ (_ ++ []) ++ (h.sys.flushPending net).waiting
  obtain ⟨-, ⟨hw, hsame⟩ | ⟨hbytes, -, hrest⟩⟩ := flush_cases net h.sys
  · rw [hw, hsame]
    simpa using hc.perm
  · have hsplit := (List.filter_append_perm Sent.whole (Action.flush.writes net h.sys)).map Sent.bytes
    rw [List.map_append, hbytes] at hsplit
    rw [hrest, List.append_nil, List.append_nil, List.append_assoc]
    exact hc.trans (hsplit.symm.append_left h.left)

/-- A line handed on is conserved exactly when the answer to it is honest. -/
theorem History.Conserved.offer_iff (hc : h.Conserved) (line : Text) :
    (h.act net (.offer line)).Conserved ↔ Action.HonestAnswer net h.sys (.offer line) := by
  show h.accepted ++ (if (h.sys.queueOrWrite net line).1 then [line] else []) ~
    h.left ++ (_ ++ []) ++ (h.sys.queueOrWrite net line).2.waiting ↔
      ∀ conn, h.sys.connected net = some conn → _
  have hstored : ∀ sys : ClientSystem W, sys.waiting = h.sys.waiting →
      h.accepted ++ (if (sys.queueLine line).1 then [line] else []) ~
        h.left ++ (sys.queueLine line).2.waiting := by
    intro sys hsame
    refine (hc.append_right _).trans ?_
    rw [List.append_assoc]
    refine List.Perm.append_left h.left (List.perm_append_comm.trans ?_)
    rw [← hsame]
    exact queueLine_waiting_perm sys line
  cases hconn : h.sys.connected net with
  | none =>
    refine iff_of_true ?_ fun conn hcontra => absurd hcontra (Option.some_ne_none conn).symm
    rw [Action.writes_offer_disconnected net h.sys hconn, queueOrWrite_disconnected net h.sys hconn]
    simpa using hstored h.sys rfl
  | some conn =>
    rw [Action.writes_offer net h.sys hconn]
    by_cases hn : h.sys.answer net conn line = toInt32 line.length
    · rw [queueOrWrite_taken net h.sys hconn hn, if_pos rfl, written_waiting]
      by_cases hwhole : h.sys.answer net conn line = line.length
      · refine iff_of_true ?_ fun conn' hconn' _ => ?_
        · have hw : Sent.whole ⟨conn, line, h.sys.answer net conn line⟩ = true :=
            decide_eq_true hwhole
          rw [List.filter_cons_of_pos hw, List.filter_nil, List.map_singleton, List.append_nil]
          refine (hc.append_right _).trans ?_
          rw [List.append_assoc, List.append_assoc]
          exact List.Perm.append_left h.left List.perm_append_comm
        · obtain rfl := Option.some.inj hconn'
          exact hwhole
      · -- accepted, but neither written nor stored
        refine iff_of_false (fun hperm => ?_) fun hall => hwhole (hall conn rfl hn)
        have hw : ¬ Sent.whole ⟨conn, line, h.sys.answer net conn line⟩ = true := by
          simpa [Sent.whole] using hwhole
        rw [List.filter_cons_of_neg hw] at hperm
        have hlen := hperm.length_eq
        have hlen' := hc.length_eq
        simp only [List.length_append, List.length_cons, List.length_nil, List.filter_nil,
          List.map_nil] at hlen hlen'
        omega
    · rw [queueOrWrite_refused net h.sys hconn hn]
      refine iff_of_true ?_ fun conn' hconn' hn' => ?_
      · have hw : ¬ Sent.whole ⟨conn, line, h.sys.answer net conn line⟩ = true := by
          simp only [Sent.whole, decide_eq_true_eq]
          exact fun hwhole => hn (answer_of_whole net h.sys hwhole)
        rw [List.filter_cons_of_neg hw]
        simpa using hstored (h.sys.written net conn line) rfl
      · obtain rfl := Option.some.inj hconn'
        exact absurd hn' hn

theorem History.Conserved.act_iff (hc : h.Conserved) (a : Action W) :
    (h.act net a).Conserved ↔ a.HonestAnswer net h.sys := by
  cases a with
  | offer line => exact hc.offer_iff line
  | flush => exact iff_of_true hc.flush trivial
  | pop => exact iff_of_true hc.pop trivial
  | quiet change => exact iff_of_true (hc.quiet change) trivial

end Steps

/-! ## Calls and events -/

/-- The answers to the lines of a call or event are honest. -/
def History.HonestAnswers (net : Net W) (h : History W) (op : ClientOp W) : Prop :=
  ∀ p ∈ Run.steps (act net) h (op.program net h.sys), Action.HonestAnswer net p.1.sys p.2

section Calls

variable {net : Net W} {sys : ClientSystem W}

theorem honestAnswer_of_lt {line : Text} (h : line.length < 2 ^ 31) :
    Action.HonestAnswer net sys (.offer line) := by
  intro conn _ hn
  rw [hn, toInt32_of_lt h]

theorem makeRecord_length {cap : ℕ} {pieces : List Text} {line : Text}
    (h : Client.makeRecord cap pieces = some line) : line.length < cap := by
  unfold Client.makeRecord at h
  dsimp only at h
  split_ifs at h with hfits
  rw [← Option.some.inj h]
  have hle := (List.takeWhile_prefix (fun c : Byte => decide (c ≠ 0))
    (l := pieces.foldl (Client.appendRaw cap) [])).length_le
  unfold cstr
  omega

/-- The line of a call other than `send_raw` has a bounded size. -/
theorem record_length {line : Option Text}
    (h : ∃ pieces, line = Client.makeRecord Client.maxLineSize pieces) :
    ∀ l, line = some l → l.length < 2 ^ 31 := by
  rintro l rfl
  obtain ⟨pieces, hp⟩ := h
  exact (makeRecord_length hp.symm).trans (by decide)

theorem watchLine_record (name : Text) (periodSeconds : Real) :
    ∃ pieces, Client.watchLine name periodSeconds =
      Client.makeRecord Client.maxLineSize pieces := by
  unfold Client.watchLine Client.makeWatchPeriod
  split_ifs <;> exact ⟨_, rfl⟩

theorem honest_offers {line : Option Text}
    (h : ∃ pieces, line = Client.makeRecord Client.maxLineSize pieces) :
    ∀ a ∈ ClientOp.offers (W := W) line, ∀ sys, Action.HonestAnswer net sys a := by
  intro a ha sys
  cases line with
  | none => exact absurd ha List.not_mem_nil
  | some l =>
    rw [List.mem_singleton.mp ha]
    exact honestAnswer_of_lt (record_length h l rfl)

/-- Only `send_raw` hands on lines of any size. -/
theorem honest_program (op : ClientOp W) (hop : ∀ line, op ≠ .sendRaw line) :
    ∀ a ∈ op.program net sys, ∀ sys, Action.HonestAnswer net sys a := by
  have hrecord : ∀ (name json : Text), ∃ pieces,
      Client.makeRecordRaw Client.maxLineSize name json =
        Client.makeRecord Client.maxLineSize pieces := fun name json => ⟨_, rfl⟩
  cases op with
  | watch name periodSeconds =>
    intro a ha sys
    rcases List.mem_cons.mp ha with rfl | ha
    · trivial
    · exact honest_offers (watchLine_record name periodSeconds) a ha sys
  | unwatch name =>
    intro a ha sys
    rcases List.mem_cons.mp ha with rfl | ha
    · trivial
    · exact honest_offers ⟨_, rfl⟩ a ha sys
  | set name wireValue => exact honest_offers (hrecord name wireValue)
  | setBool name value => exact honest_offers (hrecord name _)
  | setReal name value => exact honest_offers (hrecord name _)
  | setString name value => exact honest_offers (hrecord name _)
  | sendRaw line => exact absurd rfl (hop line)
  | onConnect conn =>
    intro a ha sys
    rcases List.mem_cons.mp ha with rfl | ha
    · trivial
    · rcases List.mem_cons.mp ha with rfl | ha
      · trivial
      · obtain ⟨watch, -, ha⟩ := List.mem_flatMap.mp ha
        split_ifs at ha
        · exact honest_offers (watchLine_record _ _) a ha sys
        · exact absurd ha List.not_mem_nil
  | popOutgoing | onClose _ | onError _ | close | environment _ =>
    intro a ha sys
    rw [List.mem_singleton.mp ha]
    trivial

end Calls

/-- A call or event conserves the lines exactly when the answers to it are honest. -/
theorem History.Conserved.step_iff {net : Net W} {h : History W} (hc : h.Conserved)
    (op : ClientOp W) : (h.step net op).Conserved ↔ h.HonestAnswers net op := by
  by_cases hop : ∃ line, op = .sendRaw line
  · obtain ⟨line, rfl⟩ := hop
    show (h.act net (.offer line)).Conserved ↔
      ∀ p ∈ [(h, Action.offer line)], Action.HonestAnswer net p.1.sys p.2
    rw [hc.offer_iff, List.forall_mem_singleton]
  · have hhonest : h.HonestAnswers net op := by
      have hall := (Run.forall_steps_iff (History.act net)
        (C := fun a => ∀ sys, Action.HonestAnswer net sys a) h (op.program net h.sys)).mpr
        (honest_program op fun line heq => hop ⟨line, heq⟩)
      exact fun p hp => hall p hp p.1.sys
    refine iff_of_true ?_ hhonest
    exact Run.foldl_invariant (I := History.Conserved)
      (C := fun h a => Action.HonestAnswer net h.sys a)
      (fun _ a hc ha => (hc.act_iff a).mpr ha) hc hhonest

/-- **Conservation.** The accepted lines are the lines that connections took whole, those that were popped
and those that wait, throughout a run exactly when no line of it is refused with its size cast to `int`
for an answer. -/
theorem conserved_iff (net : Net W) (world : W) (ops : List (ClientOp W)) :
    (∀ h ∈ Run.states (History.step net) (.start world) ops, h.Conserved) ↔
      ∀ p ∈ Run.steps (History.step net) (.start world) ops, p.1.HonestAnswers net p.2 :=
  Run.states_invariant_iff (fun _ op hc => hc.step_iff op) (conserved_start world) ops

/-- A connection that takes nothing. -/
def refusing : Net Unit where
  valid _ _ := true
  write _ _ w := (0, w)
  close _ w := w
  write_int _ _ _ := zero_int

/-- A line of `2 ^ 32` bytes is accepted by a client whose connection has taken nothing of it. -/
theorem giant_line_lost :
    refusing.AllOrNothing ∧
      ¬ ∀ h ∈ Run.states (History.step refusing) (.start ())
        [.onConnect 1, .sendRaw (List.replicate (2 ^ 32) 0)], h.Conserved := by
  refine ⟨fun _ _ _ => .inr le_rfl, fun hall => ?_⟩
  have hopen : ((History.start ()).step refusing (.onConnect 1)).Conserved :=
    hall _ (List.mem_cons_of_mem _ List.mem_cons_self)
  have hsent := hall _ (List.mem_cons_of_mem _ (List.mem_cons_of_mem _ List.mem_cons_self))
  have hhonest := (hopen.offer_iff (List.replicate (2 ^ 32) 0)).mp hsent
  have hzero := hhonest 1 rfl (by rw [List.length_replicate]; rfl)
  rw [List.length_replicate] at hzero
  exact absurd hzero (by decide)

end Pypilot
