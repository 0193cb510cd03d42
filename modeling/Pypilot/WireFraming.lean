import Pypilot.Outbox

/-!
# Lines on the wire

A connection may take a part of a line. The client then keeps the whole line and goes on with other
lines, so the stream on a connection stays a stream of lines only when nothing follows a line that was
cut short, and when the line cut short is one that the client keeps (`Unbroken`).
-/

namespace Pypilot

open Text SlotTable ClientSystem

variable {W : Type}

/-! ## Streams -/

/-- Connections whose writes take some number of the bytes offered, from none to all. -/
def Net.Partial (net : Net W) : Prop :=
  ∀ conn bytes w, 0 ≤ (net.write conn bytes w).1 ∧ (net.write conn bytes w).1 ≤ bytes.length

/-- The bytes of a write that are sent. -/
def Sent.part (e : Sent) : Text := e.bytes.take e.taken.toNat

/-- The bytes sent on a connection. -/
def sentOn (conn : ConnId) (log : List Sent) : Text :=
  (log.filter fun e => e.conn = conn).flatMap Sent.part

/-- No connection takes bytes after a line that it cut short. -/
def Unbroken (log : List Sent) : Prop :=
  log.Pairwise fun e e' => e.short = true → e'.conn = e.conn → e'.taken = 0

instance (log : List Sent) : Decidable (Unbroken log) :=
  inferInstanceAs (Decidable (List.Pairwise _ _))

/-- The answer of a write is a number of bytes of its line. -/
def Sent.Bounded (e : Sent) : Prop := 0 ≤ e.taken ∧ e.taken ≤ e.bytes.length

theorem Sent.part_of_none {e : Sent} (h : e.taken = 0) : e.part = [] := by
  rw [Sent.part, h]
  exact List.take_zero

theorem Sent.part_of_whole {e : Sent} (h : e.taken = e.bytes.length) : e.part = e.bytes := by
  rw [Sent.part, h, Int.toNat_natCast, List.take_length]

theorem sentOn_cons (conn : ConnId) (e : Sent) (log : List Sent) :
    sentOn conn (e :: log) = (if e.conn = conn then e.part else []) ++ sentOn conn log := by
  unfold sentOn
  by_cases h : e.conn = conn <;> simp [h]

/-- A connection that takes nothing sends nothing. -/
theorem sentOn_eq_nil {conn : ConnId} {log : List Sent}
    (h : ∀ e ∈ log, e.conn = conn → e.taken = 0) : sentOn conn log = [] := by
  unfold sentOn
  rw [List.flatMap_eq_nil_iff]
  intro e he
  rw [List.mem_filter, decide_eq_true_eq] at he
  exact Sent.part_of_none (h e he.1 he.2)

/-- The stream of a connection that takes nothing after a line cut short is one of whole lines, up to
its end. -/
theorem openConcat_sentOn {P : Text → Prop} {log : List Sent} (hlog : Unbroken log)
    (hbound : ∀ e ∈ log, e.Bounded) (hP : ∀ e ∈ log, 0 < e.taken → P e.bytes) (conn : ConnId) :
    Lines.OpenConcat P (sentOn conn log) := by
  induction log with
  | nil => exact (Lines.concat_nil P).open
  | cons e log ih =>
    obtain ⟨hafter, hlog⟩ := List.pairwise_cons.mp hlog
    obtain ⟨hlow, hhigh⟩ := hbound e List.mem_cons_self
    have hrest := ih hlog (fun e he => hbound e (List.mem_cons_of_mem _ he))
      (fun e he => hP e (List.mem_cons_of_mem _ he))
    rw [sentOn_cons]
    by_cases hconn : e.conn = conn
    · rw [if_pos hconn]
      by_cases hnone : e.taken = 0
      · rw [Sent.part_of_none hnone]
        exact hrest
      · have hline : P e.bytes := hP e List.mem_cons_self (by omega)
        by_cases hwhole : e.taken = e.bytes.length
        · rw [Sent.part_of_whole hwhole]
          exact hrest.cons hline
        · -- the line is cut short, and nothing follows it on this connection
          have hshort : e.short = true := by
            unfold Sent.short
            rw [decide_eq_true_eq]
            omega
          rw [sentOn_eq_nil fun e' he' hc => hafter e' he' hshort (hc.trans hconn.symm),
            List.append_nil]
          exact Lines.openConcat_part hline (List.take_prefix _ _)
    · rw [if_neg hconn]
      exact hrest

/-! ## Actions -/

/-- The line handed to `queue_or_write`. -/
def Action.offered : Action W → List Text
  | offer line => [line]
  | _ => []

/-- The action leaves the streams of lines intact: no connection takes bytes after a line that it cut
short, and a line that is cut short when it is offered has room in the store. -/
def Action.KeepsLines (net : Net W) (sys : ClientSystem W) (a : Action W) : Prop :=
  Unbroken (sys.wire.log ++ a.writes net sys) ∧
    ∀ line ∈ a.offered, (a.writes net sys).any Sent.short = true → sys.hasRoom line = true

instance (net : Net W) (sys : ClientSystem W) (a : Action W) : Decidable (a.KeepsLines net sys) :=
  inferInstanceAs (Decidable (_ ∧ _))

/-- All actions of a call or event leave the streams of lines intact. -/
def History.KeepsLines (net : Net W) (h : History W) (op : ClientOp W) : Prop :=
  ∀ p ∈ Run.steps (act net) h (op.program net h.sys), Action.KeepsLines net p.1.sys p.2

instance (net : Net W) (h : History W) (op : ClientOp W) : Decidable (h.KeepsLines net op) :=
  inferInstanceAs (Decidable (∀ _ ∈ _, _))

/-- Lines that have been sent, in whole or in part, and lines that wait were accepted. -/
structure History.Framed (h : History W) : Prop where
  unbroken : Unbroken h.sys.wire.log
  bounded : ∀ e ∈ h.sys.wire.log, e.Bounded
  sent : ∀ e ∈ h.sys.wire.log, 0 < e.taken → e.bytes ∈ h.accepted
  waiting : ∀ line ∈ h.sys.waiting, line ∈ h.accepted

theorem framed_start (world : W) : (History.start world).Framed where
  unbroken := List.Pairwise.nil
  bounded := by simp [History.start]
  sent := by simp [History.start]
  waiting := by
    intro line hline
    have hnone : (History.start world).sys.waiting = [] := rfl
    exact absurd (hnone ▸ hline) List.not_mem_nil

/-- What waits after `queue_line` waited before, or is the line taken. -/
theorem mem_queueLine_waiting {sys : ClientSystem W} {line l : Text}
    (h : l ∈ (sys.queueLine line).2.waiting) :
    l ∈ sys.waiting ∨ l = line ∧ (sys.queueLine line).1 = true := by
  by_cases hroom : sys.hasRoom line = true
  · obtain ⟨slot, hact, hbytes, hq⟩ := queueLine_of_room sys hroom
    rw [hq] at h ⊢
    unfold ClientSystem.waiting at h ⊢
    dsimp only at h
    rw [update_toList] at h
    obtain ⟨slot', hslot', rfl⟩ := List.mem_map.mp h
    obtain ⟨hmem, hact'⟩ := List.mem_filter.mp hslot'
    rcases mem_updateFirst hmem with hold | ⟨-, -, -, rfl⟩
    · exact .inl (List.mem_map_of_mem (List.mem_filter.mpr ⟨hold, hact'⟩))
    · exact .inr ⟨hbytes, rfl⟩
  · rw [queueLine_of_no_room sys (by simpa using hroom)] at h
    exact .inl h

theorem mem_popOutgoing_waiting {sys : ClientSystem W} {l : Text}
    (h : l ∈ sys.popOutgoing.2.waiting) : l ∈ sys.waiting := by
  unfold popOutgoing at h
  dsimp only at h
  split at h
  · exact h
  · unfold ClientSystem.waiting at h ⊢
    dsimp only at h
    rw [update_toList, @filter_updateFirst_active _ PendingLine.active {} rfl] at h
    obtain ⟨slot, hslot, rfl⟩ := List.mem_map.mp h
    exact List.mem_map_of_mem (List.mem_of_mem_tail hslot)

/-- What waits after an action waited before or has just been accepted. -/
theorem Action.mem_waiting_run (net : Net W) {sys : ClientSystem W} {a : Action W} {l : Text}
    (h : l ∈ (a.run net sys).waiting) : l ∈ sys.waiting ∨ l ∈ a.accepts net sys := by
  cases a with
  | offer line =>
    have hqueue : ∀ sys' : ClientSystem W, sys.queueOrWrite net line = sys'.queueLine line →
        sys'.waiting = sys.waiting → l ∈ sys.waiting ∨ l ∈ (offer line).accepts net sys := by
      intro sys' heq hsame
      have h' : l ∈ (sys.queueOrWrite net line).2.waiting := h
      rw [heq] at h'
      rcases mem_queueLine_waiting h' with hold | ⟨rfl, htrue⟩
      · exact .inl (hsame ▸ hold)
      · refine .inr ?_
        show l ∈ if (sys.queueOrWrite net l).1 then [l] else []
        rw [heq, htrue]
        exact List.mem_singleton.mpr rfl
    cases hc : sys.connected net with
    | none => exact hqueue sys (queueOrWrite_disconnected net sys hc) rfl
    | some conn =>
      by_cases hn : sys.answer net conn line = toInt32 line.length
      · have h' : l ∈ (sys.queueOrWrite net line).2.waiting := h
        rw [queueOrWrite_taken net sys hc hn, written_waiting] at h'
        exact .inl h'
      · exact hqueue _ (queueOrWrite_refused net sys hc hn) (written_waiting net sys conn line)
  | flush =>
    have h' : l ∈ (sys.flushPending net).waiting := h
    obtain ⟨-, ⟨-, hsame⟩ | ⟨hbytes, -, hrest⟩⟩ := flush_cases net sys
    · exact .inl (hsame ▸ h')
    · rw [hrest] at h'
      rw [← hbytes]
      obtain ⟨e, he, rfl⟩ := List.mem_map.mp h'
      exact .inl (List.mem_map_of_mem (List.mem_of_mem_filter he))
  | pop => exact .inl (mem_popOutgoing_waiting h)
  | quiet change =>
    have hsame : (change.run sys).waiting = sys.waiting := by
      unfold ClientSystem.waiting
      rw [change.pending]
    have h' : l ∈ (change.run sys).waiting := h
    exact .inl (hsame ▸ h')

/-- A line of which a connection takes something waited before or has just been accepted. -/
theorem Action.mem_accepts_of_taken {net : Net W} (hnet : net.Partial) {sys : ClientSystem W}
    {a : Action W} (ha : a.KeepsLines net sys) {e : Sent} (he : e ∈ a.writes net sys)
    (htaken : 0 < e.taken) : e.bytes ∈ sys.waiting ∨ e.bytes ∈ a.accepts net sys := by
  obtain ⟨-, hroom⟩ := ha
  cases a with
  | offer line =>
    cases hc : sys.connected net with
    | none =>
      rw [Action.writes_offer_disconnected net sys hc] at he
      exact absurd he List.not_mem_nil
    | some conn =>
      rw [Action.writes_offer net sys hc] at he hroom
      obtain rfl := List.mem_singleton.mp he
      refine .inr ?_
      have haccepts : (sys.queueOrWrite net line).1 = true → line ∈ (offer line).accepts net sys := by
        intro htrue
        show line ∈ if (sys.queueOrWrite net line).1 then [line] else []
        rw [htrue]
        exact List.mem_singleton.mpr rfl
      by_cases hn : sys.answer net conn line = toInt32 line.length
      · exact haccepts (by rw [queueOrWrite_taken net sys hc hn])
      · -- fewer bytes than the line has: an `int` counts a whole line exactly
        have hbound := hnet conn line sys.wire.world
        have hshort : 0 < sys.answer net conn line ∧ sys.answer net conn line < line.length :=
          ⟨htaken, lt_of_le_of_ne hbound.2 fun hall => hn (answer_of_whole net sys hall)⟩
        have hfits : sys.hasRoom line = true :=
          hroom line (List.mem_singleton.mpr rfl) (by simpa [Sent.short] using hshort)
        obtain ⟨slot, -, -, hq⟩ := queueLine_of_room (sys.written net conn line)
          (show (sys.written net conn line).hasRoom line = true from hfits)
        exact haccepts (by rw [queueOrWrite_refused net sys hc hn, hq])
  | flush =>
    obtain ⟨-, ⟨hw, -⟩ | ⟨hbytes, -⟩⟩ := flush_cases net sys
    · rw [hw] at he
      exact absurd he List.not_mem_nil
    · rw [← hbytes]
      exact .inl (List.mem_map_of_mem he)
  | pop =>
    rw [Action.writes_pop] at he
    exact absurd he List.not_mem_nil
  | quiet change =>
    rw [Action.writes_quiet] at he
    exact absurd he List.not_mem_nil

theorem History.Framed.act {net : Net W} (hnet : net.Partial) {h : History W} (hf : h.Framed)
    {a : Action W} (ha : Action.KeepsLines net h.sys a) : (h.act net a).Framed := by
  obtain ⟨hlog, hanswer⟩ := Action.run_log net h.sys a
  have hold : ∀ {l}, l ∈ h.accepted → l ∈ (h.act net a).accepted := List.mem_append_left _
  have hnew : ∀ {l}, l ∈ h.sys.waiting ∨ l ∈ a.accepts net h.sys → l ∈ (h.act net a).accepted :=
    fun hl => hl.elim (fun hl => hold (hf.waiting _ hl)) (List.mem_append_right _)
  refine ⟨?_, ?_, ?_, fun l hl => hnew (Action.mem_waiting_run net hl)⟩
  · show Unbroken (a.run net h.sys).wire.log
    rw [hlog]
    exact ha.1
  · show ∀ e ∈ (a.run net h.sys).wire.log, _
    rw [hlog]
    intro e he
    rcases List.mem_append.mp he with he | he
    · exact hf.bounded e he
    · obtain ⟨w, hw⟩ := hanswer e he
      unfold Sent.Bounded
      rw [hw]
      exact hnet _ _ _
  · show ∀ e ∈ (a.run net h.sys).wire.log, _
    rw [hlog]
    intro e he htaken
    rcases List.mem_append.mp he with he | he
    · exact hold (hf.sent e he htaken)
    · exact hnew (Action.mem_accepts_of_taken hnet ha he htaken)

/-! ## Runs -/

/-- **Lines on the wire.** In a run whose calls and events leave the streams intact, what has been sent
on a connection is at every moment a sequence of accepted lines, the last one perhaps unfinished. -/
theorem sentOn_openConcat (net : Net W) (hnet : net.Partial) (world : W) (ops : List (ClientOp W))
    (hkeep : ∀ p ∈ Run.steps (History.step net) (.start world) ops, p.1.KeepsLines net p.2) :
    ∀ h ∈ Run.states (History.step net) (.start world) ops, ∀ conn,
      Lines.OpenConcat (· ∈ h.accepted) (sentOn conn h.sys.wire.log) := by
  intro h hh conn
  have hf : h.Framed :=
    History.run_invariant net (C := fun h a => Action.KeepsLines net h.sys a)
      (fun _ _ hf ha => History.Framed.act hnet hf ha) (framed_start world) hkeep h hh
  exact openConcat_sentOn hf.unbroken hf.bounded hf.sent conn

/-- Connections that are always valid and take as many bytes as a script says, if the line has so
many. -/
def metered : Net (List ℕ) where
  valid _ _ := true
  write _ bytes script := (min (min (script.headD 0) bytes.length) 4095, script.tail)
  close _ script := script
  write_int _ bytes script := by
    dsimp only
    omega

theorem metered_bounded : metered.Partial := by
  intro _ bytes script
  dsimp only [metered]
  omega

/-- A line cut short is sent again, whole, on the next connection. -/
theorem sentOn_openConcat_session :
    metered.Partial ∧
      ∀ h ∈ Run.states (History.step metered) (.start [17, 3, 99])
          [.onConnect 1, .setBool (lit "ap.enabled") false, .setReal (lit "servo.command") 0,
            .onError 1, .onConnect 2],
        ∀ conn, Lines.OpenConcat (· ∈ h.accepted) (sentOn conn h.sys.wire.log) :=
  ⟨metered_bounded, sentOn_openConcat metered metered_bounded _ _ (by decide +kernel)⟩

/-- The connection takes five bytes of the first line and then all of the second. -/
theorem torn_line_on_wire :
    metered.Partial ∧
      ∃ h ∈ Run.states (History.step metered) (.start [5, 99])
          [.onConnect 1, .setBool (lit "ap.enabled") false, .setReal (lit "servo.command") 0],
        h.accepted = [lit "ap.enabled=false\n", lit "servo.command=0\n"] ∧
          sentOn 1 h.sys.wire.log = lit "ap.enservo.command=0\n" ∧
          ¬ Lines.OpenConcat (· ∈ h.accepted) (sentOn 1 h.sys.wire.log) := by
  refine ⟨metered_bounded, _, Run.foldl_mem_states _ _ _, by decide +kernel, by decide +kernel, ?_⟩
  intro hopen
  -- the stream does not begin like either line
  rcases hopen.head with hnil | ⟨l, hl, -, hpre⟩
  · exact absurd hnil (by decide +kernel)
  · revert l
    decide +kernel

end Pypilot
