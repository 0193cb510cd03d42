import Pypilot.Conservation
import Pypilot.WatchLines

/-!
# Watches across a reconnect

A client without a connection keeps the first sixteen lines of its calls and remembers the watches of all
of them. After a reconnect the server has followed the lines that were kept and then the watches that are
remembered, so a watch whose line was kept and whose unwatch was not stays behind at the server
(`agree_after_reconnect_iff`).
-/

namespace Pypilot

open Text SlotTable Client Server

variable {W : Type}

/-! ## The watches of the client -/

namespace ClientSystem

/-- The client has an active watch of the name. -/
def Remembers (sys : ClientSystem W) (name : Text) : Prop :=
  ∃ i, (sys.client.watches.get i).active = true ∧ (sys.client.watches.get i).name = name

/-- All names that the client remembers are registered. -/
def Registered (sys : ClientSystem W) : Prop :=
  ∀ name, sys.Remembers name → ∃ id : FieldId, id.entry.name = name

/-- The client can remember another watch. -/
def FreeWatch (sys : ClientSystem W) : Prop := ∃ i, (sys.client.watches.get i).active = false

variable (net : Net W) (sys : ClientSystem W)

theorem remembers_congr {sys sys' : ClientSystem W}
    (h : sys'.client.watches = sys.client.watches) (name : Text) :
    sys'.Remembers name ↔ sys.Remembers name := by
  unfold Remembers
  rw [h]

theorem queueLine_watches (line : Text) :
    (sys.queueLine line).2.client.watches = sys.client.watches := by
  unfold queueLine
  dsimp only
  split_ifs <;> rfl

theorem send_watches (line : Option Text) :
    (sys.send net line).client.watches = sys.client.watches := by
  cases line with
  | none => rfl
  | some line =>
    show (sys.queueOrWrite net line).2.client.watches = _
    unfold queueOrWrite
    split
    · exact queueLine_watches sys line
    · dsimp only
      split_ifs
      · rfl
      · exact queueLine_watches _ line

theorem onConnect_watches (conn : ConnId) :
    (sys.onConnect net conn).client.watches = sys.client.watches := by
  have hreplay : ∀ (watches : List ClientWatch) (sys' : ClientSystem W),
      (watches.foldl (fun sys watch =>
        if watch.active then sys.send net (watchLine watch.name watch.periodSeconds) else sys)
        sys').client.watches = sys'.client.watches := by
    intro watches
    induction watches with
    | nil => exact fun _ => rfl
    | cons watch watches ih =>
      intro sys'
      rw [List.foldl_cons, ih]
      split_ifs
      · exact send_watches net sys' _
      · rfl
  exact (hreplay _ _).trans (flushPending_watches net _)

/-- The slot of the name gets the new period, or a free slot is taken, or there is none. -/
theorem rememberWatch_cases (name : Text) (periodSeconds : Real) :
    (∃ i, (sys.client.watches.get i).active = true ∧ (sys.client.watches.get i).name = name ∧
        (sys.rememberWatch name periodSeconds).client.watches =
          sys.client.watches.set i ⟨true, name, periodSeconds⟩) ∨
      ¬ sys.Remembers name ∧
        ((∃ i, (sys.client.watches.get i).active = false ∧
            (sys.rememberWatch name periodSeconds).client.watches = sys.client.watches.set i
              ⟨true, cstr (name.take (maxNameSize - 1)), periodSeconds⟩) ∨
          ¬ sys.FreeWatch ∧
            (sys.rememberWatch name periodSeconds).client.watches = sys.client.watches) := by
  have hwatches : (sys.rememberWatch name periodSeconds).client.watches =
      if sys.client.watches.toList.any fun watch => watch.active && decide (name = watch.name) then
        update (fun watch => watch.active && decide (name = watch.name))
          (fun watch => { watch with periodSeconds := periodSeconds }) sys.client.watches
      else
        update (fun watch => !watch.active)
          (fun _ => ⟨true, cstr (name.take (maxNameSize - 1)), periodSeconds⟩)
          sys.client.watches := by
    unfold rememberWatch
    dsimp only
    split_ifs <;> rfl
  rw [hwatches]
  rcases put_cases (fun watch : ClientWatch => watch.active && decide (name = watch.name))
      (fun watch => !watch.active) (fun watch => { watch with periodSeconds := periodSeconds })
      (fun _ => ⟨true, cstr (name.take (maxNameSize - 1)), periodSeconds⟩) sys.client.watches with
    ⟨i, hi, heq⟩ | ⟨hnone, hput⟩
  · rw [Bool.and_eq_true, decide_eq_true_eq] at hi
    refine .inl ⟨i, hi.1, hi.2.symm, heq.trans ?_⟩
    rw [hi.1, ← hi.2]
  · refine .inr ⟨?_, ?_⟩
    · rintro ⟨i, hact, hname⟩
      have hi := hnone i
      rw [hact, hname] at hi
      simp at hi
    · rcases hput with ⟨i, hi, heq⟩ | ⟨hfull, heq⟩
      · exact .inl ⟨i, by simpa using hi, heq⟩
      · refine .inr ⟨?_, heq⟩
        rintro ⟨i, hfree⟩
        have hi := hfull i
        rw [hfree] at hi
        exact absurd hi (by decide)

/-- A watch is added to the remembered ones when there is room for it. -/
theorem rememberWatch_remembers (id : FieldId) (periodSeconds : Real) (name : Text) :
    (sys.rememberWatch id.entry.name periodSeconds).Remembers name ↔
      id.entry.name = name ∧ sys.FreeWatch ∨ sys.Remembers name := by
  obtain ⟨-, -, -, -, hlen, hzero, -⟩ := field_name id
  have hcopy : cstr (id.entry.name.take (maxNameSize - 1)) = id.entry.name := by
    rw [List.take_of_length_le (hlen.trans (by decide)), cstr_eq_self hzero]
  have hset := fun (i : Fin maxClientWatches) (watch : ClientWatch) =>
    exists_get_set (Q := fun watch : ClientWatch => watch.active = true ∧ watch.name = name)
      (t := sys.client.watches) (i := i) (x := watch)
  rcases rememberWatch_cases sys id.entry.name periodSeconds with
    ⟨i, hact, hheld, heq⟩ | ⟨hnot, ⟨i, hfree, heq⟩ | ⟨hfull, heq⟩⟩
  · unfold Remembers
    rw [heq, hset i]
    constructor
    · rintro (⟨-, hname⟩ | ⟨j, -, hold⟩)
      · exact .inr ⟨i, hact, hheld.trans hname⟩
      · exact .inr ⟨j, hold⟩
    · rintro (⟨hname, -⟩ | ⟨j, hold⟩)
      · exact .inl ⟨rfl, hname⟩
      · by_cases hij : j = i
        · exact .inl ⟨rfl, hheld.symm.trans (hij ▸ hold.2)⟩
        · exact .inr ⟨j, hij, hold⟩
  · unfold Remembers
    rw [heq, hset i, hcopy]
    constructor
    · rintro (⟨-, hname⟩ | ⟨j, -, hold⟩)
      · exact .inl ⟨hname, i, hfree⟩
      · exact .inr ⟨j, hold⟩
    · rintro (⟨hname, -⟩ | ⟨j, hact, hname⟩)
      · exact .inl ⟨rfl, hname⟩
      · refine .inr ⟨j, ?_, hact, hname⟩
        rintro rfl
        exact absurd (hact.symm.trans hfree) (by decide)
  · rw [remembers_congr heq]
    exact (or_iff_right fun h => hfull h.2).symm

/-- A name that is unwatched is forgotten. -/
theorem forgetWatch_remembers (name name' : Text) :
    (sys.forgetWatch name).Remembers name' ↔ name ≠ name' ∧ sys.Remembers name' := by
  unfold Remembers forgetWatch
  dsimp only
  simp only [List.Vector.get_map]
  constructor
  · rintro ⟨i, hact, hname⟩
    split_ifs at hact hname with hheld
    rw [Bool.and_eq_true, decide_eq_true_eq] at hheld
    exact ⟨fun heq => hheld ⟨hact, heq.trans hname.symm⟩, i, hact, hname⟩
  · rintro ⟨hne, i, hact, hname⟩
    refine ⟨i, ?_⟩
    rw [if_neg (by rw [Bool.and_eq_true, decide_eq_true_eq]; rintro ⟨-, h⟩; exact hne (h.trans hname))]
    exact ⟨hact, hname⟩

end ClientSystem

namespace FieldCall

variable (net : Net W)

/-- What a call on a field makes of the remembered watches. -/
theorem run_remembers (sys : ClientSystem W) (call : FieldCall) (id : FieldId) :
    (call.op.run net sys).Remembers id.entry.name ↔
      call.tells id sys.FreeWatch (sys.Remembers id.entry.name) := by
  have hname : ∀ id' : FieldId, id'.entry.name = id.entry.name ↔ id = id' := by
    refine fun id' => ⟨fun heq => ?_, fun heq => by rw [heq]⟩
    have hentry := (find_entry id).symm.trans (heq ▸ find_entry id')
    rw [← entry_id id, ← entry_id id', Option.some.inj hentry]
  have hsend : ∀ (sys' : ClientSystem W) (line : Option Text),
      (sys'.send net line).Remembers id.entry.name ↔ sys'.Remembers id.entry.name :=
    fun sys' line => ClientSystem.remembers_congr (ClientSystem.send_watches net sys' line) _
  cases call with
  | watch id' periodSeconds =>
    show ((sys.rememberWatch _ _).send net _).Remembers _ ↔ _
    rw [hsend, ClientSystem.rememberWatch_remembers, hname]
    rfl
  | unwatch id' =>
    show ((sys.forgetWatch _).send net _).Remembers _ ↔ _
    rw [hsend, ClientSystem.forgetWatch_remembers, Ne, hname]
    rfl
  | set id' wireValue => exact hsend sys _
  | setBool id' value => exact hsend sys _
  | setReal id' value => exact hsend sys _
  | setString id' value => exact hsend sys _

/-- Only registered names come to be remembered. -/
theorem run_registered {sys : ClientSystem W} (call : FieldCall) (h : sys.Registered) :
    (call.op.run net sys).Registered := by
  have hsend : ∀ (sys' : ClientSystem W) (line : Option Text) (name : Text),
      (sys'.send net line).Remembers name ↔ sys'.Remembers name :=
    fun sys' line => ClientSystem.remembers_congr (ClientSystem.send_watches net sys' line)
  intro name hname
  cases call with
  | watch id' periodSeconds =>
    rcases (ClientSystem.rememberWatch_remembers sys id' periodSeconds name).mp
      ((hsend _ _ _).mp hname) with ⟨heq, -⟩ | hold
    · exact ⟨id', heq⟩
    · exact h name hold
  | unwatch id' =>
    exact h name ((ClientSystem.forgetWatch_remembers sys _ name).mp ((hsend _ _ _).mp hname)).2
  | set id' wireValue => exact h name ((hsend _ _ _).mp hname)
  | setBool id' value => exact h name ((hsend _ _ _).mp hname)
  | setReal id' value => exact h name ((hsend _ _ _).mp hname)
  | setString id' value => exact h name ((hsend _ _ _).mp hname)

/-- The client after some calls. -/
def run (sys : ClientSystem W) (calls : List FieldCall) : ClientSystem W :=
  calls.foldl (fun sys call => call.op.run net sys) sys

/-- The client remembers the watches that the calls leave. -/
theorem remembers_run (calls : List FieldCall) (sys : ClientSystem W) (id : FieldId) :
    (run net sys calls).Remembers id.entry.name ↔
      leaves (sys.Remembers id.entry.name) (fun before => (run net sys before).FreeWatch) calls
        id := by
  induction calls generalizing sys with
  | nil => rw [leaves_nil]; rfl
  | cons call calls ih =>
    rw [leaves_cons]
    have hfirst := propext (run_remembers net sys call id)
    rw [show (run net sys []).FreeWatch = sys.FreeWatch from rfl, ← hfirst]
    exact ih (call.op.run net sys)

theorem registered_run (calls : List FieldCall) {sys : ClientSystem W} (h : sys.Registered) :
    (run net sys calls).Registered :=
  Run.foldl_invariant (I := ClientSystem.Registered) (C := fun _ _ => True)
    (fun _ call h _ => run_registered net call h) h fun _ _ => trivial

/-! ## Calls without a connection -/

/-- The calls whose lines are kept without a connection: the first that make one. -/
def stored (calls : List FieldCall) : List FieldCall :=
  (calls.filter fun call => call.line.isSome).take maxPendingLines

/-- A client without a connection, with the lines that wait. -/
structure Offline (sys : ClientSystem W) (lines : List Text) : Prop where
  lost : sys.connected net = none
  packed : Packed PendingLine.active sys.client.pending.toList
  waiting : sys.waiting = lines

variable {net} {sys : ClientSystem W} {lines : List Text}

theorem Offline.length_le (h : Offline net sys lines) : lines.length ≤ maxPendingLines := by
  rw [← h.waiting, ClientSystem.waiting, List.length_map]
  exact (List.length_filter_le _ _).trans_eq sys.client.pending.toList_length

/-- The store takes the line of a call when fewer than sixteen lines wait. -/
theorem Offline.send (h : Offline net sys lines) {line : Option Text}
    (hline : ∀ l, line = some l → l.length < maxLineSize) :
    Offline net (sys.send net line) ((lines ++ line.toList).take maxPendingLines) := by
  cases line with
  | none =>
    rw [Option.toList_none, List.append_nil, List.take_of_length_le h.length_le]
    exact h
  | some line =>
    show Offline net (sys.queueOrWrite net line).2 _
    rw [ClientSystem.queueOrWrite_disconnected net sys h.lost]
    have hwaiting : sys.waiting ++ (if (sys.queueLine line).1 then [line] else []) =
        (sys.queueLine line).2.waiting := queueLine_waiting fun _ => h.packed
    by_cases hroom : sys.hasRoom line = true
    · obtain ⟨slot, hact, -, hq⟩ := ClientSystem.queueLine_of_room sys hroom
      rw [hq] at hwaiting ⊢
      refine ⟨h.lost, h.packed.updateFirst_free hact, ?_⟩
      rw [← hwaiting, if_pos rfl, h.waiting, Option.toList_some, List.take_of_length_le]
      have hfree := (any_free_iff _).mp (Bool.and_eq_true_iff.mp hroom).2
      rw [List.length_append, ← h.waiting, ClientSystem.waiting, List.length_map]
      exact hfree.trans_eq sys.client.pending.toList_length
    · rw [ClientSystem.queueLine_of_no_room sys (by simpa using hroom)]
      refine ⟨h.lost, h.packed, ?_⟩
      have hfull : lines.length = maxPendingLines := by
        refine le_antisymm h.length_le (not_lt.mp fun hlt => hroom ?_)
        unfold ClientSystem.hasRoom
        rw [Bool.and_eq_true, decide_eq_true_eq, any_free_iff]
        refine ⟨hline line rfl, ?_⟩
        rw [← h.waiting, ClientSystem.waiting, List.length_map] at hlt
        exact hlt.trans_eq sys.client.pending.toList_length.symm
      rw [h.waiting, ← hfull, List.take_left]

/-- What a call makes of the lines that wait. -/
theorem Offline.run (h : Offline net sys lines) (call : FieldCall) :
    Offline net (call.op.run net sys) ((lines ++ call.line.toList).take maxPendingLines) := by
  have hbounded : ∀ {line : Option Text}, (∃ pieces, line = makeRecord maxLineSize pieces) →
      ∀ l, line = some l → l.length < maxLineSize := by
    rintro line ⟨pieces, rfl⟩ l hl
    exact makeRecord_length hl
  cases call with
  | watch id periodSeconds =>
    have hremember : Offline net (sys.rememberWatch id.entry.name periodSeconds) lines := by
      refine ⟨?_, ?_, ?_⟩
      · rw [← h.lost]
        unfold ClientSystem.rememberWatch
        dsimp only
        split_ifs <;> rfl
      · rw [ClientSystem.rememberWatch_pending]
        exact h.packed
      · unfold ClientSystem.waiting
        rw [ClientSystem.rememberWatch_pending]
        exact h.waiting
    exact hremember.send (hbounded (watchLine_record _ _))
  | unwatch id =>
    have hforget : Offline net (sys.forgetWatch id.entry.name) lines := ⟨h.lost, h.packed, h.waiting⟩
    exact hforget.send (hbounded ⟨_, rfl⟩)
  | set id wireValue => exact h.send (hbounded ⟨_, rfl⟩)
  | setBool id value => exact h.send (hbounded ⟨_, rfl⟩)
  | setReal id value => exact h.send (hbounded ⟨_, rfl⟩)
  | setString id value => exact h.send (hbounded ⟨_, rfl⟩)

/-- The lines of the stored calls wait for a connection. -/
theorem Offline.foldl (h : Offline net sys lines) (calls : List FieldCall) :
    Offline net (FieldCall.run net sys calls)
      ((lines ++ calls.filterMap line).take maxPendingLines) := by
  induction calls generalizing sys lines with
  | nil =>
    rw [List.filterMap_nil, List.append_nil, List.take_of_length_le h.length_le]
    exact h
  | cons call calls ih =>
    have hrest := ih (h.run call)
    rw [take_append_take, List.append_assoc] at hrest
    rw [List.filterMap_cons]
    cases hline : call.line with
    | none => rw [hline] at hrest; exact hrest
    | some l => rw [hline] at hrest; exact hrest

theorem filterMap_stored (calls : List FieldCall) :
    (stored calls).filterMap line = (calls.filterMap line).take maxPendingLines := by
  unfold stored
  generalize maxPendingLines = n
  induction calls generalizing n with
  | nil => simp
  | cons call calls ih =>
    cases hline : call.line with
    | none => rw [List.filter_cons_of_neg (by simp [hline]), List.filterMap_cons_none hline, ih]
    | some l =>
      rw [List.filter_cons_of_pos (by simp [hline]), List.filterMap_cons_some hline]
      cases n with
      | zero => simp
      | succ n => rw [List.take_succ_cons, List.take_succ_cons, List.filterMap_cons_some hline, ih]

end FieldCall

/-! ## The lines of a reconnect -/

/-- Writes to the connection succeed. -/
def Net.Takes (net : Net W) (conn : ConnId) : Prop :=
  (∀ w, net.valid conn w = true) ∧
    ∀ bytes w, bytes.length < 2 ^ 31 → (net.write conn bytes w).1 = bytes.length

/-- The lines of a call or event that the connection takes whole. -/
def delivered (net : Net W) (sys : ClientSystem W) (op : ClientOp W) : List Text :=
  (((op.run net sys).wire.log.drop sys.wire.log.length).filter Sent.whole).map Sent.bytes

section Delivery

variable {net : Net W} {conn : ConnId} (hconn : net.Takes conn) {sys : ClientSystem W}

include hconn

theorem Net.Takes.connected (hc : sys.client.connection = some conn) :
    sys.connected net = some conn := by
  unfold ClientSystem.connected
  rw [hc, Option.filter_some, if_pos (hconn.1 _)]

theorem Net.Takes.offers (hc : sys.client.connection = some conn) {lines : List Text}
    (hlen : ∀ line ∈ lines, line.length < 2 ^ 31) :
    ((lines.map Action.offer).foldl (Action.run net) sys).wire.log =
      sys.wire.log ++ lines.map fun line => ⟨conn, line, line.length⟩ := by
  induction lines generalizing sys with
  | nil => exact (List.append_nil _).symm
  | cons line lines ih =>
    rw [List.forall_mem_cons] at hlen
    have hanswer : sys.answer net conn line = line.length := hconn.2 line _ hlen.1
    have hrun : Action.run net sys (.offer line) = sys.written net conn line := by
      show (sys.queueOrWrite net line).2 = _
      rw [ClientSystem.queueOrWrite_taken net sys (hconn.connected hc)
        (hanswer.trans (toInt32_of_lt hlen.1).symm)]
    have hnext : (sys.written net conn line).client.connection = some conn := hc
    rw [List.map_cons, List.foldl_cons, hrun, ih hnext hlen.2, ClientSystem.written_log, hanswer]
    simp

/-- The line that `replay_watches` writes for a watch. -/
def replayLine (watch : ClientWatch) : Option Text :=
  if watch.active then watchLine watch.name watch.periodSeconds else none

omit hconn in
theorem replayed_eq (watches : List ClientWatch) :
    ClientOp.replayed (W := W) watches = (watches.filterMap replayLine).map Action.offer := by
  induction watches with
  | nil => rfl
  | cons watch watches ih =>
    rw [ClientOp.replayed, List.flatMap_cons, ← ClientOp.replayed, ih, List.filterMap_cons]
    unfold replayLine
    split_ifs
    · cases watchLine watch.name watch.periodSeconds <;> rfl
    · rfl

/-- A reconnect delivers the waiting lines and then those of the remembered watches. -/
theorem Net.Takes.delivered :
    Pypilot.delivered net sys (.onConnect conn) =
      sys.waiting ++ sys.client.watches.toList.filterMap replayLine := by
  have hlen : ∀ line ∈ sys.client.watches.toList.filterMap replayLine, line.length < 2 ^ 31 := by
    intro line hline
    obtain ⟨watch, -, hwatch⟩ := List.mem_filterMap.mp hline
    unfold replayLine at hwatch
    split_ifs at hwatch
    exact record_length (watchLine_record _ _) line hwatch
  have hattached : (sys.attached conn).client.connection = some conn := rfl
  obtain ⟨hlog, hbytes, htaken, -⟩ :=
    flush_connected net (sys.attached conn) (hconn.connected hattached)
  have hflushed : ((sys.attached conn).flushPending net).client.connection = some conn := by
    unfold ClientSystem.flushPending
    rw [hconn.connected hattached]
    rfl
  have hwhole : ∀ e ∈ Action.flush.writes net (sys.attached conn), e.whole = true := by
    intro e he
    obtain ⟨-, w, hw⟩ := htaken e he
    have hshort : e.bytes.length < 2 ^ 31 := by
      have hmem : e.bytes ∈ (sys.attached conn).waiting := hbytes ▸ List.mem_map_of_mem he
      obtain ⟨slot, -, hslot⟩ := List.mem_map.mp hmem
      rw [← hslot]
      exact slot.fits.trans (by decide)
    exact decide_eq_true (hw.trans (hconn.2 e.bytes w hshort))
  have hrun : ((ClientOp.onConnect conn).run net sys).wire.log =
      sys.wire.log ++ (Action.flush.writes net (sys.attached conn) ++
        (sys.client.watches.toList.filterMap replayLine).map fun line =>
          ⟨conn, line, line.length⟩) := by
    rw [← ClientOp.run_program]
    show ((ClientOp.replayed sys.client.watches.toList).foldl (Action.run net)
      ((sys.attached conn).flushPending net)).wire.log = _
    rw [replayed_eq, hconn.offers hflushed hlen, hlog, List.append_assoc]
    rfl
  have hfull : ∀ line : Text, (Sent.mk conn line line.length).whole = true := fun line =>
    decide_eq_true rfl
  unfold Pypilot.delivered
  rw [hrun, List.drop_left, List.filter_append, List.filter_eq_self.mpr hwhole,
    List.filter_eq_self.mpr fun e he => by
      obtain ⟨line, -, rfl⟩ := List.mem_map.mp he
      exact hfull line,
    List.map_append, hbytes, List.map_map]
  exact congrArg (sys.waiting ++ ·) (List.map_id _)

end Delivery

/-- The watch call that a remembered watch stands for. -/
def replayCall (watch : ClientWatch) : Option FieldCall :=
  if watch.active then (find watch.name).map fun d => .watch d.id watch.periodSeconds else none

def replayCalls (sys : ClientSystem W) : List FieldCall :=
  sys.client.watches.toList.filterMap replayCall

section Replay

variable {sys : ClientSystem W}

theorem remembers_iff_mem (name : Text) :
    sys.Remembers name ↔
      ∃ watch ∈ sys.client.watches.toList, watch.active = true ∧ watch.name = name :=
  (exists_mem_toList (Q := fun watch : ClientWatch => watch.active = true ∧ watch.name = name)).symm

theorem replayCalls_line (h : sys.Registered) :
    (replayCalls sys).filterMap FieldCall.line =
      sys.client.watches.toList.filterMap replayLine := by
  unfold replayCalls
  rw [List.filterMap_filterMap]
  refine List.filterMap_congr fun watch hmem => ?_
  unfold replayCall replayLine
  split_ifs with hact
  · obtain ⟨id, hid⟩ := h watch.name ((remembers_iff_mem _).mpr ⟨watch, hmem, hact, rfl⟩)
    rw [← hid, find_entry, Option.map_some, Option.bind_some, entry_id]
    rfl
  · rfl

theorem replayCalls_watches :
    ∀ call ∈ replayCalls sys, ∃ id periodSeconds, call = .watch id periodSeconds := by
  intro call hcall
  obtain ⟨watch, -, hwatch⟩ := List.mem_filterMap.mp hcall
  unfold replayCall at hwatch
  split_ifs at hwatch
  obtain ⟨d, -, rfl⟩ := Option.map_eq_some_iff.mp hwatch
  exact ⟨d.id, watch.periodSeconds, rfl⟩

theorem mem_replayCalls (id : FieldId) :
    (∃ periodSeconds, .watch id periodSeconds ∈ replayCalls sys) ↔
      sys.Remembers id.entry.name := by
  rw [remembers_iff_mem]
  constructor
  · rintro ⟨periodSeconds, hcall⟩
    obtain ⟨watch, hmem, hwatch⟩ := List.mem_filterMap.mp hcall
    unfold replayCall at hwatch
    split_ifs at hwatch with hact
    obtain ⟨d, hd, hid⟩ := Option.map_eq_some_iff.mp hwatch
    obtain ⟨hentry, hname⟩ := find_eq_some hd
    refine ⟨watch, hmem, hact, ?_⟩
    rw [← hname, ← (FieldCall.watch.inj hid).1, ← hentry]
  · rintro ⟨watch, hmem, hact, hname⟩
    refine ⟨watch.periodSeconds, List.mem_filterMap.mpr ⟨watch, hmem, ?_⟩⟩
    unfold replayCall
    rw [if_pos hact, hname, find_entry, Option.map_some, entry_id]

end Replay

/-! ## The server -/

section Agreement

variable {V : Type} (m : Machine) (out : ValueWriter V)

/-- Lines handled one after the other, each at its clock reading. -/
def handleLines (p : Store × V) (lines : List (Text × ℕ)) : Store × V :=
  lines.foldl (fun p line => (handleLine m line.1 line.2 out p.1 p.2).2) p

/-- The server watches what the calls behind the lines leave watched. -/
theorem handleLines_watched {calls : List FieldCall} (hmade : ∀ call ∈ calls, call.line.isSome = true)
    {lines : List (Text × ℕ)} (hlines : lines.map Prod.fst = calls.filterMap FieldCall.line)
    {p : Store × V} (hs : p.1.SingleWatches) (id : FieldId) :
    (handleLines m out p lines).1.Watched id ↔
      FieldCall.leaves (p.1.Watched id) (fun _ => True) calls id := by
  induction calls generalizing lines p with
  | nil =>
    rw [List.map_eq_nil_iff.mp hlines, FieldCall.leaves_nil]
    rfl
  | cons call calls ih =>
    rw [List.forall_mem_cons] at hmade
    obtain ⟨text, htext⟩ := Option.isSome_iff_exists.mp hmade.1
    rw [List.filterMap_cons_some htext] at hlines
    obtain ⟨line, rest, rfl, hline, hrest⟩ := List.map_eq_cons_iff.mp hlines
    have hsingle := singleWatches_handleLine m line.1 line.2 out hs p.2
    have hwatched := FieldCall.handleLine_watched m line.2 out p.2 hs 
      (htext.trans (congrArg some hline.symm)) id
    rw [FieldCall.leaves_cons, ← propext hwatched]
    exact ih hmade.2 hrest hsingle

/-- The server watches the field of the name. -/
def Store.Watches (s : Store) (name : Text) : Prop := ∃ id, s.Watched id ∧ id.entry.name = name

/-- Client and server agree on the names that are watched. -/
def Agree (sys : ClientSystem W) (s : Store) : Prop :=
  ∀ name, s.Watches name ↔ sys.Remembers name

theorem watches_iff (s : Store) (id : FieldId) : s.Watches id.entry.name ↔ s.Watched id := by
  constructor
  · rintro ⟨id', hwatched, hname⟩
    have hentry := (find_entry id').symm.trans (hname ▸ find_entry id)
    rw [← entry_id id, ← Option.some.inj hentry, entry_id]
    exact hwatched
  · exact fun h => ⟨id, h, rfl⟩

/-- Where only registered names are remembered, agreement is a matter of the fields. -/
theorem agree_iff {sys : ClientSystem W} (h : sys.Registered) (s : Store) :
    Agree sys s ↔ ∀ id, s.Watched id ↔ sys.Remembers id.entry.name := by
  constructor
  · exact fun hagree id => (watches_iff s id).symm.trans (hagree id.entry.name)
  · intro hall name
    constructor
    · rintro ⟨id, hwatched, rfl⟩
      exact (hall id).mp hwatched
    · intro hname
      obtain ⟨id, rfl⟩ := h name hname
      exact (watches_iff s id).mpr ((hall id).mpr hname)

theorem Agree.registered {sys : ClientSystem W} {s : Store} (h : Agree sys s) : sys.Registered := by
  intro name hname
  obtain ⟨id, -, hid⟩ := (h name).mpr hname
  exact ⟨id, hid⟩

end Agreement

/-- **Reconnects.** Client and server that agreed when the connection was lost agree after a reconnect
exactly when all fields that the stored calls leave watched are remembered by the client: a field is left
watched when it was at the loss or by a call, and is not unwatched behind that. -/
theorem agree_after_reconnect_iff {V : Type} (m : Machine) (net : Net W) {conn : ConnId}
    (hconn : net.Takes conn) {sys : ClientSystem W} (hlost : sys.connected net = none)
    (hpending : sys.waiting = []) (out : ValueWriter V) (st : PypilotState)
    (history : List ServerCall) {s : Store}
    (hs : s ∈ Run.states (fun s call => ServerCall.step m s call) (create m st {}) history)
    (hagree : Agree sys s) (calls : List FieldCall) (v : V) (handled : List (Text × ℕ))
    (hhandled : handled.map Prod.fst =
      delivered net (FieldCall.run net sys calls) (.onConnect conn)) :
    Agree ((FieldCall.run net sys calls).onConnect net conn) (handleLines m out (s, v) handled).1 ↔
      ∀ id, FieldCall.leaves (s.Watched id) (fun _ => True) (FieldCall.stored calls) id →
        FieldCall.leaves (s.Watched id) (fun before => (FieldCall.run net sys before).FreeWatch)
          calls id := by
  have hsingle := singleWatches_states m st history s hs
  have hregistered : (FieldCall.run net sys calls).Registered :=
    FieldCall.registered_run net calls hagree.registered
  have hoffline : FieldCall.Offline net sys [] :=
    ⟨hlost, packed_of_filter_eq_nil (List.map_eq_nil_iff.mp hpending), hpending⟩
  have hwaiting : (FieldCall.run net sys calls).waiting =
      (FieldCall.stored calls).filterMap FieldCall.line := by
    rw [(hoffline.foldl calls).waiting, List.nil_append, FieldCall.filterMap_stored]
  -- the delivered lines are those of the stored calls and of a watch call for each remembered watch
  have hlines : handled.map Prod.fst = (FieldCall.stored calls ++
      replayCalls (FieldCall.run net sys calls)).filterMap FieldCall.line := by
    rw [hhandled, hconn.delivered, hwaiting, List.filterMap_append, replayCalls_line hregistered]
  have hmade : ∀ call ∈ FieldCall.stored calls ++ replayCalls (FieldCall.run net sys calls),
      call.line.isSome = true := by
    intro call hcall
    rcases List.mem_append.mp hcall with hcall | hcall
    · exact (List.mem_filter.mp (List.mem_of_mem_take hcall)).2
    · obtain ⟨id, periodSeconds, rfl⟩ := replayCalls_watches call hcall
      rw [line_watch]
      rfl
  have hafter : ((FieldCall.run net sys calls).onConnect net conn).client.watches =
      (FieldCall.run net sys calls).client.watches := ClientSystem.onConnect_watches net _ conn
  have hremembers := ClientSystem.remembers_congr hafter
  have hregistered' : ((FieldCall.run net sys calls).onConnect net conn).Registered :=
    fun name hname => hregistered name ((hremembers name).mp hname)
  rw [agree_iff hregistered']
  refine forall_congr' fun id => ?_
  have hfirst := propext ((agree_iff hagree.registered s).mp hagree id)
  rw [handleLines_watched m out hmade hlines hsingle,
    FieldCall.leaves_append_watches replayCalls_watches, mem_replayCalls, hremembers,
    or_iff_right_iff_imp, FieldCall.remembers_run, ← hfirst]

/-! ### A session -/

instance (s : Store) (id : FieldId) : Decidable (s.Watched id) :=
  inferInstanceAs (Decidable (∃ _, _ ∧ _))

instance (sys : ClientSystem W) (name : Text) : Decidable (sys.Remembers name) :=
  inferInstanceAs (Decidable (∃ _, _ ∧ _))

/-- Connections that take what they are given. -/
def accepting : Net Unit where
  valid _ _ := true
  write _ bytes w := (if bytes.length < 2 ^ 31 then bytes.length else -1, w)
  close _ w := w
  write_int _ bytes _ := taken_int bytes

theorem accepting_takes (conn : ConnId) : accepting.Takes conn :=
  ⟨fun _ => rfl, fun _ _ hlen => if_pos hlen⟩

/-- A client that has watched the heading and lost its connection. -/
def lostClient : ClientSystem Unit :=
  [ClientOp.onConnect 1, .watch (lit "ap.heading") 0, .onClose 1].foldl (ClientOp.run accepting)
    (History.start ()).sys

/-- The server that has been sent the watch. -/
def watchingServer : Store :=
  (ServerCall.line (lit "watch=\x7b\"ap.heading\":true\x7d\n") 0).step default
    (create default {} {})

theorem lost_agree : Agree lostClient watchingServer := by
  have hall : (FieldId.all.all fun id => decide
      (watchingServer.Watched id ↔ lostClient.Remembers id.entry.name)) = true := by decide +kernel
  refine (agree_iff (fun name hname => ?_) watchingServer).mpr fun id =>
    of_decide_eq_true (List.all_eq_true.mp hall id (FieldId.mem_all id))
  have hnames : (lostClient.client.watches.toList.all fun watch =>
      !watch.active || decide (watch.name = FieldId.apHeading.entry.name)) = true := by decide +kernel
  obtain ⟨watch, hmem, hact, rfl⟩ := (remembers_iff_mem name).mp hname
  have hwatch := List.all_eq_true.mp hnames watch hmem
  rw [hact] at hwatch
  exact ⟨.apHeading, (of_decide_eq_true hwatch).symm⟩

/-- The calls unwatch the heading behind `n` settings. -/
def unwatchBehind (n : ℕ) : List FieldCall :=
  List.replicate n (.setBool .apEnabled true) ++ [.unwatch .apHeading]

/-- The client back on a connection. -/
def backClient (n : ℕ) : ClientSystem Unit :=
  (FieldCall.run accepting lostClient (unwatchBehind n)).onConnect accepting 1

/-- The server after the lines of the reconnect. -/
def backServer (n : ℕ) : Store :=
  (handleLines default StringValueWriter (watchingServer, [])
    ((delivered accepting (FieldCall.run accepting lostClient (unwatchBehind n))
      (.onConnect 1)).map fun line => (line, 0))).1

/-- The unwatch behind three settings. -/
theorem agree_after_reconnect_iff_settings :
    Agree (backClient 3) (backServer 3) ↔
      ∀ id, FieldCall.leaves (watchingServer.Watched id) (fun _ => True)
          (FieldCall.stored (unwatchBehind 3)) id →
        FieldCall.leaves (watchingServer.Watched id)
          (fun before => (FieldCall.run accepting lostClient before).FreeWatch) (unwatchBehind 3) id :=
  agree_after_reconnect_iff default accepting (accepting_takes 1) rfl (by decide +kernel)
    StringValueWriter {} [.line (lit "watch=\x7b\"ap.heading\":true\x7d\n") 0]
    (Run.foldl_mem_states _ _ _) lost_agree (unwatchBehind 3) [] _
    (by rw [List.map_map]; exact List.map_id _)

/-- The unwatch behind sixteen settings is not stored: the server goes on watching the heading. -/
theorem unwatch_lost :
    lostClient.connected accepting = none ∧ lostClient.waiting = [] ∧
      Agree lostClient watchingServer ∧ ¬ Agree (backClient 16) (backServer 16) := by
  refine ⟨rfl, by decide +kernel, lost_agree, fun hagree => ?_⟩
  have hwatched : (backServer 16).Watched .apHeading := by decide +kernel
  have hforgotten : ¬ (backClient 16).Remembers FieldId.apHeading.entry.name := by decide +kernel
  exact hforgotten ((hagree _).mp ⟨.apHeading, hwatched, rfl⟩)

end Pypilot
