import Pypilot.Link
import Pypilot.WantedWatches

/-!
# Fields that are wanted

The client's side of a link. The lines of its calls go out whole and in order, the last of them that
watches or unwatches a field says whether the field is wanted, and a new connection hands on the watches
that are wanted.
-/

namespace Pypilot

open Text AsyncEventLoop Client

/-! ## Lines on their way to the server -/

/-- The call watches or unwatches the field. -/
def FieldCall.rewatches (id : FieldId) : FieldCall → Bool
  | .watch id' _ | .unwatch id' => id' = id
  | _ => false

/-- The last of the calls that watches or unwatches the field. -/
def lastFor (fid : FieldId) (calls : List FieldCall) : Option FieldCall :=
  (calls.filter (FieldCall.rewatches fid)).getLast?

theorem lastFor_append (fid : FieldId) (calls calls' : List FieldCall) :
    lastFor fid (calls ++ calls') = (lastFor fid calls').or (lastFor fid calls) := by
  unfold lastFor
  rw [List.filter_append, List.getLast?_append]

theorem lastFor_singleton (fid : FieldId) (call : FieldCall) :
    lastFor fid [call] = if call.rewatches fid then some call else none := by
  unfold lastFor
  cases h : call.rewatches fid <;> simp [h]

theorem rewatches_of_lastFor {fid : FieldId} {calls : List FieldCall} {call : FieldCall}
    (h : lastFor fid calls = some call) : call ∈ calls ∧ call.rewatches fid = true :=
  List.mem_filter.mp (List.mem_of_getLast? h)

namespace FieldCall

variable {call : FieldCall} {fid : FieldId} {wants : FieldId → Option Real}

theorem line_isSome (h : call.rewatches fid = true) : call.line.isSome = true := by
  cases call with
  | watch id periodSeconds => rw [line_watch]; rfl
  | unwatch id => rw [line_unwatch]; rfl
  | set | setBool | setReal | setString => exact nomatch h

theorem wants_of_rewatches {periodSeconds : Real} (h : call.rewatches fid = true)
    (hwants : call.wants wants fid = some periodSeconds) : call = .watch fid periodSeconds := by
  cases call with
  | watch id p =>
    obtain rfl := of_decide_eq_true h
    have hself : Function.update wants id (some p) id = some periodSeconds := hwants
    rw [Function.update_self] at hself
    rw [Option.some.inj hself]
  | unwatch id =>
    obtain rfl := of_decide_eq_true h
    have hself : Function.update wants id none id = some periodSeconds := hwants
    rw [Function.update_self] at hself
    exact nomatch hself
  | set | setBool | setReal | setString => exact nomatch h

theorem wants_of_not_rewatches (h : call.rewatches fid = false) : call.wants wants fid = wants fid := by
  cases call with
  | watch id p => exact Function.update_of_ne (fun heq => of_decide_eq_false h heq.symm) _ _
  | unwatch id => exact Function.update_of_ne (fun heq => of_decide_eq_false h heq.symm) _ _
  | set | setBool | setReal | setString => rfl

end FieldCall

section Delivered

variable (sys : ClientSystem Text) (call : FieldCall)

theorem line_length {line : Text} (hline : call.line = some line) : line.length < maxLineSize := by
  cases call with
  | watch id periodSeconds =>
    obtain ⟨pieces, hrecord⟩ := watchLine_record id.entry.name periodSeconds
    exact makeRecord_length (hrecord.symm.trans hline)
  | unwatch id => exact makeRecord_length hline
  | set id wireValue => exact makeRecord_length hline
  | setBool id value => exact makeRecord_length hline
  | setReal id value => exact makeRecord_length hline
  | setString id value => exact makeRecord_length hline

theorem shared_takes (conn : ConnId) : shared.1.Takes conn :=
  ⟨fun _ => rfl, fun _ _ hlen => if_pos hlen⟩

/-- A call on a connection hands its line to the connection. -/
theorem delivered_call {conn : ConnId} (hconn : sys.client.connection = some conn) :
    delivered shared.1 sys call.op = call.line.toList ∧
      (call.op.run shared.1 sys).waiting = sys.waiting := by
  obtain ⟨sys', hrun, hwire, hpending, hsame⟩ := Link.call_eq_send sys call
  have hwaiting : sys'.waiting = sys.waiting := by
    unfold ClientSystem.waiting
    rw [hpending]
  unfold delivered
  rw [hrun]
  cases hline : call.line with
  | none =>
    show ((sys'.wire.log.drop sys.wire.log.length).filter Sent.whole).map Sent.bytes = [] ∧
      sys'.waiting = _
    rw [hwire, List.drop_length]
    exact ⟨rfl, hwaiting⟩
  | some line =>
    have hlen : line.length < 2 ^ 31 := (line_length call hline).trans (by decide)
    have hconnected : sys'.connected shared.1 = some conn :=
      (shared_takes conn).connected (hsame.connection.trans hconn)
    have hanswer : sys'.answer shared.1 conn line = line.length :=
      (shared_takes conn).2 line _ hlen
    have hsend : sys'.send shared.1 (some line) = sys'.written shared.1 conn line := by
      show (sys'.queueOrWrite shared.1 line).2 = _
      rw [ClientSystem.queueOrWrite_taken shared.1 sys' hconnected
        (hanswer.trans (toInt32_of_lt hlen).symm)]
    rw [hsend, ClientSystem.written_log, hwire, List.drop_left, hanswer]
    have hwhole : (Sent.mk conn line line.length).whole = true := decide_eq_true rfl
    rw [List.filter_cons_of_pos hwhole]
    exact ⟨rfl, hwaiting⟩

/-- A line that waits is one that waited before, or that of the call. -/
theorem waiting_call (hconn : sys.client.connection = none) :
    ∀ line ∈ (call.op.run shared.1 sys).waiting, line ∈ sys.waiting ∨ call.line = some line := by
  obtain ⟨sys', hrun, -, hpending, hsame⟩ := Link.call_eq_send sys call
  have hwaiting : sys'.waiting = sys.waiting := by
    unfold ClientSystem.waiting
    rw [hpending]
  rw [hrun]
  intro line hline
  cases hcall : call.line with
  | none =>
    rw [hcall] at hline
    exact .inl (hwaiting ▸ hline)
  | some line' =>
    rw [hcall] at hline
    have hlost : sys'.connected shared.1 = none := by
      unfold ClientSystem.connected
      rw [hsame.connection, hconn]
      rfl
    have hqueue : sys'.send shared.1 (some line') = (sys'.queueLine line').2 :=
      congrArg Prod.snd (ClientSystem.queueOrWrite_disconnected shared.1 sys' hlost)
    rw [hqueue] at hline
    have hmem := (queueLine_waiting_perm sys' line').mem_iff.mpr hline
    rcases List.mem_append.mp hmem with hnew | hold
    · split_ifs at hnew
      · exact .inr (by rw [List.mem_singleton.mp hnew])
      · exact absurd hnew List.not_mem_nil
    · exact .inl (hwaiting ▸ hold)

/-- A connection takes short lines, and they do not wait. -/
theorem waiting_offers {conn : ConnId} {sys : ClientSystem Text}
    (hconn : sys.client.connection = some conn) {lines : List Text}
    (hshort : ∀ line ∈ lines, line.length < 2 ^ 31) :
    (lines.foldl (fun sys line => (sys.queueOrWrite shared.1 line).2) sys).waiting = sys.waiting := by
  induction lines generalizing sys with
  | nil => rfl
  | cons line lines ih =>
    obtain ⟨hline, hlines⟩ := List.forall_mem_cons.mp hshort
    have hanswer : sys.answer shared.1 conn line = line.length := (shared_takes conn).2 line _ hline
    have htaken : (sys.queueOrWrite shared.1 line).2 = sys.written shared.1 conn line := by
      rw [ClientSystem.queueOrWrite_taken shared.1 sys ((shared_takes conn).connected hconn)
        (hanswer.trans (toInt32_of_lt hline).symm)]
    have hconn' : (sys.written shared.1 conn line).client.connection = some conn := hconn
    rw [List.foldl_cons, htaken, ih hconn' hlines]
    exact ClientSystem.written_waiting shared.1 sys conn line

/-- A reconnect leaves no lines waiting. -/
theorem waiting_onConnect (conn : ConnId) : (sys.onConnect shared.1 conn).waiting = [] := by
  have hattached : (sys.attached conn).connected shared.1 = some conn := (shared_takes conn).connected rfl
  obtain ⟨-, hbytes, htaken, hrest⟩ := flush_connected shared.1 (sys.attached conn) hattached
  have hwhole : ∀ e ∈ Action.flush.writes shared.1 (sys.attached conn), e.whole = true := by
    intro e he
    obtain ⟨-, w, hw⟩ := htaken e he
    have hmem : e.bytes ∈ (sys.attached conn).waiting := hbytes ▸ List.mem_map_of_mem he
    obtain ⟨slot, -, hslot⟩ := List.mem_map.mp hmem
    have hshort : e.bytes.length < 2 ^ 31 := hslot ▸ slot.fits.trans (by decide)
    exact decide_eq_true (hw.trans ((shared_takes conn).2 e.bytes w hshort))
  have hflushed : ((sys.attached conn).flushPending shared.1).waiting = [] := by
    rw [hrest, List.map_eq_nil_iff, List.filter_eq_nil_iff]
    intro e he
    rw [hwhole e he]
    exact Bool.false_ne_true
  have hshort : ∀ line ∈ ClientMove.replayLines sys, line.length < 2 ^ 31 := by
    intro line hline
    obtain ⟨watch, -, hwatch⟩ := List.mem_filterMap.mp hline
    unfold replayLine at hwatch
    split_ifs at hwatch
    exact record_length (watchLine_record _ _) line hwatch
  rw [ClientMove.onConnect_replayLines shared.1 sys conn,
    waiting_offers (Sessions.same_flushPending (sys.attached conn) shared.1).connection hshort]
  exact hflushed

end Delivered

/-! ## The watches that the client wants -/

/-- The names of the fields that are wanted, with their periods. -/
def wantedNames (wants : FieldId → Option Real) (name : Text) : Option Real :=
  (find name).bind fun d => wants d.id

theorem wantedNames_entry (wants : FieldId → Option Real) (id : FieldId) :
    wantedNames wants id.entry.name = wants id := by
  unfold wantedNames
  rw [find_entry, Option.bind_some, entry_id]

/-- Only a field's own name leads to it. -/
theorem wantedNames_update (wants : FieldId → Option Real) (id : FieldId) (period : Option Real)
    (name : Text) : wantedNames (Function.update wants id period) name =
      if id.entry.name = name then period else wantedNames wants name := by
  unfold wantedNames
  cases hfind : find name with
  | none =>
    rw [if_neg]
    · rfl
    · rintro rfl
      exact nomatch (find_entry id).symm.trans hfind
  | some d =>
    obtain ⟨hentry, hname⟩ := find_eq_some hfind
    rw [Option.bind_some, Option.bind_some]
    split_ifs with heq
    · have hid : d.id = id := by
        rw [← heq, find_entry] at hfind
        rw [← Option.some.inj hfind, entry_id]
      rw [hid, Function.update_self]
    · rw [Function.update_of_ne]
      rintro rfl
      exact heq (by rw [← hentry, hname])

namespace ClientSystem

variable {sys : ClientSystem Text} {wants : FieldId → Option Real}

/-- The names that are wanted are registered, and there are fewer than slots. -/
theorem HoldsWanted.registered (h : sys.HoldsWanted (wantedNames wants)) : sys.Registered := by
  rintro name ⟨i, hact, rfl⟩
  have hwanted := h.wanted_of_active hact
  unfold wantedNames at hwanted
  cases hfind : find (sys.client.watches.get i).name with
  | none =>
    rw [hfind] at hwanted
    exact absurd hwanted Bool.false_ne_true
  | some d =>
    obtain ⟨hentry, hname⟩ := find_eq_some hfind
    exact ⟨d.id, by rw [← hentry, hname]⟩

theorem HoldsWanted.freeWatch (h : sys.HoldsWanted (wantedNames wants)) : sys.FreeWatch := by
  by_contra hfull
  have hall : ∀ i, (sys.client.watches.get i).active = true := fun i => by
    simpa using fun hfree => hfull ⟨i, hfree⟩
  choose field hfield using fun i => h.registered _ ⟨i, hall i, rfl⟩
  have hinj : Function.Injective field := fun i j hij =>
    h.single i j (hall i) (hall j) (by rw [← hfield i, ← hfield j, hij])
  have hnodup : ((List.finRange maxClientWatches).map field).Nodup :=
    (List.nodup_finRange maxClientWatches).map hinj
  have hle := (List.subperm_of_subset hnodup fun id _ => FieldId.mem_all id).length_le
  rw [List.length_map, List.length_finRange] at hle
  exact absurd hle (by decide)

theorem HoldsWanted.call (h : sys.HoldsWanted (wantedNames wants)) (call : FieldCall) :
    (call.op.run shared.1 sys).HoldsWanted (wantedNames (call.wants wants)) := by
  cases call with
  | watch id periodSeconds =>
    obtain ⟨-, -, -, -, hlen, hzero, -⟩ := field_name id
    have hremember := (h.rememberWatch (hlen.trans_lt (by decide)) hzero periodSeconds
      (.inl h.freeWatch)).congr (send_watches shared.1 _ (watchLine id.entry.name periodSeconds))
    rw [show wantedNames ((FieldCall.watch id periodSeconds).wants wants) = _ from
      funext (wantedNames_update wants id (some periodSeconds))]
    exact hremember
  | unwatch id =>
    have hforget := (h.forgetWatch id.entry.name).congr
      (send_watches shared.1 _ (unwatchLine id.entry.name))
    rw [show wantedNames ((FieldCall.unwatch id).wants wants) = _ from
      funext (wantedNames_update wants id none)]
    exact hforget
  | set id wireValue => exact h.congr (send_watches shared.1 sys _)
  | setBool id value => exact h.congr (send_watches shared.1 sys _)
  | setReal id value => exact h.congr (send_watches shared.1 sys _)
  | setString id value => exact h.congr (send_watches shared.1 sys _)

/-- A replay asks for each field that is wanted with its period. -/
theorem HoldsWanted.lastFor_replay (h : sys.HoldsWanted (wantedNames wants)) {fid : FieldId}
    {periodSeconds : Real} (hwants : wants fid = some periodSeconds) :
    lastFor fid (replayCalls sys) = some (.watch fid periodSeconds) := by
  have hperiod : ∀ p, .watch fid p ∈ replayCalls sys → p = periodSeconds := by
    intro p hp
    obtain ⟨watch, hmem, hwatch⟩ := List.mem_filterMap.mp hp
    unfold replayCall at hwatch
    split_ifs at hwatch with hact
    obtain ⟨d, hfind, hcall⟩ := Option.map_eq_some_iff.mp hwatch
    obtain ⟨hid, hp⟩ := FieldCall.watch.inj hcall
    obtain ⟨hentry, hname⟩ := find_eq_some hfind
    obtain ⟨i, hi⟩ := (SlotTable.exists_mem_toList (Q := fun x : ClientWatch => x = watch)).mp
      ⟨watch, hmem, rfl⟩
    have hheld := (h.holds watch.name watch.periodSeconds).mp ⟨i, by rw [hi, hact], by rw [hi],
      by rw [hi]⟩
    rw [← hname, hentry, hid, wantedNames_entry, hwants] at hheld
    rw [← hp, Option.some.inj hheld]
  obtain ⟨p, hp⟩ := (mem_replayCalls fid).mpr ((h.remembers_iff fid.entry.name).mpr (by
    rw [wantedNames_entry, hwants]
    rfl))
  cases hlast : lastFor fid (replayCalls sys) with
  | none =>
    have hnil := List.getLast?_eq_none_iff.mp hlast
    exact absurd (List.mem_filter.mpr ⟨hp, decide_eq_true rfl⟩) (hnil ▸ List.not_mem_nil)
  | some call =>
    obtain ⟨hmem, hrewatches⟩ := rewatches_of_lastFor hlast
    obtain ⟨id, p', rfl⟩ := replayCalls_watches call hmem
    obtain rfl := of_decide_eq_true hrewatches
    rw [hperiod p' hmem]

end ClientSystem

end Pypilot
