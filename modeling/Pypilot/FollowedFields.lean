import Pypilot.ServedWatch
import Pypilot.WantedFields

/-!
# Fields that are followed

The server's side of a link. A watch line shows its field and puts an entry into the table, and from then on
the text shown last is the field's, but for a change that is marked or was made around the registry.
-/

namespace Pypilot

open Text Server Client

/-! ## Lines of watch calls -/

section WatchLines

variable (m : Machine) (s : Store) (id : FieldId) (periodSeconds : Real) (nowUs : ℕ)

theorem watchPeriod_periodText :
    ∃ period, watchPeriod m (periodText periodSeconds) = some period := by
  obtain ⟨-, -, -, hperiod⟩ := periodText_spec m periodSeconds
  unfold watchPeriod
  split_ifs with htrue
  · exact ⟨0, rfl⟩
  · exact Option.isSome_iff_exists.mp (hperiod.resolve_left htrue)

variable {periodSeconds} in
/-- A period that is not positive asks for an immediate watch. -/
theorem watchPeriod_nonpositive (hle : periodSeconds ≤ 0) :
    watchPeriod m (periodText periodSeconds) = some 0 := by
  have htrue : periodText periodSeconds = lit "true" := if_pos hle
  rw [htrue]
  rfl

/-- A watch line shows its field. -/
theorem mem_lineEmissions_watch :
    .value id ∈ lineEmissions m nowUs (watchRecord id.entry.name (periodText periodSeconds)) s := by
  obtain ⟨-, -, hquote, -, -, -, -, hvalues, -⟩ := field_name id
  obtain ⟨hplain, -, hfalse, -⟩ := periodText_spec m periodSeconds
  obtain ⟨period, hread⟩ := watchPeriod_periodText m periodSeconds
  unfold watchPeriod at hread
  have hitem := watchItem_entryText hquote hplain
  generalize periodText periodSeconds = value at hitem hfalse hread ⊢
  generalize hinner : watchEntryText id.entry.name value = inner at hitem
  have hlen : (chr '\x7b' :: inner ++ [chr '\x7d']).length = inner.length + 2 := by simp
  have hbraces : ¬ ((chr '\x7b' :: inner ++ [chr '\x7d']).length < 2 ∨
      (chr '\x7b' :: inner ++ [chr '\x7d']).head? ≠ some (chr '\x7b') ∨
      (chr '\x7b' :: inner ++ [chr '\x7d']).getLast? ≠ some (chr '\x7d')) := by
    rw [hlen, List.getLast?_concat]
    simp
  have hcut : ((chr '\x7b' :: inner ++ [chr '\x7d']).drop 1).take
      ((chr '\x7b' :: inner ++ [chr '\x7d']).length - 2) = inner := by
    rw [hlen, Nat.add_sub_cancel]
    show (inner ++ [chr '\x7d']).take _ = _
    rw [List.take_left]
  have hentry : .value id ∈ entryEmissions m nowUs id.entry.name value s := by
    unfold entryEmissions
    rw [if_neg hvalues, if_neg hfalse, hread, find_entry]
    refine List.mem_append_left _ ?_
    dsimp only
    rw [entry_id]
    exact List.mem_singleton.mpr rfl
  unfold lineEmissions
  rw [request_watchRecord, hinner]
  dsimp only
  rw [trim_braced, if_neg hbraces, hcut, hlen]
  unfold watchEmissions
  rw [hitem]
  exact List.mem_append_left _ hentry

/-- A watch line puts an entry into the table, with the period that its text says. -/
theorem hasEntry_watchLine (hs : s.SingleWatches) : ∃ e : Watch,
    (ServerCall.step m s (.line (watchRecord id.entry.name (periodText periodSeconds))
      nowUs)).HasEntry e ∧ e.id = id ∧
      watchPeriod m (periodText periodSeconds) = some e.periodSeconds := by
  obtain ⟨-, -, hquote, -⟩ := field_name id
  obtain ⟨hplain, -⟩ := periodText_spec m periodSeconds
  obtain ⟨period, hread⟩ := watchPeriod_periodText m periodSeconds
  refine ⟨Store.watchOf m period nowUs id, ?_, rfl, hread⟩
  have hstep : ServerCall.step m s (.line (watchRecord id.entry.name (periodText periodSeconds))
      nowUs) = (s.watch m id.entry.name period nowUs (some StringValueWriter) []).2.1 := by
    show (Server.handleLine m _ nowUs StringValueWriter s []).2.1 = _
    rw [handleLine_watchRecord m hquote hplain, watchEntry_period hread]
  rw [hstep]
  exact hs.hasEntry_watch m id period nowUs (some StringValueWriter) []

end WatchLines

section OtherLines

variable (m : Machine) {s : Store} {e : Watch} (h : s.HasEntry e) {text : Text} (nowUs : ℕ)

include h

theorem hasEntry_congr {s' : Store} (hwatches : s'.values.watches = s.values.watches) :
    s'.HasEntry e := by
  obtain ⟨hsingle, hactive, i, hi⟩ := h
  refine ⟨?_, hactive, i, hwatches ▸ hi⟩
  unfold Store.SingleWatches
  rw [hwatches]
  exact hsingle

/-- A line that is no watch request leaves the entries alone. -/
theorem hasEntry_line (hreq : ∀ expression, request text ≠ .watch expression) :
    (ServerCall.step m s (.line text nowUs)).HasEntry e := by
  apply hasEntry_congr h
  show (Server.handleLine m text nowUs StringValueWriter s []).2.1.values.watches = _
  cases hr : request text with
  | watch expression => exact absurd hr (hreq expression)
  | assignment name value =>
    rw [handleLine_assignment m hr]
    rcases Store.setFromWire_cases m s name value true with hfail | ⟨d, -, -, hd⟩
    · rw [hfail]
    · exact hd.watches
  | empty | malformed | values | udpPort =>
    unfold Server.handleLine
    rw [hr]

/-- The line of a call for another field, or of a setting, leaves the entry alone. -/
theorem hasEntry_callLine {call : FieldCall} (hline : call.line = some text)
    (hother : call.rewatches e.id = false) : (ServerCall.step m s (.line text nowUs)).HasEntry e := by
  have hset : ∀ (id : FieldId) (json : Text),
      makeRecordRaw maxLineSize id.entry.name json = some text →
      (ServerCall.step m s (.line text nowUs)).HasEntry e := by
    intro id json hrecord
    obtain ⟨rest, rfl⟩ := makeRecordRaw_field hrecord
    refine hasEntry_line m h nowUs fun expression hreq => ?_
    rw [request_assignment] at hreq
    exact nomatch hreq
  have hname : ∀ id : FieldId, id ≠ e.id → id.entry.name ≠ e.id.entry.name := by
    intro id hne heq
    have hfind := find_entry id
    rw [heq, find_entry] at hfind
    have hid := congrArg Descriptor.id (Option.some.inj hfind)
    rw [entry_id, entry_id] at hid
    exact hne hid.symm
  cases call with
  | set id wireValue => exact hset id wireValue hline
  | setBool id value => exact hset id _ hline
  | setReal id value => exact hset id _ hline
  | setString id value => exact hset id _ hline
  | watch id periodSeconds =>
    obtain ⟨-, -, hquote, -⟩ := field_name id
    obtain ⟨hplain, -⟩ := periodText_spec m periodSeconds
    obtain ⟨period, hread⟩ := watchPeriod_periodText m periodSeconds
    rw [line_watch] at hline
    obtain rfl := Option.some.inj hline
    have hstep : ServerCall.step m s (.line (watchRecord id.entry.name (periodText periodSeconds))
        nowUs) = (RegistryCall.step m StringValueWriter (s, [])
          (.watch id.entry.name period nowUs true)).1 := by
      show (Server.handleLine m _ nowUs StringValueWriter s []).2.1 = _
      rw [handleLine_watchRecord m hquote hplain, watchEntry_period hread]
      rfl
    rw [hstep]
    exact RegistryCall.step_hasEntry m StringValueWriter (p := (s, [])) h (hname id (of_decide_eq_false hother))
  | unwatch id =>
    obtain ⟨-, -, hquote, -, -, -, -, hvalues, -⟩ := field_name id
    have hplain : ∀ c ∈ lit "false", 45 ≤ c.toNat := plain_word (by decide)
    rw [line_unwatch] at hline
    obtain rfl := Option.some.inj hline
    have hstep : ServerCall.step m s (.line (watchRecord id.entry.name (lit "false")) nowUs) =
        (RegistryCall.step m StringValueWriter (s, []) (.unwatch id.entry.name)).1 := by
      show (Server.handleLine m _ nowUs StringValueWriter s []).2.1 = _
      rw [handleLine_watchRecord m hquote hplain]
      unfold watchEntry
      rw [if_neg hvalues, if_pos rfl]
      rfl
    rw [hstep]
    exact RegistryCall.step_hasEntry m StringValueWriter (p := (s, [])) h (hname id (of_decide_eq_false hother))

end OtherLines

/-! ## Fields that are followed -/

namespace Observed

/-- The text of the field is the one shown last, unless the field is marked or stale. -/
def Fresh (m : Machine) (o : Observed) (fid : FieldId) : Prop :=
  ∀ t, valueText m o.store fid = some t →
    o.store.values.dirty fid = true ∨ o.stale fid = true ∨ o.shown fid = some t

/-- The server watches the field with the period that the text of the call says, and it has shown the field
since. -/
structure Followed (m : Machine) (o : Observed) (fid : FieldId) (periodSeconds : Real) : Prop where
  entry : ∃ e, o.store.HasEntry e ∧ e.id = fid ∧
    watchPeriod m (periodText periodSeconds) = some e.periodSeconds
  fresh : periodSeconds ≤ 0 → o.Fresh m fid

section Steps

variable {m : Machine} {o : Observed} {fid : FieldId} {periodSeconds : Real}

/-- A call that shows the field, or leaves its text and its mark alone. -/
theorem Fresh.call (h : o.Fresh m fid) {c : ServerCall}
    (hcall : ∀ t, valueText m (c.step m o.store) fid = some t →
      (c.step m o.store).values.dirty fid = true ∨
        valueText m o.store fid = some t ∧ valueText m (c.written o.store) fid = some t ∧
          (.value fid ∈ c.emissions m o.store ∨ o.store.values.dirty fid = false)) :
    (o.call m c).Fresh m fid := by
  intro t htext
  rcases hcall t htext with hdirty | ⟨hold, hwritten, hshown⟩
  · exact .inl hdirty
  · refine .inr ?_
    unfold Observed.call
    dsimp only
    by_cases hes : .value fid ∈ c.emissions m o.store
    · exact .inr (by simp [shows, hes, hwritten])
    · have hclean := hshown.resolve_left hes
      have hshows : shows m (c.written o.store) (c.emissions m o.store) fid = false := by
        simp [shows, hes]
      rcases h t hold with hdirty | hstale | hlast
      · exact absurd (hdirty.symm.trans hclean) (Bool.false_ne_true ·.symm)
      · exact .inl (by rw [hstale, hshows]; rfl)
      · exact .inr (by rw [hshows]; exact hlast)

theorem Fresh.line (h : o.Fresh m fid) (text : Text) (nowUs : ℕ) :
    (o.call m (.line text nowUs)).Fresh m fid := by
  refine h.call fun t htext => ?_
  have hkeep : ∀ s' : Store, ServerCall.step m o.store (.line text nowUs) = s' →
      Store.SameField o.store s' fid → s'.values.dirty fid = o.store.values.dirty fid →
      s'.values.dirty fid = true ∨ valueText m o.store fid = some t ∧
        valueText m o.store fid = some t ∧
          (.value fid ∈ lineEmissions m nowUs text o.store ∨ o.store.values.dirty fid = false) := by
    rintro s' rfl hsame hmark
    rw [hsame.valueText] at htext
    rw [hmark]
    by_cases hdirty : o.store.values.dirty fid = true
    · exact .inl hdirty
    · exact .inr ⟨htext, htext, .inr (by simpa using hdirty)⟩
  have hstore : ServerCall.step m o.store (.line text nowUs) =
      (Server.handleLine m text nowUs StringValueWriter o.store []).2.1 := rfl
  rcases handleLine_cases m text nowUs StringValueWriter o.store [] with
    ⟨name, value, -, hset⟩ | ⟨-, hsame⟩
  · rw [hset] at hstore
    rcases Store.setFromWire_cases m o.store name value true with hfail | ⟨d, -, -, hd⟩
    · rw [hfail] at hstore
      rw [hstore]
      exact hkeep _ hstore ⟨rfl, rfl, rfl⟩ rfl
    · by_cases hid : fid = d.id
      · refine .inl ?_
        rw [hstore, hd.dirty, hid, Function.update_self]
      · rw [hstore]
        exact hkeep _ hstore (hd.others fid hid) (by rw [hd.dirty, Function.update_of_ne hid])
  · exact hkeep _ hstore (hsame.sameField fid) (congrFun hsame.dirty fid)

/-- A poll shows a marked field that is watched immediately. -/
theorem Fresh.poll (h : o.Fresh m fid) {e : Watch} (he : o.store.HasEntry e) (hid : e.id = fid)
    (himm : e.periodSeconds.feq 0 = true) (nowUs : ℕ) :
    (o.call m (.poll id nowUs)).Fresh m fid := by
  refine h.call fun t htext => ?_
  rw [poll_step] at htext
  have hsame : Store.SameField o.store { o.store with values := { o.store.values with
      dirty := fun _ => false, watches := o.store.values.watches.map (redue m nowUs) } } fid :=
    ⟨rfl, rfl, rfl⟩
  rw [hsame.valueText] at htext
  refine .inr ⟨htext, htext, ?_⟩
  by_cases hdirty : o.store.values.dirty fid = true
  · refine .inl ?_
    subst hid
    exact (he.mem_emissions_iff id nowUs).mpr (.inl ⟨hdirty, himm⟩)
  · exact .inr (by simpa using hdirty)

theorem Fresh.overwrite (h : o.Fresh m fid) (st : PypilotState) : (o.overwrite m st).Fresh m fid := by
  intro t htext
  by_cases hsame : valueText m { o.store with state := st } fid = valueText m o.store fid
  · have hold := h t (hsame ▸ htext)
    unfold Observed.overwrite
    simpa [hsame] using hold
  · refine .inr (.inl ?_)
    unfold Observed.overwrite
    simp [hsame]

/-- Polls keep what is followed. -/
theorem Followed.poll (h : o.Followed m fid periodSeconds) (nowUs : ℕ) :
    (o.call m (.poll id nowUs)).Followed m fid periodSeconds := by
  obtain ⟨e, he, hid, hperiod⟩ := h.entry
  obtain ⟨-, hredue, hsame⟩ := Store.redue_spec m nowUs e
  refine ⟨⟨redue m nowUs e, he.poll id nowUs, hredue.trans hid, hsame.symm ▸ hperiod⟩, fun hle => ?_⟩
  have hzero : e.periodSeconds = 0 :=
    (Option.some.inj ((watchPeriod_nonpositive m hle).symm.trans hperiod)).symm
  exact (h.fresh hle).poll he hid (by rw [hzero]; rfl) nowUs

/-- Lines that leave the entry alone keep what is followed. -/
theorem Followed.line (h : o.Followed m fid periodSeconds) {text : Text} {nowUs : ℕ}
    (hentry : ∀ e, o.store.HasEntry e → e.id = fid →
      (ServerCall.step m o.store (.line text nowUs)).HasEntry e) :
    (o.call m (.line text nowUs)).Followed m fid periodSeconds := by
  obtain ⟨e, he, hid, hperiod⟩ := h.entry
  exact ⟨⟨e, hentry e he hid, hid, hperiod⟩, fun hle => (h.fresh hle).line text nowUs⟩

theorem Followed.overwrite (h : o.Followed m fid periodSeconds) (st : PypilotState) :
    (o.overwrite m st).Followed m fid periodSeconds := by
  obtain ⟨e, he, hid, hperiod⟩ := h.entry
  exact ⟨⟨e, ⟨he.single, he.active, he.mem⟩, hid, hperiod⟩, fun hle => (h.fresh hle).overwrite st⟩

/-- The direct writers keep what is followed, and so do lines that are no watch requests. -/
theorem Followed.step (h : o.Followed m fid periodSeconds) {op : SystemOp}
    (hop : match op with
      | .poll _ => False
      | .handleLine text _ => ∀ expression, request text ≠ .watch expression
      | _ => True) : (o.step m op).Followed m fid periodSeconds := by
  cases op with
  | handleLine text nowUs => exact h.line fun e he _ => hasEntry_line m he nowUs hop
  | poll nowUs => exact hop.elim
  | iterate fuel imuUs rudderUs =>
    unfold Observed.step
    dsimp only
    cases Autopilot.iteration m fuel imuUs rudderUs o.ap o.store.state with
    | none => exact h
    | some p =>
      obtain ⟨hentry, hfresh⟩ := h.overwrite p.2
      exact ⟨hentry, hfresh⟩
  | feedDriverBytes bytes nowUs =>
    obtain ⟨hentry, hfresh⟩ := h.overwrite (o.ap.servo.feedDriverBytes o.store.state bytes nowUs).2.2
    exact ⟨hentry, hfresh⟩
  | feedLine text source nowUs =>
    exact h.overwrite (Nmea.feedLine m text source nowUs o.store.state).2

/-- Settings are never stale. -/
theorem settings_step (h : ∀ id, id ∉ directFields → o.stale id = false) (op : SystemOp) :
    ∀ id, id ∉ directFields → (o.step m op).stale id = false := by
  have hcall : ∀ c : ServerCall, ∀ id, id ∉ directFields → (o.call m c).stale id = false := by
    intro c id hid
    unfold Observed.call
    simp [h id hid]
  have hwrite : ∀ st, LeavesSettings o.store.state st →
      ∀ id, id ∉ directFields → (o.overwrite m st).stale id = false := by
    intro st hst id hid
    have hsame := (hst.sameField o.store.values hid).valueText m
    unfold Observed.overwrite
    simp [h id hid, hsame]
  cases op with
  | handleLine text nowUs => exact hcall _
  | poll nowUs => exact hcall _
  | iterate fuel imuUs rudderUs =>
    unfold Observed.step
    dsimp only
    cases hit : Autopilot.iteration m fuel imuUs rudderUs o.ap o.store.state with
    | none => exact h
    | some p => exact hwrite p.2 (leavesSettings_iteration m hit)
  | feedDriverBytes bytes nowUs =>
    exact hwrite _ (leavesSettings_feedDriverBytes o.ap.servo o.store.state bytes nowUs)
  | feedLine text source nowUs =>
    exact hwrite _ (leavesSettings_feedLine m text source nowUs o.store.state)

/-- A watch line makes its field followed. -/
theorem followed_watchLine (hs : o.store.SingleWatches) (fid : FieldId) (periodSeconds : Real)
    (nowUs : ℕ) :
    (o.call m (.line (watchRecord fid.entry.name (periodText periodSeconds)) nowUs)).Followed m fid
      periodSeconds := by
  refine ⟨hasEntry_watchLine m o.store fid periodSeconds nowUs hs, fun _ t htext => ?_⟩
  have hshown := mem_lineEmissions_watch m o.store fid periodSeconds nowUs
  generalize hline : watchRecord fid.entry.name (periodText periodSeconds) = text at htext hshown ⊢
  have hreq : ∀ name value, request text ≠ .assignment name value := by
    rw [← hline, request_watchRecord]
    exact fun _ _ h => nomatch h
  have hsame := handleLine_rewatches m hreq nowUs StringValueWriter o.store []
  have htext' : valueText m o.store fid = some t := by
    rw [← (hsame.sameField fid).valueText m]
    exact htext
  refine .inr (.inr ?_)
  show (if shows m o.store (lineEmissions m nowUs text o.store) fid then valueText m o.store fid
    else o.shown fid) = some t
  rw [if_pos (by simp [shows, hshown, htext']), htext']

end Steps

end Observed

end Pypilot
