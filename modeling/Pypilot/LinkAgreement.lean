import Pypilot.FollowedFields

/-!
# Agreement of client and server

The lines of a client's calls are handled in order, and the server shows each field when it is watched and
then whenever it is changed. So when nothing is on its way and the changes have been polled, the client has
the values of the fields that it wants to watch immediately (`link_agrees`).
-/

namespace Pypilot

open Text Server AsyncEventLoop Client

/-! ## The invariant -/

theorem lastShown_append (log : List (Store × Emission)) (s : Store) (es : List Emission)
    (id : FieldId) : lastShown (log ++ es.map (s, ·)) id =
      if .value id ∈ es then some s else lastShown log id := by
  induction es using List.reverseRecOn with
  | nil => simp
  | append_singleton es e ih =>
    rw [List.map_append, ← List.append_assoc, List.map_singleton, lastShown_concat, ih]
    by_cases he : e = .value id
    · rw [if_pos he, if_pos (by simp [he])]
    · have hne : Emission.value id ≠ e := fun h => he h.symm
      simp [he, hne]

/-- A line that is no watch request shows no field by itself. -/
theorem value_notMem_lineEmissions (m : Machine) {text : Text} (nowUs : ℕ) (s : Store)
    (hreq : ∀ expression, request text ≠ .watch expression) (id : FieldId) :
    .value id ∉ lineEmissions m nowUs text s := by
  unfold lineEmissions
  cases hr : request text with
  | watch expression => exact absurd hr (hreq expression)
  | assignment name value =>
    dsimp only
    split_ifs <;> simp
  | empty | malformed | values | udpPort => simp

/-- A poll of the line reader changes neither the session nor what the client wants to send. -/
theorem pollLineReader_shared (rounds : ℕ) (sys : ClientSystem Text) :
    let sys' := (sys.pollLineReader shared.1 shared.2 rounds).2
    sys'.client.connection = sys.client.connection ∧ sys'.client.tcpStream = sys.client.tcpStream ∧
      sys'.client.watches = sys.client.watches ∧ sys'.client.pending = sys.client.pending ∧
      sys'.client.lineReader.options = sys.client.lineReader.options ∧
      sys'.client.lineReader.callback = sys.client.lineReader.callback := by
  unfold ClientSystem.pollLineReader
  cases hstream : sys.client.tcpStream with
  | none => exact ⟨rfl, hstream, rfl, rfl, rfl, rfl⟩
  | some conn =>
    dsimp only
    split_ifs with hreadable
    · obtain ⟨-, -, hconnection, hsame, hrest⟩ := pollReader_shared conn rounds sys
      exact ⟨hconnection, hsame.trans hstream, hrest⟩
    · exact ⟨rfl, hstream, rfl, rfl, rfl, rfl⟩

theorem clientHandleLine_attached (m : Machine) (line : Text) (c : Store) :
    (Client.handleLine m line c).values.attached = c.values.attached := by
  unfold Client.handleLine
  cases parseRecord line with
  | none => rfl
  | some p =>
    dsimp only
    split_ifs
    · rfl
    · rcases Store.setFromWire_cases m c p.1 p.2 false with hfail | ⟨d, -, -, hd⟩
      · rw [hfail]
      · exact hd.attached

theorem singleWatches_operation {m : Machine} {o : Observed} (h : o.store.SingleWatches)
    (op : SystemOp) : (o.step m op).store.SingleWatches := by
  cases op with
  | handleLine text nowUs => exact singleWatches_step m h (.line text nowUs)
  | poll nowUs => exact singleWatches_step m h (.poll id nowUs)
  | iterate fuel imuUs rudderUs =>
    unfold Observed.step
    dsimp only
    cases Autopilot.iteration m fuel imuUs rudderUs o.ap o.store.state with
    | none => exact h
    | some p => exact h
  | feedDriverBytes bytes nowUs => exact h
  | feedLine text source nowUs => exact h

namespace Link

/-- Nobody else polls the server or watches at it. -/
def Undisturbed : LinkOp → Prop
  | .elsewhere (.poll _) => False
  | .elsewhere (.handleLine text _) => ∀ expression, request text ≠ .watch expression
  | _ => True

/-- What holds of a link whatever gets through on it and whoever else uses the server. -/
structure Settled (l : Link) : Prop where
  serving : Serving l.program.store
  single : l.program.store.SingleWatches
  attached : l.copy.values.attached = true
  stream : l.client.client.tcpStream = l.client.client.connection
  options : l.client.client.lineReader.options = {}
  callback : l.client.client.lineReader.callback = true
  holds : l.client.HoldsWanted (wantedNames l.wants)
  waits : ∀ line ∈ l.client.waiting, ∃ call : FieldCall, call.line = some line

/-- What the client wants and the server knows of it. Each field that is wanted is asked for by a line on
its way to the server, the last one for that field, or the server follows it. -/
structure Tracking (m : Machine) (l : Link) : Prop where
  settled : l.Settled
  settings : ∀ id, id ∉ directFields → l.program.stale id = false
  shown : l.connected = true → ∀ id t, l.program.shown id = some t →
    ∃ s, lastShown l.log id = some s ∧ valueText m s id = some t
  queue : l.connected = true → ∃ calls : List FieldCall, calls.map FieldCall.line = l.up.map some ∧
    ∀ id periodSeconds, l.wants id = some periodSeconds →
      lastFor id calls = some (.watch id periodSeconds) ∨
        lastFor id calls = none ∧ l.program.Followed m id periodSeconds

variable {m : Machine} {l : Link}

theorem settled_start (st : PypilotState) (ap : Autopilot) {c₀ : Store}
    (hc : c₀.values.attached = true) : (start m st ap c₀).Settled where
  serving := .create st
  single := Store.singleWatches_of_new rfl
  attached := hc
  stream := rfl
  options := rfl
  callback := rfl
  holds := by
    have hfree : ∀ i, ((start m st ap c₀).client.client.watches.get i).active = false := fun i =>
      congrArg ClientWatch.active (List.Vector.get_replicate _ i)
    refine ⟨fun i j hi => absurd (hi.symm.trans (hfree i)) (Bool.false_ne_true ·.symm),
      fun name periodSeconds => iff_of_false ?_ ?_⟩
    · rintro ⟨i, hact, -⟩
      exact absurd (hact.symm.trans (hfree i)) (Bool.false_ne_true ·.symm)
    · unfold wantedNames
      cases find name <;> exact fun h => nomatch h
  waits line hline := by
    have hnone : (History.start ([] : Text)).sys.waiting = [] := by decide
    exact absurd (hnone ▸ hline) List.not_mem_nil

/-- A connection is lost: the watches and the waiting lines stay. -/
theorem Settled.cut (h : l.Settled) (sys : ClientSystem Text)
    (hstream : sys.client.tcpStream = sys.client.connection)
    (hreader : sys.client.lineReader = l.client.client.lineReader.reset)
    (hwatches : sys.client.watches = l.client.client.watches)
    (hpending : sys.client.pending = l.client.client.pending) : (l.cut sys).Settled where
  serving := h.serving
  single := h.single
  attached := h.attached
  stream := hstream
  options := (congrArg LineProtocolReader.options hreader).trans h.options
  callback := (congrArg LineProtocolReader.callback hreader).trans h.callback
  holds := h.holds.congr hwatches
  waits line hline := h.waits line (by
    unfold ClientSystem.waiting at hline ⊢
    rwa [← hpending])

theorem Settled.serve (h : l.Settled) {call : ServerCall}
    (hserving : Serving (call.step m l.program.store)) (up : List Text) :
    (Link.serve m { l with up := up } call).Settled := by
  have hsingle : (call.step m l.program.store).SingleWatches := singleWatches_step m h.single call
  unfold Link.serve
  split_ifs
  · exact ⟨hserving, hsingle, h.attached, h.stream, h.options, h.callback, h.holds.congr rfl, h.waits⟩
  · exact ⟨hserving, hsingle, h.attached, h.stream, h.options, h.callback, h.holds, h.waits⟩

/-- **Steps.** Every operation keeps a link settled. -/
theorem Settled.step (h : l.Settled) (op : LinkOp) : (l.step m op).Settled := by
  cases op with
  | call call =>
    have hsession : Sessions.SameSession l.client (call.op.run shared.1 l.client) := by
      obtain ⟨sys, hrun, -, -, hsame⟩ := call_eq_send l.client call
      rw [hrun]
      exact hsame.trans (Sessions.same_send sys shared.1 _)
    refine ⟨h.serving, h.single, h.attached,
      hsession.tcpStream.trans (h.stream.trans hsession.connection.symm),
      (congrArg LineProtocolReader.options hsession.lineReader).trans h.options,
      (congrArg LineProtocolReader.callback hsession.lineReader).trans h.callback,
      h.holds.call call, fun line hline => ?_⟩
    cases hconn : l.client.client.connection with
    | none =>
      rcases waiting_call l.client call hconn line hline with hold | hnew
      · exact h.waits line hold
      · exact ⟨call, hnew⟩
    | some conn =>
      have hsame := (delivered_call l.client call hconn).2
      exact h.waits line (hsame ▸ hline)
  | receive rounds =>
    have hread := pollLineReader_shared rounds l.client
    unfold Link.step
    dsimp only
    generalize l.client.pollLineReader shared.1 shared.2 rounds = result at hread ⊢
    obtain ⟨events, sys⟩ := result
    obtain ⟨hconnection, hstream, hwatches, hpending, hoptions, hcallback⟩ := hread
    dsimp only at hconnection hstream hwatches hpending hoptions hcallback ⊢
    refine ⟨h.serving, h.single, ?_, hstream.trans (h.stream.trans hconnection.symm),
      hoptions.trans h.options, hcallback.trans h.callback, h.holds.congr hwatches,
      fun line hline => h.waits line ?_⟩
    · exact Run.foldl_invariant (I := fun c : Store => c.values.attached = true) (C := fun _ _ => True)
        (fun c line hc _ => (clientHandleLine_attached m line c).trans hc) h.attached fun _ _ => trivial
    · unfold ClientSystem.waiting at hline ⊢
      rwa [← hpending]
  | connect conn =>
    have hsame := onConnect_session l.client conn
    refine ⟨h.serving, h.single, h.attached, hsame.tcpStream.trans hsame.connection.symm,
      (congrArg LineProtocolReader.options hsame.lineReader).trans h.options,
      (congrArg LineProtocolReader.callback hsame.lineReader).trans h.callback,
      h.holds.congr (ClientSystem.onConnect_watches shared.1 l.client conn), fun line hline => ?_⟩
    exact absurd (waiting_onConnect l.client conn ▸ hline) List.not_mem_nil
  | closed =>
    unfold Link.step
    dsimp only
    cases hconn : l.client.client.connection with
    | none => exact h
    | some conn =>
      have hclosed : l.client.onClose conn = l.client.detached := if_pos hconn
      dsimp only
      rw [hclosed]
      exact h.cut l.client.detached rfl rfl (ClientSystem.detached_watches l.client)
        (ClientSystem.detached_pending l.client)
  | failed errorCode =>
    exact h.cut (l.client.onError errorCode) rfl rfl (ClientSystem.detached_watches _)
      (ClientSystem.detached_pending _)
  | close =>
    exact h.cut (l.client.close shared.1) rfl (close_reader l.client)
      (ClientSystem.close_watches shared.1 l.client)
      ((ClientSystem.detached_pending _).trans (ClientSystem.dropLineEvent_pending l.client))
  | handle nowUs =>
    unfold Link.step
    dsimp only
    cases hup : l.up with
    | nil => exact h
    | cons text up => exact h.serve (h.serving.line text nowUs) up
  | poll nowUs => exact h.serve (h.serving.poll nowUs) l.up
  | elsewhere op =>
    exact ⟨h.serving.step op, singleWatches_operation h.single op, h.attached, h.stream, h.options,
      h.callback, h.holds, h.waits⟩

theorem Settled.foldl (h : l.Settled) (ops : List LinkOp) :
    (ops.foldl (Link.step m) l).Settled :=
  Run.foldl_invariant (I := Settled) (C := fun _ _ => True) (fun _ op h _ => h.step op) h
    fun _ _ => trivial

theorem tracking_start (st : PypilotState) (ap : Autopilot) {c₀ : Store}
    (hc : c₀.values.attached = true) : (start m st ap c₀).Tracking m where
  settled := settled_start st ap hc
  settings _ _ := rfl
  shown h := nomatch h
  queue h := nomatch h

/-- A call of the client. -/
theorem Tracking.call (h : l.Tracking m) (call : FieldCall) :
    (l.step m (.call call)).Tracking m := by
  have hconnection : (call.op.run shared.1 l.client).client.connection =
      l.client.client.connection := by
    obtain ⟨sys, hrun, -, -, hsame⟩ := call_eq_send l.client call
    rw [hrun]
    exact (Sessions.same_send sys shared.1 _).connection.trans hsame.connection
  have hconnected : (l.step m (.call call)).connected = l.connected :=
    congrArg Option.isSome hconnection
  refine ⟨h.settled.step (.call call), h.settings, fun hconn => h.shown (hconnected ▸ hconn),
    fun hconn => ?_⟩
  obtain ⟨conn, hsome⟩ := Option.isSome_iff_exists.mp (hconnected ▸ hconn)
  obtain ⟨calls, hlines, hqueue⟩ := h.queue (hconnected ▸ hconn)
  have hup : (l.step m (.call call)).up = l.up ++ call.line.toList :=
    congrArg (l.up ++ ·) (delivered_call l.client call hsome).1
  rw [hup]
  cases hline : call.line with
  | none =>
    -- only settings may have no line
    refine ⟨calls, by simpa using hlines, fun id periodSeconds hwants => hqueue id periodSeconds ?_⟩
    rw [← hwants]
    refine (FieldCall.wants_of_not_rewatches (Bool.eq_false_iff.mpr fun hrewatches => ?_)).symm
    have hsome := FieldCall.line_isSome hrewatches
    rw [hline] at hsome
    exact absurd hsome Bool.false_ne_true
  | some line =>
    refine ⟨calls ++ [call], ?_, fun id periodSeconds hwants => ?_⟩
    · rw [List.map_append, hlines, List.map_singleton, hline, Option.toList_some, List.map_append]
      rfl
    · rw [lastFor_append, lastFor_singleton]
      by_cases hrewatches : call.rewatches id = true
      · rw [if_pos hrewatches, Option.some_or, FieldCall.wants_of_rewatches hrewatches hwants]
        exact .inl rfl
      · rw [if_neg hrewatches, Option.none_or]
        refine hqueue id periodSeconds ?_
        rw [← hwants]
        exact (FieldCall.wants_of_not_rewatches (by simpa using hrewatches)).symm

/-- A connection is lost. -/
theorem Tracking.cut (h : l.Tracking m) {sys : ClientSystem Text} (hsettled : (l.cut sys).Settled)
    (hlost : sys.client.connection = none) : (l.cut sys).Tracking m where
  settled := hsettled
  settings := h.settings
  shown hconn := absurd (show sys.client.connection.isSome = true from hconn) (by simp [hlost])
  queue hconn := absurd (show sys.client.connection.isSome = true from hconn) (by simp [hlost])

/-- The waiting lines and then those of the replay are on their way. -/
theorem Settled.tracking_connect (h : l.Settled) (conn : ConnId) :
    (l.step m (.connect conn)).Tracking m where
  settled := h.step (.connect conn)
  settings _ _ := rfl
  shown _ _ _ ht := nomatch ht
  queue _ := by
    obtain ⟨calls, hcalls⟩ : ∃ calls : List FieldCall,
        calls.map FieldCall.line = l.client.waiting.map some := by
      have hwaits := h.waits
      generalize l.client.waiting = lines at hwaits
      induction lines with
      | nil => exact ⟨[], rfl⟩
      | cons line lines ih =>
        obtain ⟨⟨call, hcall⟩, hlines⟩ := List.forall_mem_cons.mp hwaits
        obtain ⟨calls, hcalls⟩ := ih hlines
        exact ⟨call :: calls, by rw [List.map_cons, List.map_cons, hcall, hcalls]⟩
    have hup : (l.step m (.connect conn)).up =
        l.client.waiting ++ (replayCalls l.client).filterMap FieldCall.line := by
      rw [replayCalls_line h.holds.registered]
      exact (shared_takes conn).delivered
    have hreplay : (replayCalls l.client).map FieldCall.line =
        ((replayCalls l.client).filterMap FieldCall.line).map some := by
      rw [List.map_filterMap_some_eq_filter_map_isSome, List.filter_eq_self.mpr]
      intro line hline
      obtain ⟨call, hcall, rfl⟩ := List.mem_map.mp hline
      obtain ⟨id, periodSeconds, rfl⟩ := replayCalls_watches call hcall
      rw [line_watch]
      rfl
    refine ⟨calls ++ replayCalls l.client, ?_, fun id periodSeconds hwants => .inl ?_⟩
    · rw [hup, List.map_append, List.map_append, hreplay, hcalls]
    · have hwants' : l.wants id = some periodSeconds := hwants
      rw [lastFor_append, h.holds.lastFor_replay hwants', Option.some_or]

/-- The server writes to the client, with the lines `up` left to be handled. -/
theorem Tracking.serve (h : l.Tracking m) {call : ServerCall} {up : List Text}
    (hsettled : (Link.serve m { l with up := up } call).Settled)
    (hsends : l.connected = true → ∀ e ∈ call.emissions m l.program.store,
      e.Transmissible m (call.written l.program.store))
    (hqueue : l.connected = true → ∃ calls : List FieldCall, calls.map FieldCall.line = up.map some ∧
      ∀ id periodSeconds, l.wants id = some periodSeconds →
        lastFor id calls = some (.watch id periodSeconds) ∨
          lastFor id calls = none ∧ (l.program.call m call).Followed m id periodSeconds) :
    (serve m { l with up := up } call).Tracking m := by
  have hsettings : ∀ id, id ∉ directFields → (l.program.call m call).stale id = false := by
    intro id hid
    unfold Observed.call
    simp [h.settings id hid]
  unfold Link.serve at hsettled ⊢
  by_cases hconn : l.connected = true
  · have hconn' : connected { l with up := up } = true := hconn
    rw [if_pos hconn'] at hsettled ⊢
    refine ⟨hsettled, hsettings, fun _ id t ht => ?_, fun _ => hqueue hconn⟩
    dsimp only at ht ⊢
    rw [lastShown_append]
    have hshown : (if Observed.shows m (call.written l.program.store)
        (call.emissions m l.program.store) id then valueText m (call.written l.program.store) id
        else l.program.shown id) = some t := ht
    by_cases hes : .value id ∈ call.emissions m l.program.store
    · -- what gets through has a text, and that is shown
      have hread : (valueText m (call.written l.program.store) id).isSome = true :=
        (hsends hconn _ hes).1
      rw [if_pos (by simp [Observed.shows, hes, hread])] at hshown
      exact ⟨_, if_pos hes, hshown⟩
    · rw [if_neg (by simp [Observed.shows, hes])] at hshown
      rw [if_neg hes]
      exact h.shown hconn id t hshown
  · have hconn' : ¬ connected { l with up := up } = true := hconn
    rw [if_neg hconn'] at hsettled ⊢
    exact ⟨hsettled, hsettings, fun hc => absurd hc hconn, fun hc => absurd hc hconn⟩

/-- The server handles the first of the lines on their way. -/
theorem followed_handle {o : Observed} (hs : o.store.SingleWatches) {call : FieldCall}
    {calls : List FieldCall} {text : Text} (hline : call.line = some text) (nowUs : ℕ) {fid : FieldId}
    {periodSeconds : Real}
    (h : lastFor fid (call :: calls) = some (.watch fid periodSeconds) ∨
      lastFor fid (call :: calls) = none ∧ o.Followed m fid periodSeconds) :
    lastFor fid calls = some (.watch fid periodSeconds) ∨
      lastFor fid calls = none ∧ (o.call m (.line text nowUs)).Followed m fid periodSeconds := by
  rw [← List.singleton_append, lastFor_append, lastFor_singleton] at h
  cases hlast : lastFor fid calls with
  | some last =>
    rw [hlast, Option.some_or] at h
    exact .inl (h.resolve_right fun hnone => nomatch hnone.1)
  | none =>
    rw [hlast, Option.none_or] at h
    refine .inr ⟨rfl, ?_⟩
    rcases h with hcall | ⟨hother, hfollowed⟩
    · split_ifs at hcall
      obtain rfl := Option.some.inj hcall
      rw [line_watch] at hline
      obtain rfl := Option.some.inj hline
      exact Observed.followed_watchLine hs fid periodSeconds nowUs
    · refine hfollowed.line fun e he hid => hasEntry_callLine m he nowUs hline ?_
      rw [hid]
      split_ifs at hother with hrewatches
      simpa using hrewatches

/-- What else uses the server shows nothing. -/
theorem shown_elsewhere (o : Observed) {op : SystemOp} (hop : Undisturbed (.elsewhere op)) :
    (o.step m op).shown = o.shown := by
  cases op with
  | handleLine text nowUs =>
    refine funext fun id => if_neg ?_
    have hvalue : Emission.value id ∉ lineEmissions m nowUs text o.store :=
      value_notMem_lineEmissions m nowUs o.store hop id
    simp [Observed.shows, ServerCall.emissions, hvalue]
  | poll nowUs => exact hop.elim
  | iterate fuel imuUs rudderUs =>
    unfold Observed.step
    dsimp only
    cases Autopilot.iteration m fuel imuUs rudderUs o.ap o.store.state with
    | none => rfl
    | some p => rfl
  | feedDriverBytes bytes nowUs => rfl
  | feedLine text source nowUs => rfl

theorem Tracking.elsewhere (h : l.Tracking m) {op : SystemOp} (hop : Undisturbed (.elsewhere op)) :
    (l.step m (.elsewhere op)).Tracking m := by
  refine ⟨h.settled.step (.elsewhere op), Observed.settings_step h.settings op,
    fun hconn id t ht => ?_, fun hconn => ?_⟩
  · have ht' : (l.program.step m op).shown id = some t := ht
    rw [shown_elsewhere l.program hop] at ht'
    exact h.shown hconn id t ht'
  · obtain ⟨calls, hlines, hqueue⟩ := h.queue hconn
    refine ⟨calls, hlines, fun id periodSeconds hwants => ?_⟩
    refine (hqueue id periodSeconds hwants).imp_right fun hfollowed => ⟨hfollowed.1, ?_⟩
    refine hfollowed.2.step ?_
    cases op <;> exact hop

/-- **Steps.** An operation that nobody else disturbs keeps track of the watches. -/
theorem Tracking.step (h : l.Tracking m) {op : LinkOp} (hop : Undisturbed op)
    (hsends : l.Transmits m op) : (l.step m op).Tracking m := by
  have hsettled := h.settled.step (m := m) op
  cases op with
  | call call => exact h.call call
  | receive rounds =>
    obtain ⟨hconnection, -⟩ := pollLineReader_shared rounds l.client
    have hconnected : (l.step m (.receive rounds)).connected = l.connected :=
      congrArg Option.isSome hconnection
    exact ⟨hsettled, h.settings, fun hconn => h.shown (hconnected ▸ hconn),
      fun hconn => h.queue (hconnected ▸ hconn)⟩
  | connect conn => exact h.settled.tracking_connect conn
  | closed =>
    unfold Link.step at hsettled ⊢
    dsimp only at hsettled ⊢
    cases hconn : l.client.client.connection with
    | none => exact h
    | some conn =>
      have hclosed : l.client.onClose conn = l.client.detached := if_pos hconn
      rw [hconn] at hsettled
      dsimp only at hsettled ⊢
      rw [hclosed] at hsettled ⊢
      exact h.cut hsettled rfl
  | failed errorCode => exact h.cut hsettled rfl
  | close => exact h.cut hsettled rfl
  | handle nowUs =>
    unfold Link.step at hsettled ⊢
    dsimp only at hsettled ⊢
    cases hup : l.up with
    | nil => exact h
    | cons text up =>
      rw [hup] at hsettled
      refine h.serve hsettled (fun hconn => hsends hconn _ ?_) fun hconn => ?_
      · show _ ∈ l.up.head?.map _
        rw [hup]
        rfl
      · obtain ⟨calls, hlines, hqueue⟩ := h.queue hconn
        rw [hup] at hlines
        cases calls with
        | nil => exact nomatch hlines
        | cons call calls =>
          obtain ⟨hline, hlines⟩ := List.cons.inj hlines
          refine ⟨calls, hlines, fun id periodSeconds hwants => ?_⟩
          exact followed_handle h.settled.single hline nowUs (hqueue id periodSeconds hwants)
  | poll nowUs =>
    refine h.serve hsettled (fun hconn => hsends hconn _ rfl) fun hconn => ?_
    obtain ⟨calls, hlines, hqueue⟩ := h.queue hconn
    refine ⟨calls, hlines, fun id periodSeconds hwants => ?_⟩
    exact (hqueue id periodSeconds hwants).imp_right fun hfollowed =>
      ⟨hfollowed.1, hfollowed.2.poll nowUs⟩
  | elsewhere op => exact h.elsewhere hop

/-- Nothing is on its way between client and server. -/
structure Quiet (l : Link) : Prop where
  connected : l.connected = true
  up : l.up = []
  down : l.client.wire.world = []

/-- On a quiet link the server watches each field that is wanted, with the period that the text of the call
says, and the client has the field as the server has it, when it is wanted immediately and what the server
changed has been polled. -/
structure Agrees (m : Machine) (l : Link) : Prop where
  watched : ∀ id periodSeconds, l.wants id = some periodSeconds →
    ∃ e, l.program.store.HasEntry e ∧ e.id = id ∧
      watchPeriod m (periodText periodSeconds) = some e.periodSeconds
  copied : ∀ id periodSeconds, l.wants id = some periodSeconds → periodSeconds ≤ 0 →
    (valueText m l.program.store id).isSome → l.program.store.values.dirty id = false →
      (id ∈ directFields → l.program.stale id = false) → Copied m l.program.store l.copy id

theorem Tracking.agrees (h : l.Tracking m) (hm : m.HoldsIntegers) {c₀ : Store} (hsound : l.Sound m c₀)
    (hquiet : l.Quiet) : l.Agrees m := by
  have hfollowed : ∀ id periodSeconds, l.wants id = some periodSeconds →
      l.program.Followed m id periodSeconds := by
    obtain ⟨calls, hlines, hqueue⟩ := h.queue hquiet.connected
    rw [hquiet.up, List.map_nil, List.map_eq_nil_iff] at hlines
    subst hlines
    exact fun id periodSeconds hwants =>
      ((hqueue id periodSeconds hwants).resolve_left fun hlast => nomatch hlast).2
  refine ⟨fun id periodSeconds hwants => (hfollowed id periodSeconds hwants).entry,
    fun id periodSeconds hwants himm hread hclean hfresh => ?_⟩
  obtain ⟨t, htext⟩ := Option.isSome_iff_exists.mp hread
  have hstale : l.program.stale id = false := by
    by_cases hid : id ∈ directFields
    · exact hfresh hid
    · exact h.settings id hid
  -- the client has the text that was shown last, and that is the text of the field
  have hshown : l.program.shown id = some t := by
    rcases (hfollowed id periodSeconds hwants).fresh himm t htext with hdirty | hst | hshown
    · exact absurd (hdirty.symm.trans hclean) (Bool.false_ne_true ·.symm)
    · exact absurd (hst.symm.trans hstale) (Bool.false_ne_true ·.symm)
    · exact hshown
  obtain ⟨s, hlast, hs⟩ := h.shown hquiet.connected id t hshown
  have hmirrors := hsound.mirrors
  rw [hsound.heard_all hquiet.down] at hmirrors
  obtain ⟨t', ht', htold⟩ := hmirrors.shown id s hlast
  obtain rfl : t = t' := Option.some.inj (hs.symm.trans ht')
  have hsend := (hsound.sendable _ (mem_of_lastShown hlast)).transmissible
  exact htold.copied hm hsound.serving.attached hsound.serving.port
    (hsend.congr hsound.serving.attached (htext.trans hs.symm)) htext

end Link

/-! ## Runs -/

open Link

theorem states_tracking {m : Machine} {c₀ : Store} {l : Link} (h : l.Tracking m ∧ l.Sound m c₀)
    {ops : List LinkOp} (hops : ∀ op ∈ ops, Undisturbed op)
    (hsends : ∀ p ∈ Run.steps (Link.step m) l ops, p.1.Transmits m p.2) :
    ∀ l' ∈ Run.states (Link.step m) l ops, l'.Tracking m ∧ l'.Sound m c₀ := by
  have hundisturbed := (Run.forall_steps_iff (Link.step m) l ops).mpr hops
  exact Run.states_invariant (I := fun l => l.Tracking m ∧ l.Sound m c₀)
    (C := fun l op => Undisturbed op ∧ l.Transmits m op)
    (fun _ _ h hp => ⟨h.1.step hp.1 hp.2, h.2.step hp.2⟩) h
    fun p hp => ⟨hundisturbed p hp, hsends p hp⟩

section Runs

variable (m : Machine) (hm : m.HoldsIntegers) (st : PypilotState) (ap : Autopilot) {c₀ : Store}
  (hc : c₀.values.attached = true) {ops : List LinkOp}

include hm hc

/-- **Agreement.** Whatever interleaving of calls, reads, polls, lost and new connections came before: when
nothing is on its way, client and server agree. -/
theorem link_agrees (hops : ∀ op ∈ ops, Undisturbed op)
    (hsends : ∀ p ∈ Run.steps (Link.step m) (start m st ap c₀) ops, p.1.Transmits m p.2) :
    ∀ l ∈ Run.states (Link.step m) (start m st ap c₀) ops, l.Quiet → l.Agrees m := by
  intro l hl hquiet
  obtain ⟨htracking, hsound⟩ :=
    states_tracking ⟨tracking_start st ap hc, sound_start st ap hc⟩ hops hsends l hl
  exact htracking.agrees hm hsound hquiet

omit hm hc in
/-- The client hears of an assignment that somebody else makes. -/
theorem link_agrees_session :
    let l := [LinkOp.call (.watch .apEnabled 0), .connect 7, .handle 0, .handle 0,
      .elsewhere (.handleLine (lit "ap.enabled=true") 1), .poll 2, .receive 64].foldl
        (Link.step default) (start default {} ⟨{}⟩ (create default {} {}))
    l.Agrees default ∧ l.copy.readBool .apEnabled = some true := by
  intro l
  have hl := Run.foldl_mem_states (Link.step default)
    (start default {} ⟨{}⟩ (create default {} {}))
    [LinkOp.call (.watch .apEnabled 0), .connect 7, .handle 0, .handle 0,
      .elsewhere (.handleLine (lit "ap.enabled=true") 1), .poll 2, .receive 64]
  have hrequest : ∀ expression, request (lit "ap.enabled=true") ≠ .watch expression := by
    intro expression h
    have hassign : request (lit "ap.enabled=true") = .assignment (lit "ap.enabled") (lit "true") := rfl
    exact nomatch hassign.symm.trans h
  exact ⟨link_agrees default (fun _ _ => rfl) {} ⟨{}⟩ rfl (by simpa [Undisturbed] using hrequest)
    (by decide +kernel) l hl ⟨by decide +kernel, by decide +kernel, by decide +kernel⟩,
    by decide +kernel⟩

end Runs

end Pypilot
