import Pypilot.LinkAgreement

/-!
# Client and server on a new connection

What was lost with a connection, and who else used the server meanwhile, does not matter on the next one:
the client asks for all that it wants again, and its reader starts afresh. So a bounded number of operations
on a new connection brings client and server to agree from any state (`link_resynchronises`).
-/

namespace Pypilot

open Text Server AsyncEventLoop Client

namespace Link

variable {m : Machine} {l : Link}

/-! ## The operations of a new connection -/

/-- A new connection on which the lines are handled, the changes polled and the bytes read. -/
def reopening (m : Machine) (l : Link) (conn : ConnId) (nowUs : ℕ) : List LinkOp :=
  let l₁ := l.step m (.connect conn)
  let handles := List.replicate l₁.up.length (.handle nowUs)
  let l₂ := (handles.foldl (Link.step m) l₁).step m (.poll nowUs)
  .connect conn :: (handles ++ [.poll nowUs, .receive l₂.client.wire.world.length])

theorem undisturbed_reopening {conn : ConnId} {nowUs : ℕ} {op : LinkOp}
    (h : op ∈ l.reopening m conn nowUs) : Undisturbed op := by
  unfold reopening at h
  simp only [List.mem_cons, List.mem_append, List.mem_replicate, List.not_mem_nil, or_false] at h
  rcases h with rfl | ⟨-, rfl⟩ | rfl | rfl <;> exact trivial

/-- The session is open, and no field is stale. -/
structure Reopened (wants : FieldId → Option Real) (l : Link) : Prop where
  connected : l.connected = true
  stale : ∀ id, l.program.stale id = false
  wants_eq : l.wants = wants

variable {wants : FieldId → Option Real}

theorem Reopened.serve (h : l.Reopened wants) (call : ServerCall) (up : List Text) :
    (Link.serve m { l with up := up } call).Reopened wants ∧
      (Link.serve m { l with up := up } call).up = up := by
  have hstale : ∀ id, (l.program.call m call).stale id = false := by
    intro id
    unfold Observed.call
    simp [h.stale id]
  have hconn : Link.connected { l with up := up } = true := h.connected
  unfold Link.serve
  rw [if_pos hconn]
  exact ⟨⟨h.connected, hstale, h.wants_eq⟩, rfl⟩

theorem Reopened.handles (h : l.Reopened wants) (nowUs : ℕ) :
    ((List.replicate l.up.length (.handle nowUs)).foldl (Link.step m) l).Reopened wants ∧
      ((List.replicate l.up.length (.handle nowUs)).foldl (Link.step m) l).up = [] := by
  generalize hup : l.up = up
  induction up generalizing l with
  | nil => exact ⟨h, hup⟩
  | cons text up ih =>
    have hstep : l.step m (.handle nowUs) = Link.serve m { l with up := up } (.line text nowUs) := by
      unfold Link.step
      dsimp only
      rw [hup]
    obtain ⟨hserve, hrest⟩ := h.serve (m := m) (.line text nowUs) up
    rw [List.length_cons, List.replicate_succ, List.foldl_cons, hstep]
    exact ih hserve hrest

/-- The client reads all that is on its way. -/
theorem receive_all (h : l.Settled) (hconnected : l.connected = true) :
    (l.step m (.receive l.client.wire.world.length)).client.wire.world = [] := by
  obtain ⟨conn, hconn⟩ := Option.isSome_iff_exists.mp hconnected
  unfold Link.step ClientSystem.pollLineReader
  dsimp only
  rw [h.stream, hconn]
  dsimp only
  by_cases hreadable : ClientSystem.readable shared.1 shared.2 conn l.client.wire.world = true
  · rw [if_pos hreadable]
    obtain ⟨-, hworld, -⟩ := pollReader_shared conn l.client.wire.world.length l.client
    exact hworld.trans List.drop_length
  · rw [if_neg hreadable]
    cases hworld : l.client.wire.world with
    | nil => rfl
    | cons byte world =>
      rw [hworld] at hreadable
      exact absurd rfl hreadable

/-- At most the waiting lines and one line for each watch are sent on a new connection. -/
theorem reopening_length (m : Machine) (l : Link) (conn : ConnId) (nowUs : ℕ) :
    (l.reopening m conn nowUs).length ≤ maxPendingLines + maxClientWatches + 3 := by
  have hup : (l.step m (.connect conn)).up =
      l.client.waiting ++ l.client.client.watches.toList.filterMap replayLine :=
    (shared_takes conn).delivered
  have hwaiting : l.client.waiting.length ≤ maxPendingLines := by
    unfold ClientSystem.waiting
    rw [List.length_map]
    exact (List.length_filter_le _ _).trans_eq l.client.client.pending.toList_length
  have hreplay : (l.client.client.watches.toList.filterMap replayLine).length ≤ maxClientWatches :=
    (List.length_filterMap_le _ _).trans_eq l.client.client.watches.toList_length
  unfold reopening
  dsimp only
  rw [hup, List.length_cons, List.length_append, List.length_replicate, List.length_append]
  simp only [List.length_cons, List.length_nil]
  omega

/-- At the end of it nothing is on its way, no field is marked and none is stale. -/
theorem Settled.reopened (h : l.Settled) (conn : ConnId) (nowUs : ℕ) :
    let l' := (l.reopening m conn nowUs).foldl (Link.step m) l
    l'.Quiet ∧ l'.wants = l.wants ∧ (∀ id, l'.program.store.values.dirty id = false) ∧
      ∀ id, l'.program.stale id = false := by
  intro l'
  let l₁ := l.step m (.connect conn)
  let l₂ := (List.replicate l₁.up.length (.handle nowUs)).foldl (Link.step m) l₁
  let l₃ := l₂.step m (.poll nowUs)
  have hlast : l' = l₃.step m (.receive l₃.client.wire.world.length) := by
    show (LinkOp.connect conn :: (_ ++ _)).foldl _ l = _
    rw [List.foldl_cons, List.foldl_append]
    rfl
  -- the connection is open from the first operation on
  have hopen : l₁.Reopened l.wants :=
    ⟨congrArg Option.isSome (onConnect_session l.client conn).connection, fun _ => rfl, rfl⟩
  obtain ⟨hhandles, hup⟩ := hopen.handles (m := m) nowUs
  obtain ⟨hpoll, hup'⟩ := hhandles.serve (m := m) (.poll id nowUs) l₂.up
  have hstore : l₃.program.store = ServerCall.step m l₂.program.store (.poll id nowUs) := by
    show (Link.serve m l₂ _).program.store = _
    unfold Link.serve
    split_ifs <;> rfl
  have hreceive : l'.program = l₃.program ∧ l'.up = l₃.up ∧ l'.wants = l₃.wants ∧
      l'.connected = l₃.connected := by
    rw [hlast]
    exact ⟨rfl, rfl, rfl, congrArg Option.isSome (pollLineReader_shared _ l₃.client).1⟩
  obtain ⟨hprogram, hup'', hwants, hconnected⟩ := hreceive
  have hworld : l'.client.wire.world = [] := by
    have hsettled₂ : l₂.Settled := (h.step (.connect conn)).foldl _
    rw [hlast]
    exact receive_all (hsettled₂.step (.poll nowUs)) hpoll.connected
  refine ⟨⟨hconnected.trans hpoll.connected, hup''.trans (hup'.trans hup), hworld⟩,
    hwants.trans hpoll.wants_eq, fun id => ?_, fun id => ?_⟩
  · rw [hprogram, hstore, Observed.poll_step]
  · rw [hprogram]
    exact hpoll.stale id

/-! ## What was seen before -/

/-- The link as if nothing had been seen of it. -/
def forget (l : Link) : Link := { l with log := [], heard := 0 }

theorem step_forget (l : Link) (op : LinkOp) : (l.forget.step m op).forget = (l.step m op).forget := by
  have hserve : ∀ (l : Link) (call : ServerCall),
      (l.forget.serve m call).forget = (l.serve m call).forget := by
    intro l call
    have hconn : l.forget.connected = l.connected := rfl
    unfold Link.serve
    rw [hconn]
    split_ifs <;> rfl
  cases op with
  | call call => rfl
  | receive rounds => rfl
  | connect conn => rfl
  | closed =>
    have hclient : l.forget.client = l.client := rfl
    unfold Link.step
    dsimp only
    rw [hclient]
    cases l.client.client.connection <;> rfl
  | failed errorCode => rfl
  | close => rfl
  | handle nowUs =>
    have hup : l.forget.up = l.up := rfl
    unfold Link.step
    dsimp only
    rw [hup]
    cases l.up with
    | nil => rfl
    | cons text up => exact hserve { l with up := up } (.line text nowUs)
  | poll nowUs => exact hserve l (.poll id nowUs)
  | elsewhere op => rfl

theorem eq_of_forget {l' : Link} (hsame : l'.forget = l.forget) :
    l'.client = l.client ∧ l'.copy = l.copy ∧ l'.program = l.program ∧ l'.up = l.up ∧
      l'.wants = l.wants := by
  unfold forget at hsame
  injection hsame with hclient hcopy hprogram hup _ _ hwants
  exact ⟨hclient, hcopy, hprogram, hup, hwants⟩

/-- A run does not depend on it. -/
theorem run_forget {l' : Link} (hsame : l'.forget = l.forget) {ops : List LinkOp}
    (hsends : ∀ p ∈ Run.steps (Link.step m) l ops, p.1.Transmits m p.2) :
    (∀ p ∈ Run.steps (Link.step m) l' ops, p.1.Transmits m p.2) ∧
      (ops.foldl (Link.step m) l').forget = (ops.foldl (Link.step m) l).forget := by
  induction ops generalizing l l' with
  | nil => exact ⟨fun p hp => absurd hp List.not_mem_nil, hsame⟩
  | cons op ops ih =>
    rw [Run.steps, List.forall_mem_cons] at hsends
    have hnext : (l'.step m op).forget = (l.step m op).forget := by
      rw [← step_forget l', hsame, step_forget]
    obtain ⟨hrest, hend⟩ := ih hnext hsends.2
    refine ⟨?_, hend⟩
    rw [Run.steps, List.forall_mem_cons]
    refine ⟨?_, hrest⟩
    show l'.forget.Transmits m op
    rw [hsame]
    exact hsends.1

/-- On a new connection the client has its copy, and nothing else counts. -/
theorem Settled.reconnected (h : l.Settled) (conn : ConnId) :
    (l.step m (.connect conn)).forget.Tracking m ∧
      (l.step m (.connect conn)).forget.Sound m l.copy := by
  obtain ⟨hsettled, hsettings, -, hqueue⟩ := h.tracking_connect (m := m) conn
  obtain ⟨hserving, hsingle, hattached, hstream, hoptions, hcallback, hholds, hwaits⟩ := hsettled
  have hreader := (onConnect_session l.client conn).lineReader
  refine ⟨⟨⟨hserving, hsingle, hattached, hstream, hoptions, hcallback, hholds, hwaits⟩, hsettings,
    fun _ _ _ ht => (nomatch ht), hqueue⟩, .start m h.attached, le_rfl,
    fun p hp => absurd hp List.not_mem_nil, hserving, hstream, hoptions, hcallback,
    fun _ => ⟨rfl, rfl⟩, fun _ => ⟨[], List.not_mem_nil, rfl, hoptions, hcallback, ?_⟩⟩
  exact (congrArg LineProtocolReader.buffer hreader).trans (LineProtocolReader.kept_nil _).symm

end Link

/-! ## Agreement -/

open Link

/-- On a new connection that nobody disturbs client and server come to agree, whatever was before it. -/
theorem agrees_reconnected {m : Machine} (hm : m.HoldsIntegers) {l : Link} (h : l.Settled)
    {conn : ConnId} {ops : List LinkOp} (hops : ∀ op ∈ ops, Undisturbed op)
    (hsends : ∀ p ∈ Run.steps (Link.step m) (l.step m (.connect conn)) ops, p.1.Transmits m p.2)
    (hquiet : (ops.foldl (Link.step m) (l.step m (.connect conn))).Quiet) :
    (ops.foldl (Link.step m) (l.step m (.connect conn))).Agrees m := by
  have hforget : (l.step m (.connect conn)).forget.forget = (l.step m (.connect conn)).forget := rfl
  obtain ⟨hsends', hsame⟩ := run_forget hforget hsends
  generalize hk : ops.foldl (Link.step m) (l.step m (.connect conn)).forget = k at hsame
  generalize ops.foldl (Link.step m) (l.step m (.connect conn)) = l' at hsame hquiet ⊢
  obtain ⟨htracking, hsound⟩ := states_tracking (h.reconnected conn) hops hsends' k
    (hk ▸ Run.foldl_mem_states (Link.step m) _ ops)
  obtain ⟨hclient, hcopy, hprogram, hup, hwants⟩ := eq_of_forget hsame
  have hquiet' : k.Quiet := by
    refine ⟨?_, hup.trans hquiet.up, ?_⟩
    · unfold Link.connected
      rw [hclient]
      exact hquiet.connected
    · rw [hclient]
      exact hquiet.down
  obtain ⟨hwatched, hcopied⟩ := htracking.agrees hm hsound hquiet'
  rw [hprogram, hwants] at hwatched
  rw [hprogram, hcopy, hwants] at hcopied
  exact ⟨hwatched, hcopied⟩

section Runs

variable (m : Machine) (hm : m.HoldsIntegers) (st : PypilotState) (ap : Autopilot) {c₀ : Store}
  (hc : c₀.values.attached = true) {ops : List LinkOp}

include hm hc

/-- **Resynchronisation.** From any state, whatever was lost on the way to it and whoever else used the
server, a bounded number of operations on a new connection makes the client have all readable fields that
it wants immediately as the server has them. -/
theorem link_resynchronises (conn : ConnId) (nowUs : ℕ) :
    let l := ops.foldl (Link.step m) (start m st ap c₀)
    let l' := (l.reopening m conn nowUs).foldl (Link.step m) l
    (∀ p ∈ Run.steps (Link.step m) l (l.reopening m conn nowUs), p.1.Transmits m p.2) →
    (l.reopening m conn nowUs).length ≤ maxPendingLines + maxClientWatches + 3 ∧ l'.Quiet ∧
      l'.wants = l.wants ∧
      ∀ id periodSeconds, l.wants id = some periodSeconds → periodSeconds ≤ 0 →
        (valueText m l'.program.store id).isSome → Copied m l'.program.store l'.copy id := by
  intro l l' hsends
  have hsettled : l.Settled := (settled_start st ap hc).foldl ops
  obtain ⟨hquiet, hwants, hclean, hfresh⟩ := hsettled.reopened (m := m) conn nowUs
  obtain ⟨rest, hrest⟩ : ∃ rest, l.reopening m conn nowUs = .connect conn :: rest := ⟨_, rfl⟩
  have hundisturbed : ∀ op ∈ rest, Undisturbed op := fun op hop =>
    undisturbed_reopening (hrest ▸ List.mem_cons_of_mem _ hop)
  rw [hrest, Run.steps, List.forall_mem_cons] at hsends
  have hend : l' = rest.foldl (Link.step m) (l.step m (.connect conn)) := by
    show (l.reopening m conn nowUs).foldl (Link.step m) l = _
    rw [hrest]
    rfl
  have hagrees : l'.Agrees m := by
    have hquiet' : l'.Quiet := hquiet
    rw [hend] at hquiet' ⊢
    exact agrees_reconnected hm hsettled hundisturbed hsends.2 hquiet'
  refine ⟨reopening_length m l conn nowUs, hquiet, hwants, fun id p hp himm hread => ?_⟩
  exact hagrees.copied id p ((congrFun hwants id).trans hp) himm hread (hclean id) fun _ => hfresh id

end Runs

/-- A watch that was lost with a connection is asked for again on the next one, also when somebody else has
watched the field meanwhile. -/
theorem link_resynchronises_session :
    let l := [LinkOp.connect 7, .call (.watch .apEnabled 0), .closed,
      .elsewhere (.handleLine (lit "watch=\x7b\"ap.enabled\":5\x7d") 1)].foldl (Link.step default)
        (start default {} ⟨{}⟩ (create default {} {}))
    let l' := (l.reopening default 8 5).foldl (Link.step default) l
    l.up = [] ∧ l'.Quiet ∧ Copied default l'.program.store l'.copy .apEnabled := by
  obtain ⟨-, hquiet, -, hcopied⟩ := @link_resynchronises default (fun _ _ => rfl) {} ⟨{}⟩
    (create default {} {}) rfl [.connect 7, .call (.watch .apEnabled 0), .closed,
      .elsewhere (.handleLine (lit "watch=\x7b\"ap.enabled\":5\x7d") 1)] 8 5 (by decide +kernel)
  exact ⟨by decide +kernel, hquiet,
    hcopied .apEnabled 0 (by decide +kernel) (by decide) (by decide +kernel)⟩

end Pypilot
