import Pypilot.Reconnect
import Pypilot.Sessions

/-!
# The watches that are wanted

The calls of a client tell which names it wants to watch, and how often: the last call for a name counts.
Whatever else happens to the client, its slots hold just these names and periods as long as there are
enough of them, and a new connection is handed their lines (`replay_wanted`).
-/

namespace Pypilot

open Text SlotTable Client

variable {W : Type}

/-- The calls and events of a client, its line reader being polled among them. -/
inductive ClientMove (W : Type)
  | op (call : ClientOp W)
  | onData (conn : ConnId)
  | pollLineReader

namespace ClientMove

variable (net : Net W) (inlet : Inlet W) (rounds : ℕ)

def run (sys : ClientSystem W) : ClientMove W → ClientSystem W
  | op call => call.run net sys
  | onData conn => (sys.onData net inlet rounds conn).2
  | pollLineReader => (sys.pollLineReader net inlet rounds).2

/-! ## What the calls want -/

/-- The period that the name is wanted with after a call, from the one before. -/
def wantedAfter (name : Text) (period : Option Real) : ClientMove W → Option Real
  | op (.watch name' periodSeconds) => if name' = name then some periodSeconds else period
  | op (.unwatch name') => if name' = name then none else period
  | _ => period

/-- The period of the last call for the name, when that was a watch. -/
def wanted (moves : List (ClientMove W)) (name : Text) : Option Real :=
  moves.foldl (wantedAfter name) none

/-- At no time are more names wanted than there are slots. -/
def FewWanted (moves : List (ClientMove W)) : Prop :=
  ∀ before, before <+: moves → ∀ names : List Text, names.Nodup →
    (∀ name ∈ names, (wanted before name).isSome) → names.length ≤ maxClientWatches

/-- The names that are watched fit a slot, and no NUL ends them early. -/
def ShortNames (moves : List (ClientMove W)) : Prop :=
  ∀ name periodSeconds, op (.watch name periodSeconds) ∈ moves →
    name.length < maxNameSize ∧ (0 : Byte) ∉ name

theorem wanted_concat (moves : List (ClientMove W)) (move : ClientMove W) (name : Text) :
    wanted (moves ++ [move]) name = move.wantedAfter name (wanted moves name) :=
  List.foldl_concat _ _ _ _

/-- A name that is wanted was watched. -/
theorem mem_of_wanted {moves : List (ClientMove W)} {name : Text} {periodSeconds : Real}
    (h : wanted moves name = some periodSeconds) : op (.watch name periodSeconds) ∈ moves := by
  induction moves using List.reverseRecOn with
  | nil => exact nomatch h
  | append_singleton moves move ih =>
    rw [wanted_concat] at h
    unfold wantedAfter at h
    split at h
    · split_ifs at h with hname
      · rw [hname, Option.some.inj h]
        exact List.mem_append_right _ (List.mem_singleton.mpr rfl)
      · exact List.mem_append_left _ (ih h)
    · split_ifs at h
      exact List.mem_append_left _ (ih h)
    · exact List.mem_append_left _ (ih h)

end ClientMove

namespace ClientSystem

open ClientMove

/-! ## The slots -/

/-- The slots in use have different names, and they are the names that are wanted, with their periods. -/
structure HoldsWanted (sys : ClientSystem W) (period : Text → Option Real) : Prop where
  single : Distinct ClientWatch.active ClientWatch.name sys.client.watches
  holds : ∀ name periodSeconds,
    (∃ i, (sys.client.watches.get i).active = true ∧ (sys.client.watches.get i).name = name ∧
      (sys.client.watches.get i).periodSeconds = periodSeconds) ↔ period name = some periodSeconds

variable {sys : ClientSystem W} {period : Text → Option Real}

theorem HoldsWanted.congr (h : sys.HoldsWanted period) {sys' : ClientSystem W}
    (hwatches : sys'.client.watches = sys.client.watches) : sys'.HoldsWanted period := by
  constructor
  · rw [hwatches]
    exact h.single
  · rw [hwatches]
    exact h.holds

theorem HoldsWanted.wanted_of_active (h : sys.HoldsWanted period) {i : Fin maxClientWatches}
    (hact : (sys.client.watches.get i).active = true) :
    (period (sys.client.watches.get i).name).isSome := by
  rw [(h.holds _ _).mp ⟨i, hact, rfl, rfl⟩]
  rfl

theorem HoldsWanted.remembers_iff (h : sys.HoldsWanted period) (name : Text) :
    sys.Remembers name ↔ (period name).isSome := by
  constructor
  · rintro ⟨i, hact, rfl⟩
    exact h.wanted_of_active hact
  · intro hsome
    obtain ⟨periodSeconds, hperiod⟩ := Option.isSome_iff_exists.mp hsome
    obtain ⟨i, hact, hname, -⟩ := (h.holds name periodSeconds).mpr hperiod
    exact ⟨i, hact, hname⟩

/-- One slot becomes that of the name, which no other slot has. -/
theorem HoldsWanted.set (h : sys.HoldsWanted period) {sys' : ClientSystem W} {name : Text}
    {periodSeconds : Real} {i : Fin maxClientWatches}
    (hwatches : sys'.client.watches = sys.client.watches.set i ⟨true, name, periodSeconds⟩)
    (hheld : (sys.client.watches.get i).active = true → (sys.client.watches.get i).name = name)
    (hother : ∀ j, j ≠ i → (sys.client.watches.get j).active = true →
      (sys.client.watches.get j).name ≠ name) :
    sys'.HoldsWanted fun name' => if name = name' then some periodSeconds else period name' := by
  refine ⟨?_, ?_⟩
  · rw [hwatches]
    exact h.single.set fun _ => hother
  · intro name' period'
    rw [hwatches, exists_get_set (Q := fun watch : ClientWatch =>
      watch.active = true ∧ watch.name = name' ∧ watch.periodSeconds = period')]
    by_cases hname : name = name'
    · subst hname
      rw [if_pos rfl, Option.some_inj]
      constructor
      · rintro (⟨-, -, hperiod⟩ | ⟨j, hj, hact, hname, -⟩)
        · exact hperiod
        · exact absurd hname (hother j hj hact)
      · intro hperiod
        exact .inl ⟨rfl, rfl, hperiod⟩
    · rw [if_neg hname, ← h.holds]
      constructor
      · rintro (⟨-, heq, -⟩ | ⟨j, -, hj⟩)
        · exact absurd heq hname
        · exact ⟨j, hj⟩
      · rintro ⟨j, hact, heq, hperiod⟩
        refine .inr ⟨j, ?_, hact, heq, hperiod⟩
        rintro rfl
        exact hname ((hheld hact).symm.trans heq)

/-- A name is watched: it has a slot, or there is a free one. -/
theorem HoldsWanted.rememberWatch (h : sys.HoldsWanted period) {name : Text}
    (hlen : name.length < maxNameSize) (hzero : (0 : Byte) ∉ name) (periodSeconds : Real)
    (hroom : sys.FreeWatch ∨ sys.Remembers name) :
    (sys.rememberWatch name periodSeconds).HoldsWanted
      fun name' => if name = name' then some periodSeconds else period name' := by
  have hcopy : cstr (name.take (maxNameSize - 1)) = name := by
    rw [List.take_of_length_le (Nat.le_sub_one_of_lt hlen), cstr_eq_self hzero]
  rcases rememberWatch_cases sys name periodSeconds with
    ⟨i, hact, hheld, heq⟩ | ⟨hnot, ⟨i, hfree, heq⟩ | ⟨hfull, -⟩⟩
  · refine h.set heq (fun _ => hheld) fun j hj hactj hname => ?_
    exact hj (h.single j i hactj hact (hname.trans hheld.symm))
  · rw [hcopy] at heq
    refine h.set heq (fun hact => ?_) fun j _ hactj hname => hnot ⟨j, hactj, hname⟩
    exact absurd (hfree.symm.trans hact) (by decide)
  · exact absurd hroom (not_or.mpr ⟨hfull, hnot⟩)

/-- A name is unwatched: its slot is freed. -/
theorem HoldsWanted.forgetWatch (h : sys.HoldsWanted period) (name : Text) :
    (sys.forgetWatch name).HoldsWanted
      fun name' => if name = name' then none else period name' := by
  have hkept : ∀ watch : ClientWatch,
      (if watch.active && decide (name = watch.name) then { watch with active := false }
        else watch).active = true →
      (if watch.active && decide (name = watch.name) then { watch with active := false }
        else watch) = watch ∧ name ≠ watch.name := by
    intro watch hact
    split_ifs at hact ⊢ with hheld
    rw [Bool.and_eq_true, decide_eq_true_eq] at hheld
    exact ⟨rfl, fun hname => hheld ⟨hact, hname⟩⟩
  refine ⟨h.single.map fun watch hact => ?_, ?_⟩
  · obtain ⟨hsame, -⟩ := hkept watch hact
    rw [hsame] at hact ⊢
    exact ⟨hact, rfl⟩
  · intro name' period'
    unfold ClientSystem.forgetWatch
    simp only [List.Vector.get_map]
    by_cases hname : name = name'
    · rw [if_pos hname]
      refine iff_of_false ?_ (by simp)
      rintro ⟨i, hact, heq, -⟩
      obtain ⟨hsame, hne⟩ := hkept _ hact
      rw [hsame] at heq
      exact hne (hname.trans heq.symm)
    · rw [if_neg hname, ← h.holds]
      constructor
      · rintro ⟨i, hact, hi⟩
        obtain ⟨hsame, -⟩ := hkept _ hact
        rw [hsame] at hact hi
        exact ⟨i, hact, hi⟩
      · rintro ⟨i, hact, heq, hperiod⟩
        refine ⟨i, ?_⟩
        rw [if_neg (by simpa [heq] using fun _ => hname)]
        exact ⟨hact, heq, hperiod⟩

/-! ## Runs -/

variable (net : Net W) (inlet : Inlet W)

theorem pollReader_watches (conn : ConnId) (rounds : ℕ) (sys : ClientSystem W) :
    (sys.pollReader net inlet conn rounds).2.client.watches = sys.client.watches := by
  induction rounds generalizing sys with
  | zero => rfl
  | succ rounds ih =>
    unfold pollReader
    split_ifs
    · rcases inlet.read conn sys.wire.world with ⟨_ | byte, world⟩
      · rfl
      · exact ih _
    · rfl

theorem pollLineReader_watches (rounds : ℕ) (sys : ClientSystem W) :
    (sys.pollLineReader net inlet rounds).2.client.watches = sys.client.watches := by
  unfold pollLineReader
  split
  · rfl
  · split_ifs
    · exact pollReader_watches net inlet _ rounds sys
    · rfl

theorem detached_watches (sys : ClientSystem W) :
    sys.detached.client.watches = sys.client.watches := by
  unfold detached dropLineEvent
  split_ifs <;> rfl

theorem onClose_watches (sys : ClientSystem W) (conn : ConnId) :
    (sys.onClose conn).client.watches = sys.client.watches := by
  unfold onClose
  split_ifs
  · exact detached_watches sys
  · rfl

theorem close_watches (sys : ClientSystem W) :
    (sys.close net).client.watches = sys.client.watches := by
  have hdrop : sys.dropLineEvent.client.watches = sys.client.watches := by
    unfold dropLineEvent
    split_ifs <;> rfl
  exact (detached_watches _).trans hdrop

theorem popOutgoing_watches (sys : ClientSystem W) :
    sys.popOutgoing.2.client.watches = sys.client.watches := by
  unfold popOutgoing
  dsimp only
  split <;> rfl

/-- **One call or event.** The slots hold what is wanted after it, when there is room. -/
theorem HoldsWanted.run (h : sys.HoldsWanted period) (rounds : ℕ) (move : ClientMove W)
    (hshort : ∀ name periodSeconds, move = .op (.watch name periodSeconds) →
      name.length < maxNameSize ∧ (0 : Byte) ∉ name)
    (hroom : ∀ name periodSeconds, move = .op (.watch name periodSeconds) →
      sys.FreeWatch ∨ sys.Remembers name) :
    (move.run net inlet rounds sys).HoldsWanted fun name => move.wantedAfter name (period name) := by
  cases move with
  | onData conn => exact h.congr (pollLineReader_watches net inlet rounds sys)
  | pollLineReader => exact h.congr (pollLineReader_watches net inlet rounds sys)
  | op call =>
    cases call with
    | watch name periodSeconds =>
      obtain ⟨hlen, hzero⟩ := hshort name periodSeconds rfl
      exact (h.rememberWatch hlen hzero periodSeconds (hroom name periodSeconds rfl)).congr
        (send_watches net _ _)
    | unwatch name => exact (h.forgetWatch name).congr (send_watches net _ _)
    | set name wireValue => exact h.congr (send_watches net sys _)
    | setBool name value => exact h.congr (send_watches net sys _)
    | setReal name value => exact h.congr (send_watches net sys _)
    | setString name value => exact h.congr (send_watches net sys _)
    | sendRaw line => exact h.congr (send_watches net sys (some line))
    | popOutgoing => exact h.congr (popOutgoing_watches sys)
    | onConnect conn => exact h.congr (onConnect_watches net sys conn)
    | onClose conn => exact h.congr (onClose_watches sys conn)
    | onError errorCode => exact h.congr (detached_watches _)
    | close => exact h.congr (close_watches net sys)
    | environment f => exact h.congr rfl

/-- Where few names are wanted there is room for the next one. -/
theorem HoldsWanted.room {before : List (ClientMove W)} (h : sys.HoldsWanted (wanted before))
    {name : Text} {periodSeconds : Real}
    (hfew : ∀ names : List Text, names.Nodup →
      (∀ name' ∈ names, (wanted (before ++ [.op (.watch name periodSeconds)]) name').isSome) →
      names.length ≤ maxClientWatches) :
    sys.FreeWatch ∨ sys.Remembers name := by
  by_contra hnone
  obtain ⟨hfull, hnew⟩ := not_or.mp hnone
  have hactive : ∀ watch ∈ sys.client.watches.toList, watch.active = true := by
    intro watch hmem
    by_contra hact
    obtain ⟨i, hi⟩ := (exists_mem_toList (Q := fun x : ClientWatch => x.active = false)).mp
      ⟨watch, hmem, by simpa using hact⟩
    exact hfull ⟨i, hi⟩
  have hnodup : (sys.client.watches.toList.map ClientWatch.name).Nodup := by
    have hused := h.single.nodup
    rwa [List.filter_eq_self.mpr hactive] at hused
  have hmem : ∀ {name'}, name' ∈ sys.client.watches.toList.map ClientWatch.name →
      sys.Remembers name' := by
    intro name' hname'
    obtain ⟨watch, hwatch, rfl⟩ := List.mem_map.mp hname'
    exact (remembers_iff_mem _).mpr ⟨watch, hwatch, hactive watch hwatch, rfl⟩
  -- with the new name there would be one name more than slots
  have hlen := hfew (name :: sys.client.watches.toList.map ClientWatch.name)
    (List.nodup_cons.mpr ⟨fun h => hnew (hmem h), hnodup⟩) ?_
  · rw [List.length_cons, List.length_map, List.Vector.toList_length] at hlen
    exact absurd hlen (Nat.not_succ_le_self _)
  · intro name' hname'
    rw [wanted_concat]
    show (if name = name' then _ else _ : Option Real).isSome
    split_ifs with heq
    · rfl
    · rcases List.mem_cons.mp hname' with hname' | hname'
      · exact absurd hname'.symm heq
      · exact (h.remembers_iff name').mp (hmem hname')

end ClientSystem

namespace ClientMove

variable (net : Net W) (inlet : Inlet W) (rounds : ℕ)

/-- **All calls and events.** The slots of a new client hold what its calls want. -/
theorem foldl_holdsWanted (world : W) {moves : List (ClientMove W)} (hshort : ShortNames moves)
    (hfew : FewWanted moves) :
    (moves.foldl (run net inlet rounds) (History.start world).sys).HoldsWanted (wanted moves) := by
  induction moves using List.reverseRecOn with
  | nil =>
    refine ⟨?_, ?_⟩
    · intro i j hi
      exact absurd hi (by simp [History.start])
    · intro name periodSeconds
      refine iff_of_false ?_ (by simp [wanted])
      rintro ⟨i, hact, -⟩
      exact absurd hact (by simp [History.start])
  | append_singleton moves move ih =>
    have hbefore := ih (fun name periodSeconds hmem => hshort name periodSeconds
      (List.mem_append_left _ hmem)) fun before hle =>
        hfew before (hle.trans (List.prefix_append _ _))
    rw [List.foldl_concat]
    have hnext := hbefore.run net inlet rounds move
      (fun name periodSeconds heq => hshort name periodSeconds
        (List.mem_append_right _ (List.mem_singleton.mpr heq.symm)))
      fun name periodSeconds heq => hbefore.room (heq ▸ hfew _ List.prefix_rfl)
    rw [funext (wanted_concat moves move)]
    exact hnext

/-- The lines that a replay of the watches hands on. -/
def replayLines (sys : ClientSystem W) : List Text := sys.client.watches.toList.filterMap replayLine

/-- Each slot in use whose name fits it has a line. -/
theorem filterMap_replayLine {watches : List ClientWatch}
    (hshort : ∀ watch ∈ watches, watch.active = true →
      watch.name.length < maxNameSize ∧ (0 : Byte) ∉ watch.name) :
    watches.filterMap replayLine = (watches.filter ClientWatch.active).map fun watch =>
      watchRecord watch.name (periodText watch.periodSeconds) := by
  induction watches with
  | nil => rfl
  | cons watch watches ih =>
    obtain ⟨hfirst, hrest⟩ := List.forall_mem_cons.mp hshort
    rw [List.filterMap_cons]
    unfold replayLine
    by_cases hact : watch.active = true
    · obtain ⟨hlen, hzero⟩ := hfirst hact
      rw [if_pos hact, watchLine_record_of_short hlen hzero, List.filter_cons_of_pos hact,
        List.map_cons]
      exact congrArg (_ :: ·) (ih hrest)
    · rw [if_neg hact, List.filter_cons_of_neg hact]
      exact ih hrest

/-- A new connection is handed the waiting lines and then those of the replay. -/
theorem onConnect_replayLines (sys : ClientSystem W) (conn : ConnId) :
    sys.onConnect net conn = (replayLines sys).foldl (fun sys line => (sys.queueOrWrite net line).2)
      ((sys.attached conn).flushPending net) := by
  have hwatches : ((sys.attached conn).flushPending net).client.watches = sys.client.watches :=
    ClientSystem.flushPending_watches net _
  calc sys.onConnect net conn
      = (ClientOp.replayed sys.client.watches.toList).foldl (Action.run net)
          ((sys.attached conn).flushPending net) := by
        rw [ClientOp.run_replayed, ← hwatches]
        rfl
    _ = _ := by
        rw [replayed_eq, List.foldl_map]
        rfl

/-- **The replay.** After all calls and events, with few names of a fitting length wanted at once, a new
connection is handed one line for each name that is wanted, with the period of the last call for it, and
no other line of a watch. -/
theorem replay_wanted (world : W) {moves : List (ClientMove W)} (hshort : ShortNames moves)
    (hfew : FewWanted moves) (conn : ConnId) :
    let sys := moves.foldl (run net inlet rounds) (History.start world).sys
    ∃ wants : List (Text × Real), (wants.map Prod.fst).Nodup ∧
      (∀ name periodSeconds,
        (name, periodSeconds) ∈ wants ↔ wanted moves name = some periodSeconds) ∧
      replayLines sys = wants.map (fun want => watchRecord want.1 (periodText want.2)) ∧
      sys.onConnect net conn =
        (replayLines sys).foldl (fun sys line => (sys.queueOrWrite net line).2)
          ((sys.attached conn).flushPending net) := by
  intro sys
  have hholds : sys.HoldsWanted (wanted moves) :=
    foldl_holdsWanted net inlet rounds world hshort hfew
  have hmem : ∀ name periodSeconds,
      (name, periodSeconds) ∈ (sys.client.watches.toList.filter ClientWatch.active).map
        (fun watch => (watch.name, watch.periodSeconds)) ↔
      wanted moves name = some periodSeconds := by
    intro name periodSeconds
    rw [← hholds.holds, ← exists_mem_toList (Q := fun watch : ClientWatch => watch.active = true ∧
      watch.name = name ∧ watch.periodSeconds = periodSeconds), List.mem_map]
    constructor
    · rintro ⟨watch, hwatch, heq⟩
      obtain ⟨hin, hact⟩ := List.mem_filter.mp hwatch
      exact ⟨watch, hin, hact, (Prod.mk.inj heq).1, (Prod.mk.inj heq).2⟩
    · rintro ⟨watch, hin, hact, rfl, rfl⟩
      exact ⟨watch, List.mem_filter.mpr ⟨hin, hact⟩, rfl⟩
  refine ⟨_, ?_, hmem, ?_, onConnect_replayLines net sys conn⟩
  · rw [List.map_map]
    exact hholds.single.nodup
  · rw [List.map_map]
    refine filterMap_replayLine fun watch hin hact => ?_
    exact hshort _ watch.periodSeconds (mem_of_wanted ((hmem _ _).mp
      (List.mem_map_of_mem (List.mem_filter.mpr ⟨hin, hact⟩))))

/-- Where few names are ever watched, few are wanted. -/
theorem fewWanted_of_watched {moves : List (ClientMove W)} {names : List Text}
    (hwatched : ∀ name periodSeconds, .op (.watch name periodSeconds) ∈ moves → name ∈ names)
    (hlen : names.length ≤ maxClientWatches) : FewWanted moves := by
  intro before hbefore wants hnodup hwants
  refine (hnodup.subperm fun name hname => ?_).length_le.trans hlen
  obtain ⟨periodSeconds, hwanted⟩ := Option.isSome_iff_exists.mp (hwants name hname)
  exact hwatched name periodSeconds (hbefore.subset (mem_of_wanted hwanted))

/-- Two names are watched, the first until a connection is lost. -/
def twoNames : List (ClientMove Text) :=
  [.op (.watch (lit "rudder.angle") 1), .op (.onConnect 0), .op (.watch (lit "ap.heading") 2),
    .op (.unwatch (lit "rudder.angle")), .op (.onClose 0)]

theorem replay_wanted_second :
    replayLines (twoNames.foldl (run shared.1 shared.2 8) (History.start []).sys) =
      [watchRecord (lit "ap.heading") (periodText 2)] := by
  have hwatched : ∀ name periodSeconds, .op (.watch name periodSeconds) ∈ twoNames →
      name ∈ [lit "rudder.angle", lit "ap.heading"] := by
    intro name periodSeconds hmem
    simp [twoNames] at hmem
    rcases hmem with ⟨rfl, -⟩ | ⟨rfl, -⟩ <;> simp
  have hshort : ShortNames twoNames := by
    intro name periodSeconds hmem
    have hname := hwatched name periodSeconds hmem
    rcases List.mem_cons.mp hname with rfl | hname
    · decide
    · obtain rfl := List.mem_singleton.mp hname
      decide
  obtain ⟨wants, hnodup, hwants, hlines, -⟩ :=
    replay_wanted shared.1 shared.2 8 [] hshort (fewWanted_of_watched hwatched (by decide)) 0
  have hall : ∀ want, want ∈ wants ↔ want ∈ [(lit "ap.heading", (2 : Real))] := by
    rintro ⟨name, periodSeconds⟩
    rw [hwants, List.mem_singleton, Prod.mk.injEq]
    constructor
    · intro hwanted
      rcases List.mem_cons.mp (hwatched name _ (mem_of_wanted hwanted)) with rfl | hname
      · exact nomatch hwanted
      · obtain rfl := List.mem_singleton.mp hname
        exact ⟨rfl, (Option.some.inj hwanted).symm⟩
    · rintro ⟨rfl, rfl⟩
      rfl
  have hone : wants = [(lit "ap.heading", (2 : Real))] :=
    List.perm_singleton.mp
      ((List.perm_ext_iff_of_nodup (List.Nodup.of_map _ hnodup) (List.nodup_singleton _)).mpr hall)
  rw [hlines, hone]
  rfl

end ClientMove

end Pypilot
