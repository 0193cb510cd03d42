import Pypilot.Subscriptions

/-!
# The server as a map

What a line asks of the server can be read off its text: the assignments and watches that it stands for, and the
lines that answer it. A call of the server is the calls of the registry that it stands for, and so the
server holds the same map as the registry does (`server_refines`).
-/

namespace Pypilot

open Text Server

/-! ## Requests -/

/-- What an entry of a watch request asks for. -/
inductive WatchAsk
  | nothing
  | listing
  | off (name : Text)
  | every (name : Text) (periodSeconds : Real)
  | refused (message : Text)
  deriving DecidableEq

namespace WatchAsk

def call (nowUs : ℕ) : WatchAsk → Option RegistryCall
  | off name => some (.unwatch name)
  | every name periodSeconds => some (.watch name periodSeconds nowUs true)
  | _ => none

def emissions : WatchAsk → List Emission
  | listing => [.listing]
  | every name _ => (find name).toList.map fun d => .value d.id
  | refused message => [.error message]
  | _ => []

/-- A refused entry ends the request. -/
def ends : WatchAsk → Option Bool
  | refused _ => some true
  | _ => none

variable (m : Machine)

def ofEntry (key value : Text) : WatchAsk :=
  if key = lit "values" then if value = lit "false" then nothing else listing
  else if value = lit "false" then off key
  else
    match if value = lit "true" then some 0 else parsePeriod m value with
    | none => refused (lit "invalid watch period")
    | some period =>
      match find key with
      | none => refused (lit "invalid unknown value")
      | some _ => every key period

/-- What a watch request asks for up to the first entry that is refused, in at most `n` rounds. -/
def ofExpression : ℕ → Text → List WatchAsk
  | 0, _ => []
  | n + 1, expression =>
    match watchItem expression with
    | .done => []
    | .comma rest => ofExpression n rest
    | .bad message => [refused message]
    | .entry key value rest =>
      match ofEntry m key value with
      | refused message => [refused message]
      | ask => ask :: ofExpression n rest

def ofRequest (expression : Text) : List WatchAsk :=
  let e := trim expression
  if e.length < 2 ∨ e.head? ≠ some (chr '\x7b') ∨ e.getLast? ≠ some (chr '\x7d') then
    [refused (lit "invalid watch request")]
  else ofExpression m e.length ((e.drop 1).take (e.length - 2))

end WatchAsk

namespace ServerCall

variable (m : Machine)

/-- The calls of the registry that a call of the server stands for. -/
def registryCalls : ServerCall → List RegistryCall
  | line text nowUs =>
    match request text with
    | .assignment name value => [.set (.setFromWire name value true)]
    | .watch expression => (WatchAsk.ofRequest m expression).filterMap (WatchAsk.call nowUs)
    | _ => []
  | poll callbacks nowUs => [.change callbacks, .emitChangedWatches, .emitDueWatches nowUs]

end ServerCall

/-- What a call of the server writes over a map. -/
def Subscriptions.emissions (m : Machine) (a : Subscriptions) : ServerCall → List Emission
  | .line text _ =>
    match request text with
    | .empty | .udpPort => []
    | .malformed => [.error (lit "invalid request: missing '='")]
    | .values => [.error (lit "remote value registration not implemented")]
    | .watch expression => (WatchAsk.ofRequest m expression).flatMap WatchAsk.emissions
    | .assignment name value =>
      match (SetCall.setFromWire name value true).target m with
      | some _ => []
      | none => [.error (lit "invalid set")]
  | .poll _ nowUs => (a.lines .emitChangedWatches ++ a.lines (.emitDueWatches nowUs)).map .value

/-! ## One entry -/

section Entry

variable {W : Type} (m : Machine)

/-- The registry alone: nothing is written. -/
def mute : ValueWriter Unit := .reliable fun _ (u : Unit) => u

def Store.perform (s : Store) (calls : List RegistryCall) : Store :=
  (calls.foldl (RegistryCall.step m mute) (s, ())).1

theorem Store.perform_append (s : Store) (calls calls' : List RegistryCall) :
    s.perform m (calls ++ calls') = (s.perform m calls).perform m calls' := by
  unfold perform
  rw [List.foldl_append]

theorem Store.perform_single {s : Store} (h : s.SingleWatches) (calls : List RegistryCall) :
    (s.perform m calls).SingleWatches :=
  RegistryCall.foldl_single m mute (p := (s, ())) h calls

variable {m} {s : Store}

/-- A field can be watched, so a watch is refused only for a name that is no field's. -/
theorem rewatch_found (h : s.SingleWatches) (name : Text) (periodSeconds : Real) (nowUs : ℕ) :
    (rewatch m s name periodSeconds nowUs).1 = (find name).isSome := by
  cases hfind : find name with
  | none =>
    unfold rewatch Store.watch
    rw [hfind]
    rfl
  | some d =>
    obtain ⟨hentry, hname⟩ := find_eq_some hfind
    rw [← hname, hentry]
    exact (Store.watch_watched m periodSeconds nowUs (none : Option (ValueWriter Unit)) () h d.id).1

/-- **Entries.** An entry of a watch request does what it asks for, or ends the request. -/
theorem entry_ask (h : s.SingleWatches) (key value : Text) (nowUs : ℕ) :
    entryAfter m nowUs key value s =
        ((WatchAsk.ofEntry m key value).ends,
          s.perform m ((WatchAsk.ofEntry m key value).call nowUs).toList) ∧
      entryEmissions m nowUs key value s = (WatchAsk.ofEntry m key value).emissions := by
  unfold WatchAsk.ofEntry entryEmissions entryAfter watchEntry
  by_cases hvalues : key = lit "values"
  · simp only [if_pos hvalues]
    by_cases hfalse : value = lit "false"
    · simp only [if_pos hfalse]
      exact ⟨rfl, rfl⟩
    · simp only [if_neg hfalse, listing_reliable m _ s, if_true]
      exact ⟨rfl, rfl⟩
  · simp only [if_neg hvalues]
    by_cases hfalse : value = lit "false"
    · simp only [if_pos hfalse]
      exact ⟨rfl, rfl⟩
    · simp only [if_neg hfalse]
      generalize (if value = lit "true" then some 0 else parsePeriod m value) = period
      cases period with
      | none => exact ⟨rfl, rfl⟩
      | some period =>
        have hperform : s.perform m [.watch key period nowUs true] =
            (rewatch m s key period nowUs).2 := by
          show (s.watch m key period nowUs (some (.reliable fun _ u => u)) ()).2.1 = _
          rw [watch_reliable]
        simp only [watch_reliable, rewatch_found h]
        cases hfind : find key with
        | none =>
          have hsame : (rewatch m s key period nowUs).2 = s := by
            unfold rewatch Store.watch
            rw [hfind]
          rw [hsame]
          exact ⟨rfl, rfl⟩
        | some d =>
          rw [← hperform]
          refine ⟨rfl, ?_⟩
          unfold WatchAsk.emissions
          dsimp only
          rw [hfind]
          rfl

/-- A watch request, from any point of its loop on. -/
theorem watchLoop_asks {put : Text → W → W} (nowUs : ℕ) {n : ℕ} {expression : Text}
    (hn : expression.length < n) (h : s.SingleWatches) (w : W) :
    (Loop.run (watchBody m nowUs (.reliable put)) (fun p => p.1.length)
        (watchBody_variant m nowUs (.reliable put)) (expression, s, w)).2.1 =
      s.perform m ((WatchAsk.ofExpression m n expression).filterMap (WatchAsk.call nowUs)) ∧
    watchEmissions m nowUs n expression s =
      (WatchAsk.ofExpression m n expression).flatMap WatchAsk.emissions := by
  -- on the rounds that the rest of the text allows
  induction n generalizing expression s w with
  | zero => omega
  | succ n ih =>
    unfold WatchAsk.ofExpression watchEmissions
    cases hitem : watchItem expression with
    | done =>
      have hbody : watchBody m nowUs (.reliable put) (expression, s, w) = .inr (true, s, w) := by
        simp only [watchBody, hitem]
      rw [Loop.run_leaves hbody]
      exact ⟨rfl, rfl⟩
    | bad message =>
      have hbody : watchBody m nowUs (.reliable put) (expression, s, w) =
          .inr (true, s, emit m put s [.error message] w) := by
        simp only [watchBody, hitem, error_reliable m put s]
      rw [Loop.run_leaves hbody]
      exact ⟨rfl, rfl⟩
    | comma rest =>
      have hbody : watchBody m nowUs (.reliable put) (expression, s, w) = .inl (rest, s, w) := by
        simp only [watchBody, hitem]
      have hlen := watchItem_comma_lt hitem
      rw [Loop.run_goes_on hbody]
      exact ih (by omega) h w
    | entry key value rest =>
      have hlen := watchItem_entry_lt hitem
      obtain ⟨hafter, hemissions⟩ := entry_ask h key value nowUs
      have hentry := watchEntry_reliable m put s w key value nowUs
      rw [hafter] at hentry
      dsimp only at hentry ⊢
      rw [hafter, hemissions]
      cases hask : WatchAsk.ofEntry m key value with
      | refused message =>
        rw [hask] at hentry
        rw [Loop.run_leaves (watchBody_leaves m hitem hentry)]
        exact ⟨rfl, rfl⟩
      | nothing | listing | off name | every name periodSeconds =>
        rw [hask] at hentry
        obtain ⟨hstore, hrest⟩ := ih (show rest.length < n by omega)
          (Store.perform_single m h (WatchAsk.call nowUs (WatchAsk.ofEntry m key value)).toList)
          (emit m put s (entryEmissions m nowUs key value s) w)
        rw [hask] at hstore hrest
        rw [Loop.run_goes_on (watchBody_goes_on m hitem hentry), hstore, ← Store.perform_append]
        dsimp only [WatchAsk.ends]
        rw [hrest]
        exact ⟨rfl, rfl⟩

end Entry

/-! ## Calls of the server -/

theorem handleWatch_asks {W : Type} {m : Machine} {put : Text → W → W} {s : Store}
    (h : s.SingleWatches) (expression : Text) (nowUs : ℕ) (w : W) :
    (handleWatch m expression nowUs (.reliable put) s w).2.1 =
      s.perform m ((WatchAsk.ofRequest m expression).filterMap (WatchAsk.call nowUs)) := by
  unfold handleWatch WatchAsk.ofRequest
  dsimp only
  split_ifs with hbad
  · rfl
  · refine (watchLoop_asks nowUs ?_ h w).1
    rw [List.length_take, List.length_drop]
    omega

/-- What a line is answered with can be read off its text. -/
theorem lineEmissions_eq {m : Machine} {s : Store} (hat : s.values.attached = true)
    (h : s.SingleWatches) (a : Subscriptions) (text : Text) (nowUs : ℕ) :
    lineEmissions m nowUs text s = a.emissions m (.line text nowUs) := by
  unfold lineEmissions Subscriptions.emissions
  dsimp only
  cases request text with
  | empty | malformed | values | udpPort => rfl
  | watch expression =>
    dsimp only
    unfold WatchAsk.ofRequest
    dsimp only
    split_ifs with hbad
    · rfl
    · refine (@watchLoop_asks Unit m s (fun _ u => u) nowUs _ _ ?_ h ()).2
      rw [List.length_take, List.length_drop]
      omega
  | assignment name value =>
    have hok := congrArg Prod.fst ((SetCall.setFromWire name value true).run_marks m hat)
    replace hok : (s.setFromWire m name value true).1 = _ := hok
    dsimp only
    rw [hok]
    cases (SetCall.setFromWire name value true).target m <;> rfl

/-- **One call.** -/
theorem call_refines {m : Machine} {s : Store} (hat : s.values.attached = true)
    (h : s.SingleWatches) (call : ServerCall) :
    call.step m s = s.perform m (call.registryCalls m) ∧
      (call.emissions m s).Perm (s.subscriptions.emissions m call) := by
  cases call with
  | line text nowUs =>
    refine ⟨?_, ?_⟩
    · show (handleLine m text nowUs StringValueWriter s []).2.1 = _
      unfold ServerCall.registryCalls
      dsimp only
      cases hreq : request text with
      | empty | malformed | values | udpPort =>
        unfold handleLine
        rw [hreq]
        rfl
      | watch expression =>
        unfold handleLine
        rw [hreq]
        exact @handleWatch_asks Text m (fun text out => out ++ text) s h expression nowUs []
      | assignment name value => exact handleLine_assignment m hreq nowUs StringValueWriter s []
    · exact (lineEmissions_eq hat h s.subscriptions text nowUs) ▸ .refl _
  | poll callbacks nowUs =>
    refine ⟨?_, ?_⟩
    · show (Server.poll m callbacks nowUs StringValueWriter s []).1 =
        (Server.poll m callbacks nowUs mute s ()).1
      rw [Server.poll_eq, Server.poll_eq]
    · have hchanged := changedIds_eq (s := { s with state := callbacks s.state }) h
      have hdue := dueIds_perm (s := { s with state := callbacks s.state }) h nowUs
      refine List.Perm.map Emission.value ?_
      rw [hchanged]
      exact hdue.append_left _

theorem create_subscriptions (m : Machine) (st : PypilotState) :
    (create m st {}).subscriptions =
      { changed := fun id => decide (id = .serverRunning ∨ id = .serverPort) } := by
  have hchanged : (create m st {}).values.dirty =
      fun id => decide (id = .serverRunning ∨ id = .serverPort) := by
    funext id
    cases id <;> rfl
  unfold Store.subscriptions
  rw [hchanged]
  rfl

/-- **Runs.** A server does what the calls of the registry do that its own calls stand for. -/
theorem foldl_perform {m : Machine} {s : Store} (hat : s.values.attached = true)
    (h : s.SingleWatches) (calls : List ServerCall) :
    calls.foldl (ServerCall.step m) s = s.perform m (calls.flatMap (ServerCall.registryCalls m)) := by
  induction calls generalizing s with
  | nil => rfl
  | cons call calls ih =>
    obtain ⟨hstep, -⟩ := call_refines (m := m) hat h call
    rw [List.foldl_cons, List.flatMap_cons, Store.perform_append, ← hstep]
    exact ih ((call.step_attached m s).trans hat) (Server.singleWatches_step m h call)

/-- **The server.** After any lines and polls, whatever the callbacks make of the state, a new server is the registry
after the calls that the lines and polls stand for, and holds the map that these calls make; and any
further call writes what the map and the text of the call say, lines that are due together in some order.
As long as no due time of the map reaches 2^64, all of them are what the code computes in words. -/
theorem server_refines (m : Machine) (st : PypilotState) (calls : List ServerCall)
    (call : ServerCall)
    (hfits : ∀ a ∈ Run.states (Subscriptions.step m)
        { changed := fun id => decide (id = .serverRunning ∨ id = .serverPort) }
        ((calls ++ [call]).flatMap (ServerCall.registryCalls m)), a.Fits) :
    let s := calls.foldl (ServerCall.step m) (create m st {})
    let registryCalls := calls.flatMap (ServerCall.registryCalls m)
    let a := registryCalls.foldl (Subscriptions.step m)
      { changed := fun id => decide (id = .serverRunning ∨ id = .serverPort) }
    s = (create m st {}).perform m registryCalls ∧ s.subscriptions = a ∧
      (∃ es : List Emission, es.Perm (a.emissions m call) ∧
        (∀ text nowUs, call = .line text nowUs → es = a.emissions m call) ∧
        call.output m s = (es.map (emissionText m (call.written s))).flatten) ∧
      ∀ q ∈ Run.steps (RegistryCall.step m mute) (create m st {}, ())
          (registryCalls ++ call.registryCalls m), q.2.InWords m q.1.1 := by
  intro s registryCalls a
  have hat₀ : (create m st {}).values.attached = true := rfl
  have h₀ : (create m st {}).SingleWatches := Store.singleWatches_of_new rfl
  have hs : s = (create m st {}).perform m registryCalls := foldl_perform hat₀ h₀ calls
  have hat : s.values.attached = true := hs ▸ foldl_attached m mute (p := (_, ())) hat₀ registryCalls
  have hsingle : s.SingleWatches := hs ▸ Store.perform_single m h₀ registryCalls
  have hsame : s.subscriptions = a := by
    rw [hs]
    refine (foldl_subscriptions m mute (p := (create m st {}, ())) hat₀ h₀ registryCalls).trans ?_
    rw [create_subscriptions]
  refine ⟨hs, hsame, ⟨call.emissions m s, hsame ▸ (call_refines hat hsingle call).2, ?_,
    call.output_eq m s⟩, ?_⟩
  · rintro text nowUs rfl
    exact lineEmissions_eq hat hsingle a text nowUs
  · rw [List.flatMap_append, List.flatMap_singleton, ← create_subscriptions m st] at hfits
    exact foldl_inWords m mute (p := (create m st {}, ())) hat₀ h₀ hfits

/-- A request for the heading every ten microseconds, and a poll that writes its line. -/
theorem server_refines_heading :
    let calls := [ServerCall.line (lit "watch=\x7b\"ap.heading\":0.00001\x7d") 3]
    let s := calls.foldl (ServerCall.step default) (create default {} {})
    s.subscriptions.watched .apHeading = some ⟨.fin (1 / 100000), 13⟩ ∧
      ∃ es : List Emission, es.Perm [.value .apHeading] ∧
        (ServerCall.poll id 27).output default s = (es.map (emissionText default s)).flatten := by
  intro calls s
  obtain ⟨-, hsame, ⟨es, hperm, -, hout⟩, -⟩ :=
    server_refines default {} calls (.poll id 27) (by decide +kernel)
  have hmap : s.subscriptions = _ := hsame
  rw [hmap]
  exact ⟨by decide +kernel, es, hperm.trans (.of_eq (by decide +kernel)), hout⟩

end Pypilot
