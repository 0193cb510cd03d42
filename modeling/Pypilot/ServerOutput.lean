import Pypilot.Effects

/-!
# The output of the server

A call of the server writes a list of emissions: lines of fields, the listing, errors. The list can be
read off the request and the registry before the call (`lineEmissions`, `pollEmissions`), and so can
the text of each emission, since no call changes the state and then writes.
-/

namespace Pypilot

open Text

/-- What the server writes at a time. -/
inductive Emission
  | value (id : FieldId)
  | listing
  | error (message : Text)
  deriving DecidableEq

namespace Server

section Emissions

variable (m : Machine)

/-- The pieces of an emission over the store `s`. -/
def pieces (s : Store) : Emission → List Text
  | .value id => linePieces m s id
  | .listing => [lit "values="] ++ listingPieces ++ [[chr '\n']]
  | .error message => [lit "error="] ++ [message] ++ [[chr '\n']]

/-- Emissions given to a writer. -/
def emit {W : Type} (put : Text → W → W) (s : Store) (es : List Emission) (w : W) : W :=
  puts put (es.flatMap (pieces m s)) w

theorem emit_append {W : Type} (put : Text → W → W) (s : Store) (es fs : List Emission) (w : W) :
    emit m put s (es ++ fs) w = emit m put s fs (emit m put s es w) := by
  rw [emit, List.flatMap_append, puts_append]
  rfl

/-- Emissions read the state only. -/
theorem emit_rewatches {W : Type} (put : Text → W → W) {s s' : Store} (h : Store.Rewatches s s')
    (es : List Emission) (w : W) : emit m put s' es w = emit m put s es w := by
  have hpieces : pieces m s' = pieces m s := by
    funext e
    cases e with
    | value id => exact linePieces_congr m h.state h.attached id
    | listing => rfl
    | error message => rfl
  unfold emit
  rw [hpieces]

/-! ## Watch requests -/

/-- `watch` without its initial line. -/
def rewatch (s : Store) (name : Text) (periodSeconds : Real) (nowUs : ℕ) : Bool × Store :=
  let (found, s, _) := s.watch m name periodSeconds nowUs (none : Option (ValueWriter Unit)) ()
  (found, s)

/-- What one entry of a watch request writes. -/
def entryEmissions (nowUs : ℕ) (key value : Text) (s : Store) : List Emission :=
  if key = lit "values" then
    if value = lit "false" then [] else [.listing]
  else if value = lit "false" then []
  else
    match if value = lit "true" then some 0 else parsePeriod m value with
    | none => [.error (lit "invalid watch period")]
    | some period =>
      (match find key with
        | some d => [.value d.id]
        | none => []) ++
        if (rewatch m s key period nowUs).1 then [] else [.error (lit "invalid unknown value")]

/-- What one entry of a watch request does otherwise. -/
def entryAfter (nowUs : ℕ) (key value : Text) (s : Store) : Option Bool × Store :=
  let (result, s, _) := watchEntry m key value nowUs (.reliable fun _ (u : Unit) => u) s ()
  (result, s)

/-- What a watch request writes, in at most `n` rounds. -/
def watchEmissions (nowUs : ℕ) : ℕ → Text → Store → List Emission
  | 0, _, _ => []
  | n + 1, expression, s =>
    match watchItem expression with
    | .done => []
    | .comma rest => watchEmissions nowUs n rest s
    | .bad message => [.error message]
    | .entry key value rest =>
      entryEmissions m nowUs key value s ++
        match entryAfter m nowUs key value s with
        | (none, s') => watchEmissions nowUs n rest s'
        | (some _, _) => []

/-- What a line makes the server write. -/
def lineEmissions (nowUs : ℕ) (line : Text) (s : Store) : List Emission :=
  match request line with
  | .empty => []
  | .malformed => [.error (lit "invalid request: missing '='")]
  | .watch expression =>
    let e := trim expression
    if e.length < 2 ∨ e.head? ≠ some (chr '\x7b') ∨ e.getLast? ≠ some (chr '\x7d') then
      [.error (lit "invalid watch request")]
    else watchEmissions m nowUs e.length ((e.drop 1).take (e.length - 2)) s
  | .values => [.error (lit "remote value registration not implemented")]
  | .udpPort => []
  | .assignment name value =>
    if (s.setFromWire m name value true).1 then [] else [.error (lit "invalid set")]

/-- What a poll makes the server write, after the callbacks. -/
def pollEmissions (nowUs : ℕ) (s : Store) : List Emission :=
  (changedIds s ++ dueIds nowUs s).map .value

end Emissions

/-! ## Watches -/

section Watches

variable {m : Machine} {s : Store} {id : FieldId}

theorem unwatch_hasImmediate {name : Text} (h : (s.unwatch name).2.hasImmediate id = true) :
    s.hasImmediate id = true := by
  unfold Store.unwatch at h
  cases hfind : find name with
  | none => simpa only [hfind] using h
  | some d =>
    simp only [hfind] at h
    unfold Store.hasImmediate at h ⊢
    dsimp only at h
    rw [List.Vector.toList_map, List.any_map] at h
    obtain ⟨e, he, himm⟩ := List.any_eq_true.mp h
    refine List.any_eq_true.mpr ⟨e, he, ?_⟩
    rw [Function.comp_apply] at himm
    split_ifs at himm with hdrop
    · exact absurd himm (by simp [Store.immediate])
    · exact himm

/-- A new immediate watch is one of the field that is asked for. -/
theorem rewatch_hasImmediate {name : Text} {period : Real} {nowUs : ℕ}
    (h : (rewatch m s name period nowUs).2.hasImmediate id = true) :
    s.hasImmediate id = true ∨ ∃ d, find name = some d ∧ d.id = id := by
  unfold rewatch Store.watch at h
  cases hfind : find name with
  | none =>
    simp only [hfind] at h
    exact .inl h
  | some d =>
    have hput : ∀ p : Watch → Bool, ∀ f : Watch → Watch, (∀ e, (f e).id = d.id) →
        (SlotTable.update p f s.values.watches).toList.any (Store.immediate id) = true →
        s.hasImmediate id = true ∨ ∃ d', some d = some d' ∧ d'.id = id := by
      intro p f hf hany
      obtain ⟨e, he, himm⟩ := List.any_eq_true.mp hany
      rcases SlotTable.mem_updateFirst he with hold | ⟨x, -, -, rfl⟩
      · exact .inl (List.any_eq_true.mpr ⟨e, hold, himm⟩)
      · refine .inr ⟨d, rfl, ?_⟩
        unfold Store.immediate at himm
        simp only [Bool.and_eq_true, decide_eq_true_eq] at himm
        rw [← himm.1.2, hf]
    simp only [hfind] at h
    split_ifs at h
    · exact hput _ _ (fun _ => rfl) h
    · exact hput _ _ (fun _ => rfl) h
    · exact .inl h

end Watches

/-! ## The calls -/

section Calls

variable {W : Type} (m : Machine) (put : Text → W → W) (s : Store) (w : W)

theorem error_reliable (message : Text) :
    error (.reliable put) message w = (true, emit m put s [.error message] w) := rfl

theorem watch_reliable (name : Text) (period : Real) (nowUs : ℕ) :
    s.watch m name period nowUs (some (.reliable put)) w =
      ((rewatch m s name period nowUs).1, (rewatch m s name period nowUs).2,
        emit m put s (match find name with
          | some d => [.value d.id]
          | none => []) w) := by
  unfold rewatch Store.watch
  cases find name with
  | none => rfl
  | some d =>
    dsimp only
    rw [writeValueLine_reliable]
    have hone : emit m put s [.value d.id] w = puts put (linePieces m s d.id) w := by
      rw [emit, List.flatMap_singleton]
      rfl
    split_ifs <;> rw [hone]

theorem listing_reliable :
    putAll [(ValueWriter.reliable put).write (lit "values="),
      Store.writeValuesJson (.reliable put), (ValueWriter.reliable put).writeChar (chr '\n')] w =
      (true, emit m put s [.listing] w) := by
  rw [emit, List.flatMap_singleton]
  exact ((putsAll_write _).append (putsAll_single writeValuesJson_reliable)).append
    (putsAll_write _) w

theorem watchEntry_reliable (key value : Text) (nowUs : ℕ) :
    watchEntry m key value nowUs (.reliable put) s w =
      ((entryAfter m nowUs key value s).1, (entryAfter m nowUs key value s).2,
        emit m put s (entryEmissions m nowUs key value s) w) := by
  unfold entryAfter watchEntry entryEmissions
  by_cases hvalues : key = lit "values"
  · simp only [if_pos hvalues]
    by_cases hfalse : value = lit "false"
    · simp only [if_pos hfalse]
      rfl
    · simp only [if_neg hfalse, listing_reliable m _ s, if_true]
  · simp only [if_neg hvalues]
    by_cases hfalse : value = lit "false"
    · simp only [if_pos hfalse]
      rfl
    · simp only [if_neg hfalse]
      generalize (if value = lit "true" then some 0 else parsePeriod m value) = period
      cases period with
      | none => rfl
      | some period =>
        simp only [watch_reliable, error_reliable m _ s, emit_append]
        cases (rewatch m s key period nowUs).1 <;> rfl

theorem entryAfter_rewatches (key value : Text) (nowUs : ℕ) :
    Store.Rewatches s (entryAfter m nowUs key value s).2 :=
  watchEntry_rewatches m key value nowUs (.reliable fun _ (u : Unit) => u) s ()

/-! ### Immediate watches -/

/-- A watch that is immediate after an entry was so before, or the entry has shown its field. -/
theorem entryAfter_hasImmediate (key value : Text) (nowUs : ℕ) {id : FieldId}
    (h : (entryAfter m nowUs key value s).2.hasImmediate id = true) :
    s.hasImmediate id = true ∨ .value id ∈ entryEmissions m nowUs key value s := by
  unfold entryAfter watchEntry at h
  unfold entryEmissions
  generalize (if value = lit "true" then some 0 else parsePeriod m value) = period at h ⊢
  by_cases hvalues : key = lit "values"
  · simp only [if_pos hvalues] at h
    split_ifs at h <;> exact .inl h
  · simp only [if_neg hvalues] at h ⊢
    by_cases hfalse : value = lit "false"
    · simp only [if_pos hfalse] at h
      exact .inl (unwatch_hasImmediate h)
    · simp only [if_neg hfalse] at h ⊢
      cases period with
      | none => exact .inl h
      | some period =>
        have hrewatch : (rewatch m s key period nowUs).2.hasImmediate id = true := by
          simp only [watch_reliable] at h
          split_ifs at h <;> exact h
        rcases rewatch_hasImmediate hrewatch with hold | ⟨d, hfind, rfl⟩
        · exact .inl hold
        · refine .inr (List.mem_append_left _ ?_)
          rw [hfind]
          exact List.mem_singleton.mpr rfl

/-- A watch request, from any point of its loop on: what it writes, and the watches it leaves. -/
theorem watchLoop_reliable (nowUs : ℕ) {n : ℕ} {expression : Text} (hn : expression.length < n) :
    let r := Loop.run (watchBody m nowUs (.reliable put)) (fun p => p.1.length)
      (watchBody_variant m nowUs (.reliable put)) (expression, s, w)
    r.2.2 = emit m put s (watchEmissions m nowUs n expression s) w ∧
      ∀ id, r.2.1.hasImmediate id = true →
        s.hasImmediate id = true ∨ .value id ∈ watchEmissions m nowUs n expression s := by
  -- on the rounds that the rest of the text allows
  induction n generalizing expression s w with
  | zero => omega
  | succ n ih =>
    unfold watchEmissions
    cases hitem : watchItem expression with
    | done =>
      have hbody : watchBody m nowUs (.reliable put) (expression, s, w) = .inr (true, s, w) := by
        simp only [watchBody, hitem]
      rw [Loop.run_leaves hbody]
      exact ⟨rfl, fun id h => .inl h⟩
    | bad message =>
      have hbody : watchBody m nowUs (.reliable put) (expression, s, w) =
          .inr (true, s, emit m put s [.error message] w) := by
        simp only [watchBody, hitem, error_reliable m put s]
      rw [Loop.run_leaves hbody]
      exact ⟨rfl, fun id h => .inl h⟩
    | comma rest =>
      have hbody : watchBody m nowUs (.reliable put) (expression, s, w) = .inl (rest, s, w) := by
        simp only [watchBody, hitem]
      have hlen := watchItem_comma_lt hitem
      rw [Loop.run_goes_on hbody]
      exact ih s w (by omega)
    | entry key value rest =>
      have hlen := watchItem_entry_lt hitem
      have hsame := entryAfter_rewatches m s key value nowUs
      have hentry := watchEntry_reliable m put s w key value nowUs
      have hwatched := fun id => @entryAfter_hasImmediate m s key value nowUs id
      dsimp only
      rw [emit_append]
      rcases hafter : entryAfter m nowUs key value s with ⟨_ | ok, s'⟩
      · rw [hafter] at hentry hsame hwatched
        obtain ⟨hout, himm⟩ := ih s' (emit m put s (entryEmissions m nowUs key value s) w)
          (show rest.length < n by omega)
        rw [Loop.run_goes_on (watchBody_goes_on m hitem hentry), hout, emit_rewatches m put hsame]
        refine ⟨rfl, fun id h => ?_⟩
        rcases himm id h with h | h
        · exact (hwatched id h).imp_right (List.mem_append_left _)
        · exact .inr (List.mem_append_right _ h)
      · rw [hafter] at hentry hwatched
        rw [Loop.run_leaves (watchBody_leaves m hitem hentry)]
        exact ⟨rfl, fun id h => (hwatched id h).imp_right (List.mem_append_left _)⟩

/-- **Lines.** What the server writes for a line are its emissions, and a watch that is immediate after
it was so before, or the line has shown its field. -/
theorem handleLine_reliable (line : Text) (nowUs : ℕ) :
    let r := handleLine m line nowUs (.reliable put) s w
    r.2.2 = emit m put s (lineEmissions m nowUs line s) w ∧
      ∀ id, r.2.1.hasImmediate id = true →
        s.hasImmediate id = true ∨ .value id ∈ lineEmissions m nowUs line s := by
  unfold handleLine lineEmissions
  cases request line with
  | empty => exact ⟨rfl, fun id h => .inl h⟩
  | malformed => exact ⟨rfl, fun id h => .inl h⟩
  | values => exact ⟨rfl, fun id h => .inl h⟩
  | udpPort => exact ⟨rfl, fun id h => .inl h⟩
  | assignment name value =>
    dsimp only
    have hwatches : (s.setFromWire m name value true).2.values.watches = s.values.watches := by
      rcases Store.setFromWire_cases m s name value true with hfail | ⟨d, -, -, h⟩
      · rw [hfail]
      · exact h.watches
    have himm : ∀ id, (s.setFromWire m name value true).2.hasImmediate id = true →
        s.hasImmediate id = true := by
      intro id h
      unfold Store.hasImmediate at h ⊢
      rwa [hwatches] at h
    unfold handleAssignment
    cases hset : (s.setFromWire m name value true).1
    · simp only [hset]
      exact ⟨rfl, fun id h => .inl (himm id h)⟩
    · simp only [hset]
      exact ⟨rfl, fun id h => .inl (himm id h)⟩
  | watch expression =>
    dsimp only
    unfold handleWatch
    dsimp only
    by_cases hbad : (trim expression).length < 2 ∨ (trim expression).head? ≠ some (chr '\x7b') ∨
        (trim expression).getLast? ≠ some (chr '\x7d')
    · rw [if_pos hbad, if_pos hbad]
      exact ⟨rfl, fun id h => .inl h⟩
    · rw [if_neg hbad, if_neg hbad]
      apply watchLoop_reliable
      rw [List.length_take, List.length_drop]
      omega

theorem emit_value (ids : List FieldId) :
    emit m put s (ids.map .value) w = putLines m put s ids w := by
  unfold emit putLines
  rw [List.flatMap_map]
  rfl

/-- What a poll does with any writer: after the callbacks it attempts the lines of the changed fields and
then those of the due entries; the changes are forgotten, and the due entries get new due times. -/
theorem poll_eq (callbacks : PypilotState → PypilotState) (nowUs : ℕ) (out : ValueWriter W) :
    poll m callbacks nowUs out s w =
      ({ state := callbacks s.state,
         values := { s.values with
           dirty := fun _ => false, watches := s.values.watches.map (redue m nowUs) } },
        attemptLines m out { s with state := callbacks s.state }
          (changedIds { s with state := callbacks s.state } ++ dueIds nowUs s) w) := by
  unfold poll
  dsimp only
  rw [emitChangedWatches_eq]
  dsimp only
  rw [emitDueWatches_eq, attemptLines_append]
  have hcongr : attemptLines m out
      { state := callbacks s.state, values := { s.values with dirty := fun _ => false } } =
      attemptLines m out { s with state := callbacks s.state } := by
    funext ids w
    exact attemptLines_congr m out rfl rfl ids w
  rw [hcongr]
  rfl

/-- **Polls.** What the server writes in a poll are the emissions over the state that the callbacks
leave; the changes are forgotten, and the due entries get new due times. -/
theorem poll_reliable (callbacks : PypilotState → PypilotState) (nowUs : ℕ) :
    poll m callbacks nowUs (.reliable put) s w =
      ({ state := callbacks s.state,
         values := { s.values with
           dirty := fun _ => false, watches := s.values.watches.map (redue m nowUs) } },
        emit m put { s with state := callbacks s.state }
          (pollEmissions nowUs { s with state := callbacks s.state }) w) := by
  rw [poll_eq, attemptLines_reliable, ← emit_value]
  rfl

end Calls

end Server

end Pypilot
