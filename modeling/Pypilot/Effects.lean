import Pypilot.Emission

/-!
# What requests change

An assignment changes one field and marks it as changed; a watch request changes the watches only.
Everything that a line does to the store is one of the two (`handleLine_cases`).
-/

namespace Pypilot

open Text

namespace Store

/-! ## Frames -/

/-- The readings of a field are the same in both stores. -/
structure SameField (s s' : Store) (id : FieldId) : Prop where
  real : s'.readReal id = s.readReal id
  bool : s'.readBool id = s.readBool id
  string : s'.readString id = s.readString id

/-- What an assignment to the field `id` leaves alone, and that it marks the field. -/
structure Assigns (id : FieldId) (s s' : Store) : Prop where
  attached : s'.values.attached = s.values.attached
  watches : s'.values.watches = s.values.watches
  dirty : s'.values.dirty = Function.update s.values.dirty id true
  imu : s'.state.imu = s.state.imu
  others : ∀ id', id' ≠ id → SameField s s' id'

/-- What a change of the watches leaves alone. -/
structure Rewatches (s s' : Store) : Prop where
  state : s'.state = s.state
  attached : s'.values.attached = s.values.attached
  dirty : s'.values.dirty = s.values.dirty

theorem Rewatches.refl (s : Store) : Rewatches s s := ⟨rfl, rfl, rfl⟩

theorem Rewatches.trans {s₁ s₂ s₃ : Store} (h : Rewatches s₁ s₂) (h' : Rewatches s₂ s₃) :
    Rewatches s₁ s₃ :=
  ⟨h'.state.trans h.state, h'.attached.trans h.attached, h'.dirty.trans h.dirty⟩

theorem Rewatches.sameField {s s' : Store} (h : Rewatches s s') (id : FieldId) :
    SameField s s' id := by
  constructor
  · unfold readReal; rw [h.state, h.attached]
  · unfold readBool; rw [h.state, h.attached]
  · unfold readString; rw [h.state, h.attached]

theorem SameField.valuePieces {s s' : Store} {id : FieldId} (h : SameField s s' id) (m : Machine) :
    valuePieces m s' id = valuePieces m s id := by
  unfold Pypilot.valuePieces
  rw [h.real, h.bool, h.string]

theorem SameField.valueText {s s' : Store} {id : FieldId} (h : SameField s s' id) (m : Machine) :
    valueText m s' id = valueText m s id := by
  unfold Pypilot.valueText
  rw [h.valuePieces]

/-! ## Assignments -/

section Assignments

variable (m : Machine) (s : Store) (id : FieldId)

/-- Setting a field by id either fails and does nothing, or assigns the field. -/
theorem setReal_cases (value : Real) :
    s.setReal m id value = (false, s) ∨
      ((s.setReal m id value).1 = true ∧ Assigns id s (s.setReal m id value).2) := by
  unfold setReal
  by_cases hat : s.values.attached = true
  · simp only [hat]
    cases id
    all_goals first
      | exact .inl rfl
      | refine .inr ⟨rfl, rfl, rfl, rfl, rfl, fun id' hne => ?_⟩
        cases id' <;> first | exact absurd rfl hne | exact ⟨rfl, rfl, rfl⟩
  · simp [hat]

theorem setBool_cases (value : Bool) :
    s.setBool id value = (false, s) ∨
      ((s.setBool id value).1 = true ∧ Assigns id s (s.setBool id value).2) := by
  unfold setBool
  by_cases hat : s.values.attached = true
  · simp only [hat]
    cases id
    all_goals first
      | exact .inl rfl
      | refine .inr ⟨rfl, rfl, rfl, rfl, rfl, fun id' hne => ?_⟩
        cases id' <;> first | exact absurd rfl hne | exact ⟨rfl, rfl, rfl⟩
  · simp [hat]

theorem setString_cases (value : Text) :
    s.setString id value = (false, s) ∨
      ((s.setString id value).1 = true ∧ Assigns id s (s.setString id value).2) := by
  unfold setString
  by_cases hat : s.values.attached = true
  · simp only [hat]
    cases id
    all_goals first
      | exact .inl rfl
      | refine .inr ⟨rfl, rfl, rfl, rfl, rfl, fun id' hne => ?_⟩
        cases id' <;> first | exact absurd rfl hne | exact ⟨rfl, rfl, rfl⟩
  · simp [hat]

/-- A number set is the number read. The port is cut to 16 bits. -/
theorem setReal_spec {id : FieldId} (hat : s.values.attached = true) (hkind : id.entry.kind = .real)
    (hport : id ≠ .serverPort) (value : Real) :
    (s.setReal m id value).1 = true ∧ (s.setReal m id value).2.readReal id = some value := by
  unfold setReal readReal markDirty
  simp only [hat]
  cases id
  all_goals first
    | exact absurd rfl hport
    | exact absurd hkind (by decide)
    | exact ⟨rfl, rfl⟩

theorem setBool_spec {id : FieldId} (hat : s.values.attached = true)
    (hkind : id.entry.kind = .boolean) (value : Bool) :
    (s.setBool id value).1 = true ∧ (s.setBool id value).2.readBool id = some value := by
  unfold setBool readBool markDirty
  simp only [hat]
  cases id
  all_goals first
    | exact absurd hkind (by decide)
    | exact ⟨rfl, rfl⟩

theorem setString_spec {id : FieldId} (hat : s.values.attached = true)
    (hkind : id.entry.kind = .string) (value : Text) :
    (s.setString id value).1 = true ∧ (s.setString id value).2.readString id = some value := by
  unfold setString readString markDirty
  simp only [hat]
  cases id
  all_goals first
    | exact absurd hkind (by decide)
    | exact ⟨rfl, rfl⟩

/-- **Assignment.** A text from the wire either changes nothing, or assigns the field of its name. -/
theorem setFromWire_cases (name wireValue : Text) (externalWrite : Bool) :
    s.setFromWire m name wireValue externalWrite = (false, s) ∨
      ∃ d, find name = some d ∧ (s.setFromWire m name wireValue externalWrite).1 = true ∧
        Assigns d.id s (s.setFromWire m name wireValue externalWrite).2 := by
  unfold setFromWire
  cases hd : find name with
  | none => exact .inl rfl
  | some d =>
    dsimp only
    split_ifs
    · exact .inl rfl
    · cases d.kind with
      | real =>
        cases parseReal m wireValue with
        | none => exact .inl rfl
        | some v => exact (setReal_cases m s d.id v).imp_right fun h => ⟨d, rfl, h⟩
      | boolean =>
        cases parseBool wireValue with
        | none => exact .inl rfl
        | some v => exact (setBool_cases s d.id v).imp_right fun h => ⟨d, rfl, h⟩
      | string =>
        exact (setString_cases s d.id (stripQuotes wireValue)).imp_right fun h => ⟨d, rfl, h⟩

end Assignments

/-! ## Watches -/

section Watches

variable {W : Type} (m : Machine)

theorem watch_rewatches (s : Store) (name : Text) (periodSeconds : Real) (nowUs : ℕ)
    (initialLine : Option (ValueWriter W)) (w : W) :
    Rewatches s (s.watch m name periodSeconds nowUs initialLine w).2.1 := by
  unfold Store.watch
  cases find name with
  | none => exact .refl s
  | some d =>
    dsimp only
    split_ifs
    · exact ⟨rfl, rfl, rfl⟩
    · exact ⟨rfl, rfl, rfl⟩
    · exact .refl s

theorem unwatch_rewatches (s : Store) (name : Text) : Rewatches s (s.unwatch name).2 := by
  unfold Store.unwatch
  cases find name with
  | none => exact .refl s
  | some d => exact ⟨rfl, rfl, rfl⟩

end Watches

end Store

/-! ## Requests -/

namespace Server

open Store

variable {W : Type} (m : Machine)

theorem watchEntry_rewatches (key value : Text) (nowUs : ℕ) (out : ValueWriter W) (s : Store)
    (w : W) : Rewatches s (watchEntry m key value nowUs out s w).2.1 := by
  unfold watchEntry
  generalize (if value = lit "true" then some 0 else parsePeriod m value) = period
  split_ifs with hvalues hfalse
  · exact .refl s
  · dsimp only
    split_ifs <;> exact .refl s
  · exact unwatch_rewatches s key
  · cases period with
    | none => exact .refl s
    | some period =>
      have h := watch_rewatches m s key period nowUs (some out) w
      dsimp only
      split_ifs <;> exact h

section Round

variable {expression key value rest : Text} (hitem : watchItem expression = .entry key value rest)
  {nowUs : ℕ} {out : ValueWriter W} {s : Store} {w : W} {p : Store × W}

include hitem

theorem watchBody_goes_on (hentry : watchEntry m key value nowUs out s w = (none, p)) :
    watchBody m nowUs out (expression, s, w) = .inl (rest, p) := by
  unfold watchBody
  dsimp only
  rw [hitem]
  dsimp only
  rw [hentry]

theorem watchBody_leaves {ok : Bool} (hentry : watchEntry m key value nowUs out s w = (some ok, p)) :
    watchBody m nowUs out (expression, s, w) = .inr (ok, p) := by
  unfold watchBody
  dsimp only
  rw [hitem]
  dsimp only
  rw [hentry]

end Round

/-- The store after a round of a watch request, whether the loop goes on or returns. -/
def storeAfter (r : (Text × Store × W) ⊕ (Bool × Store × W)) : Store :=
  r.elim (fun p => p.2.1) fun p => p.2.1

/-- One round, seen from the store: only an entry changes it. -/
theorem storeAfter_watchBody {I : Store → Prop} {nowUs : ℕ} {out : ValueWriter W}
    {p : Text × Store × W} (hp : I p.2.1)
    (hentry : ∀ key value rest, watchItem p.1 = .entry key value rest →
      I (watchEntry m key value nowUs out p.2.1 p.2.2).2.1) :
    I (storeAfter (watchBody m nowUs out p)) := by
  obtain ⟨expression, s, w⟩ := p
  unfold watchBody
  dsimp only at hp hentry ⊢
  cases hitem : watchItem expression with
  | entry key value rest =>
    have h := hentry key value rest hitem
    dsimp only
    rcases hr : watchEntry m key value nowUs out s w with ⟨_ | ok, s', w'⟩
    all_goals
      rw [hr] at h
      exact h
  | _ => exact hp

/-- **Watch requests.** What every entry keeps is kept by a request. -/
theorem handleWatch_invariant {I : Store → Prop} {nowUs : ℕ} {out : ValueWriter W}
    (hentry : ∀ key value s w, I s → I (watchEntry m key value nowUs out s w).2.1)
    (expression : Text) {s : Store} (hs : I s) (w : W) :
    I (handleWatch m expression nowUs out s w).2.1 := by
  have hround : ∀ p : Text × Store × W, I p.2.1 → I (storeAfter (watchBody m nowUs out p)) :=
    fun p hp => storeAfter_watchBody m hp fun key value _ _ => hentry key value p.2.1 p.2.2 hp
  unfold handleWatch
  dsimp only
  split_ifs
  · exact hs
  · refine Loop.run_invariant (fun p : Text × Store × W => I p.2.1)
      (fun r : Bool × Store × W => I r.2.1) ?_ ?_ hs
    · intro p p' hp hb
      have h := hround p hp
      rw [hb] at h
      exact h
    · intro p r hp hb
      have h := hround p hp
      rw [hb] at h
      exact h

theorem handleWatch_rewatches (expression : Text) (nowUs : ℕ) (out : ValueWriter W) (s : Store)
    (w : W) : Rewatches s (handleWatch m expression nowUs out s w).2.1 :=
  handleWatch_invariant m
    (fun key value s' w' h => h.trans (watchEntry_rewatches m key value nowUs out s' w'))
    expression (.refl s) w

/-- An assignment does to the store what `set_from_wire` does. -/
theorem handleLine_assignment {line name value : Text} (h : request line = .assignment name value)
    (nowUs : ℕ) (out : ValueWriter W) (s : Store) (w : W) :
    (handleLine m line nowUs out s w).2.1 = (s.setFromWire m name value true).2 := by
  unfold handleLine
  rw [h]
  show (handleAssignment m name value out s w).2.1 = _
  unfold handleAssignment
  dsimp only
  split_ifs <;> rfl

/-- All other lines change the watches at most. -/
theorem handleLine_rewatches {line : Text} (h : ∀ name value, request line ≠ .assignment name value)
    (nowUs : ℕ) (out : ValueWriter W) (s : Store) (w : W) :
    Rewatches s (handleLine m line nowUs out s w).2.1 := by
  unfold handleLine
  cases hr : request line with
  | watch expression => exact handleWatch_rewatches m expression nowUs out s w
  | assignment name value => exact absurd hr (h name value)
  | empty => exact .refl s
  | malformed => exact .refl s
  | values => exact .refl s
  | udpPort => exact .refl s

/-- **Lines.** A line is an assignment, or it changes the watches at most. -/
theorem handleLine_cases (line : Text) (nowUs : ℕ) (out : ValueWriter W) (s : Store) (w : W) :
    (∃ name value, request line = .assignment name value ∧
        (handleLine m line nowUs out s w).2.1 = (s.setFromWire m name value true).2) ∨
      (∀ name value, request line ≠ .assignment name value) ∧
        Rewatches s (handleLine m line nowUs out s w).2.1 := by
  by_cases hassign : ∃ name value, request line = .assignment name value
  · obtain ⟨name, value, hreq⟩ := hassign
    exact .inl ⟨name, value, hreq, handleLine_assignment m hreq nowUs out s w⟩
  · have hother : ∀ name value, request line ≠ .assignment name value :=
      fun name value h => hassign ⟨name, value, h⟩
    exact .inr ⟨hother, handleLine_rewatches m hother nowUs out s w⟩

theorem handleLine_attached (line : Text) (nowUs : ℕ) (out : ValueWriter W) (s : Store) (w : W) :
    (handleLine m line nowUs out s w).2.1.values.attached = s.values.attached := by
  rcases handleLine_cases m line nowUs out s w with ⟨name, value, -, hset⟩ | ⟨-, h⟩
  · rw [hset]
    rcases setFromWire_cases m s name value true with hfail | ⟨d, -, -, h⟩
    · rw [hfail]
    · exact h.attached
  · exact h.attached

end Server

end Pypilot
