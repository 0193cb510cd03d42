import Pypilot.RegistryRuns

/-!
# The fields of the registry

The public setters and readers of `ValueRegistry` under the names of the fields. Each field has one
setter and one reader, and what is set is what is read, next to unchanged other fields (`set_read`). The
setters also take `external_write`; only `set_from_wire` makes anything of it (`external_write_iff`).
-/

namespace Pypilot

open Text

/-! ## Setters and readers -/

/-- A value of one of the kinds. -/
inductive Value
  | real (value : Real)
  | boolean (value : Bool)
  | string (value : Text)
  deriving DecidableEq

namespace Value

def kind : Value → Kind
  | real _ => .real
  | boolean _ => .boolean
  | string _ => .string

/-- A value that the field holds: one of its kind, and for the port one of its 16 bits. -/
structure Suits (v : Value) (id : FieldId) : Prop where
  kind : v.kind = id.entry.kind
  port : id = .serverPort → ∃ n : ℕ, n ≤ 65535 ∧ v = .real (.fin n)

end Value

namespace ValueRegistry

variable (m : Machine) (s : Store)

/-- `set_real` by name. The setter by id that gets `external_write` has no use for it. -/
def setReal (name : Text) (value : Real) (_externalWrite : Bool) : Bool × Store :=
  s.setRealNamed m name value

/-- `set_bool` by name, likewise. -/
def setBool (name : Text) (value : Bool) (_externalWrite : Bool) : Bool × Store :=
  s.setBoolNamed name value

/-- `set_string` by name, likewise. -/
def setString (name value : Text) (_externalWrite : Bool) : Bool × Store :=
  s.setStringNamed name value

/-- A reader by name: the one by id, on the field of the name. -/
def readNamed {α : Type} (name : Text) (read : FieldId → Option α) : Option α :=
  (find name).bind fun d => read d.id

def readReal (name : Text) : Option Real := readNamed name s.readReal

def readBool (name : Text) : Option Bool := readNamed name s.readBool

def readString (name : Text) : Option Text := readNamed name s.readString

/-- The setter of the kind of the value. -/
def set (name : Text) (externalWrite : Bool) : Value → Bool × Store
  | .real value => setReal m s name value externalWrite
  | .boolean value => setBool s name value externalWrite
  | .string value => setString s name value externalWrite

/-- The reader of a kind. -/
def read (name : Text) : Kind → Option Value
  | .real => (readReal s name).map .real
  | .boolean => (readBool s name).map .boolean
  | .string => (readString s name).map .string

variable {s} in
theorem readNamed_entry {α : Type} (id : FieldId) (read : FieldId → Option α) :
    readNamed id.entry.name read = read id := by
  unfold readNamed
  rw [find_entry, Option.bind_some, entry_id]

theorem setNamed_entry (id : FieldId) (set : FieldId → Bool × Store) :
    s.setNamed id.entry.name set = set id := by
  unfold Store.setNamed
  rw [find_entry]
  dsimp only
  rw [entry_id]

theorem setNamed_unknown {name : Text} (hname : find name = none) (set : FieldId → Bool × Store) :
    s.setNamed name set = (false, s) := by
  unfold Store.setNamed
  rw [hname]

/-- The setter by id of the kind of the value. -/
def setField (id : FieldId) : Value → Bool × Store
  | .real value => s.setReal m id value
  | .boolean value => s.setBool id value
  | .string value => s.setString id value

/-- The reader by id of a kind. -/
def readField (id : FieldId) : Kind → Option Value
  | .real => (s.readReal id).map .real
  | .boolean => (s.readBool id).map .boolean
  | .string => (s.readString id).map .string

variable {s}

theorem set_eq (name : Text) (externalWrite : Bool) (v : Value) :
    set m s name externalWrite v = s.setNamed name fun id => setField m s id v := by
  cases v <;> rfl

theorem set_entry (id : FieldId) (externalWrite : Bool) (v : Value) :
    set m s id.entry.name externalWrite v = setField m s id v := by
  rw [set_eq, setNamed_entry]

theorem set_unknown {name : Text} (hname : find name = none) (externalWrite : Bool) (v : Value) :
    set m s name externalWrite v = (false, s) := by
  rw [set_eq, setNamed_unknown s hname]

theorem read_entry (id : FieldId) (kind : Kind) :
    read s id.entry.name kind = readField s id kind := by
  cases kind with
  | real => exact congrArg (Option.map Value.real) (readNamed_entry id s.readReal)
  | boolean => exact congrArg (Option.map Value.boolean) (readNamed_entry id s.readBool)
  | string => exact congrArg (Option.map Value.string) (readNamed_entry id s.readString)

theorem readField_congr {s' : Store} {id : FieldId} (h : Store.SameField s s' id) (kind : Kind) :
    readField s' id kind = readField s id kind := by
  cases kind with
  | real => exact congrArg (Option.map Value.real) h.real
  | boolean => exact congrArg (Option.map Value.boolean) h.bool
  | string => exact congrArg (Option.map Value.string) h.string

/-! ## What is set is read -/

/-- A setter fails and does nothing, or assigns the field. -/
theorem setField_cases (id : FieldId) (v : Value) :
    setField m s id v = (false, s) ∨
      (setField m s id v).1 = true ∧ Store.Assigns id s (setField m s id v).2 := by
  cases v with
  | real value => exact Store.setReal_cases m s id value
  | boolean value => exact Store.setBool_cases s id value
  | string value => exact Store.setString_cases s id value

/-- The setter of another kind has no case for the field. -/
theorem setField_of_kind_ne {id : FieldId} {v : Value} (hkind : v.kind ≠ id.entry.kind) :
    setField m s id v = (false, s) := by
  cases v with
  | real value =>
    show s.setReal m id value = _
    unfold Store.setReal
    cases id <;> first | exact absurd rfl hkind | exact ite_self _
  | boolean value =>
    show s.setBool id value = _
    unfold Store.setBool
    cases id <;> first | exact absurd rfl hkind | exact ite_self _
  | string value =>
    show s.setString id value = _
    unfold Store.setString
    cases id <;> first | exact absurd rfl hkind | exact ite_self _

/-- A number of 16 bits goes into the port and comes out of it. -/
theorem setReal_port (hat : s.values.attached = true) {n : ℕ} (hn : n ≤ 65535) :
    (s.setReal m .serverPort (.fin n)).1 = true ∧
      (s.setReal m .serverPort (.fin n)).2.readReal .serverPort = some (.fin n) := by
  have hcut : (ExtRat.fin n).toUnsigned m.wildCast 16 = n := by
    rw [ExtRat.toUnsigned_fin m.wildCast (Nat.cast_nonneg n) (by exact_mod_cast Nat.lt_succ_of_le hn)]
    exact Nat.floor_natCast n
  unfold Store.setReal Store.readReal Store.markDirty
  simp only [hat, hcut]
  exact ⟨rfl, rfl⟩

/-- A value that suits the field is set, and then read. -/
theorem setField_suits (hat : s.values.attached = true) {id : FieldId} {v : Value}
    (hsuits : v.Suits id) :
    (setField m s id v).1 = true ∧ readField (setField m s id v).2 id v.kind = some v := by
  have hkind := hsuits.kind
  cases v with
  | real value =>
    have hset : (s.setReal m id value).1 = true ∧
        (s.setReal m id value).2.readReal id = some value := by
      by_cases hport : id = .serverPort
      · obtain ⟨n, hn, hv⟩ := hsuits.port hport
        rw [hport, Value.real.inj hv]
        exact setReal_port m hat hn
      · exact Store.setReal_spec m s hat hkind.symm hport value
    exact ⟨hset.1, congrArg (Option.map Value.real) hset.2⟩
  | boolean value =>
    have hset := Store.setBool_spec s hat hkind.symm value
    exact ⟨hset.1, congrArg (Option.map Value.boolean) hset.2⟩
  | string value =>
    have hset := Store.setString_spec s hat hkind.symm value
    exact ⟨hset.1, congrArg (Option.map Value.string) hset.2⟩

/-- **Fields.** The setter of the field's kind puts the value where the reader finds it, leaves what is
read of other fields, and marks the field; all other setters fail. -/
theorem set_read (m : Machine) {s : Store} (hat : s.values.attached = true) (id : FieldId)
    (externalWrite : Bool) (v : Value) :
    (v.Suits id → ∃ s', set m s id.entry.name externalWrite v = (true, s') ∧
      read s' id.entry.name v.kind = some v ∧
      (∀ id', id' ≠ id → ∀ kind, read s' id'.entry.name kind = read s id'.entry.name kind) ∧
      s'.values.dirty = Function.update s.values.dirty id true) ∧
    (v.kind ≠ id.entry.kind → set m s id.entry.name externalWrite v = (false, s)) ∧
    ∀ name, find name = none → set m s name externalWrite v = (false, s) ∧
      ∀ wireValue, s.setFromWire m name wireValue externalWrite = (false, s) := by
  refine ⟨fun hsuits => ?_, fun hkind => ?_, fun name hname => ⟨?_, fun wireValue => ?_⟩⟩
  · obtain ⟨hok, hread⟩ := setField_suits m hat hsuits
    rcases setField_cases m (s := s) id v with hfail | ⟨-, hassigns⟩
    · rw [hfail] at hok
      exact absurd hok Bool.false_ne_true
    · refine ⟨(setField m s id v).2, ?_, ?_, fun id' hne kind => ?_, hassigns.dirty⟩
      · rw [set_entry]
        exact Prod.ext hok rfl
      · rw [read_entry, hread]
      · rw [read_entry, read_entry, readField_congr (hassigns.others id' hne)]
  · rw [set_entry, setField_of_kind_ne m hkind]
  · exact set_unknown m hname externalWrite v
  · unfold Store.setFromWire
    rw [hname]

theorem set_read_port :
    let s : Store := ⟨{}, { attached := true }⟩
    ∃ s', set default s (lit "server.port") false (.real 65535) = (true, s') ∧
      read s' (lit "server.port") .real = some (.real 65535) ∧
      (∀ id, id ≠ FieldId.serverPort → ∀ kind,
        read s' id.entry.name kind = read s id.entry.name kind) ∧
      s'.values.dirty = Function.update s.values.dirty .serverPort true :=
  (set_read default rfl .serverPort false (.real 65535)).1 ⟨rfl, fun _ => ⟨65535, le_rfl, rfl⟩⟩

/-! ## External writes -/

/-- A value as the setters take it: as text of the wire, or of its kind. -/
inductive Written
  | wire (wireValue : Text)
  | typed (v : Value)
  deriving DecidableEq

/-- The four setters with `external_write`. -/
def writeExternal (s : Store) (name : Text) : Written → Bool × Store
  | .wire wireValue => s.setFromWire m name wireValue true
  | .typed v => set m s name true v

/-- The setter returns false, and the state and the marks stay. -/
def Refused (s : Store) (r : Bool × Store) : Prop :=
  r.1 = false ∧ r.2.state = s.state ∧ r.2.values.dirty = s.values.dirty

/-- The value reaches a setter that has a case for the field. -/
def Lands (s : Store) (id : FieldId) : Written → Prop
  | .wire _ => False
  | .typed v => s.values.attached = true ∧ v.kind = id.entry.kind

/-- The setter of the field's kind always succeeds. -/
theorem setField_of_kind (hat : s.values.attached = true) {id : FieldId} {v : Value}
    (hkind : v.kind = id.entry.kind) : (setField m s id v).1 = true := by
  cases v with
  | real value =>
    show (s.setReal m id value).1 = true
    unfold Store.setReal
    rw [hat]
    have hreal : Kind.real = id.entry.kind := hkind
    cases id <;> first | exact absurd hreal (by decide) | rfl
  | boolean value => exact (Store.setBool_spec s hat hkind.symm value).1
  | string value => exact (Store.setString_spec s hat hkind.symm value).1

theorem setField_of_not_attached (hat : s.values.attached = false) (id : FieldId) (v : Value) :
    setField m s id v = (false, s) := by
  cases v with
  | real value =>
    show s.setReal m id value = _
    unfold Store.setReal
    rw [hat]
    rfl
  | boolean value =>
    show s.setBool id value = _
    unfold Store.setBool
    rw [hat]
    rfl
  | string value =>
    show s.setString id value = _
    unfold Store.setString
    rw [hat]
    rfl

/-- **External writes.** A field that is not writable is protected in `set_from_wire` and wherever the
setter does not fit the field, and nowhere else. -/
theorem external_write_iff (m : Machine) (s : Store) {id : FieldId}
    (hwritable : id.entry.info.writable = false) (v : Written) :
    Refused s (writeExternal m s id.entry.name v) ↔ ¬ Lands s id v := by
  cases v with
  | wire wireValue =>
    have hrefused : writeExternal m s id.entry.name (.wire wireValue) = (false, s) := by
      show s.setFromWire m id.entry.name wireValue true = _
      unfold Store.setFromWire
      rw [find_entry]
      dsimp only
      rw [hwritable]
      rfl
    rw [hrefused]
    exact iff_of_true ⟨rfl, rfl, rfl⟩ not_false
  | typed v =>
    show Refused s (set m s id.entry.name true v) ↔ _
    rw [set_entry]
    constructor
    · rintro ⟨hfail, -⟩ ⟨hat, hkind⟩
      exact absurd ((setField_of_kind m hat hkind).symm.trans hfail) (by decide)
    · intro hnot
      have hrefused : setField m s id v = (false, s) := by
        cases hat : s.values.attached with
        | false => exact setField_of_not_attached m hat id v
        | true => exact setField_of_kind_ne m fun hkind => hnot ⟨hat, hkind⟩
      rw [hrefused]
      exact ⟨rfl, rfl, rfl⟩

theorem external_write_heading :
    Refused ⟨{}, { attached := true }⟩ (writeExternal default ⟨{}, { attached := true }⟩
      (lit "ap.heading") (.wire (lit "12.5"))) :=
  (@external_write_iff default ⟨{}, { attached := true }⟩ .apHeading rfl
    (.wire (lit "12.5"))).mpr not_false

/-- `set_real("ap.heading", 12.5, true)`. -/
theorem external_write_lands :
    ¬ ∀ (m : Machine) (s : Store) (id : FieldId), id.entry.info.writable = false →
      ∀ v, Refused s (writeExternal m s id.entry.name v) := by
  intro hclaim
  have h := hclaim default ⟨{}, { attached := true }⟩ .apHeading rfl
    (.typed (.real (.fin (25 / 2))))
  exact absurd h.1 (by decide)

end ValueRegistry

end Pypilot
