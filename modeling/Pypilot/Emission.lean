import Pypilot.Server

/-!
# What the registry writes

Every output function of the registry and of the server, given a writer that never fails, hands it a
list of pieces that can be read off the store (`linePieces`, `changedIds`, `dueIds`). All results about
the output rest on these equations.
-/

namespace Pypilot

open Text

/-! ## Writers that never fail -/

section Reliable

variable {W : Type} (put : Text → W → W)

/-- A writer that takes all text; `put` is what it does with it. -/
def ValueWriter.reliable : ValueWriter W := ⟨fun text w => (true, put text w)⟩

/-- A writer that keeps the texts it is given apart. -/
def ValueWriter.recorder : ValueWriter (List Text) := .reliable fun text pieces => pieces ++ [text]

/-- Pieces of text given to a writer, one after the other. -/
def puts (ts : List Text) (w : W) : W := ts.foldl (fun w text => put text w) w

@[simp] theorem puts_nil (w : W) : puts put [] w = w := rfl

theorem puts_cons (t : Text) (ts : List Text) (w : W) :
    puts put (t :: ts) w = puts put ts (put t w) := rfl

theorem puts_append (ts us : List Text) (w : W) :
    puts put (ts ++ us) w = puts put us (puts put ts w) := List.foldl_append

theorem puts_string (ts : List Text) (w : Text) :
    puts (fun text out => out ++ text) ts w = w ++ ts.flatten := by
  induction ts generalizing w with
  | nil => simp
  | cons t ts ih => rw [puts_cons, ih, List.flatten_cons, List.append_assoc]

theorem puts_recorder (ts : List Text) (w : List Text) :
    puts (fun text pieces => pieces ++ [text]) ts w = w ++ ts := by
  induction ts generalizing w with
  | nil => simp
  | cons t ts ih => rw [puts_cons, ih, List.append_assoc, List.singleton_append]

/-- The writes succeed and give the pieces `ts`. -/
def PutsAll (fs : List (W → Bool × W)) (ts : List Text) : Prop :=
  ∀ w, putAll fs w = (true, puts put ts w)

variable {put}

theorem putsAll_nil : PutsAll put [] [] := fun _ => rfl

theorem putsAll_single {f : W → Bool × W} {ts : List Text} (h : ∀ w, f w = (true, puts put ts w)) :
    PutsAll put [f] ts := by
  intro w
  rw [putAll, h]
  rfl

theorem putsAll_write (t : Text) : PutsAll put [(ValueWriter.reliable put).write t] [t] :=
  putsAll_single fun _ => rfl

theorem PutsAll.append {fs gs : List (W → Bool × W)} {ts us : List Text} (hf : PutsAll put fs ts)
    (hg : PutsAll put gs us) : PutsAll put (fs ++ gs) (ts ++ us) := by
  intro w
  have happend : ∀ (fs : List (W → Bool × W)) (w : W), (putAll fs w).1 = true →
      putAll (fs ++ gs) w = putAll gs (putAll fs w).2 := by
    intro fs
    induction fs with
    | nil => intro w _; rfl
    | cons f fs ih =>
      intro w h
      rw [List.cons_append, putAll, putAll]
      rw [putAll] at h
      by_cases hok : (f w).1 = true
      · rw [if_pos hok] at h ⊢
        rw [if_pos hok]
        exact ih (f w).2 h
      · rw [if_neg hok] at h
        exact absurd h Bool.false_ne_true
  rw [happend fs w (by rw [hf]), hf, hg, puts_append]

theorem PutsAll.flatMap {α : Type} {f : α → List (W → Bool × W)} {g : α → List Text}
    (h : ∀ a, PutsAll put (f a) (g a)) (l : List α) :
    PutsAll put (l.flatMap f) (l.flatMap g) := by
  induction l with
  | nil => exact putsAll_nil
  | cons a l ih =>
    rw [List.flatMap_cons, List.flatMap_cons]
    exact (h a).append ih

end Reliable

/-! ## Fields and their descriptors -/

theorem descriptor_isSome (id : FieldId) : (descriptor id).isSome := by cases id <;> rfl

/-- The descriptor of a field. -/
def FieldId.entry (id : FieldId) : Descriptor := (descriptor id).get (descriptor_isSome id)

theorem descriptor_eq (id : FieldId) : descriptor id = some id.entry := (Option.some_get _).symm

@[simp] theorem entry_id (id : FieldId) : id.entry.id = id := by cases id <;> rfl

theorem find_entry (id : FieldId) : find id.entry.name = some id.entry := by cases id <;> decide

theorem find_eq_some {name : Text} {d : Descriptor} (h : find name = some d) :
    d = d.id.entry ∧ d.name = name := by
  have hall : ∀ d ∈ fields, d = d.id.entry := by decide
  have hname := List.find?_some h
  rw [decide_eq_true_eq] at hname
  exact ⟨hall d (List.mem_of_find?_eq_some h), hname.symm⟩

/-- Another name is that of another field. -/
theorem id_ne_of_find {name : Text} {d : Descriptor} (h : find name = some d) {id : FieldId}
    (hne : name ≠ id.entry.name) : id ≠ d.id := by
  rintro rfl
  obtain ⟨hentry, hname⟩ := find_eq_some h
  rw [← hentry, hname] at hne
  exact hne rfl

/-! ## Pieces -/

/-- The pieces of a string value. -/
def jsonPieces (text : Text) : List Text :=
  [[chr '"']] ++
    text.flatMap (fun c =>
      (if c = chr '"' ∨ c = chr '\\' then [[chr '\\']] else []) ++ [[c]]) ++
    [[chr '"']]

def boolText (value : Bool) : Text := if value then lit "true" else lit "false"

/-- The characters that `write_real` hands on. -/
def realText (m : Machine) (value : Real) : Text := readBuffer m 32 (Decimal.render 4 value)

section Pieces

variable (m : Machine) (s : Store) (id : FieldId)

/-- The pieces of the value of a field, when it can be read. -/
def valuePieces : Option (List Text) :=
  match id.entry.kind with
  | .real => (s.readReal id).map fun r => [realText m r]
  | .boolean => (s.readBool id).map fun b => [boolText b]
  | .string => (s.readString id).map jsonPieces

/-- The text of the value of a field, when it can be read. -/
def valueText : Option Text := (valuePieces m s id).map List.flatten

variable {id} in
theorem valueText_real (hk : id.entry.kind = .real) :
    valueText m s id = (s.readReal id).map (realText m) := by
  unfold valueText valuePieces
  rw [hk]
  cases s.readReal id <;> simp

variable {id} in
theorem valueText_boolean (hk : id.entry.kind = .boolean) :
    valueText m s id = (s.readBool id).map boolText := by
  unfold valueText valuePieces
  rw [hk]
  cases s.readBool id <;> simp

variable {id} in
theorem valueText_string (hk : id.entry.kind = .string) :
    valueText m s id = (s.readString id).map fun t => (jsonPieces t).flatten := by
  unfold valueText valuePieces
  rw [hk]
  cases s.readString id <;> rfl

/-- The pieces of the line of a field: the name goes out even when the value cannot be read. -/
def linePieces : List Text :=
  [id.entry.name, [chr '=']] ++
    match valuePieces m s id with
    | some ts => ts ++ [[chr '\n']]
    | none => []

variable {W : Type} (put : Text → W → W)

variable {put} in
theorem writeJsonString_reliable (text : Text) (w : W) :
    (ValueWriter.reliable put).writeJsonString text w = (true, puts put (jsonPieces text) w) := by
  refine PutsAll.append (PutsAll.append (putsAll_write _) (PutsAll.flatMap (fun c => ?_) text))
    (putsAll_write _) w
  refine PutsAll.append ?_ (putsAll_write _)
  split_ifs
  · exact putsAll_write _
  · exact putsAll_nil

theorem writeValue_reliable (w : W) :
    s.writeValue m id.entry.name (.reliable put) w =
      match valuePieces m s id with
      | some ts => (true, puts put ts w)
      | none => (false, w) := by
  unfold Store.writeValue valuePieces
  rw [find_entry]
  dsimp only
  rw [entry_id]
  cases id.entry.kind with
  | real => cases s.readReal id <;> rfl
  | boolean => cases s.readBool id <;> rfl
  | string =>
    cases s.readString id with
    | none => rfl
    | some text => exact writeJsonString_reliable text w

/-- **The line of a field.** -/
theorem writeValueLine_reliable (w : W) :
    s.writeValueLine m id (.reliable put) w =
      ((valuePieces m s id).isSome, puts put (linePieces m s id) w) := by
  unfold Store.writeValueLine
  rw [descriptor_eq]
  show (if (s.writeValue m id.entry.name (.reliable put) _).1 = true then _ else _) = _
  unfold linePieces
  rw [writeValue_reliable]
  cases valuePieces m s id with
  | none => rfl
  | some ts =>
    rw [puts_append, puts_append]
    rfl

end Pieces

/-! ## The listing -/

/-- The pieces of the metadata of a field. -/
def infoPieces (id : FieldId) : List Text :=
  [lit "\x7b\"type\":"] ++ jsonPieces id.entry.info.type ++
    (if id.entry.info.writable then [lit ",\"writable\":true"] else []) ++ [[chr '\x7d']]

def entryPieces (d : Descriptor) : List Text := jsonPieces d.name ++ [[chr ':']] ++ infoPieces d.id

/-- The pieces of the listing of all fields. -/
def listingPieces : List Text :=
  [[chr '\x7b']] ++
    (match fields with
      | [] => []
      | d :: ds => entryPieces d ++ ds.flatMap fun d => [[chr ',']] ++ entryPieces d) ++
    [[chr '\x7d']]

section Listing

variable {W : Type} {put : Text → W → W}

theorem writeInfoJson_reliable (id : FieldId) (w : W) :
    Store.writeInfoJson id (.reliable put) w = (true, puts put (infoPieces id) w) := by
  unfold Store.writeInfoJson
  rw [descriptor_eq]
  refine PutsAll.append (PutsAll.append (PutsAll.append (putsAll_write _)
    (putsAll_single (writeJsonString_reliable _))) ?_) (putsAll_write _) w
  split_ifs
  · exact putsAll_write _
  · exact putsAll_nil

theorem putsAll_entry (d : Descriptor) :
    PutsAll put [(ValueWriter.reliable put).writeJsonString d.name,
      (ValueWriter.reliable put).writeChar (chr ':'), Store.writeInfoJson d.id (.reliable put)]
      (entryPieces d) :=
  ((putsAll_single (writeJsonString_reliable _)).append (putsAll_write _)).append
    (putsAll_single (writeInfoJson_reliable _))

theorem writeValuesJson_reliable (w : W) :
    Store.writeValuesJson (.reliable put) w = (true, puts put listingPieces w) := by
  refine PutsAll.append (PutsAll.append (putsAll_write _) ?_) (putsAll_write _) w
  refine (putsAll_entry _).append (PutsAll.flatMap (fun d => ?_) _)
  exact (putsAll_write _).append (putsAll_entry d)

end Listing

/-! ## Watches -/

section Watches

variable (m : Machine)

/-- The field has an active watch of period 0. -/
def Store.hasImmediate (s : Store) (id : FieldId) : Bool :=
  s.values.watches.toList.any (Store.immediate id)

/-- The fields that `emit_changed_watches` writes. -/
def changedIds (s : Store) : List FieldId :=
  FieldId.all.filter fun id => s.values.dirty id && s.hasImmediate id

/-- The fields that `emit_due_watches` writes. -/
def dueIds (nowUs : ℕ) (s : Store) : List FieldId :=
  (s.values.watches.toList.filter (Store.isDue nowUs)).map Watch.id

theorem linePieces_congr {s s' : Store} (hstate : s'.state = s.state)
    (hattached : s'.values.attached = s.values.attached) (id : FieldId) :
    linePieces m s' id = linePieces m s id := by
  unfold linePieces valuePieces Store.readReal Store.readBool Store.readString
  rw [hstate, hattached]

/-- An entry after `emit_due_watches`. -/
def redue (nowUs : ℕ) (e : Watch) : Watch :=
  if Store.isDue nowUs e then
    { e with nextDueUs := Store.advance (periodUs m e.periodSeconds) nowUs e.nextDueUs }
  else e

theorem writeValueLine_congr {W : Type} {s s' : Store} (hstate : s'.state = s.state)
    (hattached : s'.values.attached = s.values.attached) (id : FieldId) (out : ValueWriter W) (w : W) :
    s'.writeValueLine m id out w = s.writeValueLine m id out w := by
  unfold Store.writeValueLine Store.writeValue Store.readReal Store.readBool Store.readString
  rw [hstate, hattached]

section Attempts

variable {W : Type} (out : ValueWriter W)

/-- The lines of some fields written one after the other, whether or not the writer takes them. -/
def attemptLines (s : Store) (ids : List FieldId) (w : W) : W :=
  ids.foldl (fun w id => (s.writeValueLine m id out w).2) w

theorem attemptLines_append (s : Store) (ids ids' : List FieldId) (w : W) :
    attemptLines m out s (ids ++ ids') w = attemptLines m out s ids' (attemptLines m out s ids w) :=
  List.foldl_append

theorem attemptLines_congr {s s' : Store} (hstate : s'.state = s.state)
    (hattached : s'.values.attached = s.values.attached) (ids : List FieldId) (w : W) :
    attemptLines m out s' ids w = attemptLines m out s ids w := by
  unfold attemptLines
  simp only [writeValueLine_congr m hstate hattached]

theorem emitChanged_eq (s : Store) (w : W) (id : FieldId) :
    Store.emitChanged m out (s, w) id =
      ({ s with values := { s.values with dirty := Function.update s.values.dirty id false } },
        attemptLines m out s ([id].filter fun id => s.values.dirty id && s.hasImmediate id) w) := by
  unfold Store.emitChanged attemptLines Store.hasImmediate
  by_cases hdirty : s.values.dirty id = true
  · by_cases hwatch : s.values.watches.toList.any (Store.immediate id) = true
    · simp [hdirty, hwatch]
    · simp [hdirty, hwatch]
  · have hclean : s.values.dirty id = false := by simpa using hdirty
    have hsame : Function.update s.values.dirty id false = s.values.dirty := by
      rw [← hclean, Function.update_eq_self]
    simp [hclean, hsame]

theorem foldl_emitChanged_eq {ids : List FieldId} (hids : ids.Nodup) (s : Store) (w : W) :
    ids.foldl (Store.emitChanged m out) (s, w) =
      ({ s with values :=
          { s.values with dirty := fun id => s.values.dirty id && decide (id ∉ ids) } },
        attemptLines m out s (ids.filter fun id => s.values.dirty id && s.hasImmediate id) w) := by
  induction ids generalizing s w with
  | nil => simp [attemptLines]
  | cons id ids ih =>
    obtain ⟨hnot, hids⟩ := List.nodup_cons.mp hids
    rw [List.foldl_cons, emitChanged_eq, ih hids]
    refine Prod.ext ?_ ?_
    · dsimp only
      congr 2
      funext id'
      by_cases h : id' = id
      · subst h
        simp
      · simp [h]
    · -- the fields still to come are as dirty as before
      have hlater :
          (ids.filter fun id' => Function.update s.values.dirty id false id' && s.hasImmediate id') =
            ids.filter fun id' => s.values.dirty id' && s.hasImmediate id' := by
        refine List.filter_congr fun id' hid' => ?_
        have hne : id' ≠ id := fun h => hnot (h ▸ hid')
        rw [Function.update_of_ne hne]
      show attemptLines m out _
        (ids.filter fun id' => Function.update s.values.dirty id false id' && s.hasImmediate id')
        _ = _
      have hcongr : attemptLines m out { s with values :=
          { s.values with dirty := Function.update s.values.dirty id false } } =
          attemptLines m out s := by
        funext ids w
        exact attemptLines_congr m out rfl rfl ids w
      rw [hlater, hcongr, ← attemptLines_append, ← List.filter_append]
      rfl

/-- **Changed watches.** A line is attempted for each changed field with an immediate watch, and no field
is changed any more. -/
theorem emitChangedWatches_eq (s : Store) (w : W) :
    s.emitChangedWatches m out w =
      ({ s with values := { s.values with dirty := fun _ => false } },
        attemptLines m out s (changedIds s) w) := by
  unfold Store.emitChangedWatches
  rw [foldl_emitChanged_eq m out FieldId.all_nodup]
  simp [changedIds]

/-- **Due watches.** A line is attempted for each due entry, and these get new due times. -/
theorem emitDueWatches_eq (s : Store) (nowUs : ℕ) (w : W) :
    s.emitDueWatches m nowUs out w =
      ({ s with values := { s.values with watches := s.values.watches.map (redue m nowUs) } },
        attemptLines m out s (dueIds nowUs s) w) := by
  have hvisit : ∀ (e : Watch) (w : W),
      (if Store.isDue nowUs e = true then
        ({ e with nextDueUs := Store.advance (periodUs m e.periodSeconds) nowUs e.nextDueUs },
          (s.writeValueLine m e.id out w).2)
      else (e, w)) =
        (redue m nowUs e,
          attemptLines m out s (([e].filter (Store.isDue nowUs)).map Watch.id) w) := by
    intro e w
    unfold redue attemptLines
    by_cases hdue : Store.isDue nowUs e = true
    · simp [hdue]
    · simp [hdue]
  unfold Store.emitDueWatches
  dsimp only
  rw [SlotTable.sweep_eq hvisit]
  refine Prod.ext rfl ?_
  unfold dueIds
  dsimp only
  induction s.values.watches.toList generalizing w with
  | nil => rfl
  | cons e l ih =>
    rw [List.foldl_cons, ih, ← attemptLines_append, ← List.map_append, ← List.filter_append]
    rfl

end Attempts

/-! ### With a writer that never fails -/

variable {W : Type} (put : Text → W → W)

/-- The lines of some fields, one after the other. -/
def putLines (s : Store) (ids : List FieldId) (w : W) : W :=
  puts put (ids.flatMap (linePieces m s)) w

theorem attemptLines_reliable (s : Store) (ids : List FieldId) (w : W) :
    attemptLines m (.reliable put) s ids w = putLines m put s ids w := by
  unfold putLines
  induction ids generalizing w with
  | nil => rfl
  | cons id ids ih =>
    rw [List.flatMap_cons, puts_append, ← ih]
    unfold attemptLines
    rw [List.foldl_cons, writeValueLine_reliable]

theorem emitChangedWatches_reliable (s : Store) (w : W) :
    s.emitChangedWatches m (.reliable put) w =
      ({ s with values := { s.values with dirty := fun _ => false } },
        putLines m put s (changedIds s) w) := by
  rw [emitChangedWatches_eq, attemptLines_reliable]

theorem emitDueWatches_reliable (s : Store) (nowUs : ℕ) (w : W) :
    s.emitDueWatches m nowUs (.reliable put) w =
      ({ s with values := { s.values with watches := s.values.watches.map (redue m nowUs) } },
        putLines m put s (dueIds nowUs s) w) := by
  rw [emitDueWatches_eq, attemptLines_reliable]

end Watches

end Pypilot
