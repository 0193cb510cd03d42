import Pypilot.Emission

/-!
# Numbers and their buffer

`write_real` renders into 32 bytes and hands on as many as the number has characters. These are at most
31 for numbers up to about `10 ^ 26` upwards and `10 ^ 25` downwards (`Fits`); nothing keeps the others
out of the state.
-/

namespace Pypilot

open Text

/-- The number renders, with four decimals, into 31 characters. -/
def Fits (q : ℚ) : Prop := -(10 ^ 25 - 1 / 20000) < q ∧ q < 10 ^ 26 - 1 / 20000

instance : DecidablePred Fits := fun _ => inferInstanceAs (Decidable (_ ∧ _))

/-- No piece is longer than the capacity of the buffer. -/
def WithinBuffer (pieces : List Text) : Prop := ∀ piece ∈ pieces, piece.length ≤ 31

/-- The field does not hold a number that is too long. -/
def Store.FieldFits (s : Store) (id : FieldId) : Prop :=
  ∀ q, s.readReal id = some (.fin q) → Fits q

/-! ## One number -/

theorem readBuffer_length (m : Machine) {cap : ℕ} (hcap : 0 < cap) (text : Text) :
    (readBuffer m cap text).length = text.length := by
  unfold readBuffer
  split_ifs with h
  · rfl
  · rw [List.length_append, List.length_cons, List.length_map, List.length_range, List.length_take]
    omega

theorem render_length_le_iff (q : ℚ) : (Decimal.render 4 (.fin q)).length ≤ 31 ↔ Fits q := by
  have hdigits := fun j (hj : 0 < j) => Decimal.integer_digits_le_iff (k := 4) hj (by norm_num) q
  show (Decimal.fixed 4 q).length ≤ 31 ↔ _
  rw [Decimal.fixed_length, Decimal.sign_length]
  unfold Fits
  by_cases hneg : q < 0
  · -- the sign takes the place of a digit
    rw [if_pos hneg]
    have h := hdigits 25 (by norm_num)
    rw [abs_of_neg hneg] at h
    constructor
    · intro hlen
      have := h.mp (by omega)
      constructor <;> linarith
    · intro hq
      have := h.mpr (by linarith [hq.1])
      omega
  · rw [if_neg hneg]
    have h := hdigits 26 (by norm_num)
    rw [abs_of_nonneg (not_lt.mp hneg)] at h
    constructor
    · intro hlen
      have := h.mp (by omega)
      constructor <;> linarith
    · intro hq
      have := h.mpr (by linarith [hq.2])
      omega

theorem realText_length_le_iff (m : Machine) (x : Real) :
    (realText m x).length ≤ 31 ↔ ∀ q, x = .fin q → Fits q := by
  unfold realText
  rw [readBuffer_length m (by norm_num)]
  cases x with
  | fin q => simp [render_length_le_iff]
  | inf s => cases s <;> simp <;> decide
  | nan => simp; decide

/-! ## Lines -/

section Lines

variable (m : Machine) (s : Store) (id : FieldId)

theorem jsonPieces_within (text : Text) : WithinBuffer (jsonPieces text) := by
  intro piece hp
  unfold jsonPieces at hp
  simp only [List.mem_append, List.mem_singleton, List.mem_flatMap] at hp
  rcases hp with (rfl | ⟨c, -, hp | rfl⟩) | rfl
  · decide
  · split_ifs at hp
    · rw [List.mem_singleton.mp hp]; decide
    · exact absurd hp List.not_mem_nil
  · rw [List.length_singleton]; decide
  · decide

theorem boolText_length (b : Bool) : (boolText b).length ≤ 31 := by cases b <;> decide

theorem readReal_isSome_kind {id : FieldId} {x : Real} (h : s.readReal id = some x) :
    id.entry.kind = .real := by
  cases id <;> first | rfl | (unfold Store.readReal at h; split_ifs at h)

/-- The pieces of a value stay within the buffer exactly when its field fits. -/
theorem valuePieces_within_iff :
    (∀ ts ∈ valuePieces m s id, WithinBuffer ts) ↔ s.FieldFits id := by
  unfold valuePieces Store.FieldFits
  cases hk : id.entry.kind with
  | real =>
    dsimp only
    cases hr : s.readReal id with
    | none => simp
    | some x =>
      have h := realText_length_le_iff m x
      constructor
      · intro hts q hq
        have hlen := hts _ rfl (realText m x) (List.mem_singleton.mpr rfl)
        exact h.mp hlen q (Option.some.inj hq)
      · intro hq ts hts piece hp
        obtain rfl := Option.some.inj hts
        rw [List.mem_singleton.mp hp]
        exact h.mpr fun q hx => hq q (congrArg some hx)
  | boolean =>
    refine ⟨fun _ q hq => ?_, fun _ ts hts => ?_⟩
    · exact absurd ((readReal_isSome_kind s hq).symm.trans hk) (by decide)
    · obtain ⟨b, -, rfl⟩ := Option.map_eq_some_iff.mp hts
      intro piece hp
      rw [List.mem_singleton.mp hp]
      exact boolText_length b
  | string =>
    refine ⟨fun _ q hq => ?_, fun _ ts hts => ?_⟩
    · exact absurd ((readReal_isSome_kind s hq).symm.trans hk) (by decide)
    · obtain ⟨text, -, rfl⟩ := Option.map_eq_some_iff.mp hts
      exact jsonPieces_within text

theorem name_length (id : FieldId) : id.entry.name.length ≤ 31 := by cases id <;> decide

theorem linePieces_within_iff : WithinBuffer (linePieces m s id) ↔ s.FieldFits id := by
  rw [← valuePieces_within_iff m]
  unfold linePieces WithinBuffer
  cases valuePieces m s id with
  | none =>
    have hname := name_length id
    simpa using hname
  | some ts =>
    have hname := name_length id
    simp [or_imp, forall_and, hname]

theorem putLines_within_iff (ids : List FieldId) :
    WithinBuffer (putLines m (fun text pieces => pieces ++ [text]) s ids []) ↔
      ∀ id ∈ ids, s.FieldFits id := by
  unfold putLines
  rw [puts_recorder, List.nil_append]
  simp only [← linePieces_within_iff m s]
  unfold WithinBuffer
  simp only [List.mem_flatMap]
  exact ⟨fun h id hid piece hp => h piece ⟨id, hid, hp⟩, fun h piece ⟨id, hid, hp⟩ => h id hid piece hp⟩

end Lines

/-- **Numbers and their buffer.** The writers stay within the buffer exactly when the numbers that they
write fit. -/
theorem written_within_buffer_iff (m : Machine) (s : Store) (nowUs : ℕ) :
    (∀ q, WithinBuffer (ValueWriter.recorder.writeReal m (.fin q) []).2 ↔ Fits q) ∧
      (∀ id, WithinBuffer (s.writeValue m id.entry.name .recorder []).2 ↔ s.FieldFits id) ∧
      (∀ id, WithinBuffer (s.writeValueLine m id .recorder []).2 ↔ s.FieldFits id) ∧
      (WithinBuffer (s.emitChangedWatches m .recorder []).2 ↔
        ∀ id ∈ changedIds s, s.FieldFits id) ∧
      (WithinBuffer (s.emitDueWatches m nowUs .recorder []).2 ↔
        ∀ id ∈ dueIds nowUs s, s.FieldFits id) := by
  refine ⟨fun q => ?_, fun id => ?_, fun id => ?_, ?_, ?_⟩
  · show WithinBuffer [realText m (.fin q)] ↔ _
    have h := realText_length_le_iff m (.fin q)
    simpa [WithinBuffer] using h
  · unfold ValueWriter.recorder
    rw [writeValue_reliable, ← valuePieces_within_iff m]
    cases valuePieces m s id with
    | none => simp [WithinBuffer]
    | some ts => simp [puts_recorder]
  · unfold ValueWriter.recorder
    rw [writeValueLine_reliable, ← linePieces_within_iff m, puts_recorder, List.nil_append]
  · unfold ValueWriter.recorder
    rw [emitChangedWatches_reliable]
    exact putLines_within_iff m s _
  · unfold ValueWriter.recorder
    rw [emitDueWatches_reliable]
    exact putLines_within_iff m s _

/-- The assignment of `2 ^ 100` is taken, and its line reads past the buffer. -/
theorem assigned_number_exceeds_buffer :
    let s := (Server.handleLine default
      (lit "ap.heading_command=1267650600228229401496703205376") 0 .recorder
      (Server.create default {} {}) []).2.1
    s.readReal .apHeadingCommand = some (.fin (2 ^ 100)) ∧
      ¬ WithinBuffer (ValueWriter.recorder.writeReal default (.fin (2 ^ 100)) []).2 ∧
      ¬ WithinBuffer (s.writeValueLine default .apHeadingCommand .recorder []).2 := by
  intro s
  have hread : s.readReal .apHeadingCommand = some (.fin (2 ^ 100)) := by decide +kernel
  have hlong : ¬ Fits (2 ^ 100) := by decide +kernel
  refine ⟨hread, fun h => ?_, fun h => ?_⟩
  · have hlen := h (realText default (.fin (2 ^ 100))) (List.mem_singleton.mpr rfl)
    exact hlong ((realText_length_le_iff default _).mp hlen _ rfl)
  · unfold ValueWriter.recorder at h
    rw [writeValueLine_reliable, puts_recorder, List.nil_append, linePieces_within_iff] at h
    exact hlong (h _ hread)

end Pypilot
