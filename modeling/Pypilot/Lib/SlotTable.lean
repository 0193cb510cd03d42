import Mathlib.Data.Vector.Basic
import Mathlib.Data.Vector.Mem
import Mathlib.Tactic.Common

/-!
# Tables of slots

Fixed arrays searched from the front: the first slot that satisfies a test is changed. A table whose
slots in use come first is a queue; any other change is a pass over all slots.
-/

namespace SlotTable

open scoped List

variable {α β : Type*} {p : α → Bool} {f : α → α}

/-- The slots with the first one that satisfies `p` changed by `f`. -/
def updateFirst (p : α → Bool) (f : α → α) : List α → List α
  | [] => []
  | x :: l => if p x then f x :: l else x :: updateFirst p f l

@[simp] theorem updateFirst_length (l : List α) : (updateFirst p f l).length = l.length := by
  induction l with
  | nil => rfl
  | cons x l ih => unfold updateFirst; split_ifs <;> simp [ih]

theorem updateFirst_append_left {l : List α} (h : l.any p = true) (r : List α) :
    updateFirst p f (l ++ r) = updateFirst p f l ++ r := by
  induction l with
  | nil => simp at h
  | cons x l ih =>
    rw [List.cons_append, updateFirst, updateFirst]
    split_ifs with hx
    · rfl
    · rw [ih (by simpa [hx] using h), List.cons_append]

theorem updateFirst_append_right {l : List α} (h : l.any p = false) (r : List α) :
    updateFirst p f (l ++ r) = l ++ updateFirst p f r := by
  induction l with
  | nil => rfl
  | cons x l ih =>
    rw [List.any_cons, Bool.or_eq_false_iff] at h
    rw [List.cons_append, updateFirst, h.1, if_neg Bool.false_ne_true, ih h.2, List.cons_append]

theorem updateFirst_eq_self {l : List α} (h : l.any p = false) : updateFirst p f l = l := by
  have hr := updateFirst_append_right (f := f) h []
  rwa [List.append_nil, updateFirst, List.append_nil] at hr

/-- The slots of one table kept in another form. -/
theorem updateFirst_map {g : α → β} {q : β → Bool} {k : β → β} (hk : ∀ x, k (g x) = g (f x))
    (l : List α) :
    updateFirst q k (l.map g) = (updateFirst (fun x => q (g x)) f l).map g := by
  induction l with
  | nil => rfl
  | cons x l ih =>
    rw [List.map_cons, updateFirst, updateFirst]
    split_ifs
    · rw [hk, List.map_cons]
    · rw [ih, List.map_cons]

/-! ## Slots in use -/

section InUse

variable {active : α → Bool}

/-- The slots in use come before all others. -/
def Packed (active : α → Bool) (l : List α) : Prop :=
  ∀ x ∈ l.dropWhile active, active x = false

instance (l : List α) : Decidable (Packed active l) := inferInstanceAs (Decidable (∀ _ ∈ _, _))

theorem packed_cons_active {x : α} (hx : active x = true) {l : List α} :
    Packed active (x :: l) ↔ Packed active l := by
  rw [Packed, List.dropWhile_cons_of_pos hx, Packed]

theorem packed_cons_free {x : α} (hx : active x = false) {l : List α} :
    Packed active (x :: l) ↔ l.filter active = [] := by
  rw [Packed, List.dropWhile_cons_of_neg (by simp [hx]), List.filter_eq_nil_iff]
  simp [hx]

/-- A packed table is the slots in use followed by the others. -/
theorem filter_append_filter_of_packed {l : List α} (h : Packed active l) :
    l.filter active ++ l.filter (fun x => !active x) = l := by
  induction l with
  | nil => rfl
  | cons x l ih =>
    by_cases hx : active x = true
    · simp [hx, ih ((packed_cons_active hx).mp h)]
    · have hx' : active x = false := by simpa using hx
      have hnone := (packed_cons_free hx').mp h
      have hall : l.filter (fun x => !active x) = l :=
        List.filter_eq_self.mpr (by simpa using List.filter_eq_nil_iff.mp hnone)
      simp [hx', hnone, hall]

/-- In a packed table the first free slot is behind all slots in use. -/
theorem filter_updateFirst_free {y : α} (hy : active y = true) {l : List α}
    (hl : Packed active l) (hfree : l.any (fun x => !active x) = true) :
    (updateFirst (fun x => !active x) (fun _ => y) l).filter active = l.filter active ++ [y] := by
  induction l with
  | nil => simp at hfree
  | cons x l ih =>
    by_cases hx : active x = true
    · have hl' := (packed_cons_active hx).mp hl
      have hfree' : l.any (fun x => !active x) = true := by simpa [hx] using hfree
      simp [updateFirst, hx, ih hl' hfree']
    · have hx' : active x = false := by simpa using hx
      have hl' := (packed_cons_free hx').mp hl
      simp [updateFirst, hx', hy, hl']

theorem packed_of_filter_eq_nil {l : List α} (h : l.filter active = []) : Packed active l :=
  fun z hz => by
    simpa using List.filter_eq_nil_iff.mp h z ((List.dropWhile_sublist active).subset hz)

/-- A packed table stays packed when its first free slot is taken. -/
theorem Packed.updateFirst_free {y : α} (hy : active y = true) {l : List α} (hl : Packed active l) :
    Packed active (updateFirst (fun x => !active x) (fun _ => y) l) := by
  induction l with
  | nil => exact hl
  | cons x l ih =>
    by_cases hx : active x = true
    · rw [updateFirst, if_neg (by simp [hx]), packed_cons_active hx]
      exact ih ((packed_cons_active hx).mp hl)
    · have hx' : active x = false := by simpa using hx
      have hnone := (packed_cons_free hx').mp hl
      rw [updateFirst, if_pos (by simp [hx']), packed_cons_active hy]
      exact packed_of_filter_eq_nil hnone

/-- There is a free slot when fewer than all are in use. -/
theorem any_free_iff (l : List α) :
    (l.any fun x => !active x) = true ↔ (l.filter active).length < l.length := by
  rw [List.length_filter_lt_length_iff_exists, List.any_eq_true]
  simp

/-- Whatever the order, a free slot taken is one more in use. -/
theorem filter_updateFirst_free_perm {y : α} (hy : active y = true) {l : List α}
    (hfree : l.any (fun x => !active x) = true) :
    (updateFirst (fun x => !active x) (fun _ => y) l).filter active ~ y :: l.filter active := by
  induction l with
  | nil => simp at hfree
  | cons x l ih =>
    by_cases hx : active x = true
    · have hfree' : l.any (fun x => !active x) = true := by simpa [hx] using hfree
      simp only [updateFirst, hx, Bool.not_true, Bool.false_eq_true, if_false,
        List.filter_cons_of_pos]
      exact ((ih hfree').cons x).trans (List.Perm.swap y x _)
    · simp [updateFirst, hx, hy]

/-- Freeing the first slot in use. -/
theorem filter_updateFirst_active {y : α} (hy : active y = false) (l : List α) :
    (updateFirst active (fun _ => y) l).filter active = (l.filter active).tail := by
  induction l with
  | nil => rfl
  | cons x l ih =>
    by_cases hx : active x = true
    · simp [updateFirst, hx, hy]
    · simp [updateFirst, hx, ih]

end InUse

theorem mem_updateFirst {l : List α} {y : α} (h : y ∈ updateFirst p f l) :
    y ∈ l ∨ ∃ x ∈ l, p x = true ∧ y = f x := by
  induction l with
  | nil => exact absurd h List.not_mem_nil
  | cons x l ih =>
    unfold updateFirst at h
    split_ifs at h with hx
    · rcases List.mem_cons.mp h with rfl | h
      · exact .inr ⟨x, List.mem_cons_self, hx, rfl⟩
      · exact .inl (List.mem_cons_of_mem _ h)
    · rcases List.mem_cons.mp h with rfl | h
      · exact .inl List.mem_cons_self
      · rcases ih h with h | ⟨z, hz, hpz, rfl⟩
        · exact .inl (List.mem_cons_of_mem _ h)
        · exact .inr ⟨z, List.mem_cons_of_mem _ hz, hpz, rfl⟩

/-! ## Tables of fixed size -/

/-- `updateFirst` on a table of fixed size. -/
def update {n : ℕ} (p : α → Bool) (f : α → α) (t : List.Vector α n) : List.Vector α n :=
  ⟨updateFirst p f t.toList, by rw [updateFirst_length, t.toList_length]⟩

@[simp] theorem update_toList {n : ℕ} (t : List.Vector α n) :
    (update p f t).toList = updateFirst p f t.toList := rfl

theorem exists_mem_toList {n : ℕ} {Q : α → Prop} {t : List.Vector α n} :
    (∃ x ∈ t.toList, Q x) ↔ ∃ i, Q (t.get i) := by
  constructor
  · rintro ⟨x, hx, hQ⟩
    obtain ⟨i, hi, rfl⟩ := List.getElem_of_mem hx
    exact ⟨⟨i, by simpa using hi⟩, hQ⟩
  · rintro ⟨i, hQ⟩
    exact ⟨_, List.getElem_mem _, hQ⟩

theorem any_toList {n : ℕ} {t : List.Vector α n} :
    t.toList.any p = true ↔ ∃ i, p (t.get i) = true := by
  rw [List.any_eq_true]
  exact exists_mem_toList

/-- An update changes the first element that satisfies the test, or finds none. -/
theorem updateFirst_cases (p : α → Bool) (f : α → α) (l : List α) :
    (∃ (i : ℕ) (hi : i < l.length), p l[i] = true ∧
        (∀ (j : ℕ) (hj : j < i), p (l.get ⟨j, hj.trans hi⟩) = false) ∧
        updateFirst p f l = l.set i (f l[i])) ∨
      (∀ x ∈ l, p x = false) ∧ updateFirst p f l = l := by
  induction l with
  | nil => exact .inr ⟨by simp, rfl⟩
  | cons x l ih =>
    by_cases hx : p x = true
    · refine .inl ⟨0, Nat.succ_pos _, hx, fun j hj => absurd hj (Nat.not_lt_zero j), ?_⟩
      exact if_pos hx
    · have hx' : p x = false := by simpa using hx
      have hcons : updateFirst p f (x :: l) = x :: updateFirst p f l := if_neg hx
      rcases ih with ⟨i, hi, hp, hbefore, heq⟩ | ⟨hnone, heq⟩
      · refine .inl ⟨i + 1, Nat.succ_lt_succ hi, hp, fun j hj => ?_, ?_⟩
        · cases j with
          | zero => exact hx'
          | succ j => exact hbefore j (Nat.lt_of_succ_lt_succ hj)
        · rw [hcons, heq]
          rfl
      · refine .inr ⟨List.forall_mem_cons.mpr ⟨hx', hnone⟩, ?_⟩
        rw [hcons, heq]

theorem update_cases {n : ℕ} (p : α → Bool) (f : α → α) (t : List.Vector α n) :
    (∃ i, p (t.get i) = true ∧ (∀ j < i, p (t.get j) = false) ∧
        update p f t = t.set i (f (t.get i))) ∨
      (∀ i, p (t.get i) = false) ∧ update p f t = t := by
  rcases updateFirst_cases p f t.toList with ⟨i, hi, hp, hbefore, heq⟩ | ⟨hnone, heq⟩
  · refine .inl ⟨⟨i, by simpa using hi⟩, hp, fun j hj => hbefore j hj, ?_⟩
    refine List.Vector.toList_injective ?_
    rw [update_toList, heq, List.Vector.toList_set]
    rfl
  · refine .inr ⟨fun i => hnone _ (List.getElem_mem _), List.Vector.toList_injective ?_⟩
    rw [update_toList, heq]

/-- An update that finds an element changes it. -/
theorem update_of_any {n : ℕ} {p : α → Bool} {t : List.Vector α n} (h : t.toList.any p = true)
    (f : α → α) : ∃ i, p (t.get i) = true ∧ update p f t = t.set i (f (t.get i)) := by
  rcases update_cases p f t with ⟨i, hi, -, heq⟩ | ⟨hnone, -⟩
  · exact ⟨i, hi, heq⟩
  · obtain ⟨i, hi⟩ := any_toList.mp h
    exact absurd (hi.symm.trans (hnone i)) (by decide)

theorem forall_of_not_any {n : ℕ} {p : α → Bool} {t : List.Vector α n}
    (h : ¬ t.toList.any p = true) (i : Fin n) : p (t.get i) = false := by
  by_contra hi
  exact h (any_toList.mpr ⟨i, by simpa using hi⟩)

/-- What is put into a slot that already holds it, or else into a free one, changes one slot, or does not fit. -/
theorem put_cases {n : ℕ} (held free : α → Bool) (f g : α → α) (t : List.Vector α n) :
    (∃ i, held (t.get i) = true ∧
        (if t.toList.any held then update held f t else update free g t) = t.set i (f (t.get i))) ∨
      (∀ i, held (t.get i) = false) ∧
        ((∃ i, free (t.get i) = true ∧
            (if t.toList.any held then update held f t else update free g t) =
              t.set i (g (t.get i))) ∨
          (∀ i, free (t.get i) = false) ∧
            (if t.toList.any held then update held f t else update free g t) = t) := by
  by_cases hheld : t.toList.any held = true
  · rw [if_pos hheld]
    exact .inl (update_of_any hheld f)
  · rw [if_neg hheld]
    refine .inr ⟨forall_of_not_any hheld, ?_⟩
    rcases update_cases free g t with ⟨i, hi, -, heq⟩ | ⟨hfull, heq⟩
    · exact .inl ⟨i, hi, heq⟩
    · exact .inr ⟨hfull, heq⟩

/-- A slot of the table with a new slot is the new one or another one. -/
theorem exists_get_set {n : ℕ} {Q : α → Prop} {t : List.Vector α n} {i : Fin n} {x : α} :
    (∃ j, Q ((t.set i x).get j)) ↔ Q x ∨ ∃ j, j ≠ i ∧ Q (t.get j) := by
  constructor
  · rintro ⟨j, hj⟩
    by_cases hij : i = j
    · subst hij
      rw [List.Vector.get_set_same] at hj
      exact .inl hj
    · rw [List.Vector.get_set_of_ne hij] at hj
      exact .inr ⟨j, Ne.symm hij, hj⟩
  · rintro (hx | ⟨j, hij, hj⟩)
    · exact ⟨i, by rw [List.Vector.get_set_same]; exact hx⟩
    · exact ⟨j, by rw [List.Vector.get_set_of_ne (Ne.symm hij)]; exact hj⟩

/-- What holds of a new slot and of all other slots holds of the table with the new slot. -/
theorem forall_get_set {n : ℕ} {Q : α → Prop} {t : List.Vector α n} {i : Fin n} {x : α} (hx : Q x)
    (hother : ∀ j, j ≠ i → Q (t.get j)) (j : Fin n) : Q ((t.set i x).get j) := by
  by_cases hj : i = j
  · rw [← hj, List.Vector.get_set_same]
    exact hx
  · rw [List.Vector.get_set_of_ne hj]
    exact hother j (Ne.symm hj)

/-- The slots in use have different keys. -/
def Distinct {n : ℕ} (active : α → Bool) (key : α → β) (t : List.Vector α n) : Prop :=
  ∀ i j, active (t.get i) = true → active (t.get j) = true → key (t.get i) = key (t.get j) → i = j

/-- A new slot that is not in use or has a key of its own. -/
theorem Distinct.set {n : ℕ} {active : α → Bool} {key : α → β} {t : List.Vector α n}
    (h : Distinct active key t) {i : Fin n} {x : α}
    (hx : active x = true → ∀ j, j ≠ i → active (t.get j) = true → key (t.get j) ≠ key x) :
    Distinct active key (t.set i x) := by
  intro j k hj hk hkey
  by_cases hij : i = j <;> by_cases hik : i = k
  · exact hij.symm.trans hik
  · subst hij
    rw [List.Vector.get_set_same] at hj
    rw [List.Vector.get_set_of_ne hik] at hk
    rw [List.Vector.get_set_same, List.Vector.get_set_of_ne hik] at hkey
    exact absurd hkey.symm (hx hj k (Ne.symm hik) hk)
  · subst hik
    rw [List.Vector.get_set_same] at hk
    rw [List.Vector.get_set_of_ne hij] at hj
    rw [List.Vector.get_set_same, List.Vector.get_set_of_ne hij] at hkey
    exact absurd hkey (hx hk j (Ne.symm hij) hj)
  · rw [List.Vector.get_set_of_ne hij] at hj hkey
    rw [List.Vector.get_set_of_ne hik] at hk hkey
    exact h j k hj hk hkey

/-- Slots changed all at once, that keep their keys or are freed. -/
theorem Distinct.map {n : ℕ} {active : α → Bool} {key : α → β} {t : List.Vector α n}
    (h : Distinct active key t)
    (hf : ∀ x, active (f x) = true → active x = true ∧ key (f x) = key x) :
    Distinct active key (t.map f) := by
  intro i j hi hj hkey
  rw [List.Vector.get_map] at hi hj hkey
  rw [List.Vector.get_map] at hkey
  rw [(hf _ hi).2, (hf _ hj).2] at hkey
  exact h i j (hf _ hi).1 (hf _ hj).1 hkey

theorem Distinct.nodup {n : ℕ} {active : α → Bool} {key : α → β} {t : List.Vector α n}
    (h : Distinct active key t) : ((t.toList.filter active).map key).Nodup := by
  rw [List.Nodup, List.pairwise_map, List.pairwise_filter, List.pairwise_iff_getElem]
  intro i j hi hj hij hacti hactj hkey
  have hsame := h ⟨i, by simpa using hi⟩ ⟨j, by simpa using hj⟩ hacti hactj hkey
  exact hij.ne (congrArg Fin.val hsame)

/-- Where the keys are different, the key of an element is that of no other. -/
theorem filter_key_eq [DecidableEq β] {key : α → β} {l : List α} (h : (l.map key).Nodup) {x : α}
    (hx : x ∈ l) : (l.filter fun y => decide (key y = key x)) = [x] := by
  induction l with
  | nil => exact absurd hx List.not_mem_nil
  | cons y l ih =>
    rw [List.map_cons, List.nodup_cons] at h
    rcases List.mem_cons.mp hx with rfl | hx
    · rw [List.filter_cons_of_pos (by simp), List.filter_eq_nil_iff.mpr]
      intro z hz hkey
      exact h.1 (List.mem_map.mpr ⟨z, hz, of_decide_eq_true hkey⟩)
    · rw [List.filter_cons_of_neg, ih h.2 hx]
      intro hkey
      exact h.1 (List.mem_map.mpr ⟨x, hx, (of_decide_eq_true hkey).symm⟩)

/-- The slots in use with the key of a slot in use are that slot. -/
theorem Distinct.filter_eq [DecidableEq β] {n : ℕ} {active : α → Bool} {key : α → β}
    {t : List.Vector α n} (h : Distinct active key t) {i : Fin n} (hi : active (t.get i) = true) :
    (t.toList.filter fun y => active y && decide (key y = key (t.get i))) = [t.get i] := by
  have hmem : t.get i ∈ t.toList.filter active :=
    List.mem_filter.mpr ⟨List.getElem_mem _, hi⟩
  rw [← filter_key_eq h.nodup hmem, List.filter_filter]
  simp only [Bool.and_comm]

/-! ## Tables as maps -/

section Lookup

variable [DecidableEq β] {n : ℕ} (active : α → Bool) (key : α → β)

/-- The slot in use with a key. -/
def lookup (t : List.Vector α n) (k : β) : Option α :=
  t.toList.find? fun x => active x && decide (key x = k)

variable {active key} {t : List.Vector α n} {k : β} {x : α}

theorem lookup_eq_some_iff (h : Distinct active key t) :
    lookup active key t k = some x ↔ active x = true ∧ key x = k ∧ ∃ i, t.get i = x := by
  constructor
  · intro hx
    have htest := List.find?_some hx
    rw [Bool.and_eq_true, decide_eq_true_eq] at htest
    exact ⟨htest.1, htest.2, (List.Vector.mem_iff_get _ t).mp (List.mem_of_find?_eq_some hx)⟩
  · rintro ⟨hact, rfl, i, rfl⟩
    cases hfind : lookup active key t (key (t.get i)) with
    | none =>
      have hnone := List.find?_eq_none.mp hfind (t.get i) (List.getElem_mem _)
      rw [hact, decide_eq_true rfl] at hnone
      exact absurd rfl hnone
    | some y =>
      have htest := List.find?_some hfind
      rw [Bool.and_eq_true, decide_eq_true_eq] at htest
      obtain ⟨j, rfl⟩ := (List.Vector.mem_iff_get _ t).mp (List.mem_of_find?_eq_some hfind)
      rw [h j i htest.1 hact htest.2]

theorem any_iff_lookup (h : Distinct active key t) (q : α → Bool) :
    (t.toList.any fun x => active x && decide (key x = k) && q x) = (lookup active key t k).any q := by
  rw [Bool.eq_iff_iff, any_toList, Option.any_eq_true]
  simp only [lookup_eq_some_iff h, Bool.and_eq_true, decide_eq_true_eq]
  constructor
  · rintro ⟨i, ⟨hact, hkey⟩, hq⟩
    exact ⟨t.get i, ⟨hact, hkey, i, rfl⟩, hq⟩
  · rintro ⟨x, ⟨hact, hkey, i, rfl⟩, hq⟩
    exact ⟨i, ⟨hact, hkey⟩, hq⟩

/-- A slot that is free or has the key takes the new value of the key. -/
theorem lookup_set (h : Distinct active key t) {i : Fin n} (hact : active x = true)
    (hset : Distinct active key (t.set i x))
    (hslot : active (t.get i) = true → key (t.get i) = key x) :
    lookup active key (t.set i x) k = if k = key x then some x else lookup active key t k := by
  refine Option.ext fun y => ?_
  have hget := exists_get_set (Q := fun y' => y' = y) (t := t) (i := i) (x := x)
  rw [lookup_eq_some_iff hset, hget]
  split_ifs with hk
  · subst hk
    rw [Option.some_inj]
    constructor
    · rintro ⟨hy, hkey, hxy | ⟨j, hj, rfl⟩⟩
      · exact hxy
      · have hsame := hset i j (by rw [List.Vector.get_set_same]; exact hact)
          (by rw [List.Vector.get_set_of_ne (Ne.symm hj)]; exact hy)
          (by rw [List.Vector.get_set_same, List.Vector.get_set_of_ne (Ne.symm hj), hkey])
        exact absurd hsame.symm hj
    · rintro rfl
      exact ⟨hact, rfl, .inl rfl⟩
  · rw [lookup_eq_some_iff h]
    constructor
    · rintro ⟨hy, hkey, rfl | ⟨j, -, hj⟩⟩
      · exact absurd hkey.symm hk
      · exact ⟨hy, hkey, j, hj⟩
    · rintro ⟨hy, hkey, j, rfl⟩
      refine ⟨hy, hkey, .inr ⟨j, ?_, rfl⟩⟩
      rintro rfl
      exact hk (hkey.symm.trans (hslot hy))

/-- Slots changed all at once that keep their keys. -/
theorem lookup_map {f : α → α} (hf : ∀ x, active (f x) = active x ∧ key (f x) = key x) :
    lookup active key (t.map f) k = (lookup active key t k).map f := by
  unfold lookup
  rw [List.Vector.toList_map, List.find?_map]
  congr 2
  funext x
  show (active (f x) && decide (key (f x) = k)) = _
  rw [(hf x).1, (hf x).2]

/-- The slots of a key are freed. -/
theorem lookup_map_free {f : α → α} {j : β}
    (hfree : ∀ x, active x = true → key x = j → active (f x) = false)
    (hkeep : ∀ x, ¬ (active x = true ∧ key x = j) → f x = x) :
    lookup active key (t.map f) k = if k = j then none else lookup active key t k := by
  have htest : ∀ x, (active (f x) && decide (key (f x) = k)) =
      (decide (k ≠ j) && (active x && decide (key x = k))) := by
    intro x
    by_cases hx : active x = true ∧ key x = j
    · rw [hfree x hx.1 hx.2, hx.1, hx.2, Bool.false_and, Bool.true_and]
      by_cases hk : k = j <;> simp [hk, eq_comm]
    · rw [hkeep x hx]
      by_cases hk : k = j
      · subst hk
        simpa using fun hact hkey => hx ⟨hact, hkey⟩
      · simp [hk]
  unfold lookup
  rw [List.Vector.toList_map, List.find?_map]
  split_ifs with hk
  · rw [Option.map_eq_none_iff, List.find?_eq_none]
    intro x _ hx
    have hx' := (htest x).symm.trans hx
    simp [hk] at hx'
  · have hsame : ((fun x => active x && decide (key x = k)) ∘ f) =
        fun x => active x && decide (key x = k) := by
      funext x
      exact (htest x).trans (by simp [hk])
    rw [hsame]
    cases hfind : t.toList.find? fun x => active x && decide (key x = k) with
    | none => rfl
    | some x =>
      have hx := List.find?_some hfind
      rw [Bool.and_eq_true, decide_eq_true_eq] at hx
      exact congrArg some (hkeep x fun h => hk (hx.2.symm.trans h.2))

end Lookup

/-! ## Sweeps -/

variable {σ : Type*}

/-- One pass over the slots from the front, with a state that is carried along. -/
def sweepList (f : α → σ → α × σ) : List α → σ → List α × σ
  | [], s => ([], s)
  | x :: l, s => ((f x s).1 :: (sweepList f l (f x s).2).1, (sweepList f l (f x s).2).2)

@[simp] theorem sweepList_length (f : α → σ → α × σ) (l : List α) (s : σ) :
    (sweepList f l s).1.length = l.length := by
  induction l generalizing s with
  | nil => rfl
  | cons x l ih => simp [sweepList, ih]

/-- One pass over a table of fixed size. -/
def sweep {n : ℕ} (f : α → σ → α × σ) (t : List.Vector α n) (s : σ) : List.Vector α n × σ :=
  (⟨(sweepList f t.toList s).1, by rw [sweepList_length, t.toList_length]⟩,
    (sweepList f t.toList s).2)

@[simp] theorem sweep_toList {n : ℕ} (f : α → σ → α × σ) (t : List.Vector α n) (s : σ) :
    (sweep f t s).1.toList = (sweepList f t.toList s).1 := rfl

@[simp] theorem sweep_snd {n : ℕ} (f : α → σ → α × σ) (t : List.Vector α n) (s : σ) :
    (sweep f t s).2 = (sweepList f t.toList s).2 := rfl

/-- A pass whose slots and state do not depend on each other. -/
theorem sweepList_eq {f : α → σ → α × σ} {g : α → α} {h : α → σ → σ}
    (hf : ∀ x s, f x s = (g x, h x s)) (l : List α) (s : σ) :
    sweepList f l s = (l.map g, l.foldl (fun s x => h x s) s) := by
  induction l generalizing s with
  | nil => rfl
  | cons x l ih => rw [sweepList, hf, ih]; rfl

theorem sweep_eq {n : ℕ} {f : α → σ → α × σ} {g : α → α} {h : α → σ → σ}
    (hf : ∀ x s, f x s = (g x, h x s)) (t : List.Vector α n) (s : σ) :
    sweep f t s = (t.map g, t.toList.foldl (fun s x => h x s) s) := by
  refine Prod.ext (List.Vector.toList_injective ?_) ?_
  · rw [sweep_toList, sweepList_eq hf, List.Vector.toList_map]
  · rw [sweep_snd, sweepList_eq hf]

end SlotTable
