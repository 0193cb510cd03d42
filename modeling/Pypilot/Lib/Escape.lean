import Mathlib.Data.List.Basic
import Mathlib.Data.List.Infix
import Mathlib.Tactic.Common

/-!
# Escaping

Strings in which special letters are replaced by a mark and a code letter. Escaping makes a string
longer unless it has nothing special; a string that begins its own escaped form continues in marks.
-/

/-- A mark, the letters that need it, and what stands behind it for them. The mark itself is escaped,
by itself. -/
structure Escaper (α : Type*) where
  mark : α
  special : α → Bool
  code : α → α
  special_mark : special mark = true
  code_mark : code mark = mark

namespace Escaper

variable {α : Type*} (e : Escaper α)

def escape (c : α) : List α := if e.special c then [e.mark, e.code c] else [c]

def escapeAll (s : List α) : List α := s.flatMap e.escape

@[simp] theorem escapeAll_nil : e.escapeAll [] = [] := rfl

theorem escapeAll_cons (c : α) (s : List α) :
    e.escapeAll (c :: s) = e.escape c ++ e.escapeAll s := List.flatMap_cons

theorem escape_special {c : α} (hc : e.special c = true) : e.escape c = [e.mark, e.code c] :=
  if_pos hc

theorem escape_plain {c : α} (hc : e.special c = false) : e.escape c = [c] :=
  if_neg (by simp [hc])

/-! ## Lengths -/

theorem escapeAll_length (s : List α) :
    (e.escapeAll s).length = s.length + (s.filter e.special).length := by
  induction s with
  | nil => rfl
  | cons c s ih =>
    rw [escapeAll_cons, List.length_append, ih]
    by_cases hc : e.special c = true
    · rw [e.escape_special hc, List.filter_cons_of_pos hc]
      simp only [List.length_cons, List.length_nil]
      omega
    · rw [e.escape_plain (by simpa using hc), List.filter_cons_of_neg hc]
      simp only [List.length_cons, List.length_nil]
      omega

theorem escapeAll_eq_self {s : List α} (h : ∀ c ∈ s, e.special c = false) : e.escapeAll s = s := by
  induction s with
  | nil => rfl
  | cons c s ih =>
    rw [escapeAll_cons, e.escape_plain (h c List.mem_cons_self),
      ih fun d hd => h d (List.mem_cons_of_mem _ hd), List.singleton_append]

/-- Escaping leaves exactly the strings alone that have nothing special. -/
theorem escapeAll_eq_self_iff (s : List α) :
    e.escapeAll s = s ↔ ∀ c ∈ s, e.special c = false := by
  refine ⟨fun h c hc => ?_, e.escapeAll_eq_self⟩
  have hlen := e.escapeAll_length s
  rw [h] at hlen
  have hnone : s.filter e.special = [] := List.length_eq_zero_iff.mp (by omega)
  simpa using List.filter_eq_nil_iff.mp hnone c hc

/-- An escaped form without marks is the string itself. -/
theorem escapeAll_eq_self_of_mark_notMem {s : List α} (h : e.mark ∉ e.escapeAll s) :
    e.escapeAll s = s := by
  apply e.escapeAll_eq_self
  intro c hc
  by_contra hspecial
  apply h
  refine List.mem_flatMap.mpr ⟨c, hc, ?_⟩
  rw [e.escape_special (by simpa using hspecial)]
  exact List.mem_cons_self

/-! ## Strings that begin their escaped form -/

/-- Behind a string that begins its own escaped form there are only marks. The induction puts the marks
in front that the escaped form is ahead of the string. -/
theorem eq_mark_of_prefix {s : List α} {n : ℕ}
    (h : s <+: List.replicate n e.mark ++ e.escapeAll s) :
    ∀ c ∈ (List.replicate n e.mark ++ e.escapeAll s).drop s.length, c = e.mark := by
  induction s generalizing n with
  | nil =>
    intro c hc
    rw [escapeAll_nil, List.append_nil, List.length_nil, List.drop_zero] at hc
    exact List.eq_of_mem_replicate hc
  | cons x s ih =>
    cases n with
    | zero =>
      rw [List.replicate_zero, List.nil_append, escapeAll_cons] at h ⊢
      by_cases hx : e.special x = true
      · rw [e.escape_special hx] at h ⊢
        obtain ⟨hmark, h⟩ := List.cons_prefix_cons.mp h
        rw [hmark, e.code_mark] at h ⊢
        exact ih (n := 1) h
      · rw [e.escape_plain (by simpa using hx)] at h ⊢
        exact ih (n := 0) (List.cons_prefix_cons.mp h).2
    | succ n =>
      rw [List.replicate_succ, List.cons_append, escapeAll_cons] at h ⊢
      obtain ⟨hmark, h⟩ := List.cons_prefix_cons.mp h
      have htwo : List.replicate n e.mark ++ (e.escape x ++ e.escapeAll s) =
          List.replicate (n + 2) e.mark ++ e.escapeAll s := by
        rw [hmark, e.escape_special e.special_mark, e.code_mark, List.replicate_add,
          List.append_assoc]
        rfl
      rw [htwo] at h
      rw [List.length_cons, List.drop_succ_cons, htwo]
      exact ih h

/-! ## Letters that stand for themselves -/

/-- A special letter whose code is the letter itself. -/
def Fixed (c : α) : Prop := e.special c = true ∧ e.code c = c

theorem fixed_mark : e.Fixed e.mark := ⟨e.special_mark, e.code_mark⟩

theorem escape_fixed {c : α} (hc : e.Fixed c) : e.escape c = [e.mark, c] := by
  rw [e.escape_special hc.1, hc.2]

/-- A string that begins with fixed letters and goes on as its own escaped form has no others. -/
theorem fixed_of_prefix {s q : List α} (hq : q ≠ []) (hfixed : ∀ c ∈ q, e.Fixed c)
    (h : s <+: q ++ e.escapeAll s) : ∀ c ∈ s, e.Fixed c := by
  induction s generalizing q with
  | nil => simp
  | cons x s ih =>
    cases q with
    | nil => exact absurd rfl hq
    | cons y q =>
      rw [List.cons_append] at h
      obtain ⟨hxy, h⟩ := List.cons_prefix_cons.mp h
      have hx : e.Fixed x := hxy ▸ hfixed y List.mem_cons_self
      rw [escapeAll_cons, e.escape_fixed hx, ← List.append_assoc] at h
      have hs := ih (q := q ++ [e.mark, x]) (by simp) (fun c hc => ?_) h
      · intro c hc
        rcases List.mem_cons.mp hc with rfl | hc
        · exact hx
        · exact hs c hc
      · rcases List.mem_append.mp hc with hc | hc
        · exact hfixed c (List.mem_cons_of_mem _ hc)
        · rcases List.mem_pair.mp hc with rfl | rfl
          · exact e.fixed_mark
          · exact hx

theorem fixed_of_mem_escapeAll {s : List α} (hs : ∀ c ∈ s, e.Fixed c) :
    ∀ c ∈ e.escapeAll s, e.Fixed c := by
  intro c hc
  obtain ⟨x, hx, hc⟩ := List.mem_flatMap.mp hc
  rw [e.escape_fixed (hs x hx)] at hc
  rcases List.mem_pair.mp hc with rfl | rfl
  · exact e.fixed_mark
  · exact hs _ hx

/-- The escaped form of a string of fixed letters has them at its odd places. -/
theorem getElem?_escapeAll {s : List α} (hs : ∀ c ∈ s, e.Fixed c) (k : ℕ) :
    (e.escapeAll s)[2 * k + 1]? = s[k]? := by
  induction s generalizing k with
  | nil => rfl
  | cons x s ih =>
    rw [escapeAll_cons, e.escape_fixed (hs x List.mem_cons_self)]
    cases k with
    | zero => rfl
    | succ k => exact ih (fun c hc => hs c (List.mem_cons_of_mem _ hc)) k

end Escaper
