import Mathlib.Data.List.Flatten
import Mathlib.Tactic.Common

/-!
# Streams of lines

A stream as a concatenation of whole pieces, with or without a piece still open at its end, and
the lines that a delimiter cuts out of a stream.
-/

namespace Lines

variable {α : Type*}

/-! ## Whole pieces -/

/-- `s` is a concatenation of pieces that satisfy `P`. -/
def Concat (P : List α → Prop) (s : List α) : Prop :=
  ∃ ls : List (List α), (∀ l ∈ ls, P l) ∧ s = ls.flatten

theorem concat_nil (P : List α → Prop) : Concat P [] := ⟨[], by simp, rfl⟩

theorem concat_single {P : List α → Prop} {l : List α} (h : P l) : Concat P l :=
  ⟨[l], by simpa using h, by simp⟩

theorem Concat.append {P : List α → Prop} {s t : List α} (hs : Concat P s) (ht : Concat P t) :
    Concat P (s ++ t) := by
  obtain ⟨ls, hls, rfl⟩ := hs
  obtain ⟨ms, hms, rfl⟩ := ht
  refine ⟨ls ++ ms, fun l hl => ?_, by rw [List.flatten_append]⟩
  rcases List.mem_append.mp hl with h | h
  · exact hls l h
  · exact hms l h

/-- A concatenation of pieces that all end with `d` ends with `d`. -/
theorem Concat.getLast {P : List α → Prop} {d : α} (hP : ∀ l, P l → l.getLast? = some d)
    {s : List α} (hs : Concat P s) : s = [] ∨ s.getLast? = some d := by
  obtain ⟨ls, hls, rfl⟩ := hs
  rcases List.eq_nil_or_concat ls with rfl | ⟨ms, l, rfl⟩
  · exact .inl rfl
  · have hl := hP l (hls l (by simp))
    refine .inr ?_
    rw [List.concat_eq_append, List.flatten_append, List.flatten_singleton, List.getLast?_append, hl]
    rfl

/-- `s` is a concatenation of pieces that satisfy `P`, the last of which may be cut short. -/
def OpenConcat (P : List α → Prop) (s : List α) : Prop :=
  ∃ whole part, Concat P whole ∧ (part = [] ∨ ∃ l, P l ∧ part <+: l) ∧ s = whole ++ part

theorem Concat.open {P : List α → Prop} {s : List α} (hs : Concat P s) : OpenConcat P s :=
  ⟨s, [], hs, .inl rfl, (List.append_nil s).symm⟩

/-- A piece cut short. -/
theorem openConcat_part {P : List α → Prop} {part l : List α} (hl : P l) (h : part <+: l) :
    OpenConcat P part :=
  ⟨[], part, concat_nil P, .inr ⟨l, hl, h⟩, rfl⟩

/-- A whole piece in front. -/
theorem OpenConcat.cons {P : List α → Prop} {l s : List α} (hl : P l) (hs : OpenConcat P s) :
    OpenConcat P (l ++ s) := by
  obtain ⟨whole, part, hwhole, hpart, rfl⟩ := hs
  exact ⟨l ++ whole, part, (concat_single hl).append hwhole, hpart, by rw [List.append_assoc]⟩

/-- A stream of pieces begins with one of them, as far as it goes. -/
theorem OpenConcat.head {P : List α → Prop} {s : List α} (hs : OpenConcat P s) :
    s = [] ∨ ∃ l, P l ∧ l ≠ [] ∧ (l <+: s ∨ s <+: l) := by
  obtain ⟨whole, part, ⟨ls, hls, rfl⟩, hpart, rfl⟩ := hs
  induction ls with
  | nil =>
    rw [List.flatten_nil, List.nil_append]
    rcases hpart with rfl | ⟨l, hl, hpre⟩
    · exact .inl rfl
    · by_cases hnil : l = []
      · exact .inl (List.prefix_nil.mp (hnil ▸ hpre))
      · exact .inr ⟨l, hl, hnil, .inr hpre⟩
  | cons l ls ih =>
    by_cases hnil : l = []
    · rw [hnil, List.flatten_cons, List.nil_append]
      exact ih fun l hl => hls l (List.mem_cons_of_mem _ hl)
    · refine .inr ⟨l, hls l List.mem_cons_self, hnil, .inl ?_⟩
      rw [List.flatten_cons, List.append_assoc]
      exact List.prefix_append _ _

/-! ## Lines of a stream -/

section Delimiter

variable (d : α)

/-- The lines `ls`, each with its delimiter. -/
def joined (ls : List (List α)) : List α := (ls.map fun l => l ++ [d]).flatten

theorem joined_cons (l : List α) (ls : List (List α)) :
    joined d (l :: ls) = l ++ d :: joined d ls := by
  simp [joined]

variable {d} in
/-- A stream of lines that holds no delimiter is empty. -/
theorem eq_nil_of_joined {ls : List (List α)} (h : d ∉ joined d ls) : ls = [] := by
  cases ls with
  | nil => rfl
  | cons l ls =>
    rw [joined_cons] at h
    exact absurd (List.mem_append_right l List.mem_cons_self) h

variable {d} in
/-- A stream is cut at its first delimiter in one way. -/
theorem front_unique {a l s t : List α} (ha : d ∉ a) (hl : d ∉ l) (h : a ++ d :: s = l ++ d :: t) :
    a = l ∧ s = t := by
  induction a generalizing l with
  | nil =>
    cases l with
    | nil => exact ⟨rfl, (List.cons.inj h).2⟩
    | cons c l => exact absurd (List.cons.inj h).1 (List.ne_of_not_mem_cons hl)
  | cons b a ih =>
    cases l with
    | nil => exact absurd (List.cons.inj h).1.symm (List.ne_of_not_mem_cons ha)
    | cons c l =>
      obtain ⟨rfl, htail⟩ := List.cons.inj h
      rw [List.mem_cons, not_or] at ha hl
      obtain ⟨rfl, rfl⟩ := ih ha.2 hl.2 htail
      exact ⟨rfl, rfl⟩

variable [DecidableEq α]

/-- The lines that the delimiter `d` ends in the stream `s`, which begins in the middle of a line
of which `acc` has been read. -/
def complete (acc : List α) : List α → List (List α)
  | [] => []
  | c :: s => if c = d then acc :: complete [] s else complete (acc ++ [c]) s

@[simp] theorem complete_delimiter (acc s : List α) :
    complete d acc (d :: s) = acc :: complete d [] s := if_pos rfl

theorem complete_cons {c : α} (hc : c ≠ d) (acc s : List α) :
    complete d acc (c :: s) = complete d (acc ++ [c]) s := if_neg hc

/-- What the stream has of the line that it does not end. -/
def unended (acc : List α) : List α → List α
  | [] => acc
  | c :: s => if c = d then unended [] s else unended (acc ++ [c]) s

@[simp] theorem unended_delimiter (acc s : List α) : unended d acc (d :: s) = unended d [] s :=
  if_pos rfl

theorem unended_cons {c : α} (hc : c ≠ d) (acc s : List α) :
    unended d acc (c :: s) = unended d (acc ++ [c]) s := if_neg hc

theorem complete_append (acc s t : List α) :
    complete d acc (s ++ t) = complete d acc s ++ complete d (unended d acc s) t := by
  induction s generalizing acc with
  | nil => rfl
  | cons c s ih =>
    by_cases hc : c = d
    · subst hc
      simp [ih]
    · simp [complete_cons d hc, unended_cons d hc, ih]

theorem unended_append (acc s t : List α) :
    unended d acc (s ++ t) = unended d (unended d acc s) t := by
  induction s generalizing acc with
  | nil => rfl
  | cons c s ih =>
    by_cases hc : c = d
    · subst hc
      simp [ih]
    · simp [unended_cons d hc, ih]

/-- One more element ends the line under way, or makes it longer. -/
theorem complete_concat (acc s : List α) (c : α) :
    complete d acc (s ++ [c]) = complete d acc s ++ if c = d then [unended d acc s] else [] := by
  rw [complete_append]
  rfl

theorem unended_concat (acc s : List α) (c : α) :
    unended d acc (s ++ [c]) = if c = d then [] else unended d acc s ++ [c] := by
  rw [unended_append]
  rfl

/-- The lines with their delimiters and the line that is not ended make up the stream. -/
theorem joined_complete (acc s : List α) :
    joined d (complete d acc s) ++ unended d acc s = acc ++ s := by
  induction s generalizing acc with
  | nil => simp [complete, unended, joined]
  | cons c s ih =>
    by_cases hc : c = d
    · subst hc
      rw [complete_delimiter, unended_delimiter, joined_cons, List.append_assoc, List.cons_append, ih]
      rfl
    · rw [complete_cons d hc, unended_cons d hc, ih, List.append_assoc]
      rfl

variable {d}

/-- A part of a stream of lines ends the first lines of the stream, and what follows is the rest of the
others. -/
theorem complete_of_joined {ls : List (List α)} (hls : ∀ l ∈ ls, d ∉ l) {acc part rest : List α}
    (hacc : d ∉ acc) (h : acc ++ (part ++ rest) = joined d ls) :
    ∃ k ≤ ls.length, complete d acc part = ls.take k ∧ d ∉ unended d acc part ∧
      unended d acc part ++ rest = joined d (ls.drop k) := by
  -- the line under way is the front of the first line left
  induction part generalizing acc ls with
  | nil => exact ⟨0, Nat.zero_le _, rfl, hacc, h⟩
  | cons c part ih =>
    by_cases hc : c = d
    · subst hc
      rw [complete_delimiter, unended_delimiter]
      cases ls with
      | nil =>
        rw [List.cons_append] at h
        exact absurd h (by simp [joined])
      | cons l ls =>
        rw [joined_cons, List.cons_append] at h
        obtain ⟨hl, hrest⟩ := List.forall_mem_cons.mp hls
        obtain ⟨rfl, htail⟩ := front_unique hacc hl h
        obtain ⟨k, hk, hcomplete, hnot, hopen⟩ := ih hrest List.not_mem_nil htail
        refine ⟨k + 1, Nat.succ_le_succ hk, ?_, hnot, hopen⟩
        rw [hcomplete, List.take_succ_cons]
    · rw [complete_cons d hc, unended_cons d hc]
      refine ih hls ?_ (by simpa using h)
      rw [List.mem_append, List.mem_singleton, not_or]
      exact ⟨hacc, fun h => hc h.symm⟩

end Delimiter

end Lines
