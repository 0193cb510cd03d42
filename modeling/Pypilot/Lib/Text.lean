import Mathlib.Data.List.DropRight
import Mathlib.Tactic.Common

/-!
# Byte strings

Strings as C++ has them, as lists of bytes: literals, cutting at a separator, trimming blanks,
the part of a buffer before the terminator.
-/

/-- A `char`. -/
abbrev Byte := UInt8

/-- A `std::string`, a `std::string_view` or the used part of a `char` buffer. -/
abbrev Text := List Byte

namespace Text

/-- The byte of an ASCII character. -/
def chr (c : Char) : Byte := UInt8.ofNat c.toNat

/-- The bytes of an ASCII literal. -/
def lit (s : String) : Text := s.toList.map chr

/-! ## Cutting at a separator -/

/-- The parts before and after the first `c`, if there is one. -/
def cut (c : Byte) : Text → Option (Text × Text)
  | [] => none
  | b :: s => if b = c then some ([], s) else (cut c s).map fun p => (b :: p.1, p.2)

@[simp] theorem cut_nil (c : Byte) : cut c [] = none := rfl

@[simp] theorem cut_cons_self (c : Byte) (s : Text) : cut c (c :: s) = some ([], s) := if_pos rfl

theorem cut_cons_ne {b c : Byte} (h : b ≠ c) (s : Text) :
    cut c (b :: s) = (cut c s).map fun p => (b :: p.1, p.2) := if_neg h

theorem cut_append {c : Byte} {a : Text} (ha : c ∉ a) (s : Text) :
    cut c (a ++ c :: s) = some (a, s) := by
  induction a with
  | nil => exact cut_cons_self c s
  | cons b a ih =>
    rw [List.mem_cons, not_or] at ha
    rw [List.cons_append, cut_cons_ne (Ne.symm ha.1), ih ha.2]
    rfl

theorem cut_eq_none {c : Byte} {s : Text} (h : c ∉ s) : cut c s = none := by
  induction s with
  | nil => rfl
  | cons b s ih =>
    rw [List.mem_cons, not_or] at h
    rw [cut_cons_ne (Ne.symm h.1), ih h.2]
    rfl

/-- A cut gives the string back and takes the first separator. -/
theorem cut_eq_some {c : Byte} {s a b : Text} (h : cut c s = some (a, b)) :
    s = a ++ c :: b ∧ c ∉ a := by
  induction s generalizing a with
  | nil => simp at h
  | cons x s ih =>
    by_cases hx : x = c
    · subst hx
      rw [cut_cons_self] at h
      obtain ⟨rfl, rfl⟩ := Prod.mk.inj (Option.some.inj h)
      exact ⟨rfl, List.not_mem_nil⟩
    · rw [cut_cons_ne hx, Option.map_eq_some_iff] at h
      obtain ⟨⟨a', b'⟩, hs, h⟩ := h
      obtain ⟨rfl, rfl⟩ := Prod.mk.inj h
      obtain ⟨rfl, ha⟩ := ih hs
      exact ⟨rfl, by rw [List.mem_cons, not_or]; exact ⟨Ne.symm hx, ha⟩⟩

/-! ## Trimming -/

/-- Space, tab, carriage return and newline. -/
def isBlank (c : Byte) : Bool := c = chr ' ' || c = chr '\t' || c = chr '\r' || c = chr '\n'

/-- The string without the blanks at either end. -/
def trim (s : Text) : Text := (s.dropWhile isBlank).rdropWhile isBlank

theorem dropWhile_eq_self {p : Byte → Bool} {c : Byte} {s : Text} (h : p c = false) :
    (c :: s).dropWhile p = c :: s := by
  rw [List.dropWhile_cons_of_neg (by simp [h])]

theorem rdropWhile_eq_self {p : Byte → Bool} {c : Byte} {s : Text} (h : p c = false) :
    (s ++ [c]).rdropWhile p = s ++ [c] :=
  List.rdropWhile_concat_neg p s c (by simp [h])

/-- Trimming at the end stops at a byte that is not dropped. -/
theorem rdropWhile_append_cons {p : Byte → Bool} {b : Byte} (hb : p b = false) (s t : Text) :
    (s ++ b :: t).rdropWhile p = s ++ b :: t.rdropWhile p := by
  induction t using List.reverseRecOn with
  | nil => exact rdropWhile_eq_self hb
  | append_singleton t c ih =>
    rw [← List.cons_append, ← List.append_assoc]
    by_cases hc : p c = true
    · rw [List.rdropWhile_concat_pos p _ c hc, List.rdropWhile_concat_pos p _ c hc]
      exact ih
    · rw [List.rdropWhile_concat_neg p _ c hc, List.rdropWhile_concat_neg p _ c hc]
      simp

theorem rdropWhile_of_forall {p : Byte → Bool} {s : Text} (h : ∀ c ∈ s, p c = false) :
    s.rdropWhile p = s :=
  List.rdropWhile_eq_self_iff.mpr fun hne => by simp [h _ (List.getLast_mem hne)]

/-- What is dropped at the end does not come back. -/
theorem rdropWhile_append_of_forall {p : Byte → Bool} {b : Text} (hb : ∀ c ∈ b, p c = true)
    (s : Text) : (s ++ b).rdropWhile p = s.rdropWhile p := by
  induction b using List.reverseRecOn with
  | nil => rw [List.append_nil]
  | append_singleton b c ih =>
    rw [List.forall_mem_append] at hb
    rw [← List.append_assoc, List.rdropWhile_concat_pos p _ c (hb.2 c List.mem_cons_self), ih hb.1]

theorem exists_rdropWhile_append (p : Byte → Bool) (s : Text) :
    ∃ b, s = s.rdropWhile p ++ b ∧ ∀ c ∈ b, p c = true := by
  induction s using List.reverseRecOn with
  | nil => exact ⟨[], rfl, fun _ h => absurd h List.not_mem_nil⟩
  | append_singleton s c ih =>
    by_cases hc : p c = true
    · obtain ⟨b, hs, hb⟩ := ih
      refine ⟨b ++ [c], ?_, List.forall_mem_append.mpr ⟨hb, by simpa using hc⟩⟩
      rw [List.rdropWhile_concat_pos p _ c hc, ← List.append_assoc, ← hs]
    · refine ⟨[], ?_, fun _ h => absurd h List.not_mem_nil⟩
      rw [List.rdropWhile_concat_neg p _ c hc, List.append_nil]

/-- Blanks around a string do not matter. -/
theorem trim_append_blanks {a b : Text} (ha : ∀ c ∈ a, isBlank c = true)
    (hb : ∀ c ∈ b, isBlank c = true) (s : Text) : trim (a ++ (s ++ b)) = trim s := by
  unfold trim
  rw [List.dropWhile_append_of_pos ha, List.dropWhile_append]
  split_ifs with hempty
  · rw [List.dropWhile_eq_nil_iff.mpr hb, List.isEmpty_iff.mp hempty]
  · exact rdropWhile_append_of_forall hb _

theorem trim_blanks_append {a : Text} (ha : ∀ c ∈ a, isBlank c = true) (s : Text) :
    trim (a ++ s) = trim s := by
  have h := trim_append_blanks ha (b := []) (fun _ h => absurd h List.not_mem_nil) s
  rwa [List.append_nil] at h

theorem trim_append_of_blank {b : Text} (hb : ∀ c ∈ b, isBlank c = true) (s : Text) :
    trim (s ++ b) = trim s :=
  trim_append_blanks (a := []) (fun _ h => absurd h List.not_mem_nil) hb s

theorem trim_rdropWhile (s : Text) : trim (s.rdropWhile isBlank) = trim s := by
  obtain ⟨b, hs, hb⟩ := exists_rdropWhile_append isBlank s
  have htrim := trim_append_of_blank hb (s.rdropWhile isBlank)
  rw [← hs] at htrim
  exact htrim.symm

/-- A string without blanks is not trimmed. -/
theorem trim_eq_self {s : Text} (h : ∀ c ∈ s, isBlank c = false) : trim s = s := by
  have hfront : s.dropWhile isBlank = s := by
    cases s with
    | nil => rfl
    | cons c s => exact dropWhile_eq_self (h c List.mem_cons_self)
  rw [trim, hfront, rdropWhile_of_forall h]

/-! ## C strings -/

/-- What a reader of a C string sees of a buffer: the bytes before the first NUL. -/
def cstr (s : Text) : Text := s.takeWhile (· ≠ 0)

theorem cstr_eq_self {s : Text} (h : (0 : Byte) ∉ s) : cstr s = s := by
  rw [cstr, List.takeWhile_eq_self_iff]
  intro c hc
  have hne : c ≠ 0 := fun h0 => h (h0 ▸ hc)
  simpa using hne

theorem cstr_append {a : Text} (ha : (0 : Byte) ∉ a) (b : Text) : cstr (a ++ b) = a ++ cstr b := by
  refine List.takeWhile_append_of_pos fun c hc => ?_
  have hne : c ≠ 0 := fun h0 => ha (h0 ▸ hc)
  simpa using hne

end Text
