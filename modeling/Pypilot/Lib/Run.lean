import Mathlib.Logic.Basic
import Mathlib.Data.List.Basic
import Mathlib.Data.List.Induction
import Mathlib.Tactic.Common

/-!
# Runs

A deterministic system over a list of inputs: the states it goes through and the steps it takes. An
invariant that every step keeps, provided the step meets a condition, holds in all states of a run
whose steps all meet it.
-/

namespace Run

variable {σ ι : Type*} (step : σ → ι → σ)

/-- The states of a run, the first one included. -/
def states : σ → List ι → List σ
  | s, [] => [s]
  | s, i :: is => s :: states (step s i) is

/-- The steps of a run: the state before, and the input. -/
def steps : σ → List ι → List (σ × ι)
  | _, [] => []
  | s, i :: is => (s, i) :: steps (step s i) is

theorem head_mem_states (s : σ) (is : List ι) : s ∈ states step s is := by
  cases is <;> exact List.mem_cons_self

theorem foldl_mem_states (s : σ) (is : List ι) : is.foldl step s ∈ states step s is := by
  induction is generalizing s with
  | nil => exact List.mem_cons_self
  | cons i is ih => exact List.mem_cons_of_mem _ (ih (step s i))

/-- A run goes through the last state of each of its parts. -/
theorem foldl_mem_states_append (s : σ) (is js : List ι) :
    is.foldl step s ∈ states step s (is ++ js) := by
  induction is generalizing s with
  | nil => exact head_mem_states step s js
  | cons i is ih => exact List.mem_cons_of_mem _ (ih (step s i))

/-- A condition on the inputs alone. -/
theorem forall_steps_iff {C : ι → Prop} (s : σ) (is : List ι) :
    (∀ p ∈ steps step s is, C p.2) ↔ ∀ i ∈ is, C i := by
  induction is generalizing s with
  | nil => simp [steps]
  | cons i is ih => rw [steps, List.forall_mem_cons, List.forall_mem_cons, ih (step s i)]

/-- The last event of a trace, or an event before it. -/
theorem concat_eq_append_cons {trace before after : List σ} {e x : σ}
    (heq : trace ++ [e] = before ++ x :: after) :
    (x = e ∧ before = trace) ∨ ∃ after', trace = before ++ x :: after' := by
  rcases List.eq_nil_or_concat after with rfl | ⟨after', y, rfl⟩
  · obtain ⟨rfl, hx⟩ := List.append_inj' heq rfl
    exact .inl ⟨(List.singleton_inj.mp hx).symm, rfl⟩
  · have heq' : trace ++ [e] = (before ++ x :: after') ++ [y] := by rw [heq]; simp
    exact .inr ⟨after', (List.append_inj' heq' rfl).1⟩

variable {step} {I : σ → Prop} {C : σ → ι → Prop}

/-- **Invariant rule.** -/
theorem foldl_invariant (hstep : ∀ s i, I s → C s i → I (step s i)) {s : σ} (hs : I s)
    {is : List ι} (hC : ∀ p ∈ steps step s is, C p.1 p.2) : I (is.foldl step s) := by
  induction is generalizing s with
  | nil => exact hs
  | cons i is ih =>
    exact ih (hstep s i hs (hC _ List.mem_cons_self)) fun p hp => hC p (List.mem_cons_of_mem _ hp)

/-- **Invariant rule**, for every state on the way. -/
theorem states_invariant (hstep : ∀ s i, I s → C s i → I (step s i)) {s : σ} (hs : I s)
    {is : List ι} (hC : ∀ p ∈ steps step s is, C p.1 p.2) : ∀ t ∈ states step s is, I t := by
  induction is generalizing s with
  | nil => simpa [states] using hs
  | cons i is ih =>
    intro t ht
    rcases List.mem_cons.mp ht with rfl | ht
    · exact hs
    · exact ih (hstep s i hs (hC _ List.mem_cons_self))
        (fun p hp => hC p (List.mem_cons_of_mem _ hp)) t ht

/-- **Invariant rule**, for the states before the steps. -/
theorem steps_invariant (hstep : ∀ s i, I s → I (step s i)) {s : σ} (hs : I s) (is : List ι) :
    ∀ p ∈ steps step s is, I p.1 := by
  induction is generalizing s with
  | nil => simp [steps]
  | cons i is ih =>
    intro p hp
    rcases List.mem_cons.mp hp with rfl | hp
    · exact hs
    · exact ih (hstep s i hs) p hp

/-- **Trace rule.** What holds of no steps and the start, and goes on over every step, holds of the steps of a
run and its last state. -/
theorem trace_induction {P : List (σ × ι) → σ → Prop} {s : σ} (hnil : P [] s)
    (hsnoc : ∀ trace t i, P trace t → P (trace ++ [(t, i)]) (step t i)) (is : List ι) :
    P (steps step s is) (is.foldl step s) := by
  have hfrom : ∀ (is : List ι) trace t, P trace t →
      P (trace ++ steps step t is) (is.foldl step t) := by
    intro is
    induction is with
    | nil =>
      intro trace t h
      rw [steps, List.append_nil]
      exact h
    | cons i is ih =>
      intro trace t h
      rw [steps, List.append_cons]
      exact ih _ _ (hsnoc trace t i h)
  exact hfrom is [] s hnil

/-- **Last write.** Some inputs write a value, the others leave the last one as it is: after a run the value
is that of the last input that wrote one, or the state is still as none had. -/
theorem last_write {ν : Type*} {write : ι → Option ν} {Holds : σ → ν → Prop} {Untouched : σ → Prop}
    (hstep : ∀ s i, I s → I (step s i)) (hwrite : ∀ s i v, I s → write i = some v → Holds (step s i) v)
    (hkeep : ∀ s i, I s → write i = none →
      (∀ v, Holds s v → Holds (step s i) v) ∧ (Untouched s → Untouched (step s i)))
    {s : σ} (hs : I s) (hnew : Untouched s) (is : List ι) :
    (∀ v, (is.filterMap write).getLast? = some v → Holds (is.foldl step s) v) ∧
      ((is.filterMap write).getLast? = none → Untouched (is.foldl step s)) := by
  induction is using List.reverseRecOn with
  | nil => exact ⟨fun v h => (nomatch h), fun _ => hnew⟩
  | append_singleton is i ih =>
    have hbefore : I (is.foldl step s) :=
      foldl_invariant (C := fun _ _ => True) (fun s i h _ => hstep s i h) hs fun _ _ => trivial
    rw [List.foldl_concat, List.filterMap_append]
    cases hi : write i with
    | none =>
      rw [List.filterMap_cons_none hi, List.filterMap_nil, List.append_nil]
      obtain ⟨hholds, huntouched⟩ := hkeep _ i hbefore hi
      exact ⟨fun v h => hholds v (ih.1 v h), fun h => huntouched (ih.2 h)⟩
    | some v =>
      rw [List.filterMap_cons_some hi, List.filterMap_nil, List.getLast?_concat]
      exact ⟨fun v' h => Option.some.inj h ▸ hwrite _ i v hbefore hi, fun h => nomatch h⟩

/-- **Refinement.** A step of the system is a step of an abstract one on the event that the input stands for,
or none, and puts on the trace what the abstract step puts out: then a run of the system is the run of the
abstract one on its events, with the same output. -/
theorem foldl_refines {α ε ο : Type*} {abs : σ → α} {trace : σ → List ο} {event : ι → Option ε}
    {astep : α → ε → α} {output : α → ε → List ο}
    (hstep : ∀ s i, I s → C s i → I (step s i) ∧
      abs (step s i) = (event i).elim (abs s) (astep (abs s)) ∧
      trace (step s i) = trace s ++ (event i).elim [] (output (abs s)))
    {s : σ} (hs : I s) {is : List ι} (hC : ∀ p ∈ steps step s is, C p.1 p.2) :
    abs (is.foldl step s) = (is.filterMap event).foldl astep (abs s) ∧
      trace (is.foldl step s) =
        trace s ++ (steps astep (abs s) (is.filterMap event)).flatMap fun p => output p.1 p.2 := by
  induction is generalizing s with
  | nil => exact ⟨rfl, (List.append_nil _).symm⟩
  | cons i is ih =>
    rw [steps, List.forall_mem_cons] at hC
    obtain ⟨hnext, habs', htrace'⟩ := hstep s i hs hC.1
    obtain ⟨habs, htrace⟩ := ih hnext hC.2
    rw [List.foldl_cons, habs, htrace, habs', htrace']
    cases he : event i with
    | none =>
      rw [List.filterMap_cons_none he, Option.elim_none, Option.elim_none, List.append_nil]
      exact ⟨rfl, rfl⟩
    | some e =>
      rw [List.filterMap_cons_some he, steps, List.flatMap_cons, ← List.append_assoc]
      exact ⟨rfl, rfl⟩

/-- **Refinement**, without output. -/
theorem foldl_abstracts {α ε : Type*} {abs : σ → α} {event : ι → Option ε} {astep : α → ε → α}
    (hstep : ∀ s i, I s → C s i → I (step s i) ∧
      abs (step s i) = (event i).elim (abs s) (astep (abs s)))
    {s : σ} (hs : I s) {is : List ι} (hC : ∀ p ∈ steps step s is, C p.1 p.2) :
    abs (is.foldl step s) = (is.filterMap event).foldl astep (abs s) := by
  refine (@foldl_refines _ _ step I C α ε Unit abs (fun _ => []) event astep (fun _ _ => []) ?_ s hs is hC).1
  intro s i h hCs
  obtain ⟨hnext, habs⟩ := hstep s i h hCs
  exact ⟨hnext, habs, by cases event i <;> rfl⟩

/-- Where a step on an allowed input keeps the invariant exactly under the condition, a run on such inputs
stays in the invariant exactly when all its steps meet the condition. -/
theorem states_invariant_iff_of {D : ι → Prop}
    (hstep : ∀ s i, I s → D i → (I (step s i) ↔ C s i)) {s : σ} (hs : I s) {is : List ι}
    (hD : ∀ i ∈ is, D i) :
    (∀ t ∈ states step s is, I t) ↔ ∀ p ∈ steps step s is, C p.1 p.2 := by
  induction is generalizing s with
  | nil => simp [states, steps, hs]
  | cons i is ih =>
    obtain ⟨hi, his⟩ := List.forall_mem_cons.mp hD
    rw [states, steps, List.forall_mem_cons, List.forall_mem_cons, and_iff_right hs]
    constructor
    · intro hI
      have hnext := hI _ (head_mem_states step _ is)
      exact ⟨(hstep s i hs hi).mp hnext, (ih hnext his).mp hI⟩
    · rintro ⟨hfirst, hrest⟩
      exact (ih ((hstep s i hs hi).mpr hfirst) his).mpr hrest

/-- Where a step keeps the invariant exactly under the condition, a run stays in the invariant exactly
when all its steps meet the condition. -/
theorem states_invariant_iff (hstep : ∀ s i, I s → (I (step s i) ↔ C s i)) {s : σ} (hs : I s)
    (is : List ι) :
    (∀ t ∈ states step s is, I t) ↔ ∀ p ∈ steps step s is, C p.1 p.2 :=
  states_invariant_iff_of (D := fun _ => True) (fun s i hi _ => hstep s i hi) hs fun _ _ => trivial

/-- Two conditions that are the same where the invariant holds, the second of which keeps it, are met by the
same runs. -/
theorem forall_steps_congr {P : σ → ι → Prop} (hstep : ∀ s i, I s → C s i → I (step s i))
    (hiff : ∀ s i, I s → (P s i ↔ C s i)) {s : σ} (hs : I s) (is : List ι) :
    (∀ p ∈ steps step s is, P p.1 p.2) ↔ ∀ p ∈ steps step s is, C p.1 p.2 := by
  induction is generalizing s with
  | nil => simp [steps]
  | cons i is ih =>
    rw [steps, List.forall_mem_cons, List.forall_mem_cons, hiff s i hs]
    exact and_congr_right fun hC => ih (hstep s i hs hC)

/-- Where the abstract states of a run all meet a condition, every step may count on it in the state that it
leads to. -/
theorem forall_steps_of_states {α : Type*} {abs : σ → α} {astep : α → ι → α} {F : α → Prop}
    (hstep : ∀ s i, I s → I (step s i) ∧ abs (step s i) = astep (abs s) i)
    (hC : ∀ s i, I s → F (astep (abs s) i) → C s i) {s : σ} (hs : I s) {is : List ι}
    (hF : ∀ a ∈ states astep (abs s) is, F a) : ∀ p ∈ steps step s is, C p.1 p.2 := by
  induction is generalizing s with
  | nil => simp [steps]
  | cons i is ih =>
    obtain ⟨hnext, habs⟩ := hstep s i hs
    rw [states, List.forall_mem_cons, ← habs] at hF
    rw [steps, List.forall_mem_cons]
    have hlead : F (abs (step s i)) := hF.2 _ (head_mem_states astep _ is)
    exact ⟨hC s i hs (habs ▸ hlead), ih hnext hF.2⟩

/-- A run does not depend on how its steps are computed. -/
theorem foldl_congr {step' : σ → ι → σ} {s : σ} {is : List ι}
    (h : ∀ p ∈ steps step s is, step' p.1 p.2 = step p.1 p.2) : is.foldl step' s = is.foldl step s := by
  induction is generalizing s with
  | nil => rfl
  | cons i is ih =>
    rw [steps, List.forall_mem_cons] at h
    rw [List.foldl_cons, List.foldl_cons, h.1]
    exact ih h.2

end Run
