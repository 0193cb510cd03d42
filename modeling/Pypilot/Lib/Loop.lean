import Mathlib.Logic.Basic
import Mathlib.Tactic.Common

/-!
# Loops

A loop is a body that either goes on with a new state or leaves with a result. `exec` runs a
number of rounds; a loop whose rounds are never enough does not return. A variant makes a loop
total (`run`), an invariant that keeps the body going makes it hang.
-/

namespace Loop

variable {σ ρ : Type*}

/-- At most `n` rounds of the loop with the body `body`. -/
def exec (body : σ → σ ⊕ ρ) : ℕ → σ → Option ρ
  | 0, _ => none
  | n + 1, s =>
    match body s with
    | .inl s' => exec body n s'
    | .inr r => some r

/-- The loop leaves, after some number of rounds, with the result `r`. -/
def Returns (body : σ → σ ⊕ ρ) (s : σ) (r : ρ) : Prop := ∃ n, exec body n s = some r

theorem exec_goes_on {body : σ → σ ⊕ ρ} {s s' : σ} (h : body s = .inl s') (n : ℕ) :
    exec body (n + 1) s = exec body n s' := by
  simp [exec, h]

theorem exec_leaves {body : σ → σ ⊕ ρ} {s : σ} {r : ρ} (h : body s = .inr r) (n : ℕ) :
    exec body (n + 1) s = some r := by
  simp [exec, h]

/-- More rounds do not change the result. -/
theorem exec_mono {body : σ → σ ⊕ ρ} {n m : ℕ} (hnm : n ≤ m) {s : σ} {r : ρ}
    (h : exec body n s = some r) : exec body m s = some r := by
  induction n generalizing m s with
  | zero => simp [exec] at h
  | succ n ih =>
    obtain ⟨m, rfl⟩ : ∃ k, m = k + 1 := ⟨m - 1, by omega⟩
    rcases hb : body s with s' | r'
    · rw [exec_goes_on hb] at h ⊢
      exact ih (by omega) h
    · rw [exec_leaves hb] at h ⊢
      exact h

theorem Returns.unique {body : σ → σ ⊕ ρ} {s : σ} {r r' : ρ} (h : Returns body s r)
    (h' : Returns body s r') : r = r' := by
  obtain ⟨n, hn⟩ := h
  obtain ⟨m, hm⟩ := h'
  have h₁ := exec_mono (Nat.le_max_left n m) hn
  have h₂ := exec_mono (Nat.le_max_right n m) hm
  exact Option.some.inj (h₁.symm.trans h₂)

/-! ## Rounds -/

/-- The states in which the rounds of the loop start, at most `n` of them. -/
def visits (body : σ → σ ⊕ ρ) : ℕ → σ → List σ
  | 0, _ => []
  | n + 1, s =>
    s :: match body s with
      | .inl s' => visits body n s'
      | .inr _ => []

theorem visits_goes_on {body : σ → σ ⊕ ρ} {s s' : σ} (h : body s = .inl s') (n : ℕ) :
    visits body (n + 1) s = s :: visits body n s' := by
  simp [visits, h]

theorem mem_visits_succ (body : σ → σ ⊕ ρ) (s : σ) (n : ℕ) : s ∈ visits body (n + 1) s := List.mem_cons_self

/-- **Invariant rule**, where the rounds meet a condition. -/
theorem visits_invariant {body : σ → σ ⊕ ρ} (I C : σ → Prop)
    (hgo : ∀ s s', I s → C s → body s = .inl s' → I s') {n : ℕ} {s : σ} (hs : I s) (hC : ∀ t ∈ visits body n s, C t) : ∀ t ∈ visits body n s, I t := by
  induction n generalizing s with
  | zero => exact fun t ht => absurd ht List.not_mem_nil
  | succ n ih =>
    intro t ht
    rcases hb : body s with s' | r
    · rw [visits_goes_on hb] at ht hC
      rw [List.forall_mem_cons] at hC
      rcases List.mem_cons.mp ht with rfl | ht
      · exact hs
      · exact ih (hgo s s' hs hC.1 hb) hC.2 t ht
    · simp only [visits, hb, List.mem_singleton] at ht
      exact ht ▸ hs

/-- What holds in all rounds and is kept on every way out holds of the result. -/
theorem exec_of_visits {body : σ → σ ⊕ ρ} (I : σ → Prop) (Q : ρ → Prop)
    (hout : ∀ s r, I s → body s = .inr r → Q r) {n : ℕ} {s : σ} {r : ρ} (hI : ∀ t ∈ visits body n s, I t) (h : exec body n s = some r) : Q r := by
  induction n generalizing s with
  | zero => simp [exec] at h
  | succ n ih =>
    rcases hb : body s with s' | r'
    · rw [exec_goes_on hb] at h
      rw [visits_goes_on hb, List.forall_mem_cons] at hI
      exact ih hI.2 h
    · rw [exec_leaves hb] at h
      exact hout s r (hI s (mem_visits_succ body s n)) (by rw [hb, Option.some.inj h])

/-- Two bodies that do the same in all rounds of a loop make the same loop. -/
theorem exec_congr {body body' : σ → σ ⊕ ρ} {n : ℕ} {s : σ}
    (h : ∀ t ∈ visits body n s, body' t = body t) : exec body' n s = exec body n s := by
  induction n generalizing s with
  | zero => rfl
  | succ n ih =>
    have hs := h s (mem_visits_succ body s n)
    rcases hb : body s with s' | r
    · rw [exec_goes_on hb, exec_goes_on (hs.trans hb)]
      rw [visits_goes_on hb, List.forall_mem_cons] at h
      exact ih h.2
    · rw [exec_leaves hb, exec_leaves (hs.trans hb)]

/-- **Invariant rule.** What every round keeps and every way out turns into `Q` holds of the
result. -/
theorem exec_invariant {body : σ → σ ⊕ ρ} (I : σ → Prop) (Q : ρ → Prop)
    (hgo : ∀ s s', I s → body s = .inl s' → I s') (hout : ∀ s r, I s → body s = .inr r → Q r)
    {n : ℕ} {s : σ} {r : ρ} (hs : I s) (h : exec body n s = some r) : Q r :=
  exec_of_visits I Q hout
    (visits_invariant I (fun _ => True) (fun s s' hI _ => hgo s s' hI) hs fun _ _ => trivial) h

/-- **Divergence rule.** A loop whose body goes on from every state of `I`, into `I`, never
leaves. -/
theorem exec_eq_none {body : σ → σ ⊕ ρ} (I : σ → Prop)
    (hgo : ∀ s, I s → ∃ s', body s = .inl s' ∧ I s') (n : ℕ) {s : σ} (hs : I s) :
    exec body n s = none := by
  induction n generalizing s with
  | zero => rfl
  | succ n ih =>
    obtain ⟨s', hb, hs'⟩ := hgo s hs
    rw [exec_goes_on hb]
    exact ih hs'

/-! ## Variants -/

/-- `μ` is a variant of the body: every round that goes on makes it smaller. -/
def Variant (body : σ → σ ⊕ ρ) (μ : σ → ℕ) : Prop := ∀ s s', body s = .inl s' → μ s' < μ s

theorem Variant.exec_isSome {body : σ → σ ⊕ ρ} {μ : σ → ℕ} (hμ : Variant body μ) {n : ℕ} {s : σ}
    (hn : μ s < n) : (exec body n s).isSome := by
  induction n generalizing s with
  | zero => omega
  | succ n ih =>
    rcases hb : body s with s' | r
    · rw [exec_goes_on hb]
      exact ih (by have := hμ s s' hb; omega)
    · rw [exec_leaves hb]
      rfl

/-- The result of a loop that has a variant. -/
def run (body : σ → σ ⊕ ρ) (μ : σ → ℕ) (hμ : Variant body μ) (s : σ) : ρ :=
  (exec body (μ s + 1) s).get (hμ.exec_isSome (Nat.lt_succ_self _))

variable {body : σ → σ ⊕ ρ} {μ : σ → ℕ} {hμ : Variant body μ}

theorem exec_run (s : σ) : exec body (μ s + 1) s = some (run body μ hμ s) :=
  (Option.some_get _).symm

theorem run_eq_of_exec {n : ℕ} {s : σ} {r : ρ} (h : exec body n s = some r) :
    run body μ hμ s = r :=
  Returns.unique ⟨_, exec_run s⟩ ⟨n, h⟩

theorem run_goes_on {s s' : σ} (h : body s = .inl s') : run body μ hμ s = run body μ hμ s' :=
  run_eq_of_exec ((exec_goes_on h _).trans (exec_run s'))

theorem run_leaves {s : σ} {r : ρ} (h : body s = .inr r) : run body μ hμ s = r :=
  run_eq_of_exec (exec_leaves h 0)

theorem run_invariant (I : σ → Prop) (Q : ρ → Prop)
    (hgo : ∀ s s', I s → body s = .inl s' → I s') (hout : ∀ s r, I s → body s = .inr r → Q r)
    {s : σ} (hs : I s) : Q (run body μ hμ s) :=
  exec_invariant I Q hgo hout hs (exec_run s)

theorem run_of_visits (I : σ → Prop) (Q : ρ → Prop) (hout : ∀ s r, I s → body s = .inr r → Q r)
    {s : σ} (hI : ∀ t ∈ visits body (μ s + 1) s, I t) : Q (run body μ hμ s) :=
  exec_of_visits I Q hout hI (exec_run s)

theorem run_congr {body' : σ → σ ⊕ ρ} {hμ' : Variant body' μ} {s : σ}
    (h : ∀ t ∈ visits body (μ s + 1) s, body' t = body t) :
    run body' μ hμ' s = run body μ hμ s :=
  run_eq_of_exec ((exec_congr h).trans (exec_run s))

end Loop
