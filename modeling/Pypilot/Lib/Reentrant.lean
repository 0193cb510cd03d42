import Mathlib.Algebra.Ring.Nat
import Mathlib.Order.Nat
import Pypilot.Lib.Run

/-!
# Passes whose callbacks may call back

A pass goes over the slots of a system from the front. A visit to a slot may start a callback, and until
that returns the pass is suspended: the callback may use the system in any way, passes of its own
included. What every use and every visit keeps holds throughout (`states_invariant`), and two systems
whose uses and visits agree go through the same states (`states_simulation`).
-/

namespace Reentrant

variable {σ τ ι κ υ : Type*}

/-- A system with slots: what a use does at a clock reading, and what a visit does to a slot in a pass at
a clock reading, with whether it has started a callback. -/
structure Program (σ ι υ : Type*) where
  slots : List ι
  perform : υ → ℕ → σ → σ
  visit : ℕ → ι → σ → Bool × σ

/-- A suspended pass: its clock reading and the slots still to visit. -/
structure Pass (ι : Type*) where
  now : ℕ
  rest : List ι

/-- A system with the last clock reading and the passes whose callbacks are running, the innermost one
first. -/
structure State (σ ι : Type*) where
  sys : σ
  clock : ℕ := 0
  passes : List (Pass ι) := []

/-- What the running code does next. Readings of the clock never go back. -/
inductive Move (υ : Type*)
  | perform (use : υ) (elapsed : ℕ)
  | runOnce (elapsed : ℕ)
  | finish

variable (p : Program σ ι υ)

/-- A pass over some slots, up to the first callback: the slots behind it, when there is one. -/
def scan (now : ℕ) : List ι → σ → Option (List ι) × σ
  | [], s => (none, s)
  | i :: rest, s => if (p.visit now i s).1 then (some rest, (p.visit now i s).2)
    else scan now rest (p.visit now i s).2

namespace State

/-- A pass goes on until a callback suspends it or it is over. -/
def resume (s : State σ ι) (pass : Pass ι) : State σ ι :=
  { s with
    sys := (scan p pass.now pass.rest s.sys).2
    passes := ((scan p pass.now pass.rest s.sys).1.map (Pass.mk pass.now)).toList ++ s.passes }

def step (s : State σ ι) : Move υ → State σ ι
  | .perform use elapsed =>
    { s with sys := p.perform use (s.clock + elapsed) s.sys, clock := s.clock + elapsed }
  | .runOnce elapsed =>
    { s with clock := s.clock + elapsed }.resume p ⟨s.clock + elapsed, p.slots⟩
  | .finish =>
    match s.passes with
    | [] => s
    | pass :: passes => { s with passes := passes }.resume p pass

end State

/-- A pass over two stretches of slots goes on to the second when the first is over. -/
theorem scan_append (now : ℕ) (first second : List ι) (s : σ) :
    scan p now (first ++ second) s =
      match (scan p now first s).1 with
      | some rest => (some (rest ++ second), (scan p now first s).2)
      | none => scan p now second (scan p now first s).2 := by
  induction first generalizing s with
  | nil => rfl
  | cons i first ih =>
    rw [List.cons_append, scan, scan]
    split_ifs
    · rfl
    · exact ih _

/-- A callback suspends a pass with fewer slots to visit. -/
theorem scan_rest_length {now : ℕ} {slots rest : List ι} {s : σ}
    (h : (scan p now slots s).1 = some rest) : rest.length < slots.length := by
  induction slots generalizing s with
  | nil => exact nomatch h
  | cons i slots ih =>
    rw [scan] at h
    split_ifs at h
    · rw [← Option.some.inj h]
      exact Nat.lt_succ_self _
    · exact (ih h).trans (Nat.lt_succ_self _)

/-! ## Readings of the clock -/

section Readings

variable {p}

/-- A pass that is suspended was begun at an earlier reading. -/
theorem step_passes {s : State σ ι} (hs : ∀ pass ∈ s.passes, pass.now ≤ s.clock) (move : Move υ) :
    ∀ pass ∈ (s.step p move).passes, pass.now ≤ (s.step p move).clock := by
  have hresume : ∀ {t : State σ ι} {pass : Pass ι}, (∀ pass ∈ t.passes, pass.now ≤ t.clock) →
      pass.now ≤ t.clock → ∀ pass' ∈ (t.resume p pass).passes, pass'.now ≤ (t.resume p pass).clock := by
    intro t pass ht hpass pass' hmem
    rcases List.mem_append.mp hmem with hmem | hmem
    · obtain ⟨rest, -, rfl⟩ := Option.map_eq_some_iff.mp (Option.mem_toList.mp hmem)
      exact hpass
    · exact ht pass' hmem
  cases move with
  | perform use elapsed => exact fun pass hmem => (hs pass hmem).trans (Nat.le_add_right _ _)
  | runOnce elapsed =>
    exact hresume (t := { s with clock := s.clock + elapsed })
      (fun pass hmem => (hs pass hmem).trans (Nat.le_add_right _ _)) le_rfl
  | finish =>
    unfold State.step
    cases hpasses : s.passes with
    | nil =>
      rw [hpasses] at hs
      intro pass hmem
      rw [hpasses] at hmem
      exact hs pass hmem
    | cons pass passes =>
      rw [hpasses, List.forall_mem_cons] at hs
      exact hresume (t := { s with passes := passes }) hs.2 hs.1

end Readings

/-- The readings at which the passes of a run are begun. -/
def readings (s : State σ ι) (moves : List (Move υ)) : List ℕ :=
  (Run.steps (State.step p) s moves).filterMap fun q =>
    match q.2 with
    | .runOnce elapsed => some (q.1.clock + elapsed)
    | _ => none

theorem readings_runOnce (s : State σ ι) (elapsed : ℕ) (moves : List (Move υ)) :
    readings p s (.runOnce elapsed :: moves) =
      (s.clock + elapsed) :: readings p (s.step p (.runOnce elapsed)) moves := rfl

/-- No pass is begun while another one is suspended. -/
def Flat (s : State σ ι) (moves : List (Move υ)) : Prop :=
  ∀ q ∈ Run.steps (State.step p) s moves, ∀ elapsed, q.2 = .runOnce elapsed → q.1.passes = []

/-! ## The end of passes -/

section End

/-- The slots that the suspended passes can still visit, and one more for each pass. -/
def State.suspended (s : State σ ι) : ℕ := (s.passes.map fun pass => pass.rest.length + 1).sum

def Move.isFinish : Move υ → Bool
  | finish => true
  | _ => false

variable {p}

theorem resume_suspended (s : State σ ι) (pass : Pass ι) :
    (s.resume p pass).suspended ≤ s.suspended + pass.rest.length := by
  unfold State.suspended State.resume
  cases hrest : (scan p pass.now pass.rest s.sys).1 with
  | none => exact Nat.le_add_right _ _
  | some rest =>
    have hlt := scan_rest_length p hrest
    rw [Option.map_some, Option.toList_some, List.map_append, List.sum_append, Nat.add_comm]
    exact Nat.add_le_add_left hlt _

theorem finish_suspended (s : State σ ι) :
    (s.step p (.finish : Move υ)).suspended ≤ s.suspended - 1 := by
  unfold State.step
  cases hpasses : s.passes with
  | nil =>
    unfold State.suspended
    rw [hpasses]
    exact Nat.zero_le _
  | cons pass passes =>
    have hresume := resume_suspended (p := p) { s with passes := passes } pass
    unfold State.suspended at hresume ⊢
    rw [hpasses, List.map_cons, List.sum_cons]
    dsimp only at hresume ⊢
    omega

/-- Every callback that returns takes the passes closer to their end. -/
theorem foldl_suspended {moves : List (Move υ)} (hflat : ∀ elapsed, .runOnce elapsed ∉ moves)
    (s : State σ ι) :
    (moves.foldl (State.step p) s).suspended ≤ s.suspended - moves.countP Move.isFinish := by
  induction moves generalizing s with
  | nil => exact le_rfl
  | cons move moves ih =>
    have hrest := ih (fun elapsed hmem => hflat elapsed (List.mem_cons_of_mem _ hmem))
      (s.step p move)
    rw [List.foldl_cons, List.countP_cons]
    refine hrest.trans ?_
    cases move with
    | perform use elapsed => exact le_rfl
    | runOnce elapsed => exact absurd List.mem_cons_self (hflat elapsed)
    | finish =>
      have hfinish := finish_suspended (p := p) s
      rw [show (if Move.isFinish (.finish : Move υ) = true then 1 else 0) = 1 from if_pos rfl]
      omega

theorem passes_eq_nil_of_suspended {s : State σ ι} (h : s.suspended = 0) : s.passes = [] := by
  cases hpasses : s.passes with
  | nil => rfl
  | cons pass passes =>
    unfold State.suspended at h
    rw [hpasses, List.map_cons, List.sum_cons] at h
    omega

/-- **The end of a pass.** A pass that is not nested, and in which no other is begun, is over when as many
callbacks have returned as there are slots. -/
theorem pass_ends {s : State σ ι} (hpasses : s.passes = []) (elapsed : ℕ) {moves : List (Move υ)}
    (hflat : ∀ elapsed, .runOnce elapsed ∉ moves)
    (hfinish : p.slots.length ≤ moves.countP Move.isFinish) :
    (moves.foldl (State.step p) (s.step p (.runOnce elapsed))).passes = [] := by
  have hbegun : (s.step p (.runOnce elapsed)).suspended ≤ p.slots.length := by
    refine (resume_suspended _ _).trans_eq ?_
    unfold State.suspended
    rw [hpasses]
    exact Nat.zero_add _
  have hend := foldl_suspended (p := p) hflat (s.step p (.runOnce elapsed))
  exact passes_eq_nil_of_suspended (by omega)

end End

/-! ## Invariants -/

section Invariants

variable {p} {I : σ → Prop} (hvisit : ∀ now i s, I s → I (p.visit now i s).2)
  (hperform : ∀ use now s, I s → I (p.perform use now s))

include hvisit

theorem scan_invariant {now : ℕ} {slots : List ι} {s : σ} (hs : I s) : I (scan p now slots s).2 := by
  induction slots generalizing s with
  | nil => exact hs
  | cons i rest ih =>
    unfold scan
    split_ifs
    · exact hvisit now i s hs
    · exact ih (hvisit now i s hs)

include hperform

theorem step_invariant {s : State σ ι} (hs : I s.sys) (move : Move υ) : I (s.step p move).sys := by
  cases move with
  | perform use elapsed => exact hperform use _ s.sys hs
  | runOnce elapsed => exact scan_invariant hvisit hs
  | finish =>
    unfold State.step
    cases s.passes with
    | nil => exact hs
    | cons pass passes => exact scan_invariant hvisit hs

/-- **Invariant rule.** -/
theorem states_invariant {s : State σ ι} (hs : I s.sys) (moves : List (Move υ)) :
    ∀ t ∈ Run.states (State.step p) s moves, I t.sys :=
  Run.states_invariant (I := fun t : State σ ι => I t.sys) (C := fun _ _ => True)
    (fun _ move ht _ => step_invariant hvisit hperform ht move) hs fun _ _ => trivial

end Invariants

/-! ## Slots that are served -/

section Serves

/-- A pass serves the slot `i`: whatever is used and visited meanwhile, the slot stays `Waiting`, until a
visit at or after `start` makes it `Served`, which it stays. -/
structure Serves (start : ℕ) (i : ι) (C : υ → Prop) (Waiting Served : σ → Prop) : Prop where
  served_visit : ∀ now j s, Served s → Served (p.visit now j s).2
  served_perform : ∀ use now s, Served s → Served (p.perform use now s)
  own : ∀ now s, Waiting s → start ≤ now → Served (p.visit now i s).2
  other : ∀ now j s, Waiting s → start ≤ now → j ≠ i → Waiting (p.visit now j s).2
  perform : ∀ use now s, C use → Waiting s → Waiting (p.perform use now s)

variable {p} {start : ℕ} {i : ι} {C : υ → Prop} {Waiting Served : σ → Prop}

/-- A pass at or after `start` serves the slot, or it leaves it waiting, and suspended before the slot if
that is one of those to visit. -/
theorem Serves.scan (h : Serves p start i C Waiting Served) {now : ℕ} (hnow : start ≤ now)
    (slots : List ι) {s : σ} (hs : Waiting s) :
    Served (scan p now slots s).2 ∨ Waiting (scan p now slots s).2 ∧
      (i ∈ slots → ∃ rest, (scan p now slots s).1 = some rest ∧ i ∈ rest) := by
  induction slots generalizing s with
  | nil => exact .inr ⟨hs, fun hi => absurd hi List.not_mem_nil⟩
  | cons j slots ih =>
    rw [Reentrant.scan]
    by_cases hj : j = i
    · -- the visit to the slot itself
      subst hj
      have hserved := h.own now s hs hnow
      split_ifs
      · exact .inl hserved
      · exact .inl (scan_invariant h.served_visit hserved)
    · have hnext := h.other now j s hs hnow hj
      split_ifs
      · refine .inr ⟨hnext, fun hi => ⟨slots, rfl, ?_⟩⟩
        exact (List.mem_cons.mp hi).resolve_left (Ne.symm hj)
      · refine (ih hnext).imp_right fun hwaits => ⟨hwaits.1, fun hi => hwaits.2 ?_⟩
        exact (List.mem_cons.mp hi).resolve_left (Ne.symm hj)

/-- The slot has been served, or it waits for a pass over the passes `below`. -/
def Awaits (start : ℕ) (i : ι) (Waiting Served : σ → Prop) (below : List (Pass ι))
    (s : State σ ι) : Prop :=
  Served s.sys ∨ Waiting s.sys ∧ start ≤ s.clock ∧ ∃ above pass,
    s.passes = above ++ pass :: below ∧ i ∈ pass.rest ∧ ∀ pass' ∈ above ++ [pass], start ≤ pass'.now

variable {below : List (Pass ι)} {s : State σ ι}

/-- A pass goes on that is the one awaited, or one above it. -/
theorem Serves.resume (h : Serves p start i C Waiting Served) (hs : Waiting s.sys)
    (hclock : start ≤ s.clock) {pass : Pass ι} (hpass : start ≤ pass.now)
    (hout : (∃ above pass', s.passes = above ++ pass' :: below ∧ i ∈ pass'.rest ∧
      ∀ pass'' ∈ above ++ [pass'], start ≤ pass''.now) ∨ s.passes = below ∧ i ∈ pass.rest) :
    Awaits start i Waiting Served below (s.resume p pass) := by
  unfold Awaits State.resume
  refine (h.scan hpass pass.rest hs).imp_right fun hwaits => ⟨hwaits.1, hclock, ?_⟩
  rcases hout with ⟨above, pass', hstack, hi, hall⟩ | ⟨hstack, hi⟩
  · refine ⟨_ ++ above, pass', by rw [hstack, ← List.append_assoc], hi, fun pass'' hmem => ?_⟩
    rw [List.append_assoc] at hmem
    rcases List.mem_append.mp hmem with hmem | hmem
    · obtain ⟨rest, -, rfl⟩ := Option.map_eq_some_iff.mp (Option.mem_toList.mp hmem)
      exact hpass
    · exact hall pass'' hmem
  · obtain ⟨rest, hrest, hi'⟩ := hwaits.2 hi
    refine ⟨[], ⟨pass.now, rest⟩, ?_, hi', fun pass'' hmem => ?_⟩
    · rw [hrest, hstack]
      rfl
    · rw [List.mem_singleton.mp hmem]
      exact hpass

theorem Serves.step (h : Serves p start i C Waiting Served)
    (hs : Awaits start i Waiting Served below s) {move : Move υ}
    (hmove : ∀ use elapsed, move = .perform use elapsed → C use) :
    Awaits start i Waiting Served below (s.step p move) := by
  rcases hs with hserved | ⟨hwaits, hclock, above, pass, hstack, hi, hall⟩
  · exact .inl (step_invariant h.served_visit h.served_perform hserved move)
  · cases move with
    | perform use elapsed =>
      exact .inr ⟨h.perform use _ s.sys (hmove use elapsed rfl) hwaits,
        hclock.trans (Nat.le_add_right _ _), above, pass, hstack, hi, hall⟩
    | runOnce elapsed =>
      have hlater : start ≤ s.clock + elapsed := hclock.trans (Nat.le_add_right _ _)
      exact h.resume (s := { s with clock := s.clock + elapsed }) hwaits hlater hlater
        (.inl ⟨above, pass, hstack, hi, hall⟩)
    | finish =>
      unfold State.step
      cases above with
      | nil =>
        rw [hstack]
        exact h.resume (s := { s with passes := below }) hwaits hclock
          (hall pass (List.mem_singleton_self _)) (.inr ⟨rfl, hi⟩)
      | cons top above =>
        rw [hstack]
        obtain ⟨htop, hrest⟩ := List.forall_mem_cons.mp hall
        exact h.resume (s := { s with passes := above ++ pass :: below }) hwaits hclock htop
          (.inl ⟨above, pass, rfl, hi, hrest⟩)

/-- **Passes miss nothing.** A slot that waits when a pass begins has been served when the pass is over. -/
theorem Serves.pass (h : Serves p start i C Waiting Served) (hi : i ∈ p.slots) (hs : Waiting s.sys)
    {elapsed : ℕ} (hstart : start = s.clock + elapsed) {moves : List (Move υ)}
    (hmoves : ∀ use elapsed, .perform use elapsed ∈ moves → C use) :
    ∀ t ∈ Run.states (State.step p) (s.step p (.runOnce elapsed)) moves,
      t.passes.length ≤ s.passes.length → Served t.sys := by
  intro t ht hover
  have hbegun : Awaits start i Waiting Served s.passes (s.step p (.runOnce elapsed)) :=
    h.resume (s := { s with clock := s.clock + elapsed }) hs hstart.le hstart.le (.inr ⟨rfl, hi⟩)
  have hallowed : ∀ q ∈ Run.steps (State.step p) (s.step p (.runOnce elapsed)) moves,
      ∀ use elapsed, q.2 = .perform use elapsed → C use :=
    (Run.forall_steps_iff (C := fun move => ∀ use elapsed, move = .perform use elapsed → C use)
      (State.step p) _ moves).mpr fun move hmem use elapsed heq => hmoves use elapsed (heq ▸ hmem)
  have hinv : Awaits start i Waiting Served s.passes t :=
    Run.states_invariant (I := Awaits start i Waiting Served s.passes)
      (C := fun _ move => ∀ use elapsed, move = Move.perform use elapsed → C use)
      (fun _ _ hu hmove => h.step hu hmove) hbegun hallowed t ht
  rcases hinv with hserved | ⟨-, -, above, pass, hstack, -⟩
  · exact hserved
  · rw [hstack, List.length_append, List.length_cons] at hover
    omega

end Serves

/-! ## Simulations -/

section Simulations

variable (f : κ → ι) (extra : List ι) (R : σ → τ → Prop)

/-- The same pass over a system with more slots. -/
def Pass.lift (pass : Pass κ) : Pass ι := ⟨pass.now, pass.rest.map f ++ extra⟩

/-- The systems are related, and the same passes are under way. -/
structure Related (s : State σ ι) (t : State τ κ) : Prop where
  sys : R s.sys t.sys
  clock : s.clock = t.clock
  passes : s.passes = t.passes.map (Pass.lift f extra)

variable {p} {q : Program τ κ υ} {f extra R} {C : σ → Prop}
  (hslots : p.slots = q.slots.map f ++ extra)
  (hvisit : ∀ now k s t, R s t → (p.visit now (f k) s).1 = (q.visit now k t).1 ∧
    R (p.visit now (f k) s).2 (q.visit now k t).2)
  (hextra : ∀ now i s t, R s t → i ∈ extra → p.visit now i s = (false, s))
  (hperform : ∀ use now s t, R s t → C (p.perform use now s) →
    R (p.perform use now s) (q.perform use now t))

include hvisit hextra

/-- Related systems stop a pass at the same slot. -/
theorem scan_simulation {now : ℕ} {rest : List κ} {s : σ} {t : τ} (h : R s t) :
    (scan p now (rest.map f ++ extra) s).1 =
        (scan q now rest t).1.map (fun rest => rest.map f ++ extra) ∧
      R (scan p now (rest.map f ++ extra) s).2 (scan q now rest t).2 := by
  induction rest generalizing s t with
  | nil =>
    have hskip : ∀ slots, (∀ i ∈ slots, i ∈ extra) → scan p now slots s = (none, s) := by
      intro slots hall
      induction slots with
      | nil => rfl
      | cons i slots ih =>
        rw [List.forall_mem_cons] at hall
        rw [scan, hextra now i s t h hall.1, if_neg Bool.false_ne_true]
        exact ih hall.2
    rw [List.map_nil, List.nil_append, hskip extra fun _ hi => hi]
    exact ⟨rfl, h⟩
  | cons k rest ih =>
    obtain ⟨hstart, hnext⟩ := hvisit now k s t h
    rw [List.map_cons, List.cons_append, scan, scan, hstart]
    split_ifs
    · exact ⟨rfl, hnext⟩
    · exact ih hnext

theorem resume_simulation {s : State σ ι} {t : State τ κ} (h : Related f extra R s t)
    (pass : Pass κ) : Related f extra R (s.resume p (pass.lift f extra)) (t.resume q pass) := by
  obtain ⟨hrest, hsys⟩ : (scan p pass.now (pass.rest.map f ++ extra) s.sys).1 =
      (scan q pass.now pass.rest t.sys).1.map (fun rest => rest.map f ++ extra) ∧
      R (scan p pass.now (pass.rest.map f ++ extra) s.sys).2 (scan q pass.now pass.rest t.sys).2 :=
    scan_simulation hvisit hextra h.sys
  refine ⟨hsys, h.clock, ?_⟩
  show ((scan p pass.now (pass.rest.map f ++ extra) s.sys).1.map (Pass.mk pass.now)).toList ++
    s.passes = _
  unfold State.resume
  rw [hrest, h.passes]
  cases (scan q pass.now pass.rest t.sys).1 <;> rfl

include hslots hperform

theorem step_simulation {s : State σ ι} {t : State τ κ} (h : Related f extra R s t) (move : Move υ)
    (hC : C (s.step p move).sys) : Related f extra R (s.step p move) (t.step q move) := by
  cases move with
  | perform use elapsed =>
    refine ⟨?_, congrArg (· + elapsed) h.clock, h.passes⟩
    show R (p.perform use (s.clock + elapsed) s.sys) (q.perform use (t.clock + elapsed) t.sys)
    rw [← h.clock]
    exact hperform use _ s.sys t.sys h.sys hC
  | runOnce elapsed =>
    have hlift : (⟨s.clock + elapsed, p.slots⟩ : Pass ι) =
        (⟨t.clock + elapsed, q.slots⟩ : Pass κ).lift f extra := by
      rw [hslots, h.clock]
      rfl
    dsimp only [State.step]
    rw [hlift]
    exact resume_simulation hvisit hextra (s := { s with clock := s.clock + elapsed })
      (t := { t with clock := t.clock + elapsed })
      ⟨h.sys, congrArg (· + elapsed) h.clock, h.passes⟩ _
  | finish =>
    dsimp only [State.step]
    have hpasses := h.passes
    cases ht : t.passes with
    | nil =>
      rw [ht, List.map_nil] at hpasses
      rw [hpasses]
      exact h
    | cons pass passes =>
      rw [ht, List.map_cons] at hpasses
      rw [hpasses]
      exact resume_simulation hvisit hextra
        (s := { s with passes := passes.map (Pass.lift f extra) })
        (t := { t with passes := passes }) ⟨h.sys, h.clock, rfl⟩ pass

/-- **Simulation rule.** As long as the condition holds of the larger system, both go through related
states. -/
theorem states_simulation {s : State σ ι} {t : State τ κ} (h : Related f extra R s t)
    (moves : List (Move υ)) (hC : ∀ u ∈ Run.states (State.step p) s moves, C u.sys) :
    List.Forall₂ (Related f extra R) (Run.states (State.step p) s moves)
      (Run.states (State.step q) t moves) := by
  induction moves generalizing s t with
  | nil => exact .cons h .nil
  | cons move moves ih =>
    rw [Run.states, List.forall_mem_cons] at hC
    exact .cons h (ih (step_simulation hslots hvisit hextra hperform h move
      (hC.2 _ (Run.head_mem_states _ _ _))) hC.2)

end Simulations

end Reentrant
