import Mathlib.Data.List.Basic
import Mathlib.Data.List.Perm.Basic
import Mathlib.Tactic.Common
import Pypilot.Lib.Run

/-!
# A courier

Messages for a channel that comes and goes. With the channel up a message is on its way at once; without it
a store of bounded size keeps messages until the channel is there again. What is on its way when the
channel goes is lost. Whatever happens in whatever order, messages arrive in the order in which they were
offered, none of them twice (`run_sublist`), and every message is accounted for (`run_perm`).
-/

variable {α : Type*}

structure Courier (α : Type*) where
  connected : Bool := false
  waiting : List α := []
  way : List α := []
  delivered : List α := []
  lost : List α := []
  refused : List α := []
  deriving DecidableEq

namespace Courier

/-- With a new channel, `replay` goes behind what was waiting. -/
inductive Event (α : Type*)
  | offer (x : α)
  | connect (replay : List α)
  | cut
  | deliver
  deriving DecidableEq

def step (capacity : ℕ) (c : Courier α) : Event α → Courier α
  | .offer x =>
    if c.connected then { c with way := c.way ++ [x] }
    else if c.waiting.length < capacity then { c with waiting := c.waiting ++ [x] }
    else { c with refused := c.refused ++ [x] }
  | .connect replay =>
    { c with connected := true, waiting := [], way := c.waiting ++ replay, lost := c.lost ++ c.way }
  | .cut => { c with connected := false, way := [], lost := c.lost ++ c.way }
  | .deliver =>
    match c.way with
    | x :: way => { c with way := way, delivered := c.delivered ++ [x] }
    | [] => c

/-- The messages that an event offers. -/
def Event.offered : Event α → List α
  | offer x => [x]
  | connect replay => replay
  | _ => []

/-- The messages that are delivered or will be, as far as the channel lasts. -/
def pipeline (c : Courier α) : List α := c.delivered ++ c.way ++ c.waiting

/-- Nothing waits with the channel up, and nothing is on its way without it. -/
structure Sound (c : Courier α) : Prop where
  up : c.connected = true → c.waiting = []
  down : c.connected = false → c.way = []

theorem sound_start : (({} : Courier α)).Sound := ⟨fun _ => rfl, fun _ => rfl⟩

variable (capacity : ℕ) {c : Courier α}

theorem Sound.step (h : c.Sound) (e : Event α) : (c.step capacity e).Sound := by
  cases e with
  | offer x =>
    unfold Courier.step
    dsimp only
    split_ifs with hup
    · exact ⟨h.up, fun hdown => absurd (hup.symm.trans hdown) (by simp)⟩
    · exact ⟨fun hup' => absurd hup' hup, h.down⟩
    · exact ⟨h.up, h.down⟩
  | connect replay => exact ⟨fun _ => rfl, fun hdown => nomatch hdown⟩
  | cut => exact ⟨fun hup => (nomatch hup), fun _ => rfl⟩
  | deliver =>
    unfold Courier.step
    cases hway : c.way with
    | nil => exact h
    | cons x way =>
      refine ⟨h.up, fun hdown => ?_⟩
      exact absurd (hway.symm.trans (h.down hdown)) (List.cons_ne_nil _ _)

/-- What an event offers goes behind what is in the pipeline, of which a part may be lost. -/
theorem pipeline_step (h : c.Sound) (e : Event α) :
    (c.step capacity e).pipeline.Sublist (c.pipeline ++ e.offered) := by
  unfold pipeline
  cases e with
  | offer x =>
    unfold step Event.offered
    dsimp only
    split_ifs with hup
    · rw [h.up hup]
      simp
    · simp
    · exact List.sublist_append_left _ _
  | connect replay =>
    simp [step, Event.offered]
  | cut =>
    simp [step, Event.offered]
  | deliver =>
    unfold step Event.offered
    cases hway : c.way <;> simp [hway]

/-- Every message is somewhere. -/
theorem perm_step (e : Event α) :
    ((c.step capacity e).pipeline ++ ((c.step capacity e).lost ++ (c.step capacity e).refused)).Perm
      (c.pipeline ++ (c.lost ++ c.refused) ++ e.offered) := by
  classical
  rw [List.perm_iff_count]
  intro x
  unfold pipeline
  cases e with
  | offer y =>
    unfold step Event.offered
    dsimp only
    split_ifs <;> simp only [List.count_append] <;> omega
  | connect replay =>
    simp only [step, Event.offered, List.count_append, List.count_nil]
    omega
  | cut =>
    simp only [step, Event.offered, List.count_append, List.count_nil]
    omega
  | deliver =>
    unfold step Event.offered
    cases hway : c.way with
    | nil => simp [hway]
    | cons y way =>
      simp only [List.count_append, List.count_cons, List.count_nil]
      omega

/-! ## Runs -/

/-- All messages that a run offers. -/
def offered (events : List (Event α)) : List α := events.flatMap Event.offered

variable (events : List (Event α))

theorem run_sound (h : c.Sound) : (events.foldl (step capacity) c).Sound :=
  @Run.foldl_invariant _ _ (step capacity) Sound (fun _ _ => True) (fun _ e h _ => h.step capacity e) _ h events
    fun _ _ => trivial

/-- **Order.** What is delivered, on its way and waiting are messages as they were offered, each at most as
often. -/
theorem run_sublist :
    ((events.foldl (step capacity) {}).pipeline).Sublist (offered events) := by
  unfold offered
  induction events using List.reverseRecOn with
  | nil => exact .slnil
  | append_singleton events e ih =>
    rw [List.foldl_concat, List.flatMap_append, List.flatMap_singleton]
    exact (pipeline_step capacity (run_sound capacity events sound_start) e).trans (ih.append_right _)

/-- **Accounts.** Every message is delivered, on its way, waiting, lost or refused. -/
theorem run_perm :
    ((events.foldl (step capacity) {}).pipeline ++
      ((events.foldl (step capacity) {}).lost ++ (events.foldl (step capacity) {}).refused)).Perm
        (offered events) := by
  unfold offered
  induction events using List.reverseRecOn with
  | nil => exact .refl _
  | append_singleton events e ih =>
    rw [List.foldl_concat, List.flatMap_append, List.flatMap_singleton]
    exact (perm_step capacity e).trans (ih.append_right _)

/-- Where nothing is lost and nothing refused, the messages are all there, in order. -/
theorem run_complete (hlost : (events.foldl (step capacity) {}).lost = [])
    (hrefused : (events.foldl (step capacity) {}).refused = []) :
    (events.foldl (step capacity) {}).pipeline = offered events := by
  have hperm := run_perm capacity events
  rw [hlost, hrefused, List.append_nil, List.append_nil] at hperm
  exact (run_sublist capacity events).eq_of_length hperm.length_eq

end Courier
