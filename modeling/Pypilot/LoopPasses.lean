import Pypilot.Registrations

/-!
# Passes that miss nothing

A pass starts every callback that is ready when it begins and is not cancelled meanwhile, whatever the
callbacks do that it starts before: they may register, cancel and run passes of their own, which may serve
the slot first (`pass_starts_ready`). A delay that is not cancelled is so started exactly once, and no
earlier than it is due (`delay_starts_once`), as long as the due times are words of 64 bits.
-/

namespace AsyncEventLoop

open Reentrant

variable {Callback : Type}

/-- A slot that is ready stays so. -/
theorem Slot.ready_mono {slot : Slot Callback} {start now : ℕ} (hready : slot.ready start = true)
    (hnow : start ≤ now) : slot.ready now = true := by
  unfold Slot.ready at hready ⊢
  simp only [Bool.and_eq_true, Bool.or_eq_true, decide_eq_true_eq] at hready ⊢
  exact ⟨hready.1, hready.2.imp_right fun hdue => hdue.trans hnow⟩

theorem mem_startsOf {h : EventHandle} {trace : List (LoopEvent Callback)} {cb : Callback} {now : ℕ} :
    (cb, now) ∈ startsOf h trace ↔ .started h cb now ∈ trace := by
  unfold startsOf
  rw [List.mem_filterMap]
  constructor
  · rintro ⟨e, hmem, he⟩
    cases e with
    | registered | cancelled => exact nomatch he
    | started h' cb' now' =>
      dsimp only at he
      split_ifs at he with hid
      obtain ⟨rfl, rfl⟩ := Prod.mk.inj (Option.some.inj he)
      exact hid ▸ hmem
  · exact fun hmem => ⟨_, hmem, if_pos rfl⟩

namespace Traced

/-! The starts only become more. -/

theorem length_startsOf_append (h : EventHandle) (trace more : List (LoopEvent Callback)) :
    (startsOf h trace).length ≤ (startsOf h (trace ++ more)).length := by
  rw [startsOf_append, List.length_append]
  exact Nat.le_add_right _ _

theorem perform_starts (h : EventHandle) (use : LoopUse Callback) (now : ℕ) (t : Traced Callback) :
    (startsOf h t.trace).length ≤ (startsOf h (perform use now t).trace).length := by
  cases use <;> exact length_startsOf_append h _ _

theorem visit_starts (h : EventHandle) (now : ℕ) (i : Fin maxCallbacks) (t : Traced Callback) :
    (startsOf h t.trace).length ≤ (startsOf h (visit now i t).2.trace).length := by
  unfold visit
  rcases t.loop.visit_cases now i with ⟨cb, -, -, heq⟩ | ⟨-, heq⟩
  · rw [heq]
    exact length_startsOf_append h _ _
  · rw [heq]

/-- A pass serves a slot in use that is ready when it begins. -/
theorem serves {start : ℕ} {i : Fin maxCallbacks} {slot : Slot Callback}
    (hready : slot.ready start = true) (fired : List (Callback × ℕ)) :
    Serves program start i (· ≠ LoopUse.cancel slot.id) (fun t => t.Holds i slot fired)
      fun t => fired.length < (startsOf slot.id t.trace).length where
  served_visit now j t ht := ht.trans_le (visit_starts slot.id now j t)
  served_perform use now t ht := ht.trans_le (perform_starts slot.id use now t)
  own now t ht hnow := by
    obtain ⟨cb, hcb⟩ : ∃ cb, slot.cb = some cb := by
      unfold Slot.ready at hready
      simp only [Bool.and_eq_true] at hready
      exact Option.isSome_iff_exists.mp hready.1.2
    have hstarted := (ht.start hcb (Slot.ready_mono hready hnow)).2.fired_eq
    rw [(slot.fire_spec now).1] at hstarted
    show fired.length < (startsOf slot.id (visit now i t).2.trace).length
    rw [hstarted, List.length_append]
    exact Nat.lt_succ_self _
  other now j t ht _ hj := ht.visit (Slot.active_of_ready hready) (.inl hj)
  perform use now t hcancel ht := ht.perform (Slot.active_of_ready hready) hcancel now

/-- A delay is started at most once, with its callback, and no earlier than it is due. -/
theorem Safe.startsOf_delay {t : Traced Callback} (hs : t.Safe) {h : EventHandle} {cb : Callback}
    {atUs delayUs : ℕ} (hreg : .registered h (some cb) (.timer atUs delayUs 0) ∈ t.trace) :
    startsOf h t.trace = [] ∨
      ∃ now, startsOf h t.trace = [(cb, now)] ∧ atUs + delayUs ≤ now := by
  rcases List.eq_nil_or_concat (startsOf h t.trace) with hnone | ⟨before, ⟨cb', now⟩, hlast⟩
  · exact .inl hnone
  · right
    have hmem : .started h cb' now ∈ t.trace := mem_startsOf.mp (by rw [hlast]; simp)
    obtain ⟨first, second, hsplit⟩ := List.append_of_mem hmem
    obtain ⟨hfresh, reg, hreg', hmay⟩ := hs.starts first second h cb' now hsplit
    have hin : .registered h (some cb') reg ∈ t.trace := by
      rw [hsplit]
      exact List.mem_append_left _ hreg'
    obtain ⟨hcb, rfl⟩ := hs.unique h _ _ _ _ hin hreg
    obtain rfl := Option.some.inj hcb
    -- before and after this start there is none
    have hfirst : startsOf h first = [] := by
      rw [List.eq_nil_iff_forall_not_mem]
      exact fun x hx => hfresh (.inr ⟨⟨_, _, _, hreg'⟩, x.1, x.2, mem_startsOf.mp hx⟩)
    have hsecond : startsOf h second = [] := by
      rw [List.eq_nil_iff_forall_not_mem]
      rintro ⟨cb'', now'⟩ hx
      obtain ⟨third, fourth, hsplit'⟩ := List.append_of_mem (mem_startsOf.mp hx)
      have hagain := hs.starts (first ++ .started h cb' now :: third) fourth h cb'' now'
        (by rw [hsplit, hsplit', List.append_assoc, List.cons_append])
      refine hagain.1 (.inr ⟨⟨_, _, _, List.mem_append_left _ hreg'⟩, cb', now, ?_⟩)
      exact List.mem_append_right _ List.mem_cons_self
    refine ⟨now, ?_, hmay rfl⟩
    rw [hsplit, ← List.singleton_append, startsOf_append, startsOf_append, hfirst, hsecond]
    simp [startsOf]

end Traced

/-! ## Runs -/

theorem startsOf_states (h : EventHandle) (s : State (Traced Callback) (Fin maxCallbacks))
    (moves : List (Move (LoopUse Callback))) :
    ∀ u ∈ Run.states (State.step Traced.program) s moves,
      (startsOf h s.sys.trace).length ≤ (startsOf h u.sys.trace).length :=
  Reentrant.states_invariant (p := Traced.program)
    (I := fun t => (startsOf h s.sys.trace).length ≤ (startsOf h t.trace).length)
    (fun now i t ht => ht.trans (Traced.visit_starts h now i t))
    (fun use now t ht => ht.trans (Traced.perform_starts h use now t)) le_rfl moves

/-- **Passes miss nothing.** After any run of the loop, with uses of the loop and passes nested in any way,
a callback that is ready when a pass begins and is not cancelled has been started when the pass is over. -/
theorem pass_starts_ready (earlier later : List (Move (LoopUse Callback))) (elapsed : ℕ)
    (i : Fin maxCallbacks) :
    let step := State.step (@Traced.program Callback)
    let s := earlier.foldl step ⟨{}, 0, []⟩
    let slot := s.sys.loop.slots.get i
    slot.ready (s.clock + elapsed) = true →
    (∀ elapsed, .perform (.cancel slot.id) elapsed ∉ later) →
      ∀ u ∈ Run.states step (step s (.runOnce elapsed)) later, u.passes.length ≤ s.passes.length →
        (startsOf slot.id s.sys.trace).length < (startsOf slot.id u.sys.trace).length := by
  intro step s slot hready hcancel
  have hsafe : s.sys.Safe := Traced.safe_states earlier s (Run.foldl_mem_states _ _ earlier)
  refine (Traced.serves hready (startsOf slot.id s.sys.trace)).pass (List.mem_finRange i)
    (hsafe.holds i) rfl fun use elapsed hmem heq => hcancel elapsed ?_
  rwa [← heq]

/-- The callback of the timer in the first slot runs a pass of its own, which starts the delay. -/
theorem pass_starts_ready_nested :
    let step := State.step (@Traced.program Bool)
    let s := [.perform (.onRepeatUs 10 (some true)) 0, .perform (.onDelayUs 10 (some false)) 0].foldl step
      ⟨{}, 0, []⟩
    let u := [.runOnce 0, .finish, .finish].foldl step (step s (.runOnce 25))
    ∃ i : Fin maxCallbacks, i.val = 1 ∧ (startsOf (s.sys.loop.slots.get i).id s.sys.trace).length <
      (startsOf (s.sys.loop.slots.get i).id u.sys.trace).length :=
  ⟨⟨1, by decide⟩, rfl, pass_starts_ready
    [.perform (.onRepeatUs 10 (some true)) 0, .perform (.onDelayUs 10 (some false)) 0]
    [.runOnce 0, .finish, .finish] 25 _ (by decide +kernel) (by simp) _ (Run.foldl_mem_states _ _ _)
    (by decide +kernel)⟩

/-- Every due time is a word of 64 bits, as `due_us` is. -/
def EventLoop.Fits (loop : EventLoop Callback) : Prop := ∀ i, (loop.slots.get i).dueUs < 2 ^ 64

instance (loop : EventLoop Callback) : Decidable loop.Fits :=
  inferInstanceAs (Decidable (∀ i, (loop.slots.get i).dueUs < 2 ^ 64))

/-- The slot of a delay is due when the delay is over. -/
theorem Standing.slot_due {delayUs atUs : ℕ} {cb : Option Callback} {h : EventHandle}
    {t : Traced Callback} (ht : Standing (.onDelayUs delayUs cb) h atUs t) {i : Fin maxCallbacks}
    (hact : (t.loop.slots.get i).active = true) (hid : (t.loop.slots.get i).id = h) :
    (t.loop.slots.get i).periodicPoll = false ∧ (t.loop.slots.get i).dueUs = atUs + delayUs := by
  obtain ⟨reg, hmem, hagrees⟩ := ht.safe.known i hact
  rw [hid] at hmem
  obtain ⟨-, rfl⟩ := ht.safe.unique h _ _ _ _ hmem ht.registered
  exact ⟨hagrees.1, hagrees.2.2 rfl⟩

/-- A delay stands in every state of a run that does not cancel it. -/
theorem Standing.delay_states {delayUs atUs : ℕ} {cb : Option Callback} {h : EventHandle}
    {s : State (Traced Callback) (Fin maxCallbacks)} (hs : Standing (.onDelayUs delayUs cb) h atUs s.sys)
    {moves : List (Move (LoopUse Callback))} (hmoves : ∀ elapsed, .perform (.cancel h) elapsed ∉ moves) :
    ∀ v ∈ Run.states (State.step Traced.program) s moves,
      Standing (.onDelayUs delayUs cb) h atUs v.sys := by
  -- a delay is no timer that repeats
  have hdelay : ¬ (LoopUse.onDelayUs delayUs cb).IsRepeatZero := by
    rintro ⟨cb', heq⟩
    exact nomatch heq
  refine Run.states_invariant
    (I := fun v : State (Traced Callback) (Fin maxCallbacks) =>
      Standing (.onDelayUs delayUs cb) h atUs v.sys)
    (C := fun _ move => ∀ elapsed, move ≠ Move.perform (LoopUse.cancel h) elapsed)
    (fun v move hv hmove => (hv.step_iff hmove).mpr fun hzero => hdelay hzero.1) hs ?_
  exact (Run.forall_steps_iff (C := fun move => ∀ elapsed, move ≠ Move.perform (LoopUse.cancel h) elapsed)
    _ s moves).mpr fun move hmem elapsed heq => hmoves elapsed (heq ▸ hmem)

/-- It has been started when a pass that begins when it is due is over. -/
theorem Standing.delay_started {delayUs atUs elapsed : ℕ} {cb : Callback} {h : EventHandle}
    {s : State (Traced Callback) (Fin maxCallbacks)}
    (hs : Standing (.onDelayUs delayUs (some cb)) h atUs s.sys)
    (hdue : atUs + delayUs ≤ s.clock + elapsed) {later : List (Move (LoopUse Callback))}
    (hlater : ∀ elapsed, .perform (.cancel h) elapsed ∉ later)
    {u : State (Traced Callback) (Fin maxCallbacks)}
    (hu : u ∈ Run.states (State.step Traced.program) (s.step Traced.program (.runOnce elapsed)) later)
    (hover : u.passes.length ≤ s.passes.length) :
    startsOf h u.sys.trace ≠ [] := by
  intro hnone
  rcases hs.kept with ⟨i, hact, hid, hcb⟩ | ⟨-, cb', now, hmem⟩
  · obtain ⟨htimer, hdueUs⟩ := hs.slot_due hact hid
    have hready : (s.sys.loop.slots.get i).ready (s.clock + elapsed) = true := by
      unfold Slot.ready
      rw [hact, hcb, htimer, hdueUs]
      exact decide_eq_true hdue
    have hserved := (Traced.serves hready (startsOf (s.sys.loop.slots.get i).id s.sys.trace)).pass
      (List.mem_finRange i) (hs.safe.holds i) rfl
      (fun other elapsed hmem heq => hlater elapsed (by
        rw [← hid, ← heq]
        exact hmem)) u hu hover
    rw [hid, hnone] at hserved
    exact absurd hserved (Nat.not_lt_zero _)
  · have hmono := startsOf_states h s (.runOnce elapsed :: later) u (List.mem_cons_of_mem _ hu)
    rw [hnone, List.length_nil, Nat.le_zero, List.length_eq_zero_iff] at hmono
    exact absurd (mem_startsOf.mpr hmem) (hmono ▸ List.not_mem_nil)

/-- **Delays.** In a run whose due times are all words, a delay that is not cancelled is started exactly
once, at the latest by the first pass that is over and had begun when it was due, and no earlier than it
is due, which is at the sum of words that `add_timer` computes. -/
theorem delay_starts_once (earlier between later : List (Move (LoopUse Callback))) (delayUs : ℕ)
    (cb : Callback) (elapsed elapsed' : ℕ) :
    let step := State.step (@Traced.program Callback)
    let use : LoopUse Callback := .onDelayUs delayUs (some cb)
    let s₀ := earlier.foldl step ⟨{}, 0, []⟩
    let h := use.handle (s₀.clock + elapsed) s₀.sys.loop
    let s := between.foldl step (step s₀ (.perform use elapsed))
    let dueUs := (BitVec.ofNat 64 (s₀.clock + elapsed) + BitVec.ofNat 64 delayUs).toNat
    h ≠ 0 → (∀ elapsed, .perform (.cancel h) elapsed ∉ between ++ later) →
    (∀ v ∈ Run.states step ⟨{}, 0, []⟩
      (earlier ++ .perform use elapsed :: between ++ .runOnce elapsed' :: later), v.sys.loop.Fits) →
    dueUs ≤ s.clock + elapsed' →
      ∀ u ∈ Run.states step (step s (.runOnce elapsed')) later, u.passes.length ≤ s.passes.length →
        ∃ now, startsOf h u.sys.trace = [(cb, now)] ∧ dueUs ≤ now := by
  intro step use s₀ h s dueUs hroom hcancel hfits hdue u hu hover
  have hsafe₀ : s₀.sys.Safe := Traced.safe_states earlier s₀ (Run.foldl_mem_states _ _ earlier)
  obtain ⟨hreg, i₀, hact₀, hid₀, hcb₀⟩ := s₀.sys.perform_kept use (s₀.clock + elapsed) hroom
  have hstart : Standing use h (s₀.clock + elapsed) (step s₀ (.perform use elapsed)).sys :=
    ⟨hsafe₀.perform use _, hreg, .inl ⟨i₀, hact₀, hid₀, hcb₀⟩⟩
  have hword : dueUs = s₀.clock + elapsed + delayUs := by
    refine Periodic.toNat_ofNat_add ?_
    rw [← (hstart.slot_due hact₀ hid₀).2]
    refine hfits _ ?_ i₀
    have hmem := Run.foldl_mem_states_append step ⟨{}, 0, []⟩ (earlier ++ [.perform use elapsed])
      (between ++ .runOnce elapsed' :: later)
    rw [List.foldl_concat, List.append_assoc, List.singleton_append, ← List.cons_append] at hmem
    rwa [List.append_assoc]
  rw [hword] at hdue ⊢
  have hbetween : ∀ elapsed, .perform (.cancel h) elapsed ∉ between :=
    fun elapsed hmem => hcancel elapsed (List.mem_append_left _ hmem)
  have hlater : ∀ elapsed, .perform (.cancel h) elapsed ∉ later :=
    fun elapsed hmem => hcancel elapsed (List.mem_append_right _ hmem)
  have hpass : ∀ elapsed, .perform (.cancel h) elapsed ∉ .runOnce elapsed' :: later := by
    intro elapsed hmem
    rcases List.mem_cons.mp hmem with heq | hmem
    · exact nomatch heq
    · exact hlater elapsed hmem
  have hs : Standing use h (s₀.clock + elapsed) s.sys :=
    hstart.delay_states hbetween s (Run.foldl_mem_states _ _ between)
  have hend := hs.delay_states hpass u (List.mem_cons_of_mem _ hu)
  rcases hend.safe.startsOf_delay hend.registered with hnone | honce
  · exact absurd hnone (hs.delay_started hdue hlater hu hover)
  · exact honce

/-- A delay of ten milliseconds among passes that come too early and one that comes late. -/
theorem delay_starts_once_late :
    let step := State.step (@Traced.program Bool)
    let s := [.runOnce 4000, .runOnce 4000].foldl step
      (step ⟨{}, 0, []⟩ (.perform (.onDelayUs 10000 (some true)) 0))
    let u := [.finish].foldl step (step s (.runOnce 4000))
    ∃ now, startsOf 1 u.sys.trace = [(true, now)] ∧ 10000 ≤ now :=
  delay_starts_once [] [.runOnce 4000, .runOnce 4000] [.finish] 10000 true 0 4000 (by decide) (by simp)
    (by decide +kernel) (by decide +kernel) _ (Run.foldl_mem_states _ _ _) (by decide +kernel)

end AsyncEventLoop
