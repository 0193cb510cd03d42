import Pypilot.RepeatingTimers

/-!
# Registrations that are lost

A registration stays in its slot until its handle is cancelled, and that of a delay until it is started.
The loop knows a delay by its period 0, which a repeating timer may have as well: that one is freed by the
first pass that starts it, and no other registration is ever lost (`registration_stays_iff`).
-/

namespace AsyncEventLoop

open Reentrant

variable {Callback : Type}

namespace LoopUse

/-- `on_repeat`, in milliseconds. -/
def onRepeat (periodMs : ℕ) (cb : Option Callback) : LoopUse Callback :=
  .onRepeatUs (periodMs * 1000) cb

/-- What the use returns; 0 for no handle. -/
def handle (now : ℕ) (loop : EventLoop Callback) : LoopUse Callback → EventHandle
  | onDelayUs delayUs cb => (loop.onDelayUs delayUs now cb).1
  | onRepeatUs periodUs cb => (loop.onRepeatUs periodUs now cb).1
  | onBytesReady cb => (loop.onBytesReady cb).1
  | cancel _ => 0

def callback : LoopUse Callback → Option Callback
  | onDelayUs _ cb => cb
  | onRepeatUs _ cb => cb
  | onBytesReady cb => some cb
  | cancel _ => none

/-- What a use that is given a handle is registered as. -/
def registration (now : ℕ) : LoopUse Callback → Registration
  | onDelayUs delayUs _ => .timer now delayUs 0
  | onRepeatUs periodUs _ => .timer now periodUs periodUs
  | onBytesReady _ => .poll
  | cancel _ => .poll

def IsDelay (use : LoopUse Callback) : Prop := ∃ delayUs cb, use = .onDelayUs delayUs cb

def IsRepeatZero (use : LoopUse Callback) : Prop := ∃ cb, use = .onRepeatUs 0 cb

theorem onRepeat_isRepeatZero {periodMs : ℕ} {cb : Option Callback} :
    (onRepeat periodMs cb).IsRepeatZero ↔ periodMs = 0 := by
  constructor
  · rintro ⟨cb', heq⟩
    have := (onRepeatUs.inj heq).1
    omega
  · rintro rfl
    exact ⟨cb, rfl⟩

end LoopUse

/-- The callback is in an active slot under the handle. -/
def EventLoop.InUse (loop : EventLoop Callback) (h : EventHandle) (cb : Option Callback) : Prop :=
  ∃ i, (loop.slots.get i).active = true ∧ (loop.slots.get i).id = h ∧ (loop.slots.get i).cb = cb

/-- The registration is in its slot, or it was for a delay and has been started. -/
def Traced.Kept (t : Traced Callback) (use : LoopUse Callback) (h : EventHandle) : Prop :=
  t.loop.InUse h use.callback ∨ use.IsDelay ∧ Started t.trace h

/-- The pass that a move begins or goes on with. -/
def passOf (s : State (Traced Callback) (Fin maxCallbacks)) :
    Move (LoopUse Callback) → Option (Pass (Fin maxCallbacks))
  | .perform _ _ => none
  | .runOnce elapsed => some ⟨s.clock + elapsed, List.finRange maxCallbacks⟩
  | .finish => s.passes.head?

/-- The slot of the handle is the first that is ready among those the pass has still to visit. -/
def Reaches (s : State (Traced Callback) (Fin maxCallbacks)) (move : Move (LoopUse Callback))
    (h : EventHandle) : Prop :=
  ∃ pass, passOf s move = some pass ∧
    ∃ i, pass.rest.find? (fun i => (s.sys.loop.slots.get i).ready pass.now) = some i ∧
      (s.sys.loop.slots.get i).id = h

/-! ## One step -/

/-- Only the slot of a timer with period 0 is freed when its callback is started. -/
theorem Slot.fire_active {slot : Slot Callback} (hact : slot.active = true) (now : ℕ)
    (hlasts : slot.periodUs = 0 → slot.periodicPoll = true) : (slot.fire now).active = true := by
  unfold Slot.fire
  split_ifs with honce htimer
  · rw [hlasts honce.1] at honce
    exact absurd honce.2 (by decide)
  · exact hact
  · exact hact

namespace Traced

/-! The trace only grows. -/

theorem mem_perform_trace {t : Traced Callback} {e : LoopEvent Callback} (hmem : e ∈ t.trace)
    (use : LoopUse Callback) (now : ℕ) : e ∈ (perform use now t).trace := by
  cases use <;> exact List.mem_append_left _ hmem

theorem mem_visit_trace {t : Traced Callback} {e : LoopEvent Callback} (hmem : e ∈ t.trace)
    (now : ℕ) (i : Fin maxCallbacks) : e ∈ (visit now i t).2.trace := by
  unfold visit
  rcases t.loop.visit_cases now i with ⟨cb, -, -, heq⟩ | ⟨-, heq⟩
  · rw [heq]
    exact List.mem_append_left _ hmem
  · rw [heq]
    exact hmem

/-- A pass stops at the first slot that is ready. -/
theorem scan_cases (now : ℕ) (rest : List (Fin maxCallbacks)) (t : Traced Callback) :
    (∃ i, rest.find? (fun i => (t.loop.slots.get i).ready now) = some i ∧
        (Reentrant.scan program now rest t).2 = (visit now i t).2) ∨
      rest.find? (fun i => (t.loop.slots.get i).ready now) = none ∧
        (Reentrant.scan program now rest t).2 = t := by
  induction rest with
  | nil => exact .inr ⟨rfl, rfl⟩
  | cons i rest ih =>
    rw [List.find?_cons, Reentrant.scan]
    rcases t.loop.visit_cases now i with ⟨cb, -, hready, heq⟩ | ⟨hready, heq⟩
    · have hstarted : (program.visit now i t).1 = true := by
        show (visit now i t).1 = true
        unfold visit
        rw [heq]
      rw [if_pos hstarted, hready]
      exact .inl ⟨i, rfl, rfl⟩
    · have hsame : program.visit now i t = (false, t) := by
        show visit now i t = (false, t)
        unfold visit
        rw [heq]
      rw [hsame, if_neg Bool.false_ne_true, hready]
      exact ih

theorem Safe.holds {t : Traced Callback} (hs : t.Safe) (i : Fin maxCallbacks) :
    t.Holds i (t.loop.slots.get i) (startsOf (t.loop.slots.get i).id t.trace) := ⟨hs, rfl, rfl⟩

section Kept

variable {t : Traced Callback} {use : LoopUse Callback} {h : EventHandle} {atUs : ℕ}
  (hs : t.Safe) (hkept : t.Kept use h)

include hs hkept

theorem Kept.perform {other : LoopUse Callback} (hcancel : other ≠ .cancel h) (now : ℕ) :
    (perform other now t).Kept use h := by
  rcases hkept with ⟨i, hact, rfl, hcb⟩ | ⟨hdelay, cb, reading, hmem⟩
  · have hheld : t.Holds i (t.loop.slots.get i) (startsOf (t.loop.slots.get i).id t.trace) :=
      ⟨hs, rfl, rfl⟩
    have hsame := (hheld.perform hact hcancel now).slot_eq
    refine .inl ⟨i, ?_⟩
    rw [hsame]
    exact ⟨hact, rfl, hcb⟩
  · exact .inr ⟨hdelay, cb, reading, mem_perform_trace hmem other now⟩

/-- The start of another callback. -/
theorem Kept.visit_other {now : ℕ} {i : Fin maxCallbacks} (hne : (t.loop.slots.get i).id ≠ h) :
    (visit now i t).2.Kept use h := by
  rcases hkept with ⟨j, hact, rfl, hcb⟩ | ⟨hdelay, cb, reading, hmem⟩
  · have hij : i ≠ j := by
      rintro rfl
      exact hne rfl
    have hsame : (visit now i t).2.loop.slots.get j = t.loop.slots.get j :=
      ((hs.holds j).visit hact (.inl hij)).slot_eq
    refine .inl ⟨j, ?_⟩
    rw [hsame]
    exact ⟨hact, rfl, hcb⟩
  · exact .inr ⟨hdelay, cb, reading, mem_visit_trace hmem now i⟩

omit hkept

/-- The start of the callback itself. -/
theorem Safe.visit_own (hreg : .registered h use.callback (use.registration atUs) ∈ t.trace)
    {now : ℕ} {i : Fin maxCallbacks} (hready : (t.loop.slots.get i).ready now = true)
    (hid : (t.loop.slots.get i).id = h) :
    (Traced.visit now i t).2.Kept use h ↔ ¬ use.IsRepeatZero := by
  have hact := Slot.active_of_ready hready
  -- the slot holds what was registered under the handle
  obtain ⟨reg, hmem, hagrees⟩ := hs.known i hact
  rw [hid] at hmem
  obtain ⟨hcb, rfl⟩ := hs.unique h _ _ _ _ hmem hreg
  have hsafe := hs.visit now i
  obtain ⟨hslotid, hkeeps, -⟩ := (t.loop.slots.get i).fire_spec now
  unfold Traced.visit at hsafe ⊢
  rcases t.loop.visit_cases now i with ⟨cb, -, -, heq⟩ | ⟨hnot, -⟩
  · rw [heq] at hsafe ⊢
    dsimp only at hsafe ⊢
    have hstarted : Started (t.trace ++ [.started (t.loop.slots.get i).id cb now]) h :=
      ⟨cb, now, List.mem_append_right _ (List.mem_singleton.mpr (by rw [hid]))⟩
    have hlasts (hperiod : (t.loop.slots.get i).periodUs = 0 →
        (t.loop.slots.get i).periodicPoll = true) :
        Traced.Kept ⟨{ t.loop with slots := t.loop.slots.set i ((t.loop.slots.get i).fire now) },
          t.trace ++ [.started (t.loop.slots.get i).id cb now]⟩ use h := by
      have hfired := Slot.fire_active hact now hperiod
      refine .inl ⟨i, ?_⟩
      rw [List.Vector.get_set_same]
      exact ⟨hfired, hslotid.trans hid, (hkeeps hfired).1.trans hcb⟩
    cases use with
    | onDelayUs delayUs cb' =>
      refine iff_of_true (.inr ⟨⟨delayUs, cb', rfl⟩, hstarted⟩) ?_
      rintro ⟨_, heq⟩
      cases heq
    | onRepeatUs periodUs cb' =>
      by_cases hzero : periodUs = 0
      · -- the handle is spent
        subst hzero
        refine iff_of_false ?_ (not_not.mpr ⟨cb', rfl⟩)
        rintro (⟨j, hactj, hidj, -⟩ | ⟨⟨_, _, heq⟩, -⟩)
        · refine hsafe.spent h (.inr ⟨⟨cb', atUs, 0, ?_⟩, hstarted⟩) j hactj hidj
          exact List.mem_append_left _ hreg
        · cases heq
      · refine iff_of_true (hlasts fun h0 => absurd (hagrees.2.1.symm.trans h0) hzero) ?_
        rintro ⟨_, heq⟩
        exact hzero (LoopUse.onRepeatUs.inj heq).1
    | onBytesReady cb' =>
      refine iff_of_true (hlasts fun _ => hagrees) ?_
      rintro ⟨_, heq⟩
      cases heq
    | cancel h' =>
      refine iff_of_true (hlasts fun _ => hagrees) ?_
      rintro ⟨_, heq⟩
      cases heq
  · rw [hready] at hnot
    exact absurd hnot (by decide)

end Kept

/-- A use that is given a handle is registered under it. -/
theorem perform_kept (t : Traced Callback) (use : LoopUse Callback) (now : ℕ)
    (hroom : use.handle now t.loop ≠ 0) :
    .registered (use.handle now t.loop) use.callback (use.registration now) ∈
        (perform use now t).trace ∧
      (perform use now t).loop.InUse (use.handle now t.loop) use.callback := by
  have hadd : ∀ (fill : Slot Callback → Slot Callback) (cb : Option Callback) (reg : Registration),
      (∀ slot, (fill slot).cb = cb) → (t.loop.add fill).1 ≠ 0 →
      .registered (t.loop.add fill).1 cb reg ∈ (t.register (t.loop.add fill) cb reg).trace ∧
        (t.register (t.loop.add fill) cb reg).loop.InUse (t.loop.add fill).1 cb := by
    intro fill cb reg hcb hne
    unfold register
    rw [if_neg hne]
    refine ⟨List.mem_append_right _ (List.mem_singleton_self _), ?_⟩
    rcases t.loop.add_cases fill with ⟨i, -, heq⟩ | ⟨-, heq⟩
    · refine ⟨i, ?_⟩
      rw [heq]
      dsimp only
      rw [List.Vector.get_set_same]
      exact ⟨rfl, rfl, hcb _⟩
    · rw [heq] at hne
      exact absurd rfl hne
  cases use with
  | onDelayUs delayUs cb => exact hadd _ cb (.timer now delayUs 0) (fun _ => rfl) hroom
  | onRepeatUs periodUs cb => exact hadd _ cb (.timer now periodUs periodUs) (fun _ => rfl) hroom
  | onBytesReady cb => exact hadd _ (some cb) .poll (fun _ => rfl) hroom
  | cancel h => exact absurd rfl hroom

end Traced

/-! ## Runs -/

/-- A registration that is kept. -/
structure Standing (use : LoopUse Callback) (h : EventHandle) (atUs : ℕ) (t : Traced Callback) :
    Prop where
  safe : t.Safe
  registered : .registered h use.callback (use.registration atUs) ∈ t.trace
  kept : t.Kept use h

section Standing

variable {use : LoopUse Callback} {h : EventHandle} {atUs : ℕ}

theorem Standing.perform {t : Traced Callback} (ht : Standing use h atUs t)
    {other : LoopUse Callback} (hcancel : other ≠ .cancel h) (now : ℕ) :
    Standing use h atUs (Traced.perform other now t) where
  safe := ht.safe.perform other now
  registered := Traced.mem_perform_trace ht.registered other now
  kept := ht.kept.perform ht.safe hcancel now

/-- A visit to a slot that is ready. -/
theorem Standing.visit_iff {t : Traced Callback} (ht : Standing use h atUs t) {now : ℕ}
    {i : Fin maxCallbacks} (hready : (t.loop.slots.get i).ready now = true) :
    Standing use h atUs (Traced.visit now i t).2 ↔
      ¬ (use.IsRepeatZero ∧ (t.loop.slots.get i).id = h) := by
  have hreg := Traced.mem_visit_trace ht.registered now i
  have hiff : Standing use h atUs (Traced.visit now i t).2 ↔ (Traced.visit now i t).2.Kept use h :=
    ⟨Standing.kept, fun hkept => ⟨ht.safe.visit now i, hreg, hkept⟩⟩
  rw [hiff]
  by_cases hid : (t.loop.slots.get i).id = h
  · rw [and_iff_left hid]
    exact ht.safe.visit_own ht.registered hready hid
  · exact iff_of_true (ht.kept.visit_other ht.safe hid) fun hlost => hid hlost.2

/-- The rest of a pass. -/
theorem Standing.scan_iff {t : Traced Callback} (ht : Standing use h atUs t) (now : ℕ)
    (rest : List (Fin maxCallbacks)) :
    Standing use h atUs (scan Traced.program now rest t).2 ↔
      ¬ (use.IsRepeatZero ∧
        ∃ i, rest.find? (fun i => (t.loop.slots.get i).ready now) = some i ∧
          (t.loop.slots.get i).id = h) := by
  rcases t.scan_cases now rest with ⟨i, hfind, heq⟩ | ⟨hfind, heq⟩
  · have hready := @List.find?_some _ (fun i => (t.loop.slots.get i).ready now) i rest hfind
    rw [heq, ht.visit_iff hready, hfind]
    simp only [Option.some.injEq, exists_eq_left']
  · rw [heq, hfind]
    refine iff_of_true ht ?_
    rintro ⟨-, i, hnone, -⟩
    exact nomatch hnone

/-- **One move.** -/
theorem Standing.step_iff {s : State (Traced Callback) (Fin maxCallbacks)}
    (hs : Standing use h atUs s.sys) {move : Move (LoopUse Callback)}
    (hcancel : ∀ elapsed, move ≠ .perform (.cancel h) elapsed) :
    Standing use h atUs (s.step Traced.program move).sys ↔
      ¬ (use.IsRepeatZero ∧ Reaches s move h) := by
  cases move with
  | perform other elapsed =>
    have hother : other ≠ .cancel h := fun heq => hcancel elapsed (by rw [heq])
    refine iff_of_true (hs.perform hother _) ?_
    rintro ⟨-, pass, hnone, -⟩
    exact nomatch hnone
  | runOnce elapsed =>
    have hscan := hs.scan_iff (s.clock + elapsed) (List.finRange maxCallbacks)
    unfold Reaches passOf
    simp only [Option.some.injEq, exists_eq_left']
    exact hscan
  | finish =>
    unfold Reaches passOf State.step
    cases hpasses : s.passes with
    | nil =>
      refine iff_of_true hs ?_
      rintro ⟨-, pass, hnone, -⟩
      exact nomatch hnone
    | cons pass passes =>
      have hscan := hs.scan_iff pass.now pass.rest
      simp only [List.head?_cons, Option.some.injEq, exists_eq_left']
      exact hscan

end Standing

/-- **Registrations are kept but for one kind.** After any run of the loop something is registered, and as
long as its handle is not cancelled, with uses of the loop and passes nested in any way: it is in an active
slot in every state, or was for a delay and has been started, exactly when no pass reaches it while it is
due as a timer that was to repeat with period 0. -/
theorem registration_stays_iff (earlier later : List (Move (LoopUse Callback)))
    (use : LoopUse Callback) (elapsed : ℕ) :
    let step := State.step (@Traced.program Callback)
    let s₀ := earlier.foldl step ⟨{}, 0, []⟩
    let h := use.handle (s₀.clock + elapsed) s₀.sys.loop
    let s₁ := step s₀ (.perform use elapsed)
    h ≠ 0 → (∀ elapsed, .perform (.cancel h) elapsed ∉ later) →
      ((∀ s ∈ Run.states step s₁ later,
          s.sys.loop.InUse h use.callback ∨ use.IsDelay ∧ Started s.sys.trace h) ↔
        ∀ q ∈ Run.steps step s₁ later, ¬ (use.IsRepeatZero ∧ Reaches q.1 q.2 h)) := by
  intro step s₀ h s₁ hroom hcancel
  have hsafe : s₀.sys.Safe := Traced.safe_states earlier s₀ (Run.foldl_mem_states _ _ earlier)
  obtain ⟨hreg, huse⟩ := s₀.sys.perform_kept use (s₀.clock + elapsed) hroom
  have hstart : Standing use h (s₀.clock + elapsed) s₁.sys :=
    ⟨hsafe.perform use _, hreg, .inl huse⟩
  have hrun := Run.states_invariant_iff_of
    (I := fun s : State (Traced Callback) (Fin maxCallbacks) => Standing use h (s₀.clock + elapsed) s.sys)
    (C := fun s move => ¬ (use.IsRepeatZero ∧ Reaches s move h))
    (D := fun move => ∀ elapsed, move ≠ .perform (.cancel h) elapsed)
    (fun s move hs hmove => hs.step_iff hmove) hstart
    (fun move hmem elapsed heq => hcancel elapsed (heq ▸ hmem))
  rw [← hrun]
  refine ⟨fun hkept s hmem => ?_, fun hall s hmem => (hall s hmem).kept⟩
  obtain ⟨hsafe', hreg'⟩ := Reentrant.states_invariant (p := Traced.program)
    (I := fun t : Traced Callback => t.Safe ∧
      .registered h use.callback (use.registration (s₀.clock + elapsed)) ∈ t.trace)
    (fun now i t ht => ⟨ht.1.visit now i, Traced.mem_visit_trace ht.2 now i⟩)
    (fun other now t ht => ⟨ht.1.perform other now, Traced.mem_perform_trace ht.2 other now⟩)
    (s := s₁) ⟨hstart.safe, hreg⟩ later s hmem
  exact ⟨hsafe', hreg', hkept s hmem⟩

/-- Ten milliseconds, over a pass that comes after them. -/
theorem registration_stays_ten :
    let step := State.step (@Traced.program Unit)
    let use : LoopUse Unit := .onRepeat 10 (some ())
    let s := [.runOnce 25000].foldl step (step ⟨{}, 0, []⟩ (.perform use 0))
    s.sys.loop.InUse (use.handle 0 {}) use.callback := by
  intro step use s
  have hstays := registration_stays_iff [] [.runOnce 25000] use 0 (by decide) (by simp)
  have hkept := hstays.mpr fun q _ hlost => absurd (LoopUse.onRepeat_isRepeatZero.mp hlost.1) (by decide)
  rcases hkept s (Run.foldl_mem_states _ _ _) with huse | ⟨⟨delayUs, cb, heq⟩, -⟩
  · exact huse
  · exact nomatch heq

/-- Zero milliseconds: the first pass frees the slot. -/
theorem repeat_zero_lost :
    let use : LoopUse Unit := .onRepeat 0 (some ())
    let s := [.perform use 0, .runOnce 0].foldl (State.step Traced.program) ⟨{}, 0, []⟩
    use.handle 0 {} = 1 ∧ ¬ s.sys.loop.InUse 1 use.callback := by
  intro use s
  refine ⟨by decide, ?_⟩
  rintro ⟨i, hact, -⟩
  have hfree : ∀ i, (s.sys.loop.slots.get i).active = false := by decide +kernel
  rw [hfree i] at hact
  exact absurd hact (by decide)

end AsyncEventLoop
