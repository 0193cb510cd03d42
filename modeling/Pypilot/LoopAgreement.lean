import Pypilot.LoopRuns
import Pypilot.SyslibLoop

/-!
# The two event loops agree

As long as no more than 32 timers are in use, the larger loop keeps them in its first 32 slots, where the
smaller one keeps the same: both give the same handles and start the same callbacks (`loops_agree`).
-/

namespace Pypilot

open AsyncEventLoop SlotTable

variable {Callback : Type}

/-- What callers can do with either loop. Callbacks are not empty. -/
inductive TimerUse (Callback : Type)
  | callLaterUs (delayUs : ℕ) (cb : Callback)
  | callEveryUs (periodUs : ℕ) (cb : Callback)
  | cancel (h : ℤ)

/-- What callers see of a loop. -/
inductive Observation (Callback : Type)
  | returned (h : ℤ)
  | started (h : ℤ) (cb : Callback) (now : ℕ)
  deriving DecidableEq

/-- A loop with what has been seen of it. -/
structure Watched (L Callback : Type) where
  loop : L
  seen : List (Observation Callback) := []

namespace Watched

variable {L : Type}

def returns (w : Watched L Callback) (result : ℤ × L) : Watched L Callback :=
  ⟨result.2, w.seen ++ [.returned result.1]⟩

/-- A visit, and whether it has started a callback. -/
def starts (w : Watched L Callback) (now : ℕ) (result : Option (ℤ × Callback) × L) :
    Bool × Watched L Callback :=
  match result with
  | (some (h, cb), loop) => (true, ⟨loop, w.seen ++ [.started h cb now]⟩)
  | (none, loop) => (false, ⟨loop, w.seen⟩)

end Watched

def asyncProgram : Reentrant.Program (Watched (AsyncEventLoop.EventLoop Callback) Callback)
    (Fin maxCallbacks) (TimerUse Callback) where
  slots := List.finRange maxCallbacks
  perform use now w :=
    match use with
    | .callLaterUs delayUs cb => w.returns (w.loop.onDelayUs delayUs now (some cb))
    | .callEveryUs periodUs cb => w.returns (w.loop.onRepeatUs periodUs now (some cb))
    | .cancel h => { w with loop := w.loop.cancel h }
  visit now i w := w.starts now (w.loop.visit now i)

def syslibProgram : Reentrant.Program (Watched (Syslib.EventLoop Callback) Callback)
    (Fin Syslib.maxTimers) (TimerUse Callback) where
  slots := List.finRange Syslib.maxTimers
  perform use now w :=
    match use with
    | .callLaterUs delayUs cb => w.returns (w.loop.callLaterUs delayUs now (some cb))
    | .callEveryUs periodUs cb => w.returns (w.loop.callEveryUs periodUs now (some cb))
    | .cancel h => { w with loop := w.loop.cancel h }
  visit now i w := w.starts now (w.loop.visit now i)

/-- The slots in use. -/
def activeTimers (loop : AsyncEventLoop.EventLoop Callback) : ℕ :=
  loop.slots.toList.countP Slot.active

/-! ## The same timers -/

/-- The slot that holds a timer. -/
def slotOf (timer : Syslib.Timer Callback) : Slot Callback :=
  ⟨timer.active, false, timer.id, timer.dueUs, timer.periodUs, timer.callback⟩

/-- The first slots of the larger loop hold the timers of the smaller one, and the others are free. -/
structure SameTimers (a : AsyncEventLoop.EventLoop Callback) (b : Syslib.EventLoop Callback) :
    Prop where
  next : a.nextId = b.nextId
  next_pos : 0 < b.nextId
  sound : ∀ timer ∈ b.timers.toList, timer.active = true →
    0 < timer.id ∧ timer.callback.isSome = true
  slots : ∃ upper, a.slots.toList = b.timers.toList.map slotOf ++ upper ∧
    ∀ slot ∈ upper, slot.active = false

theorem sameTimers_start :
    SameTimers ({} : AsyncEventLoop.EventLoop Callback) ({} : Syslib.EventLoop Callback) where
  next := rfl
  next_pos := Int.one_pos
  sound := by
    intro timer htimer hact
    rw [List.eq_of_mem_replicate htimer] at hact
    exact absurd hact Bool.false_ne_true
  slots := by
    refine ⟨List.replicate 32 {}, rfl, fun slot hslot => ?_⟩
    rw [List.eq_of_mem_replicate hslot]

section Steps

variable {a : AsyncEventLoop.EventLoop Callback} {b : Syslib.EventLoop Callback}
  (h : SameTimers a b)

include h

theorem SameTimers.cancel (id : ℤ) : SameTimers (a.cancel id) (b.cancel id) := by
  obtain ⟨upper, hslots, hfree⟩ := h.slots
  have hsound : ∀ timer ∈ (b.cancel id).timers.toList, timer.active = true →
      0 < timer.id ∧ timer.callback.isSome = true := by
    intro timer htimer hact
    rcases mem_updateFirst htimer with htimer | ⟨old, -, -, rfl⟩
    · exact h.sound timer htimer hact
    · exact absurd hact Bool.false_ne_true
  by_cases hany : (b.timers.toList.any fun timer => timer.active && decide (timer.id = id)) = true
  · obtain ⟨timer, htimer, hheld⟩ := List.any_eq_true.mp hany
    rw [Bool.and_eq_true, decide_eq_true_eq] at hheld
    have hpos : ¬ id ≤ 0 := by
      have := (h.sound timer htimer hheld.1).1
      omega
    have hcancel : (a.cancel id).slots.toList = (b.cancel id).timers.toList.map slotOf ++ upper := by
      unfold AsyncEventLoop.EventLoop.cancel
      rw [if_neg hpos]
      dsimp only
      rw [update_toList, hslots, updateFirst_append_left (by rw [List.any_map]; exact hany),
        updateFirst_map (g := slotOf) (f := fun timer : Syslib.Timer Callback =>
          { timer with active := false, callback := none }) fun _ => rfl]
      rfl
    refine ⟨?_, h.next_pos, hsound, upper, hcancel, hfree⟩
    unfold AsyncEventLoop.EventLoop.cancel
    rw [if_neg hpos]
    exact h.next
  · have hnone : (b.timers.toList.any fun timer => timer.active && decide (timer.id = id)) = false := by
      simpa using hany
    have hb : b.cancel id = b := by
      unfold Syslib.EventLoop.cancel
      have htimers : update (fun timer : Syslib.Timer Callback =>
          timer.active && decide (timer.id = id))
          (fun timer => { timer with active := false, callback := none }) b.timers = b.timers :=
        List.Vector.toList_injective (updateFirst_eq_self hnone)
      rw [htimers]
    have ha : a.cancel id = a := by
      unfold AsyncEventLoop.EventLoop.cancel
      split_ifs
      · rfl
      · have hslots' : update (fun slot : Slot Callback => slot.active && decide (slot.id = id))
            (fun slot => { slot with active := false, cb := none }) a.slots = a.slots := by
          refine List.Vector.toList_injective (updateFirst_eq_self ?_)
          rw [hslots, List.any_append, List.any_map, Bool.or_eq_false_iff]
          refine ⟨hnone, List.any_eq_false.mpr fun slot hslot => ?_⟩
          rw [hfree slot hslot]
          exact Bool.false_ne_true
        rw [hslots']
    rw [ha, hb]
    exact h

/-- A timer is added to both, unless it is one too many for the smaller loop. -/
theorem SameTimers.addTimer (delayUs periodUs now : ℕ) (cb : Callback)
    (hroom : activeTimers (a.addTimer delayUs periodUs now (some cb)).2 ≤ Syslib.maxTimers) :
    (a.addTimer delayUs periodUs now (some cb)).1 =
        (b.addTimer delayUs periodUs now (some cb)).1 ∧
      SameTimers (a.addTimer delayUs periodUs now (some cb)).2
        (b.addTimer delayUs periodUs now (some cb)).2 := by
  obtain ⟨upper, hslots, hfree⟩ := h.slots
  have hlen : upper.length = 32 := by
    have hlength := congrArg List.length hslots
    rw [List.length_append, List.length_map, List.Vector.toList_length,
      List.Vector.toList_length] at hlength
    have hsizes : 64 = 32 + upper.length := hlength
    omega
  have hupper : (upper.any fun slot => !slot.active) = true := by
    obtain ⟨slot, rest, rfl⟩ := List.exists_cons_of_length_pos (by omega : 0 < upper.length)
    simp [hfree slot List.mem_cons_self]
  have hany : (a.slots.toList.any fun slot => !slot.active) = true := by
    rw [hslots, List.any_append, hupper, Bool.or_true]
  unfold AsyncEventLoop.EventLoop.addTimer AsyncEventLoop.EventLoop.add at hroom ⊢
  unfold Syslib.EventLoop.addTimer
  dsimp only at hroom ⊢
  rw [if_pos hany] at hroom ⊢
  by_cases hlower : (b.timers.toList.any fun timer => !timer.active) = true
  · rw [if_pos hlower]
    refine ⟨h.next, congrArg (· + 1) h.next, Int.lt_add_one_of_le h.next_pos.le, ?_, upper, ?_, hfree⟩
    · intro timer htimer hact
      rcases mem_updateFirst htimer with htimer | ⟨old, -, -, rfl⟩
      · exact h.sound timer htimer hact
      · exact ⟨h.next_pos, rfl⟩
    · dsimp only
      rw [update_toList, hslots, updateFirst_append_left (by rw [List.any_map]; exact hlower),
        updateFirst_map (g := slotOf) (f := fun _ : Syslib.Timer Callback =>
          ⟨true, b.nextId, now + delayUs, periodUs, some cb⟩) fun _ => by rw [h.next]; rfl]
      rfl
  · -- the first 32 slots are in use, and one more is taken
    exfalso
    have hfull : (b.timers.toList.any fun timer => !timer.active) = false := by simpa using hlower
    unfold activeTimers at hroom
    dsimp only at hroom
    rw [update_toList, hslots, updateFirst_append_right (by rw [List.any_map]; exact hfull),
      List.countP_append] at hroom
    have hcount : (b.timers.toList.map slotOf).countP Slot.active = 32 := by
      have hall : ∀ slot ∈ b.timers.toList.map slotOf, slot.active = true := by
        intro slot hslot
        obtain ⟨timer, htimer, rfl⟩ := List.mem_map.mp hslot
        have hact := List.any_eq_false.mp hfull timer htimer
        show timer.active = true
        simpa using hact
      rw [List.countP_eq_length.mpr hall, List.length_map, List.Vector.toList_length]
      rfl
    obtain ⟨slot, rest, rfl⟩ := List.exists_cons_of_length_pos (by omega : 0 < upper.length)
    rw [hcount, updateFirst, if_pos (by simp [hfree slot List.mem_cons_self]),
      List.countP_cons_of_pos rfl] at hroom
    have hbound : 32 + (rest.countP Slot.active + 1) ≤ 32 := hroom
    omega

theorem SameTimers.get (i : Fin Syslib.maxTimers) :
    a.slots.get (i.castLE (by decide)) = slotOf (b.timers.get i) := by
  obtain ⟨upper, hslots, -⟩ := h.slots
  rw [List.Vector.get_eq_get_toList, List.Vector.get_eq_get_toList]
  simp [hslots]

/-- A timer changed in both. -/
theorem SameTimers.set {i : Fin Syslib.maxTimers} {timer : Syslib.Timer Callback}
    (hsound : timer.active = true → 0 < timer.id ∧ timer.callback.isSome = true) :
    SameTimers { a with slots := a.slots.set (i.castLE (by decide)) (slotOf timer) }
      { b with timers := b.timers.set i timer } := by
  obtain ⟨upper, hslots, hfree⟩ := h.slots
  refine ⟨h.next, h.next_pos, ?_, upper, ?_, hfree⟩
  · intro timer' htimer hact
    rw [List.Vector.toList_set] at htimer
    rcases List.mem_or_eq_of_mem_set htimer with htimer | rfl
    · exact h.sound timer' htimer hact
    · exact hsound hact
  · dsimp only
    rw [List.Vector.toList_set, List.Vector.toList_set, hslots, List.set_append_left _ _ (by simp),
      List.map_set]
    rfl

omit h in
theorem slotOf_fire (now : ℕ) (timer : Syslib.Timer Callback) :
    (slotOf timer).fire now = slotOf (timer.fire now) := by
  unfold Slot.fire Syslib.Timer.fire slotOf
  by_cases hp : timer.periodUs = 0 <;> simp [hp]

/-- A pass finds the same at a timer. -/
theorem SameTimers.visit (now : ℕ) (i : Fin Syslib.maxTimers) :
    (a.visit now (i.castLE (by decide))).1 = (b.visit now i).1 ∧
      SameTimers (a.visit now (i.castLE (by decide))).2 (b.visit now i).2 := by
  have hmem : b.timers.get i ∈ b.timers.toList := by
    rw [List.Vector.get_eq_get_toList]
    exact List.get_mem _ _
  have hready : ∀ timer : Syslib.Timer Callback, (slotOf timer).ready now =
      (timer.active && timer.callback.isSome && decide (timer.dueUs ≤ now)) := fun _ => rfl
  unfold Syslib.EventLoop.visit
  dsimp only
  rcases a.visit_cases now (i.castLE (by decide)) with ⟨cb, hcb, hgo, heq⟩ | ⟨hstop, heq⟩
  · rw [heq]
    rw [h.get i] at hcb hgo ⊢
    have hcb' : (b.timers.get i).callback = some cb := hcb
    rw [hready, Bool.and_eq_true, Bool.and_eq_true, decide_eq_true_eq] at hgo
    obtain ⟨⟨hact, hsome⟩, hdue⟩ := hgo
    rw [if_neg (by simp [hact, hdue]), hcb', slotOf_fire]
    refine ⟨rfl, h.set fun hstill => ?_⟩
    obtain ⟨hid, -⟩ := h.sound _ hmem hact
    unfold Syslib.Timer.fire at hstill ⊢
    split_ifs at hstill ⊢
    exact ⟨hid, hsome⟩
  · rw [heq]
    rw [h.get i, hready] at hstop
    have hskip : (!(b.timers.get i).active || decide (now < (b.timers.get i).dueUs)) = true := by
      by_cases hact : (b.timers.get i).active = true
      · obtain ⟨-, hsome⟩ := h.sound _ hmem hact
        rw [hact, hsome, Bool.true_and, Bool.true_and, decide_eq_false_iff_not] at hstop
        simpa [hact] using hstop
      · simp [hact]
    rw [if_pos hskip]
    exact ⟨rfl, h⟩

/-- A pass finds nothing in the other slots. -/
theorem SameTimers.visit_upper (now : ℕ) {i : Fin maxCallbacks} (hi : Syslib.maxTimers ≤ i.val) :
    a.visit now i = (none, a) := by
  obtain ⟨upper, hslots, hfree⟩ := h.slots
  have hact : (a.slots.get i).active = false := by
    have hlt : i.val < a.slots.toList.length := by simp
    have hget : a.slots.get i = a.slots.toList[i.val] := by
      rw [List.Vector.get_eq_get_toList]
      rfl
    rw [hget]
    simp only [hslots]
    rw [List.getElem_append_right (by simpa using hi)]
    exact hfree _ (List.getElem_mem _)
  rcases a.visit_cases now i with ⟨-, -, hready, -⟩ | ⟨-, heq⟩
  · rw [Slot.active_of_ready hready] at hact
    exact absurd hact.symm Bool.false_ne_true
  · exact heq

end Steps

/-! ## Runs -/

/-- Both loops hold the same timers, and the same was seen of them. -/
def SameSeen (a : Watched (AsyncEventLoop.EventLoop Callback) Callback)
    (b : Watched (Syslib.EventLoop Callback) Callback) : Prop :=
  SameTimers a.loop b.loop ∧ a.seen = b.seen

/-- The slots of the larger loop that the smaller one does not have. -/
def upperSlots : List (Fin maxCallbacks) :=
  (List.finRange maxCallbacks).drop Syslib.maxTimers

theorem sameSeen_visit (now : ℕ) (i : Fin Syslib.maxTimers)
    (a : Watched (AsyncEventLoop.EventLoop Callback) Callback)
    (b : Watched (Syslib.EventLoop Callback) Callback) (h : SameSeen a b) :
    (asyncProgram.visit now (i.castLE (by decide)) a).1 = (syslibProgram.visit now i b).1 ∧
      SameSeen (asyncProgram.visit now (i.castLE (by decide)) a).2
        (syslibProgram.visit now i b).2 := by
  obtain ⟨hstart, hnext⟩ := h.1.visit now i
  show (a.starts now (a.loop.visit now (i.castLE (by decide)))).1 =
      (b.starts now (b.loop.visit now i)).1 ∧
    SameSeen (a.starts now (a.loop.visit now (i.castLE (by decide)))).2
      (b.starts now (b.loop.visit now i)).2
  rcases ha : a.loop.visit now (i.castLE (by decide)) with ⟨answer, loop⟩
  rcases hb : b.loop.visit now i with ⟨answer', loop'⟩
  rw [ha, hb] at hstart hnext
  obtain rfl : answer = answer' := hstart
  cases answer with
  | none => exact ⟨rfl, hnext, h.2⟩
  | some started =>
    refine ⟨rfl, hnext, ?_⟩
    show a.seen ++ [.started started.1 started.2 now] = b.seen ++ [.started started.1 started.2 now]
    rw [h.2]

theorem sameSeen_perform (use : TimerUse Callback) (now : ℕ)
    (a : Watched (AsyncEventLoop.EventLoop Callback) Callback)
    (b : Watched (Syslib.EventLoop Callback) Callback) (h : SameSeen a b)
    (hroom : activeTimers (asyncProgram.perform use now a).loop ≤ Syslib.maxTimers) :
    SameSeen (asyncProgram.perform use now a) (syslibProgram.perform use now b) := by
  have htimer : ∀ delayUs periodUs (cb : Callback),
      activeTimers (a.loop.addTimer delayUs periodUs now (some cb)).2 ≤ Syslib.maxTimers →
      SameSeen (a.returns (a.loop.addTimer delayUs periodUs now (some cb)))
        (b.returns (b.loop.addTimer delayUs periodUs now (some cb))) := by
    intro delayUs periodUs cb hroom
    obtain ⟨hhandle, hloops⟩ := h.1.addTimer delayUs periodUs now cb hroom
    refine ⟨hloops, ?_⟩
    show a.seen ++ [.returned _] = b.seen ++ [.returned _]
    rw [h.2]
    exact congrArg (fun h => b.seen ++ [.returned h]) hhandle
  cases use with
  | callLaterUs delayUs cb => exact htimer delayUs 0 cb hroom
  | callEveryUs periodUs cb => exact htimer periodUs periodUs cb hroom
  | cancel id => exact ⟨h.1.cancel id, h.2⟩

/-- **Agreement.** In a run with never more than 32 timers in use, both loops are seen to give the same
handles and to start the same callbacks in the same order, and the same passes are under way at every
moment. -/
theorem loops_agree (moves : List (Reentrant.Move (TimerUse Callback)))
    (hroom : ∀ s ∈ Run.states (Reentrant.State.step asyncProgram)
      ⟨⟨({} : AsyncEventLoop.EventLoop Callback), []⟩, 0, []⟩ moves,
        activeTimers s.sys.loop ≤ Syslib.maxTimers) :
    List.Forall₂
      (fun s t => s.sys.seen = t.sys.seen ∧
        s.passes.map Reentrant.Pass.now = t.passes.map Reentrant.Pass.now)
      (Run.states (Reentrant.State.step asyncProgram)
        ⟨⟨({} : AsyncEventLoop.EventLoop Callback), []⟩, 0, []⟩ moves)
      (Run.states (Reentrant.State.step syslibProgram)
        ⟨⟨({} : Syslib.EventLoop Callback), []⟩, 0, []⟩ moves) := by
  have hslots : List.finRange maxCallbacks =
      (List.finRange Syslib.maxTimers).map (Fin.castLE (by decide)) ++ upperSlots := by decide
  have hupper : ∀ i ∈ upperSlots, Syslib.maxTimers ≤ i.val := by decide
  have hsim := Reentrant.states_simulation (p := asyncProgram) (q := syslibProgram)
    (R := SameSeen) (C := fun w => activeTimers w.loop ≤ Syslib.maxTimers) hslots
    sameSeen_visit
    (fun now i a b h hi => by
      show a.starts now (a.loop.visit now i) = (false, a)
      rw [h.1.visit_upper now (hupper i hi)]
      rfl)
    sameSeen_perform
    (s := ⟨⟨({} : AsyncEventLoop.EventLoop Callback), []⟩, 0, []⟩)
    (t := ⟨⟨({} : Syslib.EventLoop Callback), []⟩, 0, []⟩)
    ⟨⟨sameTimers_start, rfl⟩, rfl, rfl⟩ moves hroom
  refine hsim.imp fun s t h => ⟨h.sys.2, ?_⟩
  rw [h.passes, List.map_map]
  rfl

/-- Two timers and a pass that starts the first; its callback cancels the second and runs a pass of its
own. -/
theorem loops_agree_session :
    let moves : List (Reentrant.Move (TimerUse ℕ)) :=
      [.perform (.callLaterUs 5 10) 1, .perform (.callEveryUs 2 11) 1, .runOnce 6,
        .perform (.cancel 2) 0, .runOnce 1, .finish, .perform (.callLaterUs 0 12) 0, .runOnce 0]
    List.Forall₂
      (fun s t => s.sys.seen = t.sys.seen ∧
        s.passes.map Reentrant.Pass.now = t.passes.map Reentrant.Pass.now)
      (Run.states (Reentrant.State.step asyncProgram)
        ⟨⟨({} : AsyncEventLoop.EventLoop ℕ), []⟩, 0, []⟩ moves)
      (Run.states (Reentrant.State.step syslibProgram)
        ⟨⟨({} : Syslib.EventLoop ℕ), []⟩, 0, []⟩ moves) :=
  loops_agree _ (by decide +kernel)

end Pypilot
