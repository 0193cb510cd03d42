import Pypilot.Lib.Periodic
import Pypilot.LoopRuns

/-!
# Repeating timers

A timer with a period is due whole periods after its registration. A pass that is not nested starts its
callback when a whole period has been completed since the pass before, once however many have, and leaves
it due at the next one (`repeat_keeps_phase`). Other callbacks may register and cancel what they like: a
slot in use is taken by no registration, and only its own handle cancels it.
-/

namespace AsyncEventLoop

open Reentrant Periodic

variable {Callback : Type}

/-- The catch-up loop ends. -/
theorem rearm_returns (period now due : ℕ) :
    Loop.Returns (rearmBody period now) due (rearm period now due) := ⟨_, Loop.exec_run due⟩

/-- The catch-up loop keeps the phase. -/
theorem rearm_nextDue {start period last now : ℕ} (hperiod : 0 < period)
    (hdue : nextDue start period last ≤ now) :
    rearm period now (nextDue start period last) = nextDue start period now :=
  run_catchUp hperiod (fun _ => rfl) hdue

/-! ## A slot in use -/

namespace EventLoop

variable (loop : EventLoop Callback) {i : Fin maxCallbacks}

theorem add_slot (fill : Slot Callback → Slot Callback)
    (hact : (loop.slots.get i).active = true) :
    (loop.add fill).2.slots.get i = loop.slots.get i := by
  rcases loop.add_cases fill with ⟨j, hfree, hadd⟩ | ⟨-, hadd⟩
  · have hne : j ≠ i := by
      rintro rfl
      exact absurd (hfree.symm.trans hact) (by decide)
    rw [hadd]
    exact List.Vector.get_set_of_ne hne _
  · rw [hadd]

theorem cancel_slot {h : EventHandle} (hne : (loop.slots.get i).id ≠ h) :
    (loop.cancel h).slots.get i = loop.slots.get i := by
  rcases loop.cancel_cases h with ⟨j, -, hid, heq⟩ | ⟨-, heq⟩
  · have hij : j ≠ i := by
      rintro rfl
      exact hne hid
    rw [heq]
    exact List.Vector.get_set_of_ne hij _
  · rw [heq]

end EventLoop

/-- The callbacks that were started under a handle, with the readings of their passes. -/
def startsOf (h : EventHandle) (trace : List (LoopEvent Callback)) : List (Callback × ℕ) :=
  trace.filterMap fun
    | .started h' cb now => if h' = h then some (cb, now) else none
    | _ => none

theorem startsOf_append (h : EventHandle) (trace more : List (LoopEvent Callback)) :
    startsOf h (trace ++ more) = startsOf h trace ++ startsOf h more := List.filterMap_append

/-- Nothing has been started under a handle that is still to be given out. -/
theorem startsOf_nextId {t : Traced Callback} (hs : t.Safe) : startsOf t.loop.nextId t.trace = [] := by
  refine List.filterMap_eq_nil_iff.mpr fun e hmem => ?_
  cases e with
  | registered h cb reg => rfl
  | cancelled h => rfl
  | started h cb now =>
    have hlt := (hs.issued h (hs.started_registered ⟨cb, now, hmem⟩)).2
    exact if_neg hlt.ne

namespace Traced

/-- The slot and what has been started under its handle. -/
structure Holds (t : Traced Callback) (i : Fin maxCallbacks) (slot : Slot Callback)
    (fired : List (Callback × ℕ)) : Prop where
  safe : t.Safe
  slot_eq : t.loop.slots.get i = slot
  fired_eq : startsOf slot.id t.trace = fired

section Holds

variable {t : Traced Callback} {i : Fin maxCallbacks} {slot : Slot Callback}
  {fired : List (Callback × ℕ)} (ht : t.Holds i slot fired) (hact : slot.active = true)

include ht hact

/-- Registrations, and cancels of other handles. -/
theorem Holds.perform {use : LoopUse Callback} (hcancel : use ≠ .cancel slot.id) (now : ℕ) :
    (perform use now t).Holds i slot fired := by
  obtain ⟨hs, hslot, hfired⟩ := ht
  have hregister : ∀ (fill : Slot Callback → Slot Callback) (cb : Option Callback)
      (reg : Registration), (t.register (t.loop.add fill) cb reg).loop.slots.get i = slot ∧
        startsOf slot.id (t.register (t.loop.add fill) cb reg).trace = fired := by
    intro fill cb reg
    refine ⟨(t.loop.add_slot fill (hslot ▸ hact)).trans hslot, ?_⟩
    unfold Traced.register
    dsimp only
    rw [startsOf_append, hfired]
    split_ifs
    · exact List.append_nil _
    · exact List.append_nil _
  cases use with
  | onDelayUs delayUs cb =>
    obtain ⟨hslot', hfired'⟩ := hregister _ cb (.timer now delayUs 0)
    exact ⟨hs.perform _ now, hslot', hfired'⟩
  | onRepeatUs periodUs cb =>
    obtain ⟨hslot', hfired'⟩ := hregister _ cb (.timer now periodUs periodUs)
    exact ⟨hs.perform _ now, hslot', hfired'⟩
  | onBytesReady cb =>
    obtain ⟨hslot', hfired'⟩ := hregister _ (some cb) .poll
    exact ⟨hs.perform _ now, hslot', hfired'⟩
  | cancel h =>
    have hne : (t.loop.slots.get i).id ≠ h := by
      rintro rfl
      exact hcancel (by rw [hslot])
    refine ⟨hs.perform _ now, (t.loop.cancel_slot hne).trans hslot, ?_⟩
    exact (startsOf_append _ _ _).trans ((List.append_nil _).trans hfired)

/-- Visits to other slots, and to this one when it is not ready. -/
theorem Holds.visit {now : ℕ} {j : Fin maxCallbacks} (hj : j ≠ i ∨ slot.ready now = false) :
    (visit now j t).2.Holds i slot fired := by
  obtain ⟨hs, hslot, hfired⟩ := ht
  have hsafe := hs.visit now j
  unfold Traced.visit at hsafe ⊢
  rcases t.loop.visit_cases now j with ⟨cb, -, hready, heq⟩ | ⟨-, heq⟩
  · have hne : j ≠ i := by
      rcases hj with hne | hnot
      · exact hne
      · rintro rfl
        rw [hslot, hnot] at hready
        exact absurd hready (by decide)
    have hother : (t.loop.slots.get j).id ≠ slot.id := by
      intro hid
      have hactj := Slot.active_of_ready hready
      rw [← hslot] at hid hact
      exact hne (hs.distinct j i hactj hact hid)
    rw [heq] at hsafe ⊢
    refine ⟨hsafe, (List.Vector.get_set_of_ne hne _).trans hslot, ?_⟩
    have hnone : startsOf slot.id [.started (t.loop.slots.get j).id cb now] = [] := by
      simp [startsOf, hother]
    rw [startsOf_append, hnone, List.append_nil]
    exact hfired
  · rw [heq] at hsafe ⊢
    exact ⟨hsafe, hslot, hfired⟩

/-- A pass over such slots. -/
theorem Holds.scan {now : ℕ} {slots : List (Fin maxCallbacks)}
    (hslots : ∀ j ∈ slots, j ≠ i ∨ slot.ready now = false) :
    (Reentrant.scan program now slots t).2.Holds i slot fired := by
  induction slots generalizing t with
  | nil => exact ht
  | cons j slots ih =>
    obtain ⟨hfirst, hrest⟩ := List.forall_mem_cons.mp hslots
    have hnext := ht.visit hact hfirst
    rw [Reentrant.scan]
    split_ifs
    · exact hnext
    · exact ih hnext hrest

omit hact in
/-- A visit to a slot that is ready starts its callback. -/
theorem Holds.start {now : ℕ} {cb : Callback} (hcb : slot.cb = some cb)
    (hready : slot.ready now = true) :
    (Traced.visit now i t).1 = true ∧
      (Traced.visit now i t).2.Holds i (slot.fire now) (fired ++ [(cb, now)]) := by
  obtain ⟨hs, hslot, hfired⟩ := ht
  have hsafe := hs.visit now i
  unfold Traced.visit at hsafe ⊢
  rcases t.loop.visit_cases now i with ⟨cb', hcb', -, heq⟩ | ⟨hnot, -⟩
  · rw [hslot] at hcb' heq
    obtain rfl : cb = cb' := Option.some.inj (hcb.symm.trans hcb')
    rw [heq] at hsafe ⊢
    refine ⟨rfl, hsafe, List.Vector.get_set_same _ _ _, ?_⟩
    rw [(slot.fire_spec now).1, startsOf_append, hfired]
    simp [startsOf]
  · rw [hslot, hready] at hnot
    exact absurd hnot (by decide)

end Holds

end Traced

/-! ## The phase of a timer -/

section Phase

variable (i : Fin maxCallbacks) (h : EventHandle) (cb : Callback) (startUs periodUs : ℕ)

/-- The slot of a timer registered at `startUs`, after a pass at `now`. -/
def phaseSlot (now : ℕ) : Slot Callback :=
  ⟨true, false, h, nextDue startUs periodUs now, periodUs, some cb⟩

/-- What a pass at `now` starts after one at `last`. -/
def dueStarts (last now : ℕ) : List (Callback × ℕ) :=
  if (last - startUs) / periodUs < (now - startUs) / periodUs then [(cb, now)] else []

/-- During a pass at `now`, or after it: the timer has been visited, or it is due and still to be. -/
structure Phase (s : State (Traced Callback) (Fin maxCallbacks)) (last now : ℕ)
    (fired : List (Callback × ℕ)) : Prop where
  now_le : now ≤ s.clock
  passes_le : ∀ pass ∈ s.passes, pass.now ≤ now
  visited_or_waits :
    s.sys.Holds i (phaseSlot h cb startUs periodUs now)
        (fired ++ dueStarts cb startUs periodUs last now) ∨
      nextDue startUs periodUs last ≤ now ∧
        s.sys.Holds i (phaseSlot h cb startUs periodUs last) fired ∧
        ∃ rest, s.passes = [⟨now, rest⟩] ∧ i ∈ rest

variable {i h cb startUs periodUs}

theorem phaseSlot_ready (last now : ℕ) :
    (phaseSlot h cb startUs periodUs last).ready now = true ↔
      nextDue startUs periodUs last ≤ now := by
  unfold Slot.ready phaseSlot
  simp

variable (hperiod : 0 < periodUs)

include hperiod

theorem phaseSlot_not_ready {last now : ℕ} (hle : now ≤ last) :
    (phaseSlot h cb startUs periodUs last).ready now = false := by
  rw [← Bool.not_eq_true, phaseSlot_ready]
  exact not_le.mpr (hle.trans_lt (lt_nextDue hperiod))

theorem phaseSlot_fire {last now : ℕ} (hdue : nextDue startUs periodUs last ≤ now) :
    (phaseSlot h cb startUs periodUs last).fire now = phaseSlot h cb startUs periodUs now := by
  unfold Slot.fire phaseSlot
  dsimp only
  rw [if_neg fun hzero => hperiod.ne' hzero.1, if_pos Bool.not_false, rearm_nextDue hperiod hdue]

variable {t : Traced Callback} {last now : ℕ} {fired : List (Callback × ℕ)}

/-- The rest of a pass that has still to visit the timer, which is due. -/
theorem scan_waits (hdue : nextDue startUs periodUs last ≤ now)
    (ht : t.Holds i (phaseSlot h cb startUs periodUs last) fired) {rest : List (Fin maxCallbacks)}
    (hi : i ∈ rest) :
    (∃ rest', (scan Traced.program now rest t).1 = some rest' ∧ i ∈ rest' ∧
        (scan Traced.program now rest t).2.Holds i (phaseSlot h cb startUs periodUs last) fired) ∨
      (scan Traced.program now rest t).2.Holds i (phaseSlot h cb startUs periodUs now)
        (fired ++ [(cb, now)]) := by
  obtain ⟨before, after, rfl, hbefore⟩ := List.eq_append_cons_of_mem hi
  have hother : (scan Traced.program now before t).2.Holds i (phaseSlot h cb startUs periodUs last)
      fired := ht.scan rfl fun j hj => .inl (ne_of_mem_of_not_mem hj hbefore)
  rw [scan_append]
  cases hrest : (scan Traced.program now before t).1 with
  | some rest' =>
    exact .inl ⟨rest' ++ i :: after, rfl, List.mem_append_right _ List.mem_cons_self, hother⟩
  | none =>
    -- the visit to the timer starts it
    obtain ⟨hstarted, hnext⟩ := hother.start rfl ((phaseSlot_ready last now).mpr hdue)
    rw [phaseSlot_fire hperiod hdue] at hnext
    refine .inr ?_
    show (scan Traced.program now (i :: after) _).2.Holds _ _ _
    rw [scan, if_pos (show (Traced.program.visit now i _).1 = true from hstarted)]
    exact hnext

/-- The rest of a pass after the visit to the timer. -/
theorem scan_visited (ht : t.Holds i (phaseSlot h cb startUs periodUs last) fired)
    (hle : now ≤ last) (rest : List (Fin maxCallbacks)) :
    (scan Traced.program now rest t).2.Holds i (phaseSlot h cb startUs periodUs last) fired :=
  ht.scan rfl fun _ _ => .inr (phaseSlot_not_ready hperiod hle)

variable {s : State (Traced Callback) (Fin maxCallbacks)}

theorem dueStarts_of_due (hdue : nextDue startUs periodUs last ≤ now) :
    dueStarts cb startUs periodUs last now = [(cb, now)] :=
  if_pos ((nextDue_le_iff hperiod).mp hdue)

/-- A pass goes on: one that has visited the timer, or one at `now` that has not. -/
theorem Phase.resume (hnow : now ≤ s.clock) {pass : Pass (Fin maxCallbacks)}
    (hpass : pass.now ≤ now) (hpasses : ∀ pass ∈ s.passes, pass.now ≤ now)
    (hout : s.sys.Holds i (phaseSlot h cb startUs periodUs now)
        (fired ++ dueStarts cb startUs periodUs last now) ∨
      nextDue startUs periodUs last ≤ now ∧
        s.sys.Holds i (phaseSlot h cb startUs periodUs last) fired ∧
        s.passes = [] ∧ pass.now = now ∧ i ∈ pass.rest) :
    Phase i h cb startUs periodUs (s.resume Traced.program pass) last now fired := by
  refine ⟨hnow, fun pass' hmem => ?_, ?_⟩
  · rcases List.mem_append.mp hmem with hmem | hmem
    · obtain ⟨rest, -, rfl⟩ := Option.map_eq_some_iff.mp (Option.mem_toList.mp hmem)
      exact hpass
    · exact hpasses pass' hmem
  · rcases hout with hheld | ⟨hdue, hheld, hnone, rfl, hi⟩
    · exact .inl (scan_visited hperiod hheld hpass pass.rest)
    · rcases scan_waits hperiod hdue hheld hi with ⟨rest', hrest, hi', hwaits⟩ | hstarted
      · refine .inr ⟨hdue, hwaits, rest', ?_, hi'⟩
        unfold State.resume
        rw [hrest, hnone]
        rfl
      · rw [← dueStarts_of_due hperiod hdue] at hstarted
        exact .inl hstarted

/-- **Within a pass.** Whatever is used, and whenever the callback that runs returns. -/
theorem Phase.step (hs : Phase i h cb startUs periodUs s last now fired)
    {move : Move (LoopUse Callback)} (hflat : ∀ elapsed, move ≠ .runOnce elapsed)
    (hcancel : ∀ elapsed, move ≠ .perform (.cancel h) elapsed) :
    Phase i h cb startUs periodUs (s.step Traced.program move) last now fired := by
  obtain ⟨hnow, hpasses, hout⟩ := hs
  cases move with
  | runOnce elapsed => exact absurd rfl (hflat elapsed)
  | perform use elapsed =>
    have huse : use ≠ .cancel h := fun heq => hcancel elapsed (by rw [heq])
    refine ⟨hnow.trans (Nat.le_add_right _ _), hpasses, ?_⟩
    rcases hout with hheld | ⟨hdue, hheld, hrest⟩
    · exact .inl (hheld.perform rfl huse _)
    · exact .inr ⟨hdue, hheld.perform rfl huse _, hrest⟩
  | finish =>
    unfold State.step
    cases hstack : s.passes with
    | nil =>
      refine ⟨hnow, hpasses, ?_⟩
      rw [hstack] at hout
      rcases hout with hheld | ⟨-, -, rest, hnone, -⟩
      · exact .inl hheld
      · exact nomatch hnone
    | cons pass passes =>
      rw [hstack] at hpasses hout
      obtain ⟨hpass, hbelow⟩ := List.forall_mem_cons.mp hpasses
      refine Phase.resume hperiod (s := { s with passes := passes }) hnow hpass hbelow ?_
      rcases hout with hheld | ⟨hdue, hheld, rest, hone, hi⟩
      · exact .inl hheld
      · obtain ⟨rfl, rfl⟩ := List.cons.inj hone
        exact .inr ⟨hdue, hheld, rfl, rfl, hi⟩

omit hperiod in
/-- With no pass under way the timer has been visited. -/
theorem Phase.visited (hs : Phase i h cb startUs periodUs s last now fired) (hstack : s.passes = []) :
    s.sys.Holds i (phaseSlot h cb startUs periodUs now)
      (fired ++ dueStarts cb startUs periodUs last now) := by
  rcases hs.visited_or_waits with hheld | ⟨-, -, rest, hone, -⟩
  · exact hheld
  · rw [hstack] at hone
    exact nomatch hone

/-- **A new pass.** One that is not nested comes after a whole one. -/
theorem Phase.begin (hs : Phase i h cb startUs periodUs s last now fired) (hstack : s.passes = [])
    (elapsed : ℕ) :
    Phase i h cb startUs periodUs (s.step Traced.program (.runOnce elapsed)) now (s.clock + elapsed)
      (fired ++ dueStarts cb startUs periodUs last now) := by
  have hheld := hs.visited hstack
  have hle : now ≤ s.clock + elapsed := hs.now_le.trans (Nat.le_add_right _ _)
  refine Phase.resume hperiod (s := { s with clock := s.clock + elapsed }) le_rfl le_rfl
    (by rw [hstack]; exact List.forall_mem_nil _) ?_
  by_cases hdue : nextDue startUs periodUs now ≤ s.clock + elapsed
  · exact .inr ⟨hdue, hheld, hstack, rfl, List.mem_finRange i⟩
  · -- no whole period has been completed
    have hsame := nextDue_eq_of_lt hperiod hle (not_le.mp hdue)
    have hnone : dueStarts cb startUs periodUs now (s.clock + elapsed) = [] :=
      if_neg fun hlt => hdue ((nextDue_le_iff hperiod).mpr hlt)
    refine .inl ?_
    rw [hnone, List.append_nil, phaseSlot, hsame]
    exact hheld

/-- **Runs.** After passes that are not nested the timer is in the phase of the last one. -/
theorem Phase.foldl (hs : Phase i h cb startUs periodUs s last now fired)
    {moves : List (Move (LoopUse Callback))} (hflat : Flat Traced.program s moves)
    (hcancel : ∀ elapsed, .perform (.cancel h) elapsed ∉ moves) :
    ∃ last' fired', Phase i h cb startUs periodUs (moves.foldl (State.step Traced.program) s) last'
      ((readings Traced.program s moves).getLastD now) fired' := by
  induction moves generalizing s last now fired with
  | nil => exact ⟨last, fired, hs⟩
  | cons move moves ih =>
    have hnot : ∀ elapsed, move ≠ .perform (.cancel h) elapsed :=
      fun elapsed heq => hcancel elapsed (by rw [heq]; exact List.mem_cons_self)
    have hrest : Flat Traced.program (s.step Traced.program move) moves :=
      fun q hq => hflat q (List.mem_cons_of_mem _ hq)
    have hcancel' : ∀ elapsed, .perform (.cancel h) elapsed ∉ moves :=
      fun elapsed hmem => hcancel elapsed (List.mem_cons_of_mem _ hmem)
    cases move with
    | runOnce elapsed =>
      have hstack : s.passes = [] := hflat (s, .runOnce elapsed) List.mem_cons_self elapsed rfl
      have hnext := ih (hs.begin hperiod hstack elapsed) hrest hcancel'
      rw [readings_runOnce, List.getLastD_cons]
      exact hnext
    | perform use elapsed =>
      exact ih (hs.step hperiod (fun _ heq => nomatch heq) hnot) hrest hcancel'
    | finish => exact ih (hs.step hperiod (fun _ heq => nomatch heq) hnot) hrest hcancel'

/-- The whole of a pass. -/
theorem Phase.foldl_within (hs : Phase i h cb startUs periodUs s last now fired)
    {moves : List (Move (LoopUse Callback))} (hflat : ∀ elapsed, .runOnce elapsed ∉ moves)
    (hcancel : ∀ elapsed, .perform (.cancel h) elapsed ∉ moves) :
    Phase i h cb startUs periodUs (moves.foldl (State.step Traced.program) s) last now fired := by
  refine Run.foldl_invariant (C := fun _ move => move ∈ moves)
    (I := fun u => Phase i h cb startUs periodUs u last now fired) ?_ hs ?_
  · intro u move hu hmem
    refine hu.step hperiod (fun elapsed heq => ?_) fun elapsed heq => ?_
    · exact hflat elapsed (heq ▸ hmem)
    · exact hcancel elapsed (heq ▸ hmem)
  · exact (Run.forall_steps_iff _ s moves).mpr fun _ hmem => hmem

omit hperiod in
/-- A registration starts the phase, whatever passes are suspended around it. -/
theorem phase_start (hsafe : s.sys.Safe) (hpasses : ∀ pass ∈ s.passes, pass.now ≤ s.clock)
    (elapsed : ℕ)
    (hroom : (s.sys.loop.onRepeatUs periodUs (s.clock + elapsed) (some cb)).1 ≠ 0) :
    ∃ i, Phase i (s.sys.loop.onRepeatUs periodUs (s.clock + elapsed) (some cb)).1 cb
      (s.clock + elapsed) periodUs
      (s.step Traced.program (.perform (.onRepeatUs periodUs (some cb)) elapsed))
      (s.clock + elapsed) (s.clock + elapsed) [] := by
  have hnext := hsafe.perform (.onRepeatUs periodUs (some cb)) (s.clock + elapsed)
  unfold Traced.perform Traced.register EventLoop.onRepeatUs EventLoop.addTimer at hnext
  unfold State.step Traced.program Traced.perform Traced.register
  unfold EventLoop.onRepeatUs EventLoop.addTimer at hroom ⊢
  dsimp only at hnext ⊢
  rcases s.sys.loop.add_cases fun slot =>
      { slot with
        periodicPoll := false, dueUs := s.clock + elapsed + periodUs, periodUs := periodUs,
        cb := some cb } with ⟨i, -, hadd⟩ | ⟨-, hadd⟩
  · rw [hadd] at hnext ⊢
    have hnone : dueStarts cb (s.clock + elapsed) periodUs (s.clock + elapsed) (s.clock + elapsed) =
        [] := if_neg (lt_irrefl _)
    refine ⟨i, le_rfl, fun pass hmem => (hpasses pass hmem).trans (Nat.le_add_right _ _),
      .inl ⟨hnext, ?_, ?_⟩⟩
    · rw [phaseSlot, nextDue_start]
      exact List.Vector.get_set_same _ _ _
    · rw [hnone, startsOf_append]
      show startsOf s.sys.loop.nextId s.sys.trace ++ _ = _
      rw [startsOf_nextId hsafe]
      split_ifs <;> rfl
  · rw [hadd] at hroom
    exact absurd rfl hroom

end Phase

/-! ## Timers -/

/-- **Repeating timers keep their phase.** After any run of the loop a timer is registered with a period.
As long as it is not cancelled and no pass is begun within another: a pass is over when as many callbacks
have returned as there are slots, its catch-up loops included; it starts the timer once when a whole period
has been completed since the pass before, and not otherwise; and it leaves the timer due a whole number of
periods after its registration. -/
theorem repeat_keeps_phase (earlier before body : List (Move (LoopUse Callback))) {periodUs : ℕ}
    (hperiod : 0 < periodUs) (cb : Callback) (sinceUs elapsed : ℕ) :
    let step := State.step (@Traced.program Callback)
    let s₀ := earlier.foldl step ⟨{}, 0, []⟩
    let startUs := s₀.clock + sinceUs
    let h := (s₀.sys.loop.onRepeatUs periodUs startUs (some cb)).1
    let s₁ := step s₀ (.perform (.onRepeatUs periodUs (some cb)) sinceUs)
    let s := before.foldl step s₁
    let last := (readings Traced.program s₁ before).getLastD startUs
    let now := s.clock + elapsed
    let s' := body.foldl step (step s (.runOnce elapsed))
    h ≠ 0 → (∀ elapsed, .perform (.cancel h) elapsed ∉ before ++ body) →
    Flat Traced.program s₁ before → s.passes = [] → (∀ elapsed, .runOnce elapsed ∉ body) →
      (maxCallbacks ≤ body.countP Move.isFinish → s'.passes = []) ∧
        (∀ period due, ∃ next, Loop.Returns (rearmBody period now) due next) ∧
        (s'.passes = [] →
          startsOf h s'.sys.trace = startsOf h s.sys.trace ++
            (if (last - startUs) / periodUs < (now - startUs) / periodUs then [(cb, now)] else []) ∧
          ∃ i, s'.sys.loop.slots.get i = ⟨true, false, h,
            startUs + periodUs * ((now - startUs) / periodUs + 1), periodUs, some cb⟩) := by
  intro step s₀ startUs h s₁ s last now s' hroom hcancel hflat hstack hbody
  have hsafe : s₀.sys.Safe := Traced.safe_states earlier s₀ (Run.foldl_mem_states _ _ earlier)
  have hpasses : ∀ pass ∈ s₀.passes, pass.now ≤ s₀.clock :=
    Run.foldl_invariant (C := fun _ _ => True)
      (I := fun u : State (Traced Callback) (Fin maxCallbacks) => ∀ pass ∈ u.passes, pass.now ≤ u.clock)
      (fun _ move hu _ => step_passes hu move) (List.forall_mem_nil _) fun _ _ => trivial
  obtain ⟨i, hstart⟩ := phase_start hsafe hpasses sinceUs hroom
  obtain ⟨last', fired', hbefore⟩ := hstart.foldl hperiod hflat
    fun e hmem => hcancel e (List.mem_append_left _ hmem)
  have hpass := (hbefore.begin hperiod hstack elapsed).foldl_within hperiod hbody
    fun e hmem => hcancel e (List.mem_append_right _ hmem)
  refine ⟨fun hfinish => ?_, fun period due => ⟨_, rearm_returns period now due⟩, fun hover => ?_⟩
  · exact pass_ends hstack elapsed hbody hfinish
  · have hfired := (hbefore.visited hstack).fired_eq
    have hheld := hpass.visited hover
    rw [← hfired] at hheld
    exact ⟨hheld.fired_eq, i, hheld.slot_eq⟩

/-- Ten microseconds from 3 on: nothing at 8, once at 35, where three periods have passed, and due at 43. -/
theorem repeat_keeps_phase_once :
    let moves : List (Move (LoopUse Unit)) :=
      [.perform (.onRepeatUs 10 (some ())) 3, .runOnce 5, .runOnce 27,
        .perform (.onDelayUs 1 (some ())) 2, .finish]
    let s := moves.foldl (State.step Traced.program) ⟨{}, 0, []⟩
    startsOf 1 s.sys.trace = [((), 35)] ∧
      ∃ i, s.sys.loop.slots.get i = ⟨true, false, 1, 43, 10, some ()⟩ := by
  intro moves s
  have h := @repeat_keeps_phase Unit [] [.runOnce 5]
    [.perform (.onDelayUs 1 (some ())) 2, .finish] 10 (by decide) () 3 27 (by decide) (by simp)
    (by
      intro q hq elapsed _
      obtain rfl := List.mem_singleton.mp hq
      rfl)
    rfl (by simp)
  have hover : s.passes = [] := by decide +kernel
  exact h.2.2 hover

end AsyncEventLoop
