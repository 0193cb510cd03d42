import Pypilot.EventLoop
import Pypilot.Lib.Reentrant

/-!
# Runs of the event loop

The loop is used from anywhere, its own callbacks included, while passes go over the slots. A trace of
what was registered, cancelled and started says what a run may do: a handle that is spent, because it was
cancelled or was that of a one-shot timer which has been started, is never started again and no slot is in
use under it (`Traced.Safe`).
-/

namespace AsyncEventLoop

variable {Callback : Type}

/-! ## Slots of the loop -/

theorem Slot.active_of_ready {slot : Slot Callback} {now : ℕ} (hready : slot.ready now = true) :
    slot.active = true := by
  unfold Slot.ready at hready
  simp only [Bool.and_eq_true] at hready
  exact hready.1.1

namespace EventLoop

variable (loop : EventLoop Callback)

/-- A registration takes a free slot, when there is one. -/
theorem add_cases (fill : Slot Callback → Slot Callback) :
    (∃ i, (loop.slots.get i).active = false ∧ loop.add fill = (loop.nextId,
        { slots := loop.slots.set i
            { fill (loop.slots.get i) with active := true, id := loop.nextId },
          nextId := loop.nextId + 1 })) ∨
      (∀ i, (loop.slots.get i).active = true) ∧ loop.add fill = (0, loop) := by
  unfold add
  dsimp only
  by_cases hany : (loop.slots.toList.any fun slot => !slot.active) = true
  · obtain ⟨i, hi, heq⟩ := SlotTable.update_of_any hany fun slot =>
      { fill slot with active := true, id := loop.nextId }
    exact .inl ⟨i, by simpa using hi, by rw [if_pos hany, heq]⟩
  · refine .inr ⟨fun i => ?_, if_neg hany⟩
    simpa using SlotTable.forall_of_not_any hany i

/-- A cancel frees the slot in use under the handle, when there is one. -/
theorem cancel_cases (h : EventHandle) :
    (∃ i, (loop.slots.get i).active = true ∧ (loop.slots.get i).id = h ∧
        loop.cancel h = { loop with
          slots := loop.slots.set i { loop.slots.get i with active := false, cb := none } }) ∨
      (0 < h → ∀ i, (loop.slots.get i).active = true → (loop.slots.get i).id ≠ h) ∧
        loop.cancel h = loop := by
  unfold cancel
  by_cases hpos : h ≤ 0
  · exact .inr ⟨fun h0 => absurd h0 (not_lt.mpr hpos), if_pos hpos⟩
  · rw [if_neg hpos]
    rcases SlotTable.update_cases
      (fun slot : Slot Callback => slot.active && decide (slot.id = h))
      (fun slot => { slot with active := false, cb := none }) loop.slots with
      ⟨i, hi, -, heq⟩ | ⟨hnone, heq⟩
    · rw [Bool.and_eq_true, decide_eq_true_eq] at hi
      exact .inl ⟨i, hi.1, hi.2, by rw [heq]⟩
    · refine .inr ⟨fun _ i hact hid => ?_, by rw [heq]⟩
      have hi := hnone i
      rw [hact, hid, decide_eq_true rfl] at hi
      exact Bool.false_ne_true hi.symm

/-- A visit starts the callback of a slot that is ready, or does nothing. -/
theorem visit_cases (now : ℕ) (i : Fin maxCallbacks) :
    (∃ cb, (loop.slots.get i).cb = some cb ∧ (loop.slots.get i).ready now = true ∧
        loop.visit now i = (some ((loop.slots.get i).id, cb),
          { loop with slots := loop.slots.set i ((loop.slots.get i).fire now) })) ∨
      (loop.slots.get i).ready now = false ∧ loop.visit now i = (none, loop) := by
  unfold visit
  dsimp only
  cases hcb : (loop.slots.get i).cb with
  | none =>
    refine .inr ⟨?_, rfl⟩
    unfold Slot.ready
    rw [hcb]
    simp
  | some cb =>
    by_cases hready : (loop.slots.get i).ready now = true
    · exact .inl ⟨cb, rfl, hready, if_pos hready⟩
    · exact .inr ⟨by simpa using hready, if_neg hready⟩

end EventLoop

/-! ## Traces -/

/-- What a handle was given out for: a timer, with the clock reading and the times asked for, or a
polled stream. -/
inductive Registration
  | timer (atUs delayUs periodUs : ℕ)
  | poll
  deriving DecidableEq

/-- The callback of a polled stream asks the stream before it does anything. -/
inductive LoopEvent (Callback : Type)
  | registered (h : EventHandle) (cb : Option Callback) (reg : Registration)
  | cancelled (h : EventHandle)
  | started (h : EventHandle) (cb : Callback) (now : ℕ)

/-- A one-shot timer is started no earlier than its delay after its registration. -/
def Registration.MayStart (now : ℕ) : Registration → Prop
  | timer atUs delayUs periodUs => periodUs = 0 → atUs + delayUs ≤ now
  | poll => True

/-- The slot holds what was registered. -/
def Registration.Agrees (slot : Slot Callback) : Registration → Prop
  | timer atUs delayUs periodUs => slot.periodicPoll = false ∧ slot.periodUs = periodUs ∧
      (periodUs = 0 → slot.dueUs = atUs + delayUs)
  | poll => slot.periodicPoll = true

/-- A callback that is started leaves its slot as registered, unless it was that of a one-shot timer. -/
theorem Slot.fire_spec (now : ℕ) (slot : Slot Callback) :
    (slot.fire now).id = slot.id ∧
      ((slot.fire now).active = true → (slot.fire now).cb = slot.cb ∧
        ∀ reg : Registration, reg.Agrees slot → reg.Agrees (slot.fire now)) ∧
      ∀ atUs delayUs, (Registration.timer atUs delayUs 0).Agrees slot →
        (slot.fire now).active = false := by
  unfold Slot.fire
  split_ifs with honce htimer
  · exact ⟨rfl, fun hact => hact.elim, fun _ _ _ => rfl⟩
  · refine ⟨rfl, fun _ => ⟨rfl, ?_⟩, fun _ _ hagrees => absurd ⟨hagrees.2.1, htimer⟩ honce⟩
    rintro (⟨atUs, delayUs, periodUs⟩ | _) hagrees
    · refine ⟨hagrees.1, hagrees.2.1, fun h0 => ?_⟩
      exact absurd ⟨hagrees.2.1.trans h0, htimer⟩ honce
    · exact hagrees
  · refine ⟨rfl, fun _ => ⟨rfl, fun _ hagrees => hagrees⟩, fun _ _ hagrees => ?_⟩
    exact absurd (by rw [hagrees.1]; rfl) htimer

section Traces

variable (trace : List (LoopEvent Callback)) (h : EventHandle)

def Registered : Prop := ∃ cb reg, .registered h cb reg ∈ trace

/-- The handle is that of a timer without a period. -/
def OneShot : Prop := ∃ cb atUs delayUs, .registered h cb (.timer atUs delayUs 0) ∈ trace

def Started : Prop := ∃ cb now, .started h cb now ∈ trace

/-- The handle was cancelled after it had been given out. -/
def Cancelled : Prop :=
  ∃ before after, trace = before ++ .cancelled h :: after ∧ Registered before h

/-- Nothing is to happen under the handle any more. -/
def Spent : Prop := Cancelled trace h ∨ OneShot trace h ∧ Started trace h

variable {trace h} {e : LoopEvent Callback}

theorem Cancelled.of_concat (hc : Cancelled (trace ++ [e]) h) :
    Cancelled trace h ∨ e = .cancelled h ∧ Registered trace h := by
  obtain ⟨before, after, heq, hr⟩ := hc
  rcases Run.concat_eq_append_cons heq with ⟨he, rfl⟩ | ⟨after', heq'⟩
  · exact .inr ⟨he.symm, hr⟩
  · exact .inl ⟨before, after', heq', hr⟩

theorem Cancelled.registered (hc : Cancelled trace h) : Registered trace h := by
  obtain ⟨before, after, rfl, cb, reg, hmem⟩ := hc
  exact ⟨cb, reg, List.mem_append_left _ hmem⟩

theorem OneShot.registered (ho : OneShot trace h) : Registered trace h := by
  obtain ⟨cb, atUs, delayUs, hmem⟩ := ho
  exact ⟨cb, _, hmem⟩

theorem Spent.registered (hs : Spent trace h) : Registered trace h := by
  rcases hs with hc | ⟨ho, -⟩
  · exact hc.registered
  · exact ho.registered

end Traces

/-- A loop with the trace of what has happened to it. -/
structure Traced (Callback : Type) where
  loop : EventLoop Callback := {}
  trace : List (LoopEvent Callback) := []

inductive LoopUse (Callback : Type)
  | onDelayUs (delayUs : ℕ) (cb : Option Callback)
  | onRepeatUs (periodUs : ℕ) (cb : Option Callback)
  | onBytesReady (cb : Callback)
  | cancel (h : EventHandle)

namespace Traced

def register (t : Traced Callback) (result : EventHandle × EventLoop Callback)
    (cb : Option Callback) (reg : Registration) : Traced Callback :=
  ⟨result.2, t.trace ++ if result.1 = 0 then [] else [.registered result.1 cb reg]⟩

def perform (use : LoopUse Callback) (now : ℕ) (t : Traced Callback) : Traced Callback :=
  match use with
  | .onDelayUs delayUs cb => t.register (t.loop.onDelayUs delayUs now cb) cb (.timer now delayUs 0)
  | .onRepeatUs periodUs cb =>
    t.register (t.loop.onRepeatUs periodUs now cb) cb (.timer now periodUs periodUs)
  | .onBytesReady cb => t.register (t.loop.onBytesReady cb) (some cb) .poll
  | .cancel h => ⟨t.loop.cancel h, t.trace ++ [.cancelled h]⟩

def visit (now : ℕ) (i : Fin maxCallbacks) (t : Traced Callback) : Bool × Traced Callback :=
  match t.loop.visit now i with
  | (some (h, cb), loop) => (true, ⟨loop, t.trace ++ [.started h cb now]⟩)
  | (none, loop) => (false, ⟨loop, t.trace⟩)

def program : Reentrant.Program (Traced Callback) (Fin maxCallbacks) (LoopUse Callback) :=
  ⟨List.finRange maxCallbacks, perform, visit⟩

/-! ## The invariant -/

/-- Handles are given out once, the slots in use hold what was registered, each under its own handle, no
slot is in use under a spent handle, and what has been started was registered, due and not spent. -/
structure Safe (t : Traced Callback) : Prop where
  next_pos : 0 < t.loop.nextId
  issued : ∀ h, Registered t.trace h → 0 < h ∧ h < t.loop.nextId
  unique : ∀ h cb cb' reg reg', .registered h cb reg ∈ t.trace → .registered h cb' reg' ∈ t.trace →
    cb = cb' ∧ reg = reg'
  known : ∀ i, (t.loop.slots.get i).active = true →
    ∃ reg, .registered (t.loop.slots.get i).id (t.loop.slots.get i).cb reg ∈ t.trace ∧
      reg.Agrees (t.loop.slots.get i)
  distinct : SlotTable.Distinct Slot.active Slot.id t.loop.slots
  spent : ∀ h, Spent t.trace h → ∀ i, (t.loop.slots.get i).active = true →
    (t.loop.slots.get i).id ≠ h
  starts : ∀ before after h cb now, t.trace = before ++ .started h cb now :: after →
    ¬ Spent before h ∧ ∃ reg, .registered h (some cb) reg ∈ before ∧ reg.MayStart now

theorem safe_start : ({} : Traced Callback).Safe where
  next_pos := Int.one_pos
  issued := by rintro h ⟨cb, reg, hmem⟩; exact absurd hmem List.not_mem_nil
  unique := by intro h cb cb' reg reg' hmem; exact absurd hmem List.not_mem_nil
  known := by intro i hact; simp at hact
  distinct := by intro i j hact; simp at hact
  spent := by intro h _ i hact; simp at hact
  starts := by intro before after h cb now heq; simp at heq

section Safe

variable {t : Traced Callback} (hs : t.Safe)

include hs

theorem Safe.active_registered {i : Fin maxCallbacks} (hact : (t.loop.slots.get i).active = true) :
    Registered t.trace (t.loop.slots.get i).id := by
  obtain ⟨reg, hmem, -⟩ := hs.known i hact
  exact ⟨_, reg, hmem⟩

theorem Safe.started_registered {h : EventHandle} (hst : Started t.trace h) :
    Registered t.trace h := by
  obtain ⟨cb, now, hmem⟩ := hst
  obtain ⟨before, after, heq⟩ := List.append_of_mem hmem
  obtain ⟨-, reg, hreg, -⟩ := hs.starts before after h cb now heq
  exact ⟨some cb, reg, by rw [heq]; exact List.mem_append_left _ hreg⟩

/-- An event that is no start keeps what is known of the starts. -/
theorem Safe.starts_concat {e : LoopEvent Callback} (he : ∀ h cb now, e ≠ .started h cb now) :
    ∀ before after h cb now, t.trace ++ [e] = before ++ .started h cb now :: after →
      ¬ Spent before h ∧ ∃ reg, .registered h (some cb) reg ∈ before ∧ reg.MayStart now := by
  intro before after h cb now heq
  rcases Run.concat_eq_append_cons heq with ⟨hx, -⟩ | ⟨after', heq'⟩
  · exact absurd hx.symm (he h cb now)
  · exact hs.starts before after' h cb now heq'

/-- The slots that a change leaves alone are known after one more event. -/
theorem Safe.known_concat (e : LoopEvent Callback) {i : Fin maxCallbacks} {slot : Slot Callback}
    (hslot : slot.active = true → ∃ reg, .registered slot.id slot.cb reg ∈ t.trace ++ [e] ∧
      reg.Agrees slot) :
    ∀ j, ((t.loop.slots.set i slot).get j).active = true →
      ∃ reg, .registered ((t.loop.slots.set i slot).get j).id ((t.loop.slots.set i slot).get j).cb
          reg ∈ t.trace ++ [e] ∧ reg.Agrees ((t.loop.slots.set i slot).get j) := by
  refine SlotTable.forall_get_set (Q := fun slot : Slot Callback => slot.active = true →
    ∃ reg, .registered slot.id slot.cb reg ∈ t.trace ++ [e] ∧ reg.Agrees slot) hslot ?_
  intro j _ hact
  obtain ⟨reg, hmem, hagrees⟩ := hs.known j hact
  exact ⟨reg, List.mem_append_left _ hmem, hagrees⟩

/-! ### Registrations -/

section Register

variable {cb : Option Callback} {reg : Registration}

theorem Safe.fresh {cb' : Option Callback} {reg' : Registration} :
    .registered t.loop.nextId cb' reg' ∉ t.trace :=
  fun hmem => absurd (hs.issued _ ⟨_, _, hmem⟩).2 (lt_irrefl _)

omit hs in
theorem registered_concat {h n : EventHandle} {cb' : Option Callback} {reg' : Registration}
    (hmem : .registered h cb' reg' ∈ t.trace ++ [.registered n cb reg]) :
    .registered h cb' reg' ∈ t.trace ∨ h = n ∧ cb' = cb ∧ reg' = reg := by
  rcases List.mem_append.mp hmem with hmem | hmem
  · exact .inl hmem
  · exact .inr (LoopEvent.registered.inj (List.mem_singleton.mp hmem))

/-- A new handle makes no handle spent. -/
theorem Safe.spent_registered {h : EventHandle}
    (hspent : Spent (t.trace ++ [.registered t.loop.nextId cb reg]) h) : Spent t.trace h := by
  rcases hspent with hc | ⟨⟨cb', atUs, delayUs, hmem⟩, cb'', now, hst⟩
  · rcases hc.of_concat with hc | ⟨he, -⟩
    · exact .inl hc
    · cases he
  · have hst' : Started t.trace h := by
      rcases List.mem_append.mp hst with hst | hst
      · exact ⟨cb'', now, hst⟩
      · cases List.mem_singleton.mp hst
    rcases registered_concat hmem with hmem | ⟨rfl, -, -⟩
    · exact .inr ⟨⟨cb', atUs, delayUs, hmem⟩, hst'⟩
    · obtain ⟨_, _, hmem'⟩ := hs.started_registered hst'
      exact absurd hmem' hs.fresh

/-- A slot taken for a new handle. -/
theorem Safe.register_slot {slot : Slot Callback} (hid : slot.id = t.loop.nextId)
    (hcb : slot.cb = cb) (hslot : reg.Agrees slot) (i : Fin maxCallbacks) :
    Safe ⟨⟨t.loop.slots.set i slot, t.loop.nextId + 1⟩,
      t.trace ++ [.registered t.loop.nextId cb reg]⟩ where
  next_pos := Int.lt_add_one_of_le hs.next_pos.le
  issued := by
    rintro h ⟨cb', reg', hmem⟩
    rcases registered_concat hmem with hmem | ⟨rfl, -, -⟩
    · obtain ⟨hpos, hlt⟩ := hs.issued h ⟨cb', reg', hmem⟩
      exact ⟨hpos, hlt.trans (Int.lt_succ _)⟩
    · exact ⟨hs.next_pos, Int.lt_succ _⟩
  unique := by
    intro h cb₁ cb₂ reg₁ reg₂ h₁ h₂
    rcases registered_concat h₁ with h₁ | ⟨rfl, rfl, rfl⟩
    · rcases registered_concat h₂ with h₂ | ⟨rfl, -, -⟩
      · exact hs.unique h cb₁ cb₂ reg₁ reg₂ h₁ h₂
      · exact absurd h₁ hs.fresh
    · rcases registered_concat h₂ with h₂ | ⟨-, rfl, rfl⟩
      · exact absurd h₂ hs.fresh
      · exact ⟨rfl, rfl⟩
  known := hs.known_concat _ fun _ =>
    ⟨reg, by rw [hid, hcb]; exact List.mem_append_right _ (List.mem_singleton_self _), hslot⟩
  distinct := by
    refine hs.distinct.set fun _ j _ hact heq => ?_
    have hlt := (hs.issued _ (hs.active_registered hact)).2
    exact absurd hlt (by rw [heq, hid]; exact lt_irrefl _)
  spent := by
    intro h hspent
    have hspent' := hs.spent_registered hspent
    refine SlotTable.forall_get_set
      (Q := fun slot : Slot Callback => slot.active = true → slot.id ≠ h) (fun _ heq => ?_)
      fun j _ => hs.spent h hspent' j
    have hlt := (hs.issued h hspent'.registered).2
    exact absurd hlt (by rw [← heq, hid]; exact lt_irrefl _)
  starts := hs.starts_concat fun h cb now he => by cases he

theorem Safe.register {fill : Slot Callback → Slot Callback} (hcb : ∀ slot, (fill slot).cb = cb)
    (hfill : ∀ slot : Slot Callback,
      reg.Agrees { fill slot with active := true, id := t.loop.nextId }) :
    (t.register (t.loop.add fill) cb reg).Safe := by
  unfold Traced.register
  rcases t.loop.add_cases fill with ⟨i, -, hadd⟩ | ⟨-, hadd⟩
  · rw [hadd]
    dsimp only
    rw [if_neg hs.next_pos.ne']
    refine hs.register_slot ?_ ?_ ?_ i
    · rfl
    · exact hcb _
    · exact hfill _
  · rw [hadd, if_pos rfl, List.append_nil]
    exact hs

end Register

/-! ### Cancels and starts -/

section Other

variable {e : LoopEvent Callback} (he : ∀ h cb reg, e ≠ .registered h cb reg)

omit hs in
include he in
theorem registered_concat_other {h : EventHandle} {cb : Option Callback} {reg : Registration}
    (hmem : .registered h cb reg ∈ t.trace ++ [e]) : .registered h cb reg ∈ t.trace := by
  rcases List.mem_append.mp hmem with hmem | hmem
  · exact hmem
  · exact absurd (List.mem_singleton.mp hmem).symm (he h cb reg)

include he

/-- A slot in use changed by an event that is no registration. -/
theorem Safe.change_slot {i : Fin maxCallbacks} {slot : Slot Callback}
    (hact : (t.loop.slots.get i).active = true) (hid : slot.id = (t.loop.slots.get i).id)
    (hknown : slot.active = true → slot.cb = (t.loop.slots.get i).cb ∧
      ∀ reg : Registration, reg.Agrees (t.loop.slots.get i) → reg.Agrees slot)
    (hspent : ∀ h, Spent (t.trace ++ [e]) h →
      Spent t.trace h ∨ h = (t.loop.slots.get i).id ∧ slot.active = false)
    (hstarts : ∀ before after h cb now, t.trace ++ [e] = before ++ .started h cb now :: after →
      ¬ Spent before h ∧ ∃ reg, .registered h (some cb) reg ∈ before ∧ reg.MayStart now) :
    Safe ⟨{ t.loop with slots := t.loop.slots.set i slot }, t.trace ++ [e]⟩ where
  next_pos := hs.next_pos
  issued := by
    rintro h ⟨cb, reg, hmem⟩
    exact hs.issued h ⟨cb, reg, registered_concat_other he hmem⟩
  unique h cb cb' reg reg' h₁ h₂ := hs.unique h cb cb' reg reg' (registered_concat_other he h₁)
    (registered_concat_other he h₂)
  known := hs.known_concat e fun hslot => by
    obtain ⟨hcb, hagrees⟩ := hknown hslot
    obtain ⟨reg, hmem, hreg⟩ := hs.known i hact
    rw [hid, hcb]
    exact ⟨reg, List.mem_append_left _ hmem, hagrees reg hreg⟩
  distinct := by
    refine hs.distinct.set fun _ j hj hactj heq => hj ?_
    exact hs.distinct j i hactj hact (heq.trans hid)
  spent := by
    intro h hspent'
    refine SlotTable.forall_get_set
      (Q := fun slot : Slot Callback => slot.active = true → slot.id ≠ h) ?_ ?_
    · intro hslot
      rcases hspent h hspent' with hspent' | ⟨-, hfree⟩
      · rw [hid]
        exact hs.spent h hspent' i hact
      · exact absurd (hslot.symm.trans hfree) (by decide)
    · intro j hj hactj
      rcases hspent h hspent' with hspent' | ⟨rfl, -⟩
      · exact hs.spent h hspent' j hactj
      · exact fun heq => hj (hs.distinct j i hactj hact heq)
  starts := hstarts

end Other

theorem Safe.cancel (h : EventHandle) : Safe ⟨t.loop.cancel h, t.trace ++ [.cancelled h]⟩ := by
  have hno : ∀ h' cb reg, (.cancelled h : LoopEvent Callback) ≠ .registered h' cb reg :=
    fun h' cb reg he => by cases he
  have hstarts := hs.starts_concat (e := .cancelled h) fun h' cb now he => by cases he
  -- nothing but the cancelled handle becomes spent
  have hspent : ∀ h', Spent (t.trace ++ [.cancelled h]) h' →
      Spent t.trace h' ∨ h' = h ∧ Registered t.trace h := by
    rintro h' (hc | ⟨⟨cb, atUs, delayUs, hmem⟩, cb', now, hst⟩)
    · rcases hc.of_concat with hc | ⟨he, hr⟩
      · exact .inl (.inl hc)
      · cases he
        exact .inr ⟨rfl, hr⟩
    · refine .inl (.inr ⟨⟨cb, atUs, delayUs, registered_concat_other hno hmem⟩, cb', now, ?_⟩)
      rcases List.mem_append.mp hst with hst | hst
      · exact hst
      · cases List.mem_singleton.mp hst
  rcases t.loop.cancel_cases h with ⟨i, hact, hid, heq⟩ | ⟨hnone, heq⟩
  · rw [heq]
    refine hs.change_slot hno hact ?_ ?_ (fun h' hspent' => ?_) hstarts
    · rfl
    · intro hfree
      exact absurd hfree Bool.false_ne_true
    · rw [hid]
      exact (hspent h' hspent').imp_right fun hh => ⟨hh.1, rfl⟩
  · rw [heq]
    exact
      { next_pos := hs.next_pos
        issued := by
          rintro h' ⟨cb, reg, hmem⟩
          exact hs.issued h' ⟨cb, reg, registered_concat_other hno hmem⟩
        unique := fun h' cb cb' reg reg' h₁ h₂ => hs.unique h' cb cb' reg reg'
          (registered_concat_other hno h₁) (registered_concat_other hno h₂)
        known := fun j hactj => by
          obtain ⟨reg, hmem, hreg⟩ := hs.known j hactj
          exact ⟨reg, List.mem_append_left _ hmem, hreg⟩
        distinct := hs.distinct
        spent := fun h' hspent' j hactj => by
          rcases hspent h' hspent' with hspent' | ⟨rfl, hr⟩
          · exact hs.spent h' hspent' j hactj
          · exact hnone (hs.issued h' hr).1 j hactj
        starts := hstarts }

/-- The callback of a slot that is ready is started. -/
theorem Safe.start {now : ℕ} {i : Fin maxCallbacks} {cb : Callback}
    (hcb : (t.loop.slots.get i).cb = some cb) (hready : (t.loop.slots.get i).ready now = true) :
    Safe ⟨{ t.loop with slots := t.loop.slots.set i ((t.loop.slots.get i).fire now) },
      t.trace ++ [.started (t.loop.slots.get i).id cb now]⟩ := by
  unfold Slot.ready at hready
  simp only [Bool.and_eq_true, Bool.or_eq_true, decide_eq_true_eq] at hready
  obtain ⟨⟨hact, -⟩, hdue⟩ := hready
  have hno : ∀ h cb' reg,
      (.started (t.loop.slots.get i).id cb now : LoopEvent Callback) ≠ .registered h cb' reg :=
    fun h cb' reg he => by cases he
  obtain ⟨reg, hmem, hreg⟩ := hs.known i hact
  obtain ⟨hid, hkeep, honce⟩ := (t.loop.slots.get i).fire_spec now
  refine hs.change_slot hno hact hid hkeep (fun h hspent => ?_) ?_
  · rcases hspent with hc | ⟨⟨cb', atUs, delayUs, hmem'⟩, cb'', now', hst⟩
    · rcases hc.of_concat with hc | ⟨he, -⟩
      · exact .inl (.inl hc)
      · cases he
    · have hold := registered_concat_other hno hmem'
      rcases List.mem_append.mp hst with hst | hst
      · exact .inl (.inr ⟨⟨cb', atUs, delayUs, hold⟩, cb'', now', hst⟩)
      · -- the one-shot timer that is started
        obtain ⟨rfl, -, -⟩ := LoopEvent.started.inj (List.mem_singleton.mp hst)
        obtain ⟨-, rfl⟩ := hs.unique _ _ _ _ _ hmem hold
        exact .inr ⟨rfl, honce atUs delayUs hreg⟩
  · intro before after h cb' now' heq
    rcases Run.concat_eq_append_cons heq with ⟨hx, rfl⟩ | ⟨after', heq'⟩
    · obtain ⟨rfl, rfl, rfl⟩ := LoopEvent.started.inj hx
      refine ⟨fun hspent => hs.spent _ hspent i hact rfl, reg, by rw [← hcb]; exact hmem, ?_⟩
      cases reg with
      | timer atUs delayUs periodUs =>
        intro h0
        rw [← hreg.2.2 h0]
        rcases hdue with hpoll | hdue
        · exact absurd (hpoll.symm.trans hreg.1) (by decide)
        · exact hdue
      | poll => exact trivial
    · exact hs.starts before after' h cb' now' heq'

/-! ### Runs -/

theorem Safe.perform (use : LoopUse Callback) (now : ℕ) : (perform use now t).Safe := by
  cases use with
  | onDelayUs delayUs cb =>
    refine hs.register (fun _ => rfl) fun slot => ?_
    exact ⟨rfl, rfl, fun _ => rfl⟩
  | onRepeatUs periodUs cb =>
    refine hs.register (fun _ => rfl) fun slot => ?_
    exact ⟨rfl, rfl, fun _ => rfl⟩
  | onBytesReady cb =>
    refine hs.register (fun _ => rfl) fun slot => ?_
    exact rfl
  | cancel h => exact hs.cancel h

theorem Safe.visit (now : ℕ) (i : Fin maxCallbacks) : (visit now i t).2.Safe := by
  unfold Traced.visit
  rcases t.loop.visit_cases now i with ⟨cb, hcb, hready, heq⟩ | ⟨-, heq⟩
  · rw [heq]
    exact hs.start hcb hready
  · rw [heq]
    exact hs

/-- A cancel of a spent handle changes nothing. -/
theorem Safe.cancel_spent {h : EventHandle} (hspent : Spent t.trace h) :
    t.loop.cancel h = t.loop := by
  rcases t.loop.cancel_cases h with ⟨i, hact, hid, -⟩ | ⟨-, heq⟩
  · exact absurd hid (hs.spent h hspent i hact)
  · exact heq

end Safe

/-- **Runs.** -/
theorem safe_states (moves : List (Reentrant.Move (LoopUse Callback))) :
    ∀ s ∈ Run.states (Reentrant.State.step program) ⟨{}, 0, []⟩ moves, s.sys.Safe :=
  Reentrant.states_invariant (p := program) (I := Safe) (fun now i _ ht => ht.visit now i)
    (fun use now _ ht => ht.perform use now) (s := ⟨{}, 0, []⟩) safe_start moves

end Traced

/-- **Event loop safety.** In every run, with uses of the loop and passes nested in any way: what is
started was registered, a one-shot timer is started once and not before its delay has passed since its
registration, nothing is started under a handle that was cancelled, the slots in use have different
handles, and a cancel of a handle that was cancelled before or whose one-shot timer was started changes
nothing. -/
theorem runs_safe (moves : List (Reentrant.Move (LoopUse Callback))) :
    ∀ s ∈ Run.states (Reentrant.State.step Traced.program) ⟨({} : Traced Callback), 0, []⟩ moves,
      (∀ before after h cb now, s.sys.trace = before ++ .started h cb now :: after →
          (∃ reg, .registered h (some cb) reg ∈ before ∧ reg.MayStart now) ∧
            (OneShot before h → ¬ Started before h) ∧ ¬ Cancelled before h) ∧
        SlotTable.Distinct Slot.active Slot.id s.sys.loop.slots ∧
        ∀ h, Cancelled s.sys.trace h ∨ OneShot s.sys.trace h ∧ Started s.sys.trace h →
          s.sys.loop.cancel h = s.sys.loop := by
  intro s hs
  have hsafe := Traced.safe_states moves s hs
  refine ⟨fun before after h cb now heq => ?_, hsafe.distinct, fun h hspent =>
    hsafe.cancel_spent hspent⟩
  obtain ⟨hspent, hreg⟩ := hsafe.starts before after h cb now heq
  exact ⟨hreg, fun ho hst => hspent (.inr ⟨ho, hst⟩), fun hc => hspent (.inl hc)⟩

/-- A one-shot timer whose callback registers another: the handle of the first cancels nothing, though the
slot is in use again. -/
theorem runs_safe_session :
    let moves : List (Reentrant.Move (LoopUse Unit)) :=
      [.perform (.onDelayUs 5 (some ())) 0, .runOnce 5, .perform (.onDelayUs 7 (some ())) 0]
    let s := moves.foldl (Reentrant.State.step Traced.program) ⟨{}, 0, []⟩
    (s.sys.loop.slots.get ⟨0, by decide⟩).active = true ∧ s.sys.loop.cancel 1 = s.sys.loop := by
  intro moves s
  have htrace : s.sys.trace = [.registered 1 (some ()) (.timer 0 5 0), .started 1 () 5,
    .registered 2 (some ()) (.timer 5 7 0)] := rfl
  refine ⟨rfl, (runs_safe moves s (Run.foldl_mem_states _ _ moves)).2.2 1 (.inr ⟨?_, ?_⟩)⟩
  · exact ⟨some (), 0, 5, by rw [htrace]; exact List.mem_cons_self⟩
  · exact ⟨(), 5, by rw [htrace]; exact List.mem_cons_of_mem _ List.mem_cons_self⟩

end AsyncEventLoop
