import Pypilot.Lib.Loop
import Pypilot.Lib.SlotTable

/-!
# The event loop

`event_loop.hpp`: a table of slots for timers and polled streams, and the handles by which they are
cancelled. A new registration takes the first slot that is free. Handles and due times are counted
without a wrap.
-/

namespace AsyncEventLoop

/-- `EventHandle`; 0 is no registration. -/
abbrev EventHandle := ℤ

def maxCallbacks : ℕ := 64

structure Slot (Callback : Type) where
  active : Bool := false
  periodicPoll : Bool := false
  id : EventHandle := 0
  dueUs : ℕ := 0
  periodUs : ℕ := 0
  cb : Option Callback := none

structure EventLoop (Callback : Type) where
  slots : List.Vector (Slot Callback) maxCallbacks := List.Vector.replicate maxCallbacks {}
  nextId : EventHandle := 1

namespace EventLoop

variable {Callback : Type} (loop : EventLoop Callback)

def cancel (handle : EventHandle) : EventLoop Callback :=
  if handle ≤ 0 then loop
  else { loop with
    slots := SlotTable.update (fun slot => slot.active && slot.id = handle)
      (fun slot => { slot with active := false, cb := none }) loop.slots }

/-- A free slot taken over by `fill`, under the next handle. -/
def add (fill : Slot Callback → Slot Callback) : EventHandle × EventLoop Callback :=
  let free (slot : Slot Callback) : Bool := !slot.active
  if loop.slots.toList.any free then
    (loop.nextId,
      { slots := SlotTable.update free
          (fun slot => { fill slot with active := true, id := loop.nextId }) loop.slots,
        nextId := loop.nextId + 1 })
  else (0, loop)

/-- A timer may be given an empty callback. -/
def addTimer (delayUs periodUs nowUs : ℕ) (cb : Option Callback) :
    EventHandle × EventLoop Callback :=
  loop.add fun slot =>
    { slot with periodicPoll := false, dueUs := nowUs + delayUs, periodUs := periodUs, cb := cb }

def onDelayUs (delayUs nowUs : ℕ) (cb : Option Callback) : EventHandle × EventLoop Callback :=
  loop.addTimer delayUs 0 nowUs cb

def onRepeatUs (periodUs nowUs : ℕ) (cb : Option Callback) : EventHandle × EventLoop Callback :=
  loop.addTimer periodUs periodUs nowUs cb

/-- The due time and the period of the slot stay what they were. -/
def addPoll (cb : Callback) : EventHandle × EventLoop Callback :=
  loop.add fun slot => { slot with periodicPoll := true, cb := some cb }

/-- `on_bytes_ready`: the callback is to run in passes that find the stream valid and readable. -/
def onBytesReady (cb : Callback) : EventHandle × EventLoop Callback := loop.addPoll cb

end EventLoop

/-! ## Passes -/

/-- `do { due_us += period; } while (now >= due_us)`, which is entered with a period only. -/
def rearmBody (period now due : ℕ) : ℕ ⊕ ℕ :=
  if period ≠ 0 ∧ due + period ≤ now then .inl (due + period) else .inr (due + period)

theorem rearmBody_variant (period now : ℕ) :
    Loop.Variant (rearmBody period now) fun due => now + 1 - due := by
  intro due due' h
  unfold rearmBody at h
  split_ifs at h with hc
  have := Sum.inl.inj h
  dsimp only
  omega

def rearm (period now due : ℕ) : ℕ :=
  Loop.run (rearmBody period now) (fun due => now + 1 - due) (rearmBody_variant period now) due

variable {Callback : Type}

/-- A pass at the clock reading `now` starts the callback of the slot. -/
def Slot.ready (now : ℕ) (slot : Slot Callback) : Bool :=
  slot.active && slot.cb.isSome && (slot.periodicPoll || decide (slot.dueUs ≤ now))

/-- The slot as the callback finds it. -/
def Slot.fire (now : ℕ) (slot : Slot Callback) : Slot Callback :=
  if slot.periodUs = 0 ∧ !slot.periodicPoll then { slot with active := false, cb := none }
  else if !slot.periodicPoll then { slot with dueUs := rearm slot.periodUs now slot.dueUs }
  else slot

/-- `run_once` at one slot: the handle and the callback that it starts, when it does. -/
def EventLoop.visit (loop : EventLoop Callback) (now : ℕ) (i : Fin maxCallbacks) :
    Option (EventHandle × Callback) × EventLoop Callback :=
  let slot := loop.slots.get i
  match slot.cb with
  | none => (none, loop)
  | some cb =>
    if slot.ready now then
      (some (slot.id, cb), { loop with slots := loop.slots.set i (slot.fire now) })
    else (none, loop)

end AsyncEventLoop
