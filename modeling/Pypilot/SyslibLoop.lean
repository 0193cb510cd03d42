import Pypilot.EventLoop

/-!
# The event loop of the system library

`syslib/event_loop.hpp`: a second, smaller table of timers, without polled streams. It cancels without
looking at the sign of a handle, and it looks for an empty callback after it has changed the timer.
-/

namespace Pypilot.Syslib

def maxTimers : ℕ := 32

structure Timer (Callback : Type) where
  active : Bool := false
  id : ℤ := 0
  dueUs : ℕ := 0
  periodUs : ℕ := 0
  callback : Option Callback := none

structure EventLoop (Callback : Type) where
  timers : List.Vector (Timer Callback) maxTimers := List.Vector.replicate maxTimers {}
  nextId : ℤ := 1

variable {Callback : Type}

/-- The timer as its callback finds it. The due time moves on as in the other loop. -/
def Timer.fire (now : ℕ) (timer : Timer Callback) : Timer Callback :=
  if timer.periodUs = 0 then { timer with active := false, callback := none }
  else { timer with dueUs := AsyncEventLoop.rearm timer.periodUs now timer.dueUs }

namespace EventLoop

variable (loop : EventLoop Callback)

def cancel (id : ℤ) : EventLoop Callback :=
  { loop with
    timers := SlotTable.update (fun timer => timer.active && timer.id = id)
      (fun timer => { timer with active := false, callback := none }) loop.timers }

/-- A timer may be given an empty callback; without a free timer the handle is -1. -/
def addTimer (delayUs periodUs nowUs : ℕ) (cb : Option Callback) : ℤ × EventLoop Callback :=
  let free (timer : Timer Callback) : Bool := !timer.active
  if loop.timers.toList.any free then
    (loop.nextId,
      { timers := SlotTable.update free
          (fun _ => ⟨true, loop.nextId, nowUs + delayUs, periodUs, cb⟩) loop.timers,
        nextId := loop.nextId + 1 })
  else (-1, loop)

def callLaterUs (delayUs nowUs : ℕ) (cb : Option Callback) : ℤ × EventLoop Callback :=
  loop.addTimer delayUs 0 nowUs cb

def callEveryUs (periodUs nowUs : ℕ) (cb : Option Callback) : ℤ × EventLoop Callback :=
  loop.addTimer periodUs periodUs nowUs cb

/-- `run_due_timers` at one timer: the handle and the callback that it starts, when it does. -/
def visit (now : ℕ) (i : Fin maxTimers) : Option (ℤ × Callback) × EventLoop Callback :=
  let timer := loop.timers.get i
  if !timer.active || decide (now < timer.dueUs) then (none, loop)
  else
    (timer.callback.map fun cb => (timer.id, cb),
      { loop with timers := loop.timers.set i (timer.fire now) })

end EventLoop

end Pypilot.Syslib
