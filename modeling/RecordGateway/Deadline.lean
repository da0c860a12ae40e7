import RecordGateway.Downstream.Error

/-! # Deadlines

A call that takes too long is given up. Timers tick in whole milliseconds and round a wait up, so a
call counts as in time if its rounded duration is not beyond the rounded deadline.
-/

namespace RecordGateway

/-- Nanoseconds in whole milliseconds, rounded up. -/
def ticks (nanoseconds : Nat) : Nat := (nanoseconds + 999999) / 1000000

/-- A call: its result, and the nanoseconds until it is there. Without a duration it never ends. -/
structure TimedCall (α : Type) where
  result : Except DownstreamError α
  duration : Option Nat

/-- The outcome of a wait, and the milliseconds that it took. -/
structure Waited (α : Type) where
  result : Except DownstreamError α
  elapsedMs : Nat

/-- Waits for a call, but not longer than a number of nanoseconds. -/
def TimedCall.within (call : TimedCall α) (deadline : Nat) : Waited α :=
  let missed : Waited α := ⟨.error (.timeout deadline), ticks deadline⟩
  match call.duration with
  | some d => if ticks d ≤ ticks deadline then ⟨call.result, ticks d⟩ else missed
  | none => missed

end RecordGateway
