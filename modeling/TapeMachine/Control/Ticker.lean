/-
A repeating timer on an event loop.

The loop holds handles, the oldest first, of which the timer owns one at most. Firing arms the timer anew before the
callback runs, so that the callback is free to cancel it.
-/
import TapeMachine.Number.Seconds

namespace TapeMachine

/-- a timer with its loop, if there is one -/
structure Ticker (κ : Type) where
  loop : Bool
  pending : List Nat := []
  next : Nat := 0
  /-- the timer's own handle -/
  handle : Option Nat := none
  interval : Option Seconds := none
  callback : Option κ := none

inductive TickerFault where
  | negative (interval : Seconds)
  | noLoop
deriving DecidableEq, Repr

def TickerFault.message : TickerFault → String
  | .negative i => "Ticker interval cannot be negative, got " ++ i.text ++ "."
  | .noLoop => "no running event loop"

namespace Ticker

variable {κ : Type}

def active (t : Ticker κ) : Bool := t.handle.isSome

def cancel (t : Ticker κ) : Ticker κ :=
  match t.handle with
  | some h => { t with pending := t.pending.erase h, handle := none }
  | none => t

/-- a new handle on the loop -/
def arm (t : Ticker κ) : Ticker κ :=
  { t with pending := t.pending ++ [t.next], next := t.next + 1, handle := some t.next }

/-- cancels what was scheduled and schedules a callback. The loop takes every interval that is not negative, also a
whole number of seconds beyond the range of the 64-bit format, which the loops of some hosts refuse. -/
def start (t : Ticker κ) (interval : Seconds) (callback : κ) : Ticker κ × Except TickerFault Unit :=
  if interval.isNegative then (t.cancel, .error (.negative interval))
  else if !t.loop then (t.cancel, .error .noLoop)
  else ({ t.cancel with interval := some interval, callback := some callback }.arm, .ok ())

/-- takes the oldest handle out of the loop and arms the timer anew -/
def due (t : Ticker κ) : Option (Ticker κ) :=
  match t.pending with
  | [] => none
  | _ :: rest => some { t with pending := rest }.arm

end Ticker
end TapeMachine
