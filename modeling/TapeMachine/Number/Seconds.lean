/-
Spans of time.

The thousandth part of a number of milliseconds is rounded to the 64-bit format where it is shown, written or compared.
Two spans of whole milliseconds are compared by these, since rounding keeps their order.
-/
import TapeMachine.Number.Basic

namespace TapeMachine

inductive Seconds where
  | given (n : Number)
  | ofMillis (n : Number)
deriving DecidableEq, Repr

namespace Seconds

def number : Seconds → Number
  | .given n => n
  | .ofMillis n => .real n.thousandth

/-- none for a whole number of milliseconds that is too large -/
def ofMillis? (n : Number) : Option Seconds :=
  match n, n.thousandth with
  | .whole _, .infinite _ => none
  | n, _ => some (.ofMillis n)

def lt : Seconds → Seconds → Bool
  | .ofMillis (.whole a), .ofMillis (.whole b) => decide (a < b)
  | a, b => a.number.lt b.number

/-- the first of the two unless the second is longer -/
def max (a b : Seconds) : Seconds := if a.lt b then b else a

def isNegative (s : Seconds) : Bool := s.number.lt (.whole 0)

def text (s : Seconds) : String := s.number.text

/-- the milliseconds of a span, to the nearest whole number -/
def millisText (s : Seconds) : String :=
  match s.number.scale 1000 with
  | .whole n => toString n
  | .real x => x.roundedText

end Seconds
end TapeMachine
