/-
Timers with scripted callbacks.

A callback has a name and a script that says what it does at each of its calls: it may cancel the timer, start it
again with another callback, or fail, any number of these in turn. `fire` runs the oldest handle of the loop, and the
stage keeps the names of the callbacks called, and a history of what was done to the timer.

A failure is an ordinary one, or an interrupt. The timer stops for ordinary failures alone.
-/
import TapeMachine.Config.Operand
import TapeMachine.Control.Ticker

namespace TapeMachine

mutual

/-- a callback: its name, and what it does at its first call, its second one, and so on -/
inductive Callback where
  | mk (name : String) (script : List (List Act))

/-- what a callback may do to the timer -/
inductive Act where
  | cancel
  | start (interval : Seconds) (callback : Callback)
  /-- as `start`, with an interval that a value gives -/
  | startFor (interval : Json) (callback : Callback)
  /-- as `start`, but goes on when the timer does not start -/
  | attempt (interval : Seconds) (callback : Callback)
  | fail
  | interrupt

end

namespace Callback

def name : Callback → String
  | .mk n _ => n

def script : Callback → List (List Act)
  | .mk _ s => s

/-- the callback after so many calls -/
def after (c : Callback) (calls : Nat) : Callback := .mk c.name (c.script.drop calls)

/-- a callback that does one thing, at its `call`-th call -/
def once (name : String) (call : Nat) (act : Act) : Callback :=
  .mk name (if call = 0 then [] else List.replicate (call - 1) [] ++ [[act]])

end Callback

/-- one entry of the history of a timer -/
inductive Deed where
  | started (callback : Callback)
  /-- a start ended in a fault -/
  | refused
  | cancelled
  /-- a callback was called, as it had become by the calls before -/
  | called (callback : Callback)
  /-- a call ended in an ordinary failure -/
  | failed

/-- a timer with the names of the callbacks called, oldest first -/
structure Stage where
  ticker : Ticker Callback
  calls : List String := []
  /-- what has happened, the latest first -/
  deeds : List Deed := []

/-- why a start or a call ends early -/
inductive StageFault where
  | ticker (fault : TickerFault)
  | operand (fault : OperandFault)
  | failed (name : String)
deriving DecidableEq, Repr

def StageFault.message : StageFault → String
  | .ticker f => f.message
  | .operand f => f.message
  | .failed name => "callback " ++ name ++ " failed"

/-- how a call ends early -/
structure CallFault where
  fault : StageFault
  interrupt : Bool := false
deriving DecidableEq, Repr

namespace Stage

def note (s : Stage) (d : Deed) : Stage := { s with deeds := d :: s.deeds }

def cancel (s : Stage) : Stage := { s with ticker := s.ticker.cancel }.note .cancelled

def start (s : Stage) (interval : Seconds) (callback : Callback) : Stage × Except StageFault Unit :=
  match s.ticker.start interval callback with
  | (t, .ok ()) => ({ s with ticker := t }.note (.started callback), .ok ())
  | (t, .error f) => ({ s with ticker := t }.note .refused, .error (.ticker f))

/-- starts the timer with the interval that a value gives; a value that is no number cannot be compared with zero -/
def startFor (s : Stage) (interval : Json) (callback : Callback) : Stage × Except StageFault Unit :=
  match interval.number? with
  | some n => s.start (.given n) callback
  | none =>
    ({ s with ticker := s.ticker.cancel }.note .refused, .error (.operand (.unordered .less interval.kind .whole)))

/-- what the callback of the given name does, up to the first fault -/
def perform (name : String) : Stage → List Act → Stage × Except CallFault Unit
  | s, [] => (s, .ok ())
  | s, .cancel :: acts => perform name s.cancel acts
  | s, .start i c :: acts =>
    match s.start i c with
    | (s, .ok ()) => perform name s acts
    | (s, .error f) => (s, .error { fault := f })
  | s, .startFor i c :: acts =>
    match s.startFor i c with
    | (s, .ok ()) => perform name s acts
    | (s, .error f) => (s, .error { fault := f })
  | s, .attempt i c :: acts => perform name (s.start i c).1 acts
  | s, .fail :: _ => (s, .error { fault := .failed name })
  | s, .interrupt :: _ => (s, .error { fault := .failed name, interrupt := true })

/-- calls a callback, which will go on in its script at its next call -/
def call (s : Stage) (c : Callback) : Stage × Except CallFault Unit :=
  let s := { s with
    calls := s.calls ++ [c.name]
    ticker := { s.ticker with callback := some (c.after 1) } }
  perform c.name (s.note (.called c)) (c.script.head?.getD [])

/-- runs the oldest handle; none when nothing is pending -/
def fire (s : Stage) : Option (Stage × Except CallFault Unit) :=
  s.ticker.due.map fun t =>
    let s := { s with ticker := t }
    match t.callback with
    | none => (s, .ok ())
    | some c =>
      match s.call c with
      | (s, .ok ()) => (s, .ok ())
      | (s, .error f) => if f.interrupt then (s, .error f) else ((s.note .failed).cancel, .error f)

/-- runs up to `n` handles, stopping when nothing is pending and after a fault; with the number of handles run -/
def fireUpTo : Nat → Stage → Nat × Stage × Except StageFault Unit
  | 0, s => (0, s, .ok ())
  | n + 1, s =>
    match s.fire with
    | none => (0, s, .ok ())
    | some (s, .error f) => (1, s, .error f.fault)
    | some (s, .ok ()) =>
      let (k, s, r) := fireUpTo n s
      (k + 1, s, r)

end Stage
end TapeMachine
