/-
What a driven machine reports: the events of its run log, the runs that have halted, and the trace of its commits.
-/
import TapeMachine.Machine.Grammar
import TapeMachine.Machine.Snapshot
import TapeMachine.Number.Seconds
import TapeMachine.Storage.Journal

namespace TapeMachine

/-- an event of the run log -/
inductive Event where
  | loaded (input state : Text) (rules : Nat)
  | run (interval : Seconds) (steps : Int)
  | pause (steps : Int)
  | reset
  | halt (status : Status) (state : Text) (steps : Int)
deriving DecidableEq, Repr

namespace Event

def name : Event → String
  | .loaded .. => "initialize"
  | .run .. => "run"
  | .pause .. => "pause"
  | .reset => "reset"
  | .halt .. => "halt"

/-- what an event carries besides its name -/
def details : Event → Fields
  | .loaded input state rules => [("input", .string input), ("state", .string state), ("transitions", .ofInt rules)]
  | .run interval steps => [("interval", .number interval.number), ("steps", .ofInt steps)]
  | .pause steps => [("steps", .ofInt steps)]
  | .reset => []
  | .halt status state steps => [("status", .string status.name), ("state", .string state), ("steps", .ofInt steps)]

/-- an event as an entry of the main log -/
def entry (e : Event) : Fields := ("event", .string e.name) :: e.details

end Event

/-- a run that has halted -/
structure HaltedRun where
  verdict : Verdict
  definition : Definition
  input : Text
  output : Text
  state : Text
  steps : Int
deriving DecidableEq, Repr

/-- a halted run as an entry of the log of its outcome -/
def HaltedRun.entry (r : HaltedRun) : Fields :=
  [("definition", r.definition.toJson), ("input", .string r.input), ("output", .string r.output),
   ("state", .string r.state), ("steps", .ofInt r.steps)]

/-- one entry of a trace -/
inductive Note where
  /-- a snapshot took the place of another, with these listeners subscribed -/
  | commit (before after : Snapshot) (audience : List String)
  /-- a listener was given a snapshot -/
  | delivery (listener : String) (snapshot : Snapshot)
  | event (e : Event)
  | halted (r : HaltedRun)
  /-- a run was asked for; the truth value tells whether the timer started -/
  | runCalled (started : Bool)
  /-- a run was asked for with an interval that is no number -/
  | runMistyped
  /-- a tick ended in a fault -/
  | tickFailed
deriving DecidableEq, Repr

end TapeMachine
