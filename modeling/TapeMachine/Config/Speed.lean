/-
Speed and step interval.

A higher speed means a shorter interval, one millisecond for each point, down to the least one.
-/
import TapeMachine.Config.Operand

namespace TapeMachine

/-- the highest speed -/
def maxSpeed : Int := 950

/-- a speed brought into its range; one that lies in it stays as it was given -/
def clampSpeed (speed : Number) : Number := (speed.max (.whole 0)).min (.whole maxSpeed)

/-- a value brought into the range of speeds, in which a truth value lies already -/
def clampValue (v : Json) : Except OperandFault Json :=
  match v with
  | .bool _ => .ok v
  | v =>
    match v.number? with
    | some n => .ok (.number (clampSpeed n))
    | none => .error (.unordered .greater .whole v.kind)

namespace Config

/-- milliseconds between steps at a speed -/
def delay (c : Config) (speed : Json) : Except OperandFault Number := do
  let least ← c.orDefaults.value "min_interval_ms"
  let longest ← c.orDefaults.value "max_interval_ms"
  least.orGreater (← longest.minus speed)

/-- the time between steps at a speed -/
def interval (c : Config) (speed : Json) : Except OperandFault Seconds := do
  (Json.number (← c.delay speed)).asMillis

end Config
end TapeMachine
