/-
Evaluating machines.

An evaluation runs a fresh machine on an input until it halts or the cap on steps is reached, without a run log and
without listeners, and sums up the last snapshot.
-/
import TapeMachine.Control.Engine

namespace TapeMachine

/-- what became of an input -/
structure Summary where
  input : Option Text
  output : Text
  state : Text
  steps : Int
  status : Status
deriving DecidableEq, Repr

namespace Summary

def accepted (s : Summary) : Bool := s.status == .accepted

def halted (s : Summary) : Bool := s.status.halted

def toJson (s : Summary) : Json :=
  .object [("input", (s.input.map Json.string).getD .null), ("output", .string s.output), ("state", .string s.state),
    ("steps", .ofInt s.steps), ("status", .string s.status.name), ("accepted", .bool s.accepted),
    ("halted", .bool s.halted)]

end Summary

/-- a moment for machines that write no log -/
def Clock.origin : Clock := ⟨1970, 1, 1, 0, 0, 0, 0⟩

/-- runs a fresh machine on an input, for at most `cap` transitions, with room for a tape -/
def evaluate (c : Config) (d : Definition) (input : Option Text) (cap : Option Cap) (room : Option Nat) :
    Except Fault Summary := do
  let e ← (Engine.make c false {} Clock.origin).mapError .operand
  let loaded := Engine.loadDefinition Engine.notify { e with room } d (input.getD "")
  let _ ← loaded.result
  let o := Engine.runUntilHalt Engine.notify loaded.engine cap
  let q ← o.result
  return ⟨input, o.engine.output, q.state, q.steps, q.status⟩

/-- evaluates the presets of the given names on their sample inputs; an unknown name is reported before anything runs
-/
def evaluatePresets (c : Config) (names : List String) (cap : Option Cap) (room : Option Nat) :
    Except Fault (List (String × Summary)) := do
  let presets ← names.mapM fun n =>
    match Preset.find? n with
    | some p => .ok p
    | none => .error (.unknownPreset n)
  presets.mapM fun p => (evaluate c p.definition (some p.input) cap room).map fun s => (p.name, s)

end TapeMachine
