/-
Padding.

The setting says how many blank cells stand on either side of a fresh input, which is also where the head starts. A
truth value counts as one cell or none, and the head's position is then shown as that truth value until the head moves.
-/
import TapeMachine.Config.Operand

namespace TapeMachine

inductive Padding where
  | cells (n : Int)
  | truth (b : Bool)
  | unusable (got : Json.Kind)
deriving DecidableEq, Repr

namespace Padding

def ofJson : Json → Padding
  | .number (.whole n) => .cells n
  | .bool b => .truth b
  | v => .unusable v.kind

def isTruth : Padding → Bool
  | .truth _ => true
  | _ => false

/-- cells of one side that a host can be relied on to have room for -/
def usualRoom : Nat := Nat.pow 2 28

/-- a number of cells that there is room for; without a limit any number will do -/
def fit (room : Option Nat) (n : Int) : Except OperandFault Int :=
  match room with
  | none => .ok n
  | some most =>
    if !isPosition n then .error .positionTooLarge
    else if most < n then .error .noRoom
    else .ok n

def count (room : Option Nat) : Padding → Except OperandFault Int
  | .cells n => fit room n
  | .truth b => .ok (if b then 1 else 0)
  | .unusable got => .error (.unrepeatable got)

end Padding
end TapeMachine
