/-
Settings as operands.

A configuration that has not been checked may hold values of any kind. A computation with such a value ends in a fault
when the key is missing, when the kind does not take part in it, or when a number is too large for it. A truth value
counts as one or zero.
-/
import TapeMachine.Config.Schema
import TapeMachine.Number.Seconds

namespace TapeMachine

inductive Operator where
  | less
  | greater
  | minus
  | divide
deriving DecidableEq, Repr

def Operator.symbol : Operator → String
  | .less => "<"
  | .greater => ">"
  | .minus => "-"
  | .divide => "/"

/-- why a computation with settings ends early -/
inductive OperandFault where
  | missing (key : String)
  /-- values of kinds that have no order between them -/
  | unordered (op : Operator) (left right : Json.Kind)
  /-- values of kinds that there is no arithmetic for -/
  | unsupported (op : Operator) (left right : Json.Kind)
  /-- a number of repetitions that is no whole number -/
  | unrepeatable (got : Json.Kind)
  /-- a quotient beyond the 64-bit format -/
  | quotientTooLarge
  /-- a whole number beyond the 64-bit format -/
  | wholeTooLarge
  /-- a whole number beyond all positions -/
  | positionTooLarge
  /-- more cells than there is room for -/
  | noRoom
deriving DecidableEq, Repr

namespace OperandFault

def kinds (left right : Json.Kind) : String := "'" ++ left.name ++ "' and '" ++ right.name ++ "'"

def message : OperandFault → String
  | .missing key => key
  | .unordered op l r => "'" ++ op.symbol ++ "' not supported between instances of " ++ kinds l r
  | .unsupported op l r => "unsupported operand type(s) for " ++ op.symbol ++ ": " ++ kinds l r
  | .unrepeatable got => "can't multiply sequence by non-int of type '" ++ got.name ++ "'"
  | .quotientTooLarge => "integer division result too large for a float"
  | .wholeTooLarge => "int too large to convert to float"
  | .positionTooLarge => "cannot fit 'int' into an index-sized integer"
  | .noRoom => ""

end OperandFault

/-- whether a whole number can stand for a position, counted from either end -/
def isPosition (n : Int) : Bool := decide (-Int.pow 2 63 ≤ n ∧ n < Int.pow 2 63)

namespace Json

/-- a value as a number, if it counts as one -/
def number? : Json → Option Number
  | .number n => some n
  | .bool b => some (.whole (if b then 1 else 0))
  | _ => none

/-- a value less another -/
def minus (v w : Json) : Except OperandFault Number :=
  match v.number?, w.number? with
  | some m, some n =>
    match m.sub? n with
    | some x => .ok x
    | none => .error .wholeTooLarge
  | _, _ => .error (.unsupported .minus v.kind w.kind)

/-- a value unless the number is greater, and else the number -/
def orGreater (v : Json) (n : Number) : Except OperandFault Number :=
  match v.number? with
  | none => .error (.unordered .greater (Json.number n).kind v.kind)
  | some m => .ok (m.max n)

/-- a number of milliseconds as a span of time -/
def asMillis (v : Json) : Except OperandFault Seconds :=
  match v.number? with
  | none => .error (.unsupported .divide v.kind .whole)
  | some m =>
    match Seconds.ofMillis? m with
    | some s => .ok s
    | none => .error .quotientTooLarge

end Json

/-- the value under a key -/
def Config.value (c : Config) (key : String) : Except OperandFault Json :=
  match c.get? key with
  | some v => .ok v
  | none => .error (.missing key)

end TapeMachine
