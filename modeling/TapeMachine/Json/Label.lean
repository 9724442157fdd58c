/-
The text of a data value.

States and symbols are texts; any other value stands for the text it is shown by. Inside lists and objects a text is
shown quoted, outside it is shown as it is. A whole number of more than 4300 digits is not shown, nor is a value that
lies inside too many others (`Json.trouble?`); so not every value has a label (`Json.shown`).
-/
import TapeMachine.Json.Value
import TapeMachine.Text.Numeral
import TapeMachine.Text.Quoted

namespace TapeMachine.Json

mutual

/-- a value as it is shown inside lists and objects -/
def literal : Json → Text
  | .null => "None"
  | .bool b => if b then "True" else "False"
  | .number n => n.text
  | .string s => Text.quoted s
  | .list items => "[" ++ Text.intercalate ", " (literalItems items) ++ "]"
  | .object fields => "\x7b" ++ Text.intercalate ", " (literalFields fields) ++ "\x7d"

def literalItems : List Json → List Text
  | [] => []
  | v :: vs => literal v :: literalItems vs

def literalFields : List (Text × Json) → List Text
  | [] => []
  | (k, v) :: fs => (Text.quoted k ++ ": " ++ literal v) :: literalFields fs

end

/-- a value as it is shown on its own -/
def text : Json → Text
  | .string s => s
  | v => literal v

/-- the state or symbol that a value names, if it can be shown; null names the empty one -/
def label : Json → Text
  | .null => ""
  | v => text v

/-- why a value is not shown -/
inductive TextFault where
  | tooManyDigits
  | tooDeep
deriving DecidableEq, Repr

def TextFault.message : TextFault → String
  | .tooManyDigits =>
    "Exceeds the limit (" ++ toString Text.mostDigits ++ " digits) for integer string conversion; " ++
      "use sys.set_int_max_str_digits() to increase the limit"
  | .tooDeep => "maximum recursion depth exceeded while getting the repr of an object"

mutual

/-- what keeps a value from being shown where there is room for values `room` levels inside it; what comes first in
the text is met first -/
def trouble? (room : Nat) : Json → Option TextFault
  | .number (.whole n) =>
    if Text.mostDigits < (Nat.toDigits 10 n.natAbs).length then some .tooManyDigits else none
  | .list items => itemsTrouble? room items
  | .object fields => fieldsTrouble? room fields
  | _ => none

def itemsTrouble? (room : Nat) : List Json → Option TextFault
  | [] => none
  | v :: vs =>
    match room with
    | 0 => some .tooDeep
    | room + 1 =>
      match trouble? room v with
      | some f => some f
      | none => itemsTrouble? (room + 1) vs

def fieldsTrouble? (room : Nat) : List (Text × Json) → Option TextFault
  | [] => none
  | (_, v) :: fs =>
    match room with
    | 0 => some .tooDeep
    | room + 1 =>
      match trouble? room v with
      | some f => some f
      | none => fieldsTrouble? (room + 1) fs

end

/-- the label of a value, unless it cannot be shown -/
def shown (room : Nat) (v : Json) : Except TextFault Text :=
  match v.trouble? room with
  | some f => .error f
  | none => .ok v.label

end TapeMachine.Json
