/-
Definitions as data.

An object describes a definition by six fields and a rule by five; each field may be spelled in two ways, and the
first spelling wins when both are there. States and symbols are the labels of the values given, so a number stands for
its text and null for the empty text; a value that cannot be shown ends the reading. The blank symbol joins the
alphabet when it is not in it. Other keys are ignored. A definition comes back from its data
(`Definition.ofJson_toJson`).
-/
import TapeMachine.Machine.Definition

namespace TapeMachine

/-- the two spellings of a field -/
structure FieldName where
  spelling : String
  other : String
deriving DecidableEq, Repr

/-- the value of a field under its first spelling, or else under its other one -/
def FieldName.pick? (n : FieldName) (fs : Fields) : Option Json := (fs.get? n.spelling).or (fs.get? n.other)

def FieldName.pick (n : FieldName) (owner : String) (fs : Fields) : Except DefinitionFault Json :=
  match n.pick? fs with
  | some v => .ok v
  | none => .error (.missingField owner n.spelling)

/-- the label of a value, where there is room for values `room` levels inside it -/
def labelOf (room : Nat) (v : Json) : Except DefinitionFault Text := (v.shown room).mapError .textless

/-- the label of the value of a field -/
def FieldName.pickLabel (n : FieldName) (owner : String) (fs : Fields) (room : Nat) : Except DefinitionFault Text := do
  let v ← n.pick owner fs
  labelOf room v

namespace Move

def ofLabel (s : Text) : Except DefinitionFault Move :=
  match ofText? s with
  | some m => .ok m
  | none => .error (.unknownMove s)

end Move

namespace Rule

def stateField : FieldName := ⟨"currentState", "current_state"⟩
def readField : FieldName := ⟨"readSymbol", "read_symbol"⟩
def nextField : FieldName := ⟨"nextState", "next_state"⟩
def writeField : FieldName := ⟨"writeSymbol", "write_symbol"⟩
def moveField : FieldName := ⟨"move", "move"⟩

/-- the rule that the fields of an object describe -/
def ofFields (fs : Fields) (room : Nat := Json.mostDepth) : Except DefinitionFault Rule := do
  let state ← stateField.pickLabel "Transition" fs room
  let read ← readField.pickLabel "Transition" fs room
  let next ← nextField.pickLabel "Transition" fs room
  let write ← writeField.pickLabel "Transition" fs room
  let move ← moveField.pickLabel "Transition" fs room
  let move ← Move.ofLabel move
  return ⟨state, read, next, write, move⟩

def ofJson (v : Json) (room : Nat := Json.mostDepth) : Except DefinitionFault Rule :=
  match v with
  | .object fs => ofFields fs room
  | v => .error (.ruleNotMapping v.kind.name)

def toJson (r : Rule) : Json :=
  .object [("currentState", .string r.state), ("readSymbol", .string r.read), ("nextState", .string r.next),
    ("writeSymbol", .string r.write), ("move", .string r.move.letter)]

end Rule

namespace Definition

def statesField : FieldName := ⟨"states", "states"⟩
def alphabetField : FieldName := ⟨"alphabet", "alphabet"⟩
def blankField : FieldName := ⟨"blankSymbol", "blank_symbol"⟩
def initialField : FieldName := ⟨"initialState", "initial_state"⟩
def acceptField : FieldName := ⟨"acceptState", "accept_state"⟩
def rulesField : FieldName := ⟨"transitions", "transitions"⟩

/-- the items of a field that must hold a list -/
def itemsOf (field : String) : Json → Except DefinitionFault (List Json)
  | .list items => .ok items
  | v => .error (.fieldNotList field v.kind.name)

/-- an alphabet with the blank symbol in it -/
def withBlank (alphabet : List Text) (blank : Text) : List Text :=
  if blank ∈ alphabet then alphabet else alphabet ++ [blank]

/-- the definition that the fields of an object describe; a missing field is reported before a wrong one -/
def ofFields (fs : Fields) (room : Nat := Json.mostDepth) : Except DefinitionFault Definition := do
  let states ← statesField.pick "Definition" fs
  let alphabet ← alphabetField.pick "Definition" fs
  let blank ← blankField.pick "Definition" fs
  let initial ← initialField.pick "Definition" fs
  let accept ← acceptField.pick "Definition" fs
  let rules ← rulesField.pick "Definition" fs
  let states ← itemsOf "states" states
  let states ← states.mapM (labelOf room)
  let blank ← labelOf room blank
  let initial ← labelOf room initial
  let accept ← labelOf room accept
  let rules ← itemsOf "transitions" rules
  let rules ← rules.mapM fun r => Rule.ofJson r room
  let alphabet ← itemsOf "alphabet" alphabet
  let alphabet ← alphabet.mapM (labelOf room)
  return { states, alphabet := withBlank alphabet blank, blank, initial, accept, rules }

def ofJson (v : Json) (room : Nat := Json.mostDepth) : Except DefinitionFault Definition :=
  match v with
  | .object fs => ofFields fs room
  | v => .error (.notMapping v.kind.name)

def toJson (d : Definition) : Json :=
  .object [("states", .list (d.states.map .string)), ("alphabet", .list (d.alphabet.map .string)),
    ("blankSymbol", .string d.blank), ("initialState", .string d.initial), ("acceptState", .string d.accept),
    ("transitions", .list (d.rules.map Rule.toJson))]

end Definition

/-! ## There and back -/

theorem Move.ofLabel_letter (m : Move) : Move.ofLabel (Text.ofString m.letter) = .ok m := by
  cases m <;> rfl

theorem labelOf_string (room : Nat) (t : Text) : labelOf room (.string t) = .ok t := rfl

theorem mapM_labelOf (room : Nat) (ts : List Text) : (ts.map Json.string).mapM (labelOf room) = .ok ts := by
  induction ts with
  | nil => rfl
  | cons t ts ih =>
    rw [List.map_cons, List.mapM_cons, labelOf_string, ih]
    rfl

theorem Rule.ofJson_toJson (r : Rule) (room : Nat) : Rule.ofJson r.toJson room = .ok r := by
  have hpicked : Rule.ofJson r.toJson room =
      (Move.ofLabel (Text.ofString r.move.letter)).map fun move => ⟨r.state, r.read, r.next, r.write, move⟩ := rfl
  rw [hpicked, Move.ofLabel_letter]
  rfl

theorem Rule.mapM_ofJson (rules : List Rule) (room : Nat) :
    ((rules.map Rule.toJson).mapM fun r => Rule.ofJson r room) = .ok rules := by
  induction rules with
  | nil => rfl
  | cons r rules ih =>
    rw [List.map_cons, List.mapM_cons, Rule.ofJson_toJson, ih]
    rfl

/-- a definition comes back from its data, with the blank symbol in its alphabet -/
theorem Definition.ofJson_toJson (d : Definition) (room : Nat) :
    Definition.ofJson d.toJson room = .ok { d with alphabet := Definition.withBlank d.alphabet d.blank } := by
  have hpicked : Definition.ofJson d.toJson room = do
      let states ← (d.states.map Json.string).mapM (labelOf room)
      let rules ← (d.rules.map Rule.toJson).mapM fun r => Rule.ofJson r room
      let alphabet ← (d.alphabet.map Json.string).mapM (labelOf room)
      return ⟨states, Definition.withBlank alphabet d.blank, d.blank, d.initial, d.accept, rules⟩ := rfl
  rw [hpicked, mapM_labelOf, Rule.mapM_ofJson, mapM_labelOf]
  rfl

end TapeMachine
