/-
Machine definitions.

A definition lists states, tape symbols and rules, and names the blank symbol, the initial state and the accept state.
States and symbols are texts of any length. A rule applies in its state under its read symbol; where several rules
share both, the one listed last counts. `Definition.table` keeps that one for each pair, and `find?_insert` is its
look-up law.
-/
import TapeMachine.Json.Label

namespace TapeMachine

inductive Move where
  | left
  | right
  | stay
deriving DecidableEq, Repr

namespace Move

def letter : Move → String
  | .left => "L"
  | .right => "R"
  | .stay => "N"

/-- how far the head goes -/
def shift : Move → Int
  | .left => -1
  | .right => 1
  | .stay => 0

def all : List Move := [.left, .right, .stay]

/-- the move that a text names by its letter, in either case; beyond ASCII no character alone has one of the three
letters as its upper case -/
def ofText? (t : Text) : Option Move := all.find? fun m => Text.ofString m.letter = ⟨t.points.map CodePoint.toUpper⟩

end Move

/-- in `state` under the symbol `read`: write, move, go to `next` -/
structure Rule where
  state : Text
  read : Text
  next : Text
  write : Text
  move : Move
deriving DecidableEq, Repr

/-- whether the rule is for this state and symbol -/
def Rule.applies (r : Rule) (state symbol : Text) : Bool := r.state == state && r.read == symbol

/-- rules of which no two share state and read symbol -/
abbrev Table := List Rule

namespace Table

/-- puts a rule in the place of the one with the same state and read symbol, or at the end -/
def insert : Table → Rule → Table
  | [], r => [r]
  | s :: t, r => if s.applies r.state r.read then r :: t else s :: insert t r

def find? (t : Table) (state symbol : Text) : Option Rule := List.find? (fun r => r.applies state symbol) t

theorem find?_insert (t : Table) (r : Rule) (state symbol : Text) :
    (t.insert r).find? state symbol = if r.applies state symbol then some r else t.find? state symbol := by
  induction t with
  | nil => by_cases h : r.applies state symbol <;> simp [insert, find?, h]
  | cons s t ih =>
    by_cases hs : s.applies r.state r.read
    · have e : s.applies state symbol = r.applies state symbol := by
        simp only [Rule.applies, Bool.and_eq_true, beq_iff_eq] at hs
        simp [Rule.applies, hs.1, hs.2]
      by_cases h : r.applies state symbol <;> simp [insert, find?, hs, h, e]
    · by_cases h : r.applies state symbol
      · have hn : s.applies state symbol = false := by
          simp only [Rule.applies, Bool.and_eq_true, beq_iff_eq] at hs h
          simp only [Rule.applies, Bool.and_eq_false_iff, beq_eq_false_iff_ne]
          rw [← h.1, ← h.2]
          by_cases h1 : s.state = r.state
          · exact Or.inr fun h2 => hs ⟨h1, h2⟩
          · exact Or.inl h1
        simp only [find?] at ih ⊢
        simp [insert, hs, h, hn, ih]
      · simp only [find?] at ih ⊢
        by_cases h2 : s.applies state symbol <;> simp [insert, hs, h, h2, ih]

end Table

/-- why a definition, or the data for one, is refused -/
inductive DefinitionFault where
  | notMapping (got : String)
  | missingField (owner field : String)
  | fieldNotList (field got : String)
  | ruleNotMapping (got : String)
  | unknownMove (text : Text)
  | badInitial
  | badAccept
  | malformedFile (path : Text) (detail : String)
  /-- a value that names a state, a symbol or a move cannot be shown -/
  | textless (fault : Json.TextFault)
deriving DecidableEq, Repr

def DefinitionFault.message : DefinitionFault → Text
  | .notMapping got => "Definition must be a mapping, got " ++ got ++ "."
  | .missingField owner field => owner ++ " is missing required field '" ++ field ++ "'."
  | .fieldNotList field got => "Definition field '" ++ field ++ "' must be a list, got " ++ got ++ "."
  | .ruleNotMapping got => "Transition must be a mapping, got " ++ got ++ "."
  | .unknownMove text => "Unknown head move '" ++ text ++ "', expected one of L, R, N."
  | .badInitial => "Initial state is not defined or not in the set of states."
  | .badAccept => "Accept state is not defined or not in the set of states."
  | .malformedFile path detail => "Definition file " ++ path ++ " is not valid JSON: " ++ detail
  | .textless f => f.message

/-- whether the fault is a refusal of the definition, which callers tell the user of; that a value cannot be shown is
not, and nobody catches it -/
def DefinitionFault.isRefusal : DefinitionFault → Bool
  | .textless _ => false
  | _ => true

/-- a machine: fixed once it is loaded -/
structure Definition where
  states : List Text
  alphabet : List Text
  blank : Text
  initial : Text
  accept : Text
  rules : List Rule
deriving DecidableEq, Repr

namespace Definition

/-- for each state and symbol the rule that counts -/
def table (d : Definition) : Table := d.rules.foldl Table.insert []

/-- a machine can start when its initial and its accept state are named and listed -/
def validate (d : Definition) : Except DefinitionFault Unit :=
  if d.initial = "" ∨ d.initial ∉ d.states then .error .badInitial
  else if d.accept = "" ∨ d.accept ∉ d.states then .error .badAccept
  else .ok ()

/-- the initial and the accept state are nonempty and among the states -/
structure Valid (d : Definition) : Prop where
  initial_named : d.initial ≠ ""
  initial_listed : d.initial ∈ d.states
  accept_named : d.accept ≠ ""
  accept_listed : d.accept ∈ d.states

theorem validate_ok_iff (d : Definition) : d.validate = .ok () ↔ d.Valid := by
  unfold validate
  constructor
  · intro h
    split at h
    · cases h
    · rename_i h1
      split at h
      · cases h
      · rename_i h2
        simp only [not_or, Decidable.not_not] at h1 h2
        exact ⟨h1.1, h1.2, h2.1, h2.2⟩
  · rintro ⟨h1, h2, h3, h4⟩
    simp [h1, h2, h3, h4]

/-- a definition that cannot start is refused -/
theorem isRefusal_of_validate {d : Definition} {f : DefinitionFault} (h : d.validate = .error f) :
    f.isRefusal = true := by
  unfold validate at h
  split at h
  · rw [← Except.error.inj h]
    rfl
  · split at h
    · rw [← Except.error.inj h]
      rfl
    · cases h

end Definition
end TapeMachine
