/-
Data values, as the files of this program hold them.

A value is null, a truth value, a number, a text, a list or an object. An object keeps its keys in the order in which
they first came, and each key once: `put` overwrites in place (`get?_put`, `keys_put`).
-/
import TapeMachine.Number.Basic
import TapeMachine.Text.Basic

namespace TapeMachine

inductive Json where
  | null
  | bool (b : Bool)
  | number (n : Number)
  | string (s : Text)
  | list (items : List Json)
  | object (fields : List (Text × Json))

namespace Json

instance : Inhabited Json := ⟨.null⟩

/-- a whole number as a value -/
def ofInt (n : Int) : Json := .number (.whole n)

/-- the kinds of value that messages tell apart -/
inductive Kind where
  | null
  | bool
  | whole
  | real
  | string
  | list
  | object
deriving DecidableEq, Repr

def kind : Json → Kind
  | .null => .null
  | .bool _ => .bool
  | .number (.whole _) => .whole
  | .number (.real _) => .real
  | .string _ => .string
  | .list _ => .list
  | .object _ => .object

/-- a value that counts as true: any but null, false, zero and the empty ones -/
def isTruthy : Json → Bool
  | .null => false
  | .bool b => b
  | .number n => n != .whole 0 && n.toRat? != some 0
  | .string s => !s.isEmpty
  | .list items => !items.isEmpty
  | .object fields => !fields.isEmpty

/-- the lists and objects that may lie inside one another where a value is read or shown. The limit is one on open calls
of any sort, so that a few levels more or fewer are left, depending on where the call is made; this one number stands
for those of all calls from the top -/
def mostDepth : Nat := 988

/-- the name of a kind in messages -/
def Kind.name : Kind → String
  | .null => "NoneType"
  | .bool => "bool"
  | .whole => "int"
  | .real => "float"
  | .string => "str"
  | .list => "list"
  | .object => "dict"

end Json

/-- the keys of an object with their values, in order -/
abbrev Fields := List (Text × Json)

namespace Fields

def get? (fs : Fields) (key : Text) : Option Json := (fs.find? fun f => f.1 == key).map Prod.snd

def keys (fs : Fields) : List Text := fs.map Prod.fst

/-- binds a key: in place when it is there, at the end when it is not -/
def put : Fields → Text → Json → Fields
  | [], key, v => [(key, v)]
  | (k, w) :: fs, key, v => if k = key then (k, v) :: fs else (k, w) :: put fs key v

/-- binds all pairs in turn -/
def merge (fs : Fields) (pairs : List (Text × Json)) : Fields := pairs.foldl (fun acc p => acc.put p.1 p.2) fs

/-- the object that a list of pairs describes: the place of a key is its first one, its value the last one -/
def ofPairs (pairs : List (Text × Json)) : Fields := merge [] pairs

theorem get?_cons_self (k : Text) (v : Json) (fs : Fields) : get? ((k, v) :: fs) k = some v := by
  simp [get?]

theorem get?_cons_of_ne {k key : Text} (h : k ≠ key) (v : Json) (fs : Fields) :
    get? ((k, v) :: fs) key = fs.get? key := by
  simp [get?, h]

theorem get?_append (fs fs' : Fields) (key : Text) : get? (fs ++ fs') key = (fs.get? key).or (fs'.get? key) := by
  rw [get?, List.find?_append, Option.map_or]
  rfl

theorem get?_eq_none_iff (fs : Fields) (key : Text) : fs.get? key = none ↔ key ∉ fs.keys := by
  rw [get?, Option.map_eq_none_iff, List.find?_eq_none, keys, List.mem_map]
  constructor
  · rintro h ⟨f, hf, rfl⟩
    exact h f hf (beq_self_eq_true f.1)
  · intro h f hf hk
    exact h ⟨f, hf, eq_of_beq hk⟩

theorem get?_put (fs : Fields) (k : Text) (v : Json) (key : Text) :
    (fs.put k v).get? key = if k = key then some v else fs.get? key := by
  induction fs with
  | nil => by_cases h : k = key <;> simp [put, get?, h]
  | cons f fs ih =>
    obtain ⟨k0, w⟩ := f
    by_cases h0 : k0 = k
    · subst h0
      by_cases h : k0 = key <;> simp [put, get?, h]
    · by_cases h : k0 = key
      · subst h
        have hk : ¬ k = k0 := fun e => h0 e.symm
        simp [put, get?, h0, hk]
      · have := ih
        simp only [get?] at this ⊢
        simp [put, h0, h, this]

theorem keys_put (fs : Fields) (k : Text) (v : Json) :
    (fs.put k v).keys = if k ∈ fs.keys then fs.keys else fs.keys ++ [k] := by
  induction fs with
  | nil => simp [put, keys]
  | cons f fs ih =>
    obtain ⟨k0, w⟩ := f
    by_cases h0 : k0 = k
    · simp [put, keys, h0]
    · have h1 : ¬ k = k0 := fun e => h0 e.symm
      simp only [keys] at ih
      by_cases hm : k ∈ fs.map Prod.fst
      · simp only [hm, if_true] at ih
        simp [put, keys, h0, h1, ih, hm]
      · simp only [hm, if_false] at ih
        simp [put, keys, h0, h1, ih, hm]

end Fields
end TapeMachine
