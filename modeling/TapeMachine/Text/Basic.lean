/-
Texts.

A text is a list of code points. A code point is a character, or one half of the pair of codes that write a character
beyond 0xFFFF: data may bring such a half alone, which is no character, and which differs from every character and from
every other half. What people type is a string, which holds characters only; every string is a text, and strings that
differ are texts that differ (`ofString_inj`).
-/

namespace TapeMachine

/-- a character, or half of a pair -/
structure CodePoint where
  code : Nat
  code_lt : code < 0x110000
deriving DecidableEq, Repr

namespace CodePoint

theorem toNat_lt (c : Char) : c.toNat < 0x110000 := by
  rcases c.valid with h | ⟨-, h⟩
  · exact Nat.lt_trans h (by decide)
  · exact h

def ofChar (c : Char) : CodePoint := ⟨c.toNat, toNat_lt c⟩

instance : Coe Char CodePoint := ⟨ofChar⟩

theorem ofChar_inj {c d : Char} : ofChar c = ofChar d ↔ c = d := by
  constructor
  · intro h
    exact Char.toNat_inj.1 (congrArg code h)
  · rintro rfl
    rfl

/-- the code point of a code; a number that is no code stands for the replacement character -/
def ofCode (n : Nat) : CodePoint := if h : n < 0x110000 then ⟨n, h⟩ else ofChar '\uFFFD'

/-- whether a code is half of a pair -/
def isHalfCode (n : Nat) : Bool := decide (0xD800 ≤ n ∧ n ≤ 0xDFFF)

def isHalf (p : CodePoint) : Bool := isHalfCode p.code

/-- the character, unless it is half of a pair -/
def char? (p : CodePoint) : Option Char := if p.isHalf then none else some (Char.ofNat p.code)

theorem isHalf_ofChar (c : Char) : (ofChar c).isHalf = false := by
  have h : ¬ (0xD800 ≤ c.toNat ∧ c.toNat ≤ 0xDFFF) := by
    rcases c.valid with h | ⟨h, -⟩
    · exact fun hc => Nat.not_lt.2 hc.1 h
    · exact fun hc => Nat.not_lt.2 hc.2 h
  exact decide_eq_false h

theorem char?_ofChar (c : Char) : (ofChar c).char? = some c := by
  rw [char?, isHalf_ofChar]
  exact congrArg some (Char.ofNat_toNat c)

/-- an ASCII letter in upper case, and any other code point as it is -/
def toUpper (p : CodePoint) : CodePoint := if 97 ≤ p.code ∧ p.code ≤ 122 then ofCode (p.code - 32) else p

end CodePoint

structure Text where
  points : List CodePoint
deriving DecidableEq, Repr

namespace Text

def ofString (s : String) : Text := ⟨s.toList.map .ofChar⟩

instance : Coe String Text := ⟨ofString⟩

/-- a text as a string, in which the replacement character stands for every half of a pair -/
def toString (t : Text) : String := String.ofList (t.points.map fun p => p.char?.getD '\uFFFD')

instance : ToString Text := ⟨toString⟩

instance : Inhabited Text := ⟨⟨[]⟩⟩

instance : Append Text := ⟨fun a b => ⟨a.points ++ b.points⟩⟩

def isEmpty (t : Text) : Bool := t.points.isEmpty

/-- the number of code points -/
def length (t : Text) : Nat := t.points.length

/-- texts run together -/
def join (ts : List Text) : Text := ⟨ts.flatMap points⟩

/-- texts run together, with a text between any two of them -/
def intercalate (between : Text) (ts : List Text) : Text := ⟨between.points.intercalate (ts.map points)⟩

/-- a text for each code point -/
def singletons (t : Text) : List Text := t.points.map fun p => ⟨[p]⟩

/-- whether a text comes before another or is the same, by its code points from the left -/
def atMost (a b : Text) : Bool := !List.lex (b.points.map CodePoint.code) (a.points.map CodePoint.code) Nat.blt

@[simp] theorem points_append (a b : Text) : (a ++ b).points = a.points ++ b.points := rfl

@[simp] theorem ofString_inj {s t : String} : ofString s = ofString t ↔ s = t := by
  constructor
  · intro h
    have h : s.toList.map CodePoint.ofChar = t.toList.map CodePoint.ofChar := congrArg points h
    exact String.toList_inj.1 ((List.map_inj_right fun _ _ => CodePoint.ofChar_inj.1).1 h)
  · rintro rfl
    rfl

end Text
end TapeMachine
