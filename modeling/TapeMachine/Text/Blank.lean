/-
Blank characters and trimming.

Blank means white space in the Unicode sense, with the four separators 0x1C to 0x1F.
-/

namespace TapeMachine.Text

/-- first and last code point of each run of blank characters -/
def blankRuns : List (Nat × Nat) :=
  [(0x9, 0xD), (0x1C, 0x20), (0x85, 0x85), (0xA0, 0xA0), (0x1680, 0x1680), (0x2000, 0x200A), (0x2028, 0x2029),
   (0x202F, 0x202F), (0x205F, 0x205F), (0x3000, 0x3000)]

/-- membership of a code point in a table of runs -/
def inRuns (runs : List (Nat × Nat)) (n : Nat) : Bool := runs.any fun r => decide (r.1 ≤ n ∧ n ≤ r.2)

def isBlank (c : Char) : Bool := inRuns blankRuns c.toNat

/-- the characters left when those of a kind are dropped at both ends -/
def trimChars (kind : Char → Bool) (cs : List Char) : List Char := ((cs.dropWhile kind).reverse.dropWhile kind).reverse

/-- a text without the blanks at its ends -/
def trim (s : String) : String := String.ofList (trimChars isBlank s.toList)

theorem isBlank_of_isWhitespace (c : Char) (h : c.isWhitespace = true) : isBlank c = true := by
  simp only [Char.isWhitespace, Bool.or_eq_true, decide_eq_true_eq] at h
  rcases h with ((rfl | rfl) | rfl) | rfl <;> decide

end TapeMachine.Text
