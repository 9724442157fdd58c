/-
Numbers as they are written in data: whole numbers of any size, and 64-bit numbers for those written with a fraction
or an exponent. A whole number that meets one of the 64-bit format is rounded to that format, and may be too large.
-/
import TapeMachine.Number.Shortest

namespace TapeMachine

inductive Number where
  | whole (n : Int)
  | real (x : Binary64)
deriving DecidableEq, Repr

namespace Number

instance : Inhabited Number := ⟨.whole 0⟩

/-- the exact value of a finite number -/
def toRat? : Number → Option Rat
  | .whole n => some n
  | .real x => x.toRat?

def toBinary64? : Number → Option Binary64
  | .whole n =>
    match Binary64.ofRat n with
    | .infinite _ => none
    | x => some x
  | .real x => some x

/-- the side of all finite numbers on which a number lies: a finite one counts as zero -/
def side : Number → Binary64
  | .real (.infinite s) => .infinite s
  | .real .undefined => .undefined
  | _ => .finite false 0 (-1074)

/-- exact order -/
def lt : Number → Number → Bool
  | .whole a, .whole b => decide (a < b)
  | a, b =>
    match a.toRat?, b.toRat? with
    | some p, some q => decide (p < q)
    | _, _ => a.side.lt b.side

/-- the first of the two unless the second is greater -/
def max (a b : Number) : Number := if a.lt b then b else a

/-- the first of the two unless the second is less -/
def min (a b : Number) : Number := if b.lt a then b else a

def sub? : Number → Number → Option Number
  | .whole a, .whole b => some (.whole (a - b))
  | a, b =>
    match a.toBinary64?, b.toBinary64? with
    | some x, some y => some (.real (x.sub y))
    | _, _ => none

def thousandth : Number → Binary64
  | .whole n => .ofRat (n / 1000)
  | .real x => x.divide 1000

def scale (x : Number) (k : Nat) : Number :=
  match x with
  | .whole n => .whole (n * k)
  | .real x => .real (x.scale k)

/-- the least whole number that is not below the number. An infinite number counts as the power of two beyond all
finite ones of the format; nothing is below the undefined number, which counts as that power's negative -/
def ceiling : Number → Int
  | .whole n => n
  | .real (.infinite false) => Int.pow 2 1024
  | .real x => (x.toRat?.map Rat.ceil).getD (-Int.pow 2 1024)

/-- decimal digits, however many there are, or the shortest decimal. A value of data with too many digits is refused a
text by `Json.trouble?`. -/
def text : Number → String
  | .whole n => toString n
  | .real x => x.text

@[simp] theorem lt_whole (a b : Int) : (whole a).lt (whole b) = decide (a < b) := rfl

theorem max_whole (a b : Int) : (whole a).max (whole b) = whole (Max.max a b) := by
  by_cases h : a < b
  · have : Max.max a b = b := by omega
    simp [max, h, this]
  · have : Max.max a b = a := by omega
    simp [max, h, this]

theorem min_whole (a b : Int) : (whole a).min (whole b) = whole (Min.min a b) := by
  by_cases h : b < a
  · have : Min.min a b = b := by omega
    simp [min, h, this]
  · have : Min.min a b = a := by omega
    simp [min, h, this]

end Number
end TapeMachine
