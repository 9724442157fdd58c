/-
Decimal whole numbers as people type them.

A whole number is an optional sign and decimal digits; a single underscore may stand between two digits, and blanks
other than the four ASCII separators may stand around the whole. Digits are those of any script: each script's ten
digits follow one another, so a table of the zeros is enough. A number of more than 4300 digits, zeros at its front
included, is refused.
-/
import TapeMachine.Text.Blank

namespace TapeMachine.Text

/-- the code point of the zero of every script -/
def zeros : List Nat :=
  [0x30, 0x660, 0x6F0, 0x7C0, 0x966, 0x9E6, 0xA66, 0xAE6, 0xB66, 0xBE6, 0xC66, 0xCE6,
   0xD66, 0xDE6, 0xE50, 0xED0, 0xF20, 0x1040, 0x1090, 0x17E0, 0x1810, 0x1946, 0x19D0, 0x1A80,
   0x1A90, 0x1B50, 0x1BB0, 0x1C40, 0x1C50, 0xA620, 0xA8D0, 0xA900, 0xA9D0, 0xA9F0, 0xAA50, 0xABF0,
   0xFF10, 0x104A0, 0x10D30, 0x11066, 0x110F0, 0x11136, 0x111D0, 0x112F0, 0x11450, 0x114D0, 0x11650, 0x116C0,
   0x11730, 0x118E0, 0x11950, 0x11C50, 0x11D50, 0x11DA0, 0x16A60, 0x16AC0, 0x16B50, 0x1D7CE, 0x1D7D8, 0x1D7E2,
   0x1D7EC, 0x1D7F6, 0x1E140, 0x1E2F0, 0x1E950, 0x1FBF0]

/-- the value of a decimal digit of any script -/
def digit? (c : Char) : Option Nat :=
  (zeros.find? fun z => decide (z ≤ c.toNat ∧ c.toNat ≤ z + 9)).map fun z => c.toNat - z

/-- digits with single underscores between them; `n` is the value so far -/
def digitsFrom (n : Nat) : List Char → Option Nat
  | [] => some n
  | '_' :: c :: cs =>
    match digit? c with
    | some d => digitsFrom (10 * n + d) cs
    | none => none
  | c :: cs =>
    match digit? c with
    | some d => digitsFrom (10 * n + d) cs
    | none => none

/-- a nonempty run of digits, the first character being a digit -/
def natural? : List Char → Option Nat
  | [] => none
  | c :: cs =>
    match digit? c with
    | some d => digitsFrom d cs
    | none => none

def signed? : List Char → Option Int
  | '-' :: cs => (natural? cs).map fun n => -(n : Int)
  | '+' :: cs => (natural? cs).map fun n => (n : Int)
  | cs => (natural? cs).map fun n => (n : Int)

/-- a blank that may stand around a number -/
def isMargin (c : Char) : Bool := isBlank c && !decide (0x1C ≤ c.toNat ∧ c.toNat ≤ 0x1F)

/-- the digits that a whole number may be written with -/
def mostDigits : Nat := 4300

/-- the whole number a text stands for, if it stands for one -/
def integer? (s : String) : Option Int :=
  if mostDigits < s.toList.countP (fun c => (digit? c).isSome) then none else signed? (trimChars isMargin s.toList)

example : integer? " 1_0 " = some 10 ∧ integer? "+4" = some 4 ∧ integer? "-3" = some (-3) := by decide +kernel
example : integer? "1__0" = none ∧ integer? "_1" = none ∧ integer? "2.5" = none ∧ integer? "" = none := by
  decide +kernel

end TapeMachine.Text
