/-
Quoted texts.

A text is shown between quotes: single ones, unless it holds a single quote and no double quote. A backslash and the
quote in use take a backslash before them, the newline, the carriage return and the tab have short forms, and any
other hidden code point is written with two, four or eight hexadecimal digits, the fewest that hold it.
-/
import TapeMachine.Text.Visible

namespace TapeMachine.Text

def hexDigit (n : Nat) : Char := if n < 10 then Char.ofNat (48 + n) else Char.ofNat (87 + n)

/-- the last `w` hexadecimal digits of `n`, in lower case -/
def hex : Nat → Nat → List Char
  | 0, _ => []
  | w + 1, n => hex w (n / 16) ++ [hexDigit (n % 16)]

/-- the quote to put around a text -/
def quoteFor (ps : List CodePoint) : CodePoint := if ps.contains '\'' && !ps.contains '"' then '"' else '\''

/-- how a code point stands in a text between the given quotes -/
def escaped (quote p : CodePoint) : List CodePoint :=
  if p = '\\' ∨ p = quote then ['\\', p]
  else if p = '\n' then ['\\', 'n']
  else if p = '\r' then ['\\', 'r']
  else if p = '\t' then ['\\', 't']
  else if isVisible p then [p]
  else if p.code < 0x100 then ('\\' :: 'x' :: hex 2 p.code).map .ofChar
  else if p.code < 0x10000 then ('\\' :: 'u' :: hex 4 p.code).map .ofChar
  else ('\\' :: 'U' :: hex 8 p.code).map .ofChar

def quoted (t : Text) : Text :=
  let quote := quoteFor t.points
  ⟨quote :: t.points.flatMap (escaped quote) ++ [quote]⟩

example : quoted "it's" = "\"it's\"" ∧ quoted "\x07\n" = "'\\x07\\n'" := by decide +kernel

end TapeMachine.Text
