/-
Writing data values as text.

What is written holds ASCII alone: any other code point, and every control, is written by its code, or by the pair of
codes that make it up when it lies beyond 0xFFFF. On one line, items are parted by a comma and a
space and a key from its value by a colon and a space. Spread over lines, each item has a line of its own, four blanks
deeper than its container, and an empty container stays on its line.
-/
import TapeMachine.Json.Value
import TapeMachine.Text.Quoted

namespace TapeMachine.Json

def unitCode (n : Nat) : List Char := '\\' :: 'u' :: Text.hex 4 n

def escapedPoint (p : CodePoint) : List Char :=
  if p = '"' then ['\\', '"']
  else if p = '\\' then ['\\', '\\']
  else if p = '\n' then ['\\', 'n']
  else if p = '\r' then ['\\', 'r']
  else if p = '\t' then ['\\', 't']
  else if p = '\x08' then ['\\', 'b']
  else if p = '\x0c' then ['\\', 'f']
  else if 0x20 ≤ p.code ∧ p.code ≤ 0x7E then [Char.ofNat p.code]
  else if p.code < 0x10000 then unitCode p.code
  else unitCode (0xD800 + (p.code - 0x10000) / 0x400) ++ unitCode (0xDC00 + (p.code - 0x10000) % 0x400)

def writeText (t : Text) : String := String.ofList ('"' :: t.points.flatMap escapedPoint ++ ['"'])

def writeNumber : Number → String
  | .real .undefined => "NaN"
  | .real (.infinite s) => if s then "-Infinity" else "Infinity"
  | n => n.text

def writeBool (b : Bool) : String := if b then "true" else "false"

mutual

/-- a value on one line -/
def write : Json → String
  | .null => "null"
  | .bool b => writeBool b
  | .number n => writeNumber n
  | .string s => writeText s
  | .list items => "[" ++ ", ".intercalate (writeItems items) ++ "]"
  | .object fields => "\x7b" ++ ", ".intercalate (writeFields fields) ++ "\x7d"

def writeItems : List Json → List String
  | [] => []
  | v :: vs => write v :: writeItems vs

def writeFields : List (Text × Json) → List String
  | [] => []
  | (k, v) :: fs => (writeText k ++ ": " ++ write v) :: writeFields fs

end

/-- a line break with the indentation of the given depth -/
def lineBreak (depth : Nat) : String := String.ofList ('\n' :: List.replicate (4 * depth) ' ')

mutual

/-- a value spread over lines, standing at the given depth -/
def spread (depth : Nat) : Json → String
  | .null => "null"
  | .bool b => writeBool b
  | .number n => writeNumber n
  | .string s => writeText s
  | .list [] => "[]"
  | .list (v :: vs) =>
    "[" ++ lineBreak (depth + 1) ++
      ("," ++ lineBreak (depth + 1)).intercalate (spreadItems (depth + 1) (v :: vs)) ++ lineBreak depth ++ "]"
  | .object [] => "\x7b\x7d"
  | .object (f :: fs) =>
    "\x7b" ++ lineBreak (depth + 1) ++
      ("," ++ lineBreak (depth + 1)).intercalate (spreadFields (depth + 1) (f :: fs)) ++ lineBreak depth ++ "\x7d"

def spreadItems (depth : Nat) : List Json → List String
  | [] => []
  | v :: vs => spread depth v :: spreadItems depth vs

def spreadFields (depth : Nat) : List (Text × Json) → List String
  | [] => []
  | (k, v) :: fs => (writeText k ++ ": " ++ spread depth v) :: spreadFields depth fs

end

end TapeMachine.Json
