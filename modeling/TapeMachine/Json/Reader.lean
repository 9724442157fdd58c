/-
Reading data values from text.

The grammar is that of JSON, widened by the three number words `NaN`, `Infinity` and `-Infinity`. A number is whole
when it is written without a fraction and without an exponent. A key that comes twice keeps its first place and its
last value. Controls below the space may not stand in a text, and a byte order mark is no blank. A code that is half of
a pair and stands alone is kept as what it is. Whole numbers of more than 4300 digits, and values inside too many lists
and objects, are refused.

The readers return the value together with the characters left over, or a complaint together with the characters from
the place of the trouble on, so that a fault can tell the place. The depth they may still descend bounds the recursion;
a container takes two levels, so twice the length of the text is always enough.
-/
import TapeMachine.Json.Value
import TapeMachine.Text.Numeral

namespace TapeMachine.Json

/-- what is wrong with a text that is no data value -/
inductive Complaint where
  | byteOrderMark
  | noValue
  | extra
  | noName
  | noColon
  | noComma
  | control
  | unterminated
  | badEscape
  | badUnit
deriving DecidableEq, Repr

def Complaint.text : Complaint → String
  | .byteOrderMark => "Unexpected UTF-8 BOM (decode using utf-8-sig)"
  | .noValue => "Expecting value"
  | .extra => "Extra data"
  | .noName => "Expecting property name enclosed in double quotes"
  | .noColon => "Expecting ':' delimiter"
  | .noComma => "Expecting ',' delimiter"
  | .control => "Invalid control character at"
  | .unterminated => "Unterminated string starting at"
  | .badEscape => "Invalid \\escape"
  | .badUnit => "Invalid \\uXXXX escape"

/-- why no value is read -/
inductive Trouble where
  /-- a complaint, with the characters from its place on -/
  | complaint (c : Complaint) (rest : List Char)
  /-- a whole number with too many digits -/
  | digits (count : Nat)
  /-- a list or an object inside too many others -/
  | depth (container : Kind)

/-- a value with the characters after it, or the trouble met -/
abbrev Reading (α : Type) := Except Trouble (α × List Char)

def complain {α : Type} (c : Complaint) (rest : List Char) : Reading α := .error (.complaint c rest)

/-- the characters without the JSON blanks at their front -/
def skipBlanks : List Char → List Char
  | [] => []
  | c :: cs => if c = ' ' ∨ c = '\t' ∨ c = '\n' ∨ c = '\r' then skipBlanks cs else c :: cs

def hexValue? (c : Char) : Option Nat :=
  if '0' ≤ c ∧ c ≤ '9' then some (c.toNat - 48)
  else if 'a' ≤ c ∧ c ≤ 'f' then some (c.toNat - 87)
  else if 'A' ≤ c ∧ c ≤ 'F' then some (c.toNat - 55)
  else none

def hex4? (a b c d : Char) : Option Nat :=
  match hexValue? a, hexValue? b, hexValue? c, hexValue? d with
  | some x, some y, some z, some w => some (((x * 16 + y) * 16 + z) * 16 + w)
  | _, _, _, _ => none

/-- the code that two halves of a pair make up -/
def pairCode (high low : Nat) : Nat := 0x10000 + (high - 0xD800) * 0x400 + (low - 0xDC00)

def escapes : List (Char × Char) :=
  [('"', '"'), ('\\', '\\'), ('/', '/'), ('b', '\x08'), ('f', '\x0c'), ('n', '\n'), ('r', '\r'), ('t', '\t')]

/-- the code that a code and the one after it make up together, with the characters behind them -/
def pair? (n : Nat) : List Char → Option (Nat × List Char)
  | '\\' :: 'u' :: e :: f :: g :: h :: y :: rest =>
    match hex4? e f g h with
    | some m =>
      if 0xD800 ≤ n ∧ n ≤ 0xDBFF ∧ 0xDC00 ≤ m ∧ m ≤ 0xDFFF then some (pairCode n m, y :: rest) else none
    | none => none
  | _ => none

theorem pair?_length {n : Nat} {cs rest : List Char} {p : Nat} (h : pair? n cs = some (p, rest)) :
    rest.length < cs.length := by
  unfold pair? at h
  split at h
  · split at h
    · split at h
      · obtain ⟨-, rfl⟩ := Prod.mk.inj (Option.some.inj h)
        simp only [List.length_cons]
        omega
      · exact absurd h (by simp)
    · exact absurd h (by simp)
  · exact absurd h (by simp)

/-- a text up to its closing quote; `start` holds the characters from its opening quote on, and `acc` the code points
read, the last one first. The four digits of a code must have something after them -/
def readChars (start : List Char) (acc : List CodePoint) : List Char → Reading Text
  | [] => complain .unterminated start
  | ['\\'] => complain .unterminated start
  | '"' :: cs => .ok (⟨acc.reverse⟩, cs)
  | '\\' :: 'u' :: a :: b :: c :: d :: x :: cs =>
    match hex4? a b c d with
    | none => complain .badUnit ('u' :: a :: b :: c :: d :: x :: cs)
    | some n =>
      match h : pair? n (x :: cs) with
      | some (p, rest) =>
        have : rest.length < cs.length + 1 := pair?_length h
        readChars start (.ofCode p :: acc) rest
      | none => readChars start (.ofCode n :: acc) (x :: cs)
  | '\\' :: 'u' :: cs => complain .badUnit ('u' :: cs)
  | '\\' :: c :: cs =>
    match escapes.lookup c with
    | some x => readChars start (.ofChar x :: acc) cs
    | none => complain .badEscape ('\\' :: c :: cs)
  | c :: cs => if c.toNat < 0x20 then complain .control (c :: cs) else readChars start (.ofChar c :: acc) cs
termination_by cs => cs.length

def natOf (ds : List Char) : Nat := ds.foldl (fun n c => 10 * n + (c.toNat - 48)) 0

/-- an exponent, with the characters after it -/
def readExponent : List Char → Option (Int × List Char)
  | e :: cs =>
    if e = 'e' ∨ e = 'E' then
      let (negative, rest) := match cs with
        | '-' :: r => (true, r)
        | '+' :: r => (false, r)
        | r => (false, r)
      let ds := rest.takeWhile Char.isDigit
      if ds.isEmpty then none
      else some (if negative then -(natOf ds : Int) else natOf ds, rest.dropWhile Char.isDigit)
    else none
  | [] => none

/-- the digits of a fraction, with the characters after them -/
def readFraction : List Char → Option (List Char × List Char)
  | '.' :: cs =>
    let ds := cs.takeWhile Char.isDigit
    if ds.isEmpty then none else some (ds, cs.dropWhile Char.isDigit)
  | _ => none

/-- the digits before a fraction: a zero stands alone -/
def leadingDigits : List Char → List Char
  | '0' :: _ => ['0']
  | cs => cs.takeWhile Char.isDigit

/-- the characters behind a part of a number, if the part is there -/
def behind {α : Type} (part : Option (α × List Char)) (cs : List Char) : List Char := (part.map Prod.snd).getD cs

/-- a number after its sign; one that is not whole may have any number of digits -/
def readUnsigned (negative : Bool) (cs : List Char) : Option (Reading Number) :=
  let ds := leadingDigits cs
  if ds.isEmpty then none
  else
    let rest := cs.drop ds.length
    let fraction := readFraction rest
    let rest := behind fraction rest
    let exponent := readExponent rest
    let rest := behind exponent rest
    if fraction.isNone ∧ exponent.isNone then
      if Text.mostDigits < ds.length then some (.error (.digits ds.length))
      else some (.ok (.whole (if negative then -(natOf ds : Int) else natOf ds), rest))
    else
      let fs := (fraction.map Prod.fst).getD []
      let e := (exponent.map Prod.fst).getD 0
      some (.ok (.real (.ofDecimal negative (natOf (ds ++ fs)) (e - fs.length)), rest))

/-- the rest of the characters after a word, if they start with it -/
def after? (word : String) (cs : List Char) : Option (List Char) :=
  if word.toList.isPrefixOf cs then some (cs.drop word.length) else none

def readNumber (cs : List Char) : Option (Reading Json) :=
  let found : Option (Reading Number) := match cs with
    | '-' :: rest =>
      match after? "Infinity" rest with
      | some r => some (.ok (.real (.infinite true), r))
      | none => readUnsigned true rest
    | _ => readUnsigned false cs
  found.map fun r => r.map fun p => (.number p.1, p.2)

/-- the values that are written as words -/
def words : List (String × Json) :=
  [("null", .null), ("true", .bool true), ("false", .bool false), ("NaN", .number (.real .undefined)),
   ("Infinity", .number (.real (.infinite false)))]

def readWord (cs : List Char) : Option (Json × List Char) :=
  words.findSome? fun w => (after? w.1 cs).map fun rest => (w.2, rest)

/-- a text behind its opening quote -/
def readText (cs : List Char) : Reading Text := readChars ('"' :: cs) [] cs

/-- a word or a number -/
def readPlain (cs : List Char) : Reading Json :=
  match readWord cs with
  | some r => .ok r
  | none => (readNumber cs).getD (complain .noValue cs)

mutual

/-- a value at the very front of the characters; `room` lists and objects may still be open inside one another -/
def readValue : Nat → Nat → List Char → Reading Json
  | 0, _, cs => complain .noValue cs
  | n + 1, room, cs =>
    match cs with
    | '"' :: rest => (readText rest).map fun p => (.string p.1, p.2)
    | '[' :: rest =>
      match room with
      | 0 => .error (.depth .list)
      | room + 1 =>
        match skipBlanks rest with
        | ']' :: r => .ok (.list [], r)
        | r => readItems n room [] r
    | '{' :: rest =>
      match room with
      | 0 => .error (.depth .object)
      | room + 1 =>
        match skipBlanks rest with
        | '}' :: r => .ok (.object [], r)
        | r => (readMembers n room [] r).map fun p => (.object (Fields.ofPairs p.1), p.2)
    | _ => readPlain cs

/-- the items of a list up to its bracket; `acc` holds those read, the last one first -/
def readItems : Nat → Nat → List Json → List Char → Reading Json
  | 0, _, _, cs => complain .noValue cs
  | n + 1, room, acc, cs =>
    match readValue n room cs with
    | .error t => .error t
    | .ok (v, rest) =>
      match skipBlanks rest with
      | ',' :: r => readItems n room (v :: acc) (skipBlanks r)
      | ']' :: r => .ok (.list (v :: acc).reverse, r)
      | r => complain .noComma r

/-- the members of an object up to its brace, each as it is written; `acc` holds those read, the last one first -/
def readMembers : Nat → Nat → List (Text × Json) → List Char → Reading (List (Text × Json))
  | 0, _, _, cs => complain .noValue cs
  | n + 1, room, acc, cs =>
    match cs with
    | '"' :: rest =>
      match readText rest with
      | .error t => .error t
      | .ok (key, rest) =>
        match skipBlanks rest with
        | ':' :: rest =>
          match readValue n room (skipBlanks rest) with
          | .error t => .error t
          | .ok (v, rest) =>
            match skipBlanks rest with
            | ',' :: r => readMembers n room ((key, v) :: acc) (skipBlanks r)
            | '}' :: r => .ok (((key, v) :: acc).reverse, r)
            | r => complain .noComma r
        | r => complain .noColon r
    | _ => complain .noName cs

end

/-- the value that the characters of a whole text stand for -/
def readWhole (cs : List Char) : Except Trouble Json :=
  if cs.head? = some '\uFEFF' then .error (.complaint .byteOrderMark cs)
  else
    match readValue (2 * cs.length + 1) mostDepth (skipBlanks cs) with
    | .error t => .error t
    | .ok (v, rest) =>
      match skipBlanks rest with
      | [] => .ok v
      | r => .error (.complaint .extra r)

/-! ## Places -/

/-- where a complaint is about: the number of characters before the place, and its line and column, both counted from
one -/
structure Place where
  index : Nat
  line : Nat
  column : Nat
deriving DecidableEq, Repr

/-- the place in a text from which on the given characters are left -/
def Place.before (whole rest : List Char) : Place :=
  let passed := whole.take (whole.length - rest.length)
  { index := passed.length
    line := passed.count '\n' + 1
    column := (passed.reverse.takeWhile (· ≠ '\n')).length + 1 }

def Place.text (p : Place) : String :=
  "line " ++ toString p.line ++ " column " ++ toString p.column ++ " (char " ++ toString p.index ++ ")"

/-- why a text gives no value -/
inductive ReadFault where
  /-- the text does not keep to the grammar -/
  | malformed (complaint : Complaint) (place : Place)
  | tooManyDigits (count : Nat)
  | tooDeep (container : Kind)
deriving DecidableEq, Repr

namespace ReadFault

/-- the fault for a trouble in a text -/
def ofTrouble (whole : List Char) : Trouble → ReadFault
  | .complaint c rest => .malformed c (.before whole rest)
  | .digits n => .tooManyDigits n
  | .depth k => .tooDeep k

/-- what is said of a whole number with too many digits -/
def digitsMessage (count : Nat) : String :=
  "Exceeds the limit (" ++ toString Text.mostDigits ++ " digits) for integer string conversion: value has " ++
    toString count ++ " digits; use sys.set_int_max_str_digits() to increase the limit"

/-- what is said of values inside too many others -/
def depthMessage (container : Kind) : String :=
  "maximum recursion depth exceeded while decoding a JSON " ++ (if container = .list then "array" else "object") ++
    " from a unicode string"

def message : ReadFault → String
  | .malformed c p => c.text ++ ": " ++ p.text
  | .tooManyDigits n => digitsMessage n
  | .tooDeep k => depthMessage k

end ReadFault

/-- the value that a whole text stands for -/
def read (s : String) : Except ReadFault Json := (readWhole s.toList).mapError (.ofTrouble s.toList)

/-- a text with every line end, a return with or without a newline too, made a newline -/
def unifyLineEnds : List Char → List Char
  | '\r' :: '\n' :: cs => '\n' :: unifyLineEnds cs
  | '\r' :: cs => '\n' :: unifyLineEnds cs
  | c :: cs => c :: unifyLineEnds cs
  | [] => []

/-- the value that the text of a file stands for -/
def readFile (s : String) : Except ReadFault Json := read (String.ofList (unifyLineEnds s.toList))

end TapeMachine.Json
