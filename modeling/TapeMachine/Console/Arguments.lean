/-
Arguments of a command.

A name may be cut short as long as it is the start of one name only, and what an option takes is the next argument or
stands after an equals sign. Two dashes alone end the options, and since no command has operands, an argument that no
option takes is misuse. What is asked for twice is taken as asked for last, and help counts as soon as it is come upon.
-/
import TapeMachine.Json.Value
import TapeMachine.Text.Numeral

namespace TapeMachine.Arguments

/-- what an option takes -/
inductive Takes where
  | nothing
  | text
  | whole
deriving DecidableEq, Repr

/-- an option that a command knows -/
structure Known where
  name : String
  takes : Takes
deriving DecidableEq, Repr

def help : Known := ⟨"help", .nothing⟩

/-- what was given to an option -/
inductive Given where
  | present
  | text (s : String)
  | whole (n : Int)
  /-- two dashes in the place of a text or a number -/
  | nothing
deriving DecidableEq, Repr

/-- an argument by itself -/
inductive Reading where
  /-- no option, and so something that an option may take -/
  | value
  | option (o : Known) (attached : Option String)
  /-- help by its letter, with more characters or with something attached -/
  | letters (more : List Char)
  | unknown
  | ambiguous
deriving DecidableEq, Repr

/-- what a command line asks for -/
inductive Request where
  | run (given : List (String × Given))
  | help
  | misuse
deriving DecidableEq, Repr

/-! ## Single arguments -/

/-- the characters before the first equals sign, and those after it if there is one -/
def cut (cs : List Char) : List Char × Option (List Char) :=
  match cs.dropWhile (· ≠ '=') with
  | [] => (cs, none)
  | _ :: rest => (cs.takeWhile (· ≠ '='), some rest)

def allDigits (cs : List Char) : Bool := cs.all fun c => (Text.digit? c).isSome

/-- whether what follows a dash makes a number: digits with at most one point, and a digit at the end; one line break
may follow -/
def isNegative (cs : List Char) : Bool :=
  let cs := if cs.getLast? = some '\n' then cs.dropLast else cs
  match cs.dropWhile (· ≠ '.') with
  | [] => !cs.isEmpty && allDigits cs
  | _ :: after => allDigits (cs.takeWhile (· ≠ '.')) && !after.isEmpty && allDigits after

/-- an argument that starts with two dashes, by the characters after them -/
def readLong (known : List Known) (cs : List Char) : Reading :=
  let (name, attached) := cut cs
  let attached := attached.map String.ofList
  match known.find? fun o => o.name.toList == name with
  | some o => .option o attached
  | none =>
    match known.filter fun o => name.isPrefixOf o.name.toList with
    | [o] => .option o attached
    | [] => if cs.contains ' ' then .value else .unknown
    | _ => .ambiguous

/-- an argument that starts with a single dash, by the characters after it -/
def readShort : List Char → Reading
  | [] => .value
  | ['h'] => .option help none
  | 'h' :: '=' :: attached => .letters attached
  | 'h' :: more => .letters more
  | cs => if isNegative cs || cs.contains ' ' then .value else .unknown

def readOne (known : List Known) (argument : String) : Reading :=
  match argument.toList with
  | '-' :: '-' :: cs => readLong known cs
  | '-' :: cs => readShort cs
  | _ => .value

/-- every argument with its reading; behind two dashes that stand alone all are values -/
def readAll (known : List Known) : List String → List (String × Reading)
  | [] => []
  | a :: rest =>
    if a = "--" then (a, .unknown) :: rest.map fun v => (v, .value) else (a, readOne known a) :: readAll known rest

/-! ## The whole line -/

/-- whether the characters behind the letter for help leave it a request for help: only the same letter may come -/
def leaveHelp (more : List Char) : Bool := !more.isEmpty && more.all (· == 'h')

/-- what an option makes of a text -/
def Known.take (o : Known) (s : String) : Option Given :=
  match o.takes with
  | .nothing => none
  | .text => some (.text s)
  | .whole => (Text.integer? s).map .whole

/-- what an option makes of a text that is attached to it -/
def Known.takeAttached (o : Known) (s : String) : Option Given :=
  if s = "--" ∧ o.takes ≠ .nothing then some .nothing else o.take s

/-- follows the arguments from left to right; `stray` tells whether one was passed that no option takes -/
def follow (given : List (String × Given)) (stray : Bool) : List (String × Reading) → Request
  | [] => if stray then .misuse else .run given
  | (_, .letters more) :: _ => if leaveHelp more then .help else .misuse
  | (_, .option o (some s)) :: rest =>
    match o.takeAttached s with
    | some v => follow (given ++ [(o.name, v)]) stray rest
    | none => .misuse
  | (_, .option o none) :: rest =>
    if o = help then .help
    else if o.takes = .nothing then follow (given ++ [(o.name, .present)]) stray rest
    else
      match rest with
      | (s, .value) :: rest =>
        match o.take s with
        | some v => follow (given ++ [(o.name, v)]) stray rest
        | none => .misuse
      | _ => .misuse
  | (_, .value) :: rest => follow given true rest
  | (_, .unknown) :: rest => follow given true rest
  | (_, .ambiguous) :: _ => .misuse

/-- what a command line asks for, for a command with the given options; an ambiguous name is misuse wherever it stands
-/
def read (options : List Known) (arguments : List String) : Request :=
  let readings := readAll (help :: options) arguments
  if readings.any fun r => r.2 = .ambiguous then .misuse else follow [] false readings

/-! ## What was given -/

/-- what was given last to an option -/
def last? (given : List (String × Given)) (name : String) : Option Given := given.reverse.lookup name

def text? (given : List (String × Given)) (name : String) : Option String :=
  match last? given name with
  | some (.text s) => some s
  | _ => none

/-- a text that is not empty -/
def filled? (given : List (String × Given)) (name : String) : Option String := (text? given name).filter (· ≠ "")

/-- the text that was given, empty if nothing was, or another text if the option was not given at all -/
def textOr (given : List (String × Given)) (name : String) (other : Text) : Text :=
  match last? given name with
  | some (.text s) => s
  | some _ => ""
  | none => other

/-- the whole number that was given, if the option was; nothing is no number, but a value of another kind -/
def whole? (given : List (String × Given)) (name : String) : Option (Except Json.Kind Int) :=
  match last? given name with
  | some (.whole n) => some (.ok n)
  | some _ => some (.error .list)
  | none => none

def isPresent (given : List (String × Given)) (name : String) : Bool := (last? given name).isSome

end TapeMachine.Arguments
