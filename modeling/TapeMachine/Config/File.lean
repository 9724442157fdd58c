/-
Configurations in files.

A configuration file is merged over the defaults and the result checked. Besides an object it may hold a list of
pairs, each a list, a text or an object with two members, and an empty text changes nothing. A pair whose key is null, a
truth value or a number binds nothing that is ever asked for, and is left out. Saving checks first, so that a
configuration that is refused leaves the file alone.
-/
import TapeMachine.Config.Schema
import TapeMachine.Json.Reader
import TapeMachine.Json.Writer
import TapeMachine.Storage.Clock
import TapeMachine.Storage.DefinitionFile

namespace TapeMachine

/-- why no configuration comes out of a file, or goes into one -/
inductive ConfigFault where
  /-- a value of another kind in the place of a path -/
  | noPath (got : Json.Kind)
  | setting (fault : SettingFault)
  | notFound (path : Text)
  | disk (fault : DiskFault)
  | undecodable
  | unread (fault : Json.ReadFault)
  | notIterable (got : Json.Kind)
  | notSequence (index : Nat)
  | badLength (index length : Nat)
  | unhashable (got : Json.Kind)
deriving DecidableEq, Repr

namespace ConfigFault

def message : ConfigFault → Text
  | .noPath got => "stat: path should be string, bytes, os.PathLike or integer, not " ++ got.name
  | .setting f => f.message
  | .notFound path => "Configuration file not found at: " ++ path
  | .disk f => f.message
  | .undecodable => undecodableDetail
  | .unread f => f.message
  | .notIterable got => "'" ++ got.name ++ "' object is not iterable"
  | .notSequence i => "cannot convert dictionary update sequence element #" ++ toString i ++ " to a sequence"
  | .badLength i n =>
    "dictionary update sequence element #" ++ toString i ++ " has length " ++ toString n ++ "; 2 is required"
  | .unhashable got => "unhashable type: '" ++ got.name ++ "'"

/-- whether the user is told of the fault; trouble with the disk and values inside too many others go further -/
def isTold : ConfigFault → Bool
  | .disk _ => false
  | .unread (.tooDeep _) => false
  | _ => true

/-- the fault as a notice to the user -/
def notice : ConfigFault → Text
  | .notFound path => "Error: " ++ (notFound path).message
  | f => "Invalid configuration: " ++ f.message

end ConfigFault

namespace Config

/-- the key that a value makes, if it is a text; a list and an object make none at all -/
def keyOf : Json → Except ConfigFault (Option Text)
  | .string s => .ok (some s)
  | .list _ => .error (.unhashable .list)
  | .object _ => .error (.unhashable .object)
  | _ => .ok none

/-- a key and a value from the members of the item at an index -/
def pairOf (index : Nat) : List Json → Except ConfigFault (Option (Text × Json))
  | [k, v] => (keyOf k).map fun k => k.map fun k => (k, v)
  | members => .error (.badLength index members.length)

/-- a key and a value from the item at an index of a list -/
def itemPair (index : Nat) : Json → Except ConfigFault (Option (Text × Json))
  | .list members => pairOf index members
  | .string s => pairOf index (s.singletons.map .string)
  | .object fs => pairOf index (fs.map fun f => .string f.1)
  | _ => .error (.notSequence index)

/-- the pairs of the items of a list, the first of which has the given index -/
def itemPairs (index : Nat) : List Json → Except ConfigFault (List (Text × Json))
  | [] => .ok []
  | v :: vs => do
    let p ← itemPair index v
    let ps ← itemPairs (index + 1) vs
    return p.toList ++ ps

/-- the bindings that a value brings -/
def bindings : Json → Except ConfigFault (List (Text × Json))
  | .object fs => .ok fs
  | .list items => itemPairs 0 items
  | .string s => if s.isEmpty then .ok [] else .error (.badLength 0 1)
  | v => .error (.notIterable v.kind)

/-- a configuration that has passed the check -/
def checked (c : Config) : Except ConfigFault Config :=
  match c.validate with
  | .ok () => .ok c
  | .error f => .error (.setting f)

/-- the configuration that a value makes over the defaults -/
def ofJson (v : Json) : Except ConfigFault Config := do
  let pairs ← bindings v
  checked (defaults.merge pairs)

def ofText (s : String) : Except ConfigFault Config :=
  match Json.readFile s with
  | .error f => .error (.unread f)
  | .ok v => ofJson v

/-- the configuration in a file -/
def load (d : Disk) (path : Text) : Except ConfigFault Config :=
  match d.entry path with
  | .error _ => .error (.notFound path)
  | .ok .directory => .error (.disk (.isDirectory path))
  | .ok (.file .undecodable) => .error .undecodable
  | .ok (.file (.text s)) => ofText s

/-- the configuration in a file, or the defaults when no file is named -/
def loadOrDefault (d : Disk) : Option Text → Except ConfigFault Config
  | some path => load d path
  | none => checked defaults

/-- what is printed of a configuration that was loaded -/
def listing (c : Config) (now : Clock) : List Text :=
  ("[" ++ now.notice ++ "] Loaded config:") :: c.map fun f => "  " ++ f.1 ++ ": " ++ f.2.text

/-- the text of a file that holds the configuration -/
def fileText (c : Config) : String := Json.spread 0 (.object c)

/-- writes the configuration to a file, unless it is refused -/
def save (c : Config) (d : Disk) (path : Text) : Except ConfigFault Disk := do
  let c ← checked c
  (d.write path c.fileText).mapError .disk

end Config
end TapeMachine
