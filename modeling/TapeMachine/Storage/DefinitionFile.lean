/-
Definitions in files.

A definition file holds the data of one definition. It may be missing, be no file or have too long a name, hold bytes
that are not UTF-8, text that is no data value or is more than a reader takes, or data that describe no definition;
each is a fault of its own.
-/
import TapeMachine.Machine.Grammar
import TapeMachine.Json.Reader
import TapeMachine.Storage.Disk

namespace TapeMachine

/-- what is said of bytes that are not UTF-8 -/
def undecodableDetail : String := "<not UTF-8>"

/-- why no definition comes out of a file -/
inductive LoadFault where
  | notFound (path : Text)
  | disk (fault : DiskFault)
  | undecodable
  /-- the text keeps to the grammar as far as it is read, but goes beyond what is read -/
  | unreadable (fault : Json.ReadFault)
  | definition (fault : DefinitionFault)
deriving DecidableEq, Repr

def LoadFault.message : LoadFault → Text
  | .notFound path => "Definition file " ++ path ++ " not found."
  | .disk f => f.message
  | .undecodable => undecodableDetail
  | .unreadable f => f.message
  | .definition f => f.message

/-- whether the user is told of the fault and goes on: the file is not there, or holds no definition -/
def LoadFault.isTold : LoadFault → Bool
  | .notFound _ => true
  | .definition f => f.isRefusal
  | _ => false

namespace Definition

/-- the definition that a text describes; `path` names the file in the fault -/
def ofText (path : Text) (text : String) : Except LoadFault Definition :=
  match Json.readFile text with
  | .error (.malformed c p) => .error (.definition (.malformedFile path (Json.ReadFault.malformed c p).message))
  | .error f => .error (.unreadable f)
  | .ok v => (ofJson v).mapError .definition

/-- the definition in a file -/
def load (d : Disk) (path : Text) : Except LoadFault Definition :=
  let path := Path.normal path
  match d.entry path with
  | .error (.nameTooLong p) => .error (.disk (.nameTooLong p))
  | .error _ => .error (.notFound path)
  | .ok .directory => .error (.disk (.isDirectory path))
  | .ok (.file .undecodable) => .error .undecodable
  | .ok (.file (.text s)) => ofText path s

end Definition
end TapeMachine
