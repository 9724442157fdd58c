/-
The files that a program works with.

Files hold text; a file whose bytes are not UTF-8 is kept as one that cannot be decoded. A path is followed from the
working directory or from the root, component by component, and every component but the last must be a directory. What
lies outside the working directory is not known: the directories above it are there, and nothing else is.
-/
import TapeMachine.Storage.Path
import TapeMachine.Text.Quoted

namespace TapeMachine

/-- what a file holds -/
inductive Contents where
  | text (s : String)
  | undecodable
deriving DecidableEq, Repr

/-- the contents that bytes stand for -/
def Contents.ofBytes (b : ByteArray) : Contents :=
  match String.fromUTF8? b with
  | some s => .text s
  | none => .undecodable

structure Disk where
  directories : List Route := []
  files : List (Route × Contents) := []
deriving DecidableEq, Repr

/-- why a path cannot be used -/
inductive DiskFault where
  | notFound (path : Text)
  | exists (path : Text)
  | notDirectory (path : Text)
  | isDirectory (path : Text)
  | nameTooLong (path : Text)
  /-- a path with a null character in it -/
  | nullCharacter
  /-- a path with halves of pairs that no bytes stand for, from a place on, with the places of the first and the last -/
  | noBytes (half : CodePoint) (first last : Nat)
  /-- a directory inside too many others -/
  | tooDeep
deriving DecidableEq, Repr

namespace DiskFault

def message : DiskFault → Text
  | .notFound p => "[Errno 2] No such file or directory: " ++ Text.quoted p
  | .exists p => "[Errno 17] File exists: " ++ Text.quoted p
  | .notDirectory p => "[Errno 20] Not a directory: " ++ Text.quoted p
  | .isDirectory p => "[Errno 21] Is a directory: " ++ Text.quoted p
  | .nameTooLong p => "[Errno 36] File name too long: " ++ Text.quoted p
  | .nullCharacter => "embedded null byte"
  | .noBytes half first last =>
    let place := if first = last then
      "character '\\u" ++ String.ofList (Text.hex 4 half.code) ++ "' in position " ++ toString first
    else "characters in position " ++ toString first ++ "-" ++ toString last
    "'utf-8' codec can't encode " ++ place ++ ": surrogates not allowed"
  | .tooDeep => "maximum recursion depth exceeded"

end DiskFault

/-- what keeps the system from going along a path -/
inductive Obstacle where
  | missing
  | notDirectory
  | tooLong
deriving DecidableEq, Repr

def Obstacle.fault (path : Text) : Obstacle → DiskFault
  | .missing => .notFound path
  | .notDirectory => .notDirectory path
  | .tooLong => .nameTooLong path

/-- a path that the system cannot be asked for -/
def Path.unusable? (path : Text) : Option DiskFault :=
  match byteless? 0 path.points with
  | some (half, first, last) => some (.noBytes half first last)
  | none => if path.points.contains '\x00' then some .nullCharacter else none

namespace Disk

/-! ## Looking -/

/-- the contents of the file at a route -/
def file? (d : Disk) (r : Route) : Option Contents := d.files.lookup r

/-- whether a route leads to a directory: the working directory, one above it or the root, one that was made, or one
above a file or a directory -/
def isDirectory (d : Disk) (r : Route) : Bool :=
  r == [Path.slash] || (r.all (· == Path.up)) || (d.directories.any fun p => r.isPrefixOf p) ||
    d.files.any fun f => r.isPrefixOf f.1 && r != f.1

/-- one component further, which only a directory allows -/
def enter (d : Disk) (r : Route) (component : Text) : Except Obstacle Route :=
  if !d.isDirectory r then .error (if (d.file? r).isSome then .notDirectory else .missing)
  else if Path.isLongName component then .error .tooLong
  else .ok (Path.advance r component)

/-- along components from a directory; when the way goes down all along and ends at a directory, there is no obstacle
on it -/
def walk (d : Disk) (r : Route) (components : List Text) : Except Obstacle Route :=
  let direct := r ++ (Path.moves components).map Path.name
  if !components.contains Path.up && d.isDirectory direct then .ok direct else components.foldlM d.enter r

/-- the route of a path, all of which but the last component is there -/
def locate (d : Disk) (path : Text) : Except Obstacle Route :=
  if path.isEmpty then .error .missing
  else if Path.isLong path then .error .tooLong
  else do
    let components := Path.split path
    let r ← d.walk (Path.start path) components.dropLast
    d.enter r (components.getLast?.getD "")

inductive Entry where
  | file (contents : Contents)
  | directory
deriving DecidableEq, Repr

/-- what is at a path -/
def entry (d : Disk) (path : Text) : Except DiskFault Entry :=
  match Path.unusable? path, d.locate path with
  | some f, _ => .error f
  | none, .error o => .error (o.fault path)
  | none, .ok r =>
    if d.isDirectory r then .ok .directory
    else
      match d.file? r with
      | some c => .ok (.file c)
      | none => .error (.notFound path)

def exists? (d : Disk) (path : Text) : Bool := (d.entry path).isOk

def leadsToDirectory (d : Disk) (path : Text) : Bool :=
  match d.entry path with
  | .ok .directory => true
  | _ => false

/-! ## Making directories -/

/-- makes the directory at a path, which must be the only part of it that is not there -/
def makeDirectory (d : Disk) (path : Text) : Except DiskFault Disk :=
  match Path.unusable? path with
  | some f => .error f
  | none =>
    if path.isEmpty then .error (.notFound path)
    else if Path.isLong path then .error (.nameTooLong path)
    else
      match (Path.split path).reverse.dropWhile Text.isEmpty with
      | [] => .error (.exists path)
      | last :: before =>
        match (d.walk (Path.start path) before.reverse).bind fun r => d.enter r last with
        | .error o => .error (o.fault path)
        | .ok r =>
          if last = "." ∨ last = Path.up ∨ d.isDirectory r ∨ (d.file? r).isSome then .error (.exists path)
          else .ok { d with directories := d.directories ++ [r] }

/-- the directory that a path lies in, and its last component, whether or not a slash follows it -/
def parentOf (path : Text) : Text × Text :=
  let (head, tail) := Path.cut path
  if tail.isEmpty then Path.cut head else (head, tail)

/-- makes the directory at a path and those it lies in, `room` of them at the most, and gives what it could make; one
that is there already will do, and a file in the place of one it lies in is found out on the next step -/
def makeAll : Nat → Disk → Text → Disk × Option DiskFault
  | 0, d, _ => (d, some .tooDeep)
  | room + 1, d, path =>
    let (head, tail) := parentOf path
    let isNew := !head.isEmpty && !tail.isEmpty && !d.exists? head
    let here (d : Disk) : Disk × Option DiskFault :=
      if isNew && tail = "." then (d, none)
      else
        match d.makeDirectory path with
        | .ok d => (d, none)
        | .error f => (d, if d.leadsToDirectory path then none else some f)
    if isNew then
      match makeAll room d head with
      | (d, none) | (d, some (.exists _)) => here d
      | (d, some f) => (d, some f)
    else here d

/-- the directories that can be made inside one another at once -/
def mostLevels : Nat := 988

def makeDirectories (d : Disk) (path : Text) : Except DiskFault Disk :=
  match makeAll mostLevels d path with
  | (d, none) => .ok d
  | (_, some f) => .error f

/-! ## Writing -/

/-- binds the contents at a route: in place when a file is there, at the end when not -/
def putFile : List (Route × Contents) → Route → Contents → List (Route × Contents)
  | [], r, c => [(r, c)]
  | f :: fs, r, c => if f.1 = r then (r, c) :: fs else f :: putFile fs r c

/-- opens a path for writing and puts there what `change` makes of the contents found -/
def alter (d : Disk) (path : Text) (change : Option Contents → Contents) : Except DiskFault Disk :=
  match Path.unusable? path, d.locate path with
  | some f, _ => .error f
  | none, .error o => .error (o.fault path)
  | none, .ok r =>
    if d.isDirectory r then .error (.isDirectory path)
    else .ok { d with files := putFile d.files r (change (d.file? r)) }

/-- adds text to the end of a file, which is made if it is not there -/
def append (d : Disk) (path : Text) (text : String) : Except DiskFault Disk :=
  d.alter path fun
    | some (.text s) => .text (s ++ text)
    | some .undecodable => .undecodable
    | none => .text text

/-- makes text the whole contents of a file -/
def write (d : Disk) (path : Text) (text : String) : Except DiskFault Disk := d.alter path fun _ => .text text

/-- puts a file at a path, with the directories it lies in -/
def add (d : Disk) (path : Text) (c : Contents) : Disk := { d with files := putFile d.files (Path.route path) c }

end Disk
end TapeMachine
