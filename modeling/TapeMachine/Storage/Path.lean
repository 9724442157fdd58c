/-
Paths.

The system takes a path as bytes, which are those of UTF-8. A half of a pair between 0xDC80 and 0xDCFF stands for the
byte of its last two digits, any other half for no byte at all. Two spellings of the same bytes name the same file.
-/
import TapeMachine.Text.Basic

namespace TapeMachine

/-- the way from the working directory to a file or a directory: two dots for each level up, and then names. A way
that starts at the root has a slash in the first place -/
abbrev Route := List Text

namespace Path

/-! ## Bytes -/

def isByte (p : CodePoint) : Bool := decide (0xDC80 ≤ p.code ∧ p.code ≤ 0xDCFF)

def pointBytes (p : CodePoint) : List UInt8 :=
  match p.char? with
  | some c => String.utf8EncodeChar c
  | none => if isByte p then [p.code.toUInt8] else []

def bytes (t : Text) : List UInt8 := t.points.flatMap pointBytes

/-- characters, and a half of a pair for each byte that is part of none -/
def readBytes : List UInt8 → List CodePoint
  | [] => []
  | b :: bs =>
    match ByteArray.utf8DecodeChar? ⟨(b :: bs.take 3).toArray⟩ 0 with
    | some c => c :: readBytes (bs.drop (c.utf8Size - 1))
    | none => .ofCode (0xDC00 + b.toNat) :: readBytes bs
termination_by bs => bs.length
decreasing_by all_goals simp only [List.length_cons, List.length_drop]; omega

/-- a component in the spelling that its bytes are read as -/
def name (component : Text) : Text :=
  if component.points.any isByte then ⟨readBytes (bytes component)⟩ else component

def isLongName (name : Text) : Bool := decide (255 < (bytes name).length)

def isLong (path : Text) : Bool := decide (4095 < (bytes path).length)

/-- the first half of a pair without a byte, with its place and that of the last half in the same run, counted from `i`
-/
def byteless? (i : Nat) : List CodePoint → Option (CodePoint × Nat × Nat)
  | [] => none
  | p :: ps =>
    if p.isHalf && !isByte p then some (p, i, i + (ps.takeWhile CodePoint.isHalf).length) else byteless? (i + 1) ps

/-! ## Components -/

def up : Text := ".."

def slash : Text := "/"

def isSlash (p : CodePoint) : Bool := p == '/'

/-- the runs between slashes; `acc` holds the current one in reverse -/
def runs (acc : List CodePoint) : List CodePoint → List (List CodePoint)
  | [] => [acc.reverse]
  | p :: ps => if isSlash p then acc.reverse :: runs [] ps else runs (p :: acc) ps

def split (path : Text) : List Text := (runs [] path.points).map Text.mk

/-- whether a component stays where it is -/
def stays (component : Text) : Bool := component.isEmpty || component == "."

def moves (components : List Text) : List Text := components.filter fun c => !stays c

def isRooted (path : Text) : Bool := path.points.head?.any isSlash

/-- the slashes at the start of a normal path: two stay two, any other number of them becomes one -/
def root (path : Text) : Text :=
  match (path.points.takeWhile isSlash).length with
  | 0 => ""
  | 2 => "//"
  | _ => "/"

def normal (path : Text) : Text :=
  let t := root path ++ Text.intercalate "/" (moves (split path))
  if t.isEmpty then "." else t

def join (directory name : Text) : Text :=
  if isRooted name then name
  else if directory.isEmpty || directory.points.getLast?.any isSlash then directory ++ name
  else directory ++ "/" ++ name

/-- code points without the slashes at their end, unless there are no others -/
def trimSlashes (ps : List CodePoint) : List CodePoint :=
  match (ps.reverse.dropWhile isSlash).reverse with
  | [] => ps
  | kept => kept

/-- what is before the last slash of a path, and what is behind it -/
def cut (path : Text) : Text × Text :=
  let tail := (path.points.reverse.takeWhile fun p => !isSlash p).reverse
  let head := path.points.take (path.length - tail.length)
  (⟨trimSlashes head⟩, ⟨tail⟩)

/-! ## Ways -/

def start (path : Text) : Route := if isRooted path then [slash] else []

/-- the way to the directory above, which the root is itself -/
def above (r : Route) : Route :=
  if r = [slash] then r else if r.all (· == up) then r ++ [up] else r.dropLast

def advance (r : Route) (component : Text) : Route :=
  if stays component then r else if component = up then above r else r ++ [name component]

def route (path : Text) : Route := (split path).foldl advance (start path)

/-- whether a way leads out of the working directory -/
def leavesWorkplace (r : Route) : Bool := r.head?.any fun c => c == up || c == slash

example : normal "a//./b/" = "a/b" ∧ (cut "a//b").1 = "a" ∧ route "a/../../b" = [up, "b"] := by decide +kernel

end Path
end TapeMachine
