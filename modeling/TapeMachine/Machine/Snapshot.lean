/-
Snapshots of a machine between steps.

A snapshot is a finite tape, the position of the head, the current state, the number of transitions applied so far and
a status. A fresh snapshot has the input in the middle of a tape, with the same number of blank cells on either side,
and the head on the first cell after the left padding.
-/
import TapeMachine.Json.Label
import TapeMachine.Machine.Definition

namespace TapeMachine

inductive Status where
  | idle
  | running
  | paused
  | accepted
  | error
deriving DecidableEq, Repr

namespace Status

def name : Status → String
  | .idle => "idle"
  | .running => "running"
  | .paused => "paused"
  | .accepted => "halted-accept"
  | .error => "error"

def all : List Status := [.idle, .running, .paused, .accepted, .error]

def ofName? (s : String) : Option Status := all.find? fun q => q.name == s

/-- a halted machine stays as it is until it is loaded again -/
def halted : Status → Bool
  | .accepted => true
  | .error => true
  | _ => false

/-- the statuses in which a manual step is taken -/
def manual : Status → Bool
  | .idle => true
  | .paused => true
  | _ => false

end Status

structure Snapshot where
  tape : List Text := []
  head : Int := 0
  state : Text := ""
  steps : Int := 0
  status : Status := .idle
  /-- whether the head has not moved since its position was given as a truth value -/
  truthHead : Bool := false
deriving DecidableEq, Repr

/-- blank padding on both sides of the input, a cell for each code point; a negative padding is none -/
def paddedTape (input blank : Text) (padding : Int) : List Text :=
  List.replicate padding.toNat blank ++ input.singletons ++ List.replicate padding.toNat blank

/-- the cells from the first to the last that is not blank -/
def trimCells (isBlank : Text → Bool) (cells : List Text) : List Text :=
  ((cells.dropWhile isBlank).reverse.dropWhile isBlank).reverse

namespace Snapshot

def halted (s : Snapshot) : Bool := s.status.halted

/-- the symbol under the head, if the head is on the tape -/
def cell? (s : Snapshot) : Option Text := if 0 ≤ s.head then s.tape[s.head.toNat]? else none

/-- the symbol under the head; beyond the tape every cell is blank -/
def read (s : Snapshot) (blank : Text) : Text := s.cell?.getD blank

/-- the tape without the blank cells at its ends, run together; with no blank symbol every cell counts -/
def output (s : Snapshot) (blank : Option Text) : Text := Text.join (trimCells (fun c => some c == blank) s.tape)

/-- the head on a cell of the tape -/
def InRange (s : Snapshot) : Prop := 0 ≤ s.head ∧ s.head < s.tape.length

instance (s : Snapshot) : Decidable s.InRange := inferInstanceAs (Decidable (_ ∧ _))

/-- the head's position as it is shown -/
def headValue (s : Snapshot) : Json := if s.truthHead then .bool (decide (s.head ≠ 0)) else .ofInt s.head

/-- a machine just loaded with an input -/
def fresh (d : Definition) (input : Text) (padding : Int) : Snapshot where
  tape := paddedTape input d.blank padding
  head := padding
  state := d.initial
  steps := 0
  status := .idle

end Snapshot
end TapeMachine
