/-
One step of a machine.

The tape grows by one blank cell when the head leaves it; growing on the left moves every cell up by one. A snapshot
whose head is off the tape reads a blank, but has a cell to write only when the head, counted from the end, reaches one.
-/
import TapeMachine.Machine.Snapshot

namespace TapeMachine

/-- the tape with a symbol written at a position; a negative position counts from the end -/
def writeCell (tape : List Text) (head : Int) (symbol : Text) : Option (List Text) :=
  if 0 ≤ head then
    if head < tape.length then some (tape.set head.toNat symbol) else none
  else if 0 ≤ tape.length + head then some (tape.set (tape.length + head).toNat symbol)
  else none

/-- the tape with a cell for the head, and the head's position on it -/
def growTape (blank : Text) (tape : List Text) (head : Int) : List Text × Int :=
  if head < 0 then (blank :: tape, 0)
  else if tape.length ≤ head then (tape ++ [blank], head)
  else (tape, head)

/-- the status after a transition into `next` -/
def statusAfter (d : Definition) (next : Text) (status : Status) : Status :=
  if next = d.accept then .accepted else if status = .idle then .paused else status

/-- the snapshot after a rule is applied; none when there is no cell to write -/
def applyRule (d : Definition) (r : Rule) (s : Snapshot) : Option Snapshot :=
  (writeCell s.tape s.head r.write).map fun tape =>
    let (tape, head) := growTape d.blank tape (s.head + r.move.shift)
    { tape
      head
      state := r.next
      steps := s.steps + 1
      status := statusAfter d r.next s.status
      truthHead := s.truthHead && r.move == .stay }

/-- the next snapshot under a definition with its table; none when there is no cell to write -/
def advance (d : Definition) (t : Table) (s : Snapshot) : Option Snapshot :=
  if s.halted then some s
  else if s.state = d.accept then some { s with status := .accepted }
  else
    match t.find? s.state (s.read d.blank) with
    | none => some { s with status := .error }
    | some r => applyRule d r s

/-- `n` steps in a row; none when one of them has no cell to write -/
def advanceN (d : Definition) (t : Table) : Nat → Snapshot → Option Snapshot
  | 0, s => some s
  | n + 1, s => (advance d t s).bind (advanceN d t n)

/-- the next snapshot of a machine that may be without a definition, and then stays as it is -/
def advanceLoaded : Option Definition → Snapshot → Option Snapshot
  | none, s => some s
  | some d, s => advance d d.table s

/-- the snapshots after each of `n` steps, up to one that has no cell to write; with that one's predecessor -/
def trail (d : Option Definition) : Nat → Snapshot → List Snapshot × Option Snapshot
  | 0, _ => ([], none)
  | n + 1, s =>
    match advanceLoaded d s with
    | none => ([], some s)
    | some q =>
      let (later, stuck) := trail d n q
      (q :: later, stuck)

end TapeMachine
