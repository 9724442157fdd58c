/-
The textbook machine: a tape that is infinite both ways.

A machine stops when it is in the accept state or when no rule is for its state and symbol. `run` stays where it stops,
so it gives the state after `n` transitions, or after all of them if there are fewer.
-/
import TapeMachine.Machine.Definition

namespace TapeMachine

structure Textbook where
  tape : Int → Text
  head : Int
  state : Text

namespace Textbook

/-- the rule that is applied next, if the machine goes on -/
def rule? (d : Definition) (c : Textbook) : Option Rule :=
  if c.state = d.accept then none else d.table.find? c.state (c.tape c.head)

def apply (r : Rule) (c : Textbook) : Textbook where
  tape := fun i => if i = c.head then r.write else c.tape i
  head := c.head + r.move.shift
  state := r.next

def step (d : Definition) (c : Textbook) : Textbook :=
  match c.rule? d with
  | some r => apply r c
  | none => c

def run (d : Definition) : Nat → Textbook → Textbook
  | 0, c => c
  | n + 1, c => run d n (c.step d)

def Stopped (d : Definition) (c : Textbook) : Prop := c.rule? d = none

/-- cells on a tape from position 0 on, and blanks elsewhere -/
def tapeOf (blank : Text) (cells : List Text) (i : Int) : Text :=
  if 0 ≤ i then cells[i.toNat]?.getD blank else blank

/-- the machine at its start, with an input from position 0 on -/
def start (d : Definition) (input : Text) : Textbook where
  tape := tapeOf d.blank input.singletons
  head := 0
  state := d.initial

end Textbook
end TapeMachine
