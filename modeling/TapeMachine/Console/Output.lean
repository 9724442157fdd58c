/-
What a console program shows.

Output is data. Most of it is markup, and a console need not be able to show all of that: a tag may be closed in it
that was never opened.
-/
import TapeMachine.Console.Fault
import TapeMachine.View.Inspector
import TapeMachine.View.Panel

namespace TapeMachine

inductive Output where
  | print (text : Text)
  /-- text in which brackets are no markup -/
  | plain (text : Text)
  | trouble (f : ConsoleFault)
  | panel (p : Panel)
  | grid (g : Inspector.Grid)
  | ask (prompt : String) (default : Option Json)
  | invalid (answer : String)
  | live (frames : List Panel)

/-- a console, told by what it can show -/
structure Console where
  renders : Output → Bool := fun _ => true

/-- whether an output is shown; the frames of a live display always are -/
def Console.shows (c : Console) : Output → Bool
  | .live _ => true
  | o => c.renders o

namespace Output

/-- a line in a colour -/
def coloured (colour : String) (text : Text) : Output := .print (TapeMachine.coloured colour text)

/-- the line that tells of a fault -/
def troubleLine (notice : Text) : Text := TapeMachine.coloured "red" notice

/-- a definition with its table, and with the table as LaTeX if that is wanted -/
def definition (d : Definition) (latex : Bool) : List Output :=
  [.print ("[bold]States:[/bold] " ++ Text.intercalate ", " d.states),
   .print ("[bold]Alphabet:[/bold] " ++ Text.intercalate ", " d.alphabet ++ "  (blank " ++ Text.quoted d.blank ++ ")"),
   .print ("[bold]Start:[/bold] " ++ d.initial ++ "  [bold]Accept:[/bold] " ++ d.accept),
   .grid (Inspector.grid d)] ++
  if latex then [.plain "\n=== LaTeX Table ===", .plain (Inspector.latex d)] else []

end Output
end TapeMachine
