/-
A definition as a table.

There is a column for every symbol of the alphabet, in its order, and then for every symbol that only a rule reads;
there is a row for every state. A cell holds what the machine does in that state under that symbol, as the table of
the definition tells it, or a dash when no rule is for it.
-/
import TapeMachine.Machine.Definition
import TapeMachine.Text.Quoted

namespace TapeMachine.Inspector

/-- the mark of a cell without a rule -/
def dash : String := "—"

/-- a symbol at the end of a list, unless it is in it -/
def addSymbol (symbols : List Text) (symbol : Text) : List Text :=
  if symbol ∈ symbols then symbols else symbols ++ [symbol]

/-- the symbols that have a column -/
def columns (d : Definition) : List Text := (d.rules.map Rule.read).foldl addSymbol d.alphabet

/-- what a rule does: the symbol written, the letter of the move, and the next state -/
def action (r : Rule) : Text := r.write ++ r.move.letter ++ " " ++ r.next

/-- the cell of a state under a symbol -/
def cell (t : Table) (state symbol : Text) : Text :=
  match t.find? state symbol with
  | some r => action r
  | none => dash

/-- the cells of a state -/
def cells (d : Definition) (state : Text) : List Text := (columns d).map (cell d.table state)

/-- a row for each state: the state, then its cells -/
def rows (d : Definition) : List (List Text) := d.states.map fun q => q :: cells d q

/-- a state as the first cell of its row, with a mark for the accept state or else for the initial one -/
def stateLabel (d : Definition) (state : Text) : Text :=
  if state = d.accept then "[green]" ++ state ++ "[/green] (accept)"
  else if state = d.initial then "[cyan]" ++ state ++ "[/cyan] (start)"
  else state

/-- a table to be shown -/
structure Grid where
  title : Option String
  headers : List Text
  justify : List String
  rows : List (List Text)
deriving DecidableEq, Repr

def grid (d : Definition) : Grid where
  title := some "Transition Table"
  headers := "State" :: (columns d).map Text.quoted
  justify := "left" :: (columns d).map fun _ => "center"
  rows := d.states.map fun q => stateLabel d q :: cells d q

/-! ## LaTeX -/

/-- a text with a backslash before every underscore -/
def escapeUnderscores (t : Text) : Text :=
  ⟨t.points.flatMap fun p : CodePoint => if p = '_' then ['\\', p] else [p]⟩

/-- text in a formula -/
def latexText (t : Text) : Text := "\\text\x7b" ++ t ++ "\x7d"

def latexHeader (d : Definition) : Text :=
  "State/Symbol & " ++ Text.intercalate " & " ((columns d).map latexText) ++ " \\\\ \\hline"

def latexRow (row : List Text) : Text :=
  Text.intercalate " & " (row.map fun c => latexText (escapeUnderscores c)) ++ " \\\\"

/-- the lines of the table as a LaTeX array -/
def latexLines (d : Definition) : List Text :=
  let places := String.ofList ((columns d).map fun _ => 'c')
  let opening : Text := "\\begin\x7barray\x7d\x7bc|" ++ places ++ "\x7d"
  let closing : Text := "\\end\x7barray\x7d"
  opening :: latexHeader d :: (rows d).map latexRow ++ [closing]

def latex (d : Definition) : Text := Text.intercalate "\n" (latexLines d)

end TapeMachine.Inspector
