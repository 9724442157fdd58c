/-
Panels: one snapshot with its input and output, its tape, four cards and a message.
-/
import TapeMachine.View.Tape

namespace TapeMachine

/-- a part of a panel -/
inductive Part where
  | text (content : Text) (style : String)
  | cards (markup : List Text)
deriving DecidableEq, Repr

/-- parts from top to bottom, in a border of a colour -/
structure Panel where
  parts : List Part
  border : String
deriving DecidableEq, Repr

/-- the title of every panel -/
def Panel.title : String := "Turing Machine"

/-- the colour that stands for a status -/
def Status.colour : Status → String
  | .idle => "white"
  | .running => "blue"
  | .paused => "yellow"
  | .accepted => "green"
  | .error => "red"

/-- markup that gives a text a colour -/
def coloured (colour : String) (text : Text) : Text := "[" ++ colour ++ "]" ++ text ++ "[/" ++ colour ++ "]"

namespace Panel

/-- the line that tells input and output -/
def ioLine (input output : Text) : Text := shown ("Input: " ++ input ++ " -> Output: " ++ output)

/-- state, head, steps and status -/
def cards (s : Snapshot) : List Text :=
  let colour := s.status.colour
  ["[dim]State[/dim] " ++ coloured colour (if s.state.isEmpty then "N/A" else s.state),
   "[dim]Head[/dim] " ++ s.headValue.text,
   "[dim]Steps[/dim] " ++ toString s.steps,
   "[dim]Status[/dim] " ++ coloured colour s.status.name]

/-- the panel of a snapshot; input and output are told only of a machine with a definition, and an empty message is
none -/
def ofSnapshot (s : Snapshot) (d : Option Definition) (input : Text) (window : Int) (message : Option Text) :
    Panel where
  parts :=
    (d.toList.map fun d => .text (ioLine input (s.output (some d.blank))) "") ++
    [.text (tapeView s window).text (tapeView s window).style, .cards (cards s)] ++
    ((message.filter fun m => !m.isEmpty).toList.map fun m => .text (shown m) "red")
  border := s.status.colour

end Panel
end TapeMachine
