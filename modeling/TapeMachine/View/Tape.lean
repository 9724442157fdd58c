/-
The tape as two lines of text.

The cells within a window around the head are shown side by side, with a caret below the middle of the head's field.
Some control characters cannot be shown, and are left out after the fields are measured.
-/
import TapeMachine.Machine.Snapshot

namespace TapeMachine

/-- a stretch of a text, by the places where it starts and stops, with the style it has -/
structure Span where
  start : Nat
  stop : Nat
  style : String
deriving DecidableEq, Repr

/-- a text with a style for all of it and styles for stretches of it -/
structure StyledText where
  text : Text
  style : String := ""
  spans : List Span := []
deriving DecidableEq, Repr

/-- the control characters that a text to be shown cannot hold: bell, backspace, vertical tab, form feed, return -/
def isUnshown (p : CodePoint) : Bool := [7, 8, 11, 12, 13].contains p.code

/-- a text without the characters that it cannot hold when it is shown -/
def shown (t : Text) : Text := ⟨t.points.filter fun p => !isUnshown p⟩

namespace TapeView

/-- the places of the cells to show: from the first one up to the last one, which is not shown -/
def range (s : Snapshot) (window : Int) : Int × Int :=
  (max 0 (s.head - window), min s.tape.length (s.head + window + 1))

/-- the cells to show, each with its place -/
def cells (s : Snapshot) (window : Int) : List (Nat × Text) :=
  let (start, stop) := range s window
  ((s.tape.zipIdx.map fun c => (c.2, c.1)).drop start.toNat).take (stop - start).toNat

/-- the columns of a cell -/
def width (symbol : Text) : Nat := max symbol.length 1

/-- the text of a cell, over all its columns -/
def field (symbol : Text) : Text := if symbol.isEmpty then " " else symbol

def blanks (n : Nat) : Text := ⟨List.replicate n ' '⟩

/-- blanks on the left of a mark one column wide that is centred in `w` columns -/
def leftPadding (w : Nat) : Nat := (w - 1) / 2 + if (w - 1) % 2 = 1 ∧ w % 2 = 1 then 1 else 0

/-- a caret centred in `w` columns -/
def caret (w : Nat) : Text := blanks (leftPadding w) ++ "^" ++ blanks (w - 1 - leftPadding w)

/-- a cell on the first line -/
def upper (symbol : Text) : Text := shown (field symbol) ++ " "

/-- a cell on the second line -/
def lower (head : Int) (cell : Nat × Text) : Text :=
  (if (cell.1 : Int) = head then caret (width cell.2) else blanks (width cell.2)) ++ " "

def upperLine (cs : List (Nat × Text)) : Text := Text.join (cs.map fun c => upper c.2)

def lowerLine (head : Int) (cs : List (Nat × Text)) : Text := Text.join (cs.map (lower head))

/-- the stretches of the head's symbol and of its caret -/
def spans (head : Int) (cs : List (Nat × Text)) : List Span :=
  let before := cs.takeWhile fun c => (c.1 : Int) ≠ head
  match cs.dropWhile fun c => (c.1 : Int) ≠ head with
  | [] => []
  | c :: _ =>
    let a := (upperLine before).length
    let b := (upperLine cs).length + 1 + (lowerLine head before).length
    [⟨a, a + (shown (field c.2)).length, "bold black on yellow"⟩, ⟨b, b + width c.2, "bold yellow"⟩]

end TapeView

/-- the cells around the head, with a caret under it -/
def tapeView (s : Snapshot) (window : Int) : StyledText :=
  if s.tape.isEmpty then { text := "(empty tape)", style := "dim" }
  else
    let cs := TapeView.cells s window
    { text := TapeView.upperLine cs ++ "\n" ++ TapeView.lowerLine s.head cs
      spans := TapeView.spans s.head cs }

end TapeMachine
