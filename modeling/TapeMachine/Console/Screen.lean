/-
Output as lines of plain text.

Markup is dropped: a tag is a name in brackets, with a slash before it when it closes a stretch. Panels and tables are
written from top to bottom without borders.
-/
import TapeMachine.Console.Output

namespace TapeMachine.Screen

/-- whether the characters of a bracket, the last one first, make it a tag -/
def isTag (held : List Char) : Bool :=
  match held.reverse with
  | '[' :: c :: _ => c.isLower || c == '/'
  | _ => false

/-- text without its tags; `held` holds the characters of an open bracket, the last one first -/
def withoutTags (held : List Char) : List Char → List Char
  | [] => held.reverse
  | c :: cs =>
    if c = '[' then held.reverse ++ withoutTags ['['] cs
    else if held.isEmpty then c :: withoutTags [] cs
    else if c = ']' then (if isTag held then [] else (c :: held).reverse) ++ withoutTags [] cs
    else withoutTags (c :: held) cs

def unmarked (t : Text) : String := String.ofList (withoutTags [] t.toString.toList)

def partLines : Part → List String
  | .text content _ => [content.toString]
  | .cards markup => ["    ".intercalate (markup.map unmarked)]

def panelLines (p : Panel) : List String := Panel.title :: p.parts.flatMap partLines

def gridLines (g : Inspector.Grid) : List String :=
  g.title.toList ++ (g.headers :: g.rows).map fun row => " | ".intercalate (row.map unmarked)

/-- the default of a question, in parentheses -/
def defaultText : Option Json → String
  | some v => " (" ++ v.text.toString ++ ")"
  | none => ""

def lines : Output → List String
  | .print s => [unmarked s]
  | .plain s => [s.toString]
  | .trouble f => [f.notice.toString]
  | .panel p => panelLines p
  | .grid g => gridLines g
  | .ask prompt default => [prompt ++ defaultText default ++ ": "]
  | .invalid _ => ["Please enter one of the answers asked for."]
  | .live frames => frames.flatMap panelLines

example : unmarked "[red]No[/red] [1] a[b" = "No [1] a[b" := by decide +kernel

end TapeMachine.Screen
