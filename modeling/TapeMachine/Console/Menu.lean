/-
The interactive menu.

The menu is a transition system: it waits with a question, takes an answer, shows what the answer brings, and waits
with the next question. Before each choice it shows the machine and the options. An answer that a question cannot take
is turned down and the question put again; an empty answer stands for the default, if there is one.
-/
import TapeMachine.Console.Live
import TapeMachine.Text.Numeral

namespace TapeMachine

/-- what the menu waits for -/
inductive Question where
  | choice
  | presetIndex
  | definitionPath
  /-- an input for a definition that was read from a path -/
  | inputFor (d : Definition) (path : String)
  | newInput
  | speed

namespace Question

/-- the question as it is put -/
def ask (s : Shell) : Question → Output
  | .choice => .ask "\nChoose an option" (some (.string "4"))
  | .presetIndex => .ask "\nChoose a preset by Index" (some (.ofInt 0))
  | .definitionPath => .ask "Definition JSON path" none
  | .inputFor _ _ => .ask "Tape input" (some (.string ""))
  | .newInput => .ask "Tape input" (some (.string s.engine.input))
  | .speed => .ask "Speed (0-950)" (some (.number s.speed))

end Question

/-- what comes after an answer -/
inductive Next where
  /-- back to the choice of an option -/
  | back
  | ask (q : Question)
  | leave
  | failed (f : ConsoleFault)

/-- a shell, what was shown on the way to it, and what comes next -/
structure Turn where
  shell : Shell
  shown : List Output
  next : Next

namespace Menu

/-! ## Options -/

def noDefinition (s : Shell) : Turn := ⟨s, [.coloured "red" "Load a definition first."], .back⟩

def presetGrid : Inspector.Grid where
  title := none
  headers := ["Index", "Preset", "Description"]
  justify := ["center", "left", "left"]
  rows := Preset.all.zipIdx.map fun p => [toString p.2, p.1.name, p.1.description]

def loadPreset (s : Shell) : Turn :=
  ⟨s, [.print "\n[bold]Available Presets[/bold]\n", .grid presetGrid], .ask .presetIndex⟩

def setInput (s : Shell) : Turn := if s.engine.definition.isNone then noDefinition s else ⟨s, [], .ask .newInput⟩

/-- an operation of the engine that shows nothing by itself -/
def operate (s : Shell) (op : Engine → Outcome Snapshot) : Turn :=
  let o := op s.engine
  let s := { s with engine := o.engine }
  match o.result with
  | .ok _ => ⟨s, [], .back⟩
  | .error f => ⟨s, [], .failed (.engine f)⟩

def step (s : Shell) : Turn :=
  if s.engine.definition.isNone then noDefinition s
  else if s.engine.snapshot.halted then
    ⟨s, [.coloured "yellow" "Machine has halted. Reset or restart to step again."], .back⟩
  else operate s (Engine.step Engine.notify)

/-- the notice that a live run starts -/
def runNotice (i : Seconds) : Output := .coloured "cyan" ("Running every " ++ i.millisText ++ " ms...")

/-- a live run; an interrupt only pauses it -/
def run (s : Shell) : Turn :=
  if s.engine.definition.isNone then noDefinition s
  else if s.engine.snapshot.halted then
    ⟨s, [.coloured "yellow" "Machine has halted. Reset or restart to run again."], .back⟩
  else
    match s.interval with
    | .error f => ⟨s, [], .failed (.engine f)⟩
    | .ok i =>
      match Live.runOrPause s with
      | (s, shown, .ok false) => ⟨s, runNotice i :: shown, .back⟩
      | (s, shown, .ok true) => ⟨s, runNotice i :: shown ++ [.coloured "yellow" "Paused."], .back⟩
      | (s, shown, .error f) => ⟨s, runNotice i :: shown, .failed (.engine f)⟩

def inspect (s : Shell) : Turn :=
  ⟨s, (s.engine.definition.toList.map fun d => Output.definition d false).flatten, .back⟩

/-- the option of a choice; none when there is no such option -/
def option? (s : Shell) : String → Option Turn
  | "0" => some ⟨s, [.coloured "bold green" "Goodbye!"], .leave⟩
  | "1" => some (loadPreset s)
  | "2" => some ⟨s, [], .ask .definitionPath⟩
  | "3" => some (setInput s)
  | "4" => some (step s)
  | "5" => some (run s)
  | "6" => some (operate s (Engine.reset Engine.notify))
  | "7" => some (operate s (Engine.restart Engine.notify))
  | "8" => some (inspect s)
  | "9" => some ⟨s, [], .ask .speed⟩
  | _ => none

/-! ## Answers -/

/-- loads a definition, and goes on only if it is taken -/
def loading (s : Shell) (d : Definition) (input : Text) (taken : Shell → Shell × List Output) : Turn :=
  match s.load d input with
  | (s, shown, .ok true) =>
    let (s, more) := taken s
    ⟨s, shown ++ more, .back⟩
  | (s, shown, .ok false) => ⟨s, shown, .back⟩
  | (s, shown, .error f) => ⟨s, shown, .failed (.engine f)⟩

def choosePreset (s : Shell) (index : Int) : Turn :=
  match if 0 ≤ index then Preset.all[index.toNat]? else none with
  | none => ⟨s, [.coloured "red" "Invalid choice."], .back⟩
  | some p =>
    loading s p.definition p.input fun s =>
      ({ s with preset := some p.name }, [.coloured "green" ("Loaded preset " ++ p.name ++ ".")])

/-- reads a definition; a file that is not there or holds none is told, any other trouble ends the menu -/
def readDefinition (s : Shell) (path : String) : Turn :=
  match Definition.load s.engine.disk path with
  | .ok d => ⟨s, [], .ask (.inputFor d path)⟩
  | .error f =>
    if f.isTold then ⟨{ s with error := some f.message }, [.trouble (.load f)], .back⟩
    else ⟨s, [], .failed (.load f)⟩

def loadFile (s : Shell) (d : Definition) (path : String) (input : Text) : Turn :=
  loading s d input fun s =>
    ({ s with preset := none }, [.coloured "green" ("Loaded definition from " ++ path ++ ".")])

def changeInput (s : Shell) (input : Text) : Turn :=
  match s.engine.definition with
  | some d => loading s d input fun s => (s, [])
  | none => noDefinition s

def setSpeed (s : Shell) (speed : Number) : Turn :=
  let s := { s with speed := clampSpeed speed }
  match s.interval with
  | .ok i => ⟨s, [.coloured "green" ("Step interval is now " ++ i.millisText ++ " ms.")], .back⟩
  | .error f => ⟨s, [], .failed (.engine f)⟩

/-- an answer without the blanks around it; none for an empty one, which stands for the default -/
def typed? (answer : String) : Option String := if answer = "" then none else some (Text.trim answer)

/-- a number answer: the default for an empty one, and none when the answer is no whole number -/
def numberAnswer? (default : Number) (answer : String) : Option Number :=
  match typed? answer with
  | some s => (Text.integer? s).map Number.whole
  | none => some default

/-- what an answer brings; none when the question cannot take it -/
def answer? (s : Shell) (answer : String) : Question → Option Turn
  | .choice => option? s ((typed? answer).getD "4")
  | .presetIndex => (numberAnswer? (.whole 0) answer).map fun n =>
      match n with
      | .whole i => choosePreset s i
      | .real _ => choosePreset s (-1)
  | .definitionPath => some (readDefinition s ((typed? answer).getD ""))
  | .inputFor d path => some (loadFile s d path ((typed? answer).getD ""))
  | .newInput => some (changeInput s (((typed? answer).map Text.ofString).getD s.engine.input))
  | .speed => (numberAnswer? s.speed answer).map (setSpeed s)

/-- the options -/
def options : List Output :=
  [.print "\n[bold cyan]Turing Machine Simulator[/bold cyan]", .print "[1] Load Preset",
   .print "[2] Load Definition File", .print "[3] Set Tape Input", .print "[4] Step",
   .print "[5] Run (Ctrl+C to pause)", .print "[6] Reset (clear tape)", .print "[7] Restart (original input)",
   .print "[8] Inspect Definition", .print "[9] Set Speed", .print "[0] Exit"]

end Menu

/-! ## Dialogues -/

/-- a dialogue with the user: what has been shown and what it waits for; nothing once it is over -/
structure Dialogue where
  shell : Shell
  shown : List Output
  waiting : Option Question
  fault : Option ConsoleFault := none
  /-- whether the dialogue goes on with the choice of an option once an option is done -/
  menu : Bool
  console : Console := {}
  /-- the output that the console could not show, which has ended the dialogue -/
  unshown : Option Output := none

namespace Dialogue

/-- shows what there is to show, and is over at the first output that the console cannot show -/
def display (d : Dialogue) : Dialogue :=
  match d.shown.find? fun o => !d.console.shows o with
  | none => d
  | some o =>
    { d with shown := d.shown.takeWhile d.console.shows, waiting := none, fault := none, unshown := some o }

/-- takes a turn up, with all that there is to show -/
def take (d : Dialogue) (t : Turn) : Dialogue :=
  let d := { d with shell := t.shell, shown := d.shown ++ t.shown, waiting := none }
  match t.next with
  | .back =>
    if d.menu then
      { d with
        shown := d.shown ++ .panel t.shell.panel :: Menu.options ++ [Question.choice.ask t.shell]
        waiting := some .choice }
    else d
  | .ask q => { d with shown := d.shown ++ [q.ask t.shell], waiting := some q }
  | .leave => d
  | .failed f => { d with fault := some f }

/-- takes a turn up -/
def follow (d : Dialogue) (t : Turn) : Dialogue := (d.take t).display

/-- a dialogue that starts with a turn -/
def start (menu : Bool) (t : Turn) (console : Console := {}) : Dialogue :=
  follow { shell := t.shell, shown := [], waiting := none, menu, console } t

/-- takes an answer; once the dialogue is over nothing changes -/
def answer (d : Dialogue) (a : String) : Dialogue :=
  match d.waiting with
  | none => d
  | some q =>
    match Menu.answer? d.shell a q with
    | some t => d.follow t
    | none => display { d with shown := d.shown ++ [.invalid a, q.ask d.shell] }

/-- takes answers in turn -/
def run (d : Dialogue) (answers : List String) : Dialogue := answers.foldl answer d

/-- the fault that a dialogue ends with when there are no answers left -/
def ending (d : Dialogue) : Option ConsoleFault :=
  match d.fault with
  | some f => some f
  | none => if d.waiting.isSome then some .noMoreAnswers else none

end Dialogue
end TapeMachine
