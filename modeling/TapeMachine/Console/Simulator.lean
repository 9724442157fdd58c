/-
The simulator program.

With a preset or a definition file it makes one run, live or straight to the end, shows the last snapshot and exits
with a code for what became of the machine; without either it offers the menu, with the first preset loaded. A
configuration that cannot be used, a definition that cannot be loaded and a preset that is not there are told before
anything runs.
-/
import TapeMachine.Console.Arguments
import TapeMachine.Console.Report

namespace TapeMachine.Simulator

def options : List Arguments.Known :=
  [⟨"config", .text⟩, ⟨"preset", .text⟩, ⟨"definition", .text⟩, ⟨"input", .text⟩, ⟨"max-steps", .whole⟩,
   ⟨"speed", .whole⟩, ⟨"live", .nothing⟩]

/-- the configuration file that is used when none is named and this one is there -/
def usualConfig : String := "config/runtime_config.json"

/-- what was given on the command line -/
abbrev Given := List (String × Arguments.Given)

def configuration (g : Given) (d : Disk) : Except ConfigFault Config :=
  match Arguments.last? g "config" with
  | some (.text path) => Config.load d path
  | some _ => .error (.noPath .list)
  | none => Config.loadOrDefault d (if d.exists? usualConfig then some usualConfig else none)

/-! ## One run -/

/-- the machine and the input that one run is for; a definition file comes before a preset, whose sample input stands
in for one that is not given -/
def selection (g : Given) (d : Disk) : Except ConsoleFault (Definition × Text) :=
  match Arguments.filled? g "definition" with
  | some path =>
    match Definition.load d path with
    | .ok m => .ok (m, Arguments.textOr g "input" "")
    | .error f => .error (.load f)
  | none =>
    let name := (Arguments.text? g "preset").getD ""
    match Preset.find? name with
    | some p => .ok (p.definition, Arguments.textOr g "input" p.input)
    | none => .error (.engine (.unknownPreset name))

/-- whether the user is told of a fault of the selection, and the program exits -/
def isTold : ConsoleFault → Bool
  | .load f => f.isTold
  | .engine _ => true
  | _ => false

/-- runs the machine, live or straight to the end -/
def drive (s : Shell) (g : Given) : Shell × List Output × Except Fault Unit :=
  if Arguments.isPresent g "live" then
    let (s, shown, result) := Live.runOrPause s
    (s, shown, result.map fun _ => ())
  else
    let o := Engine.runUntilHalt Engine.notify s.engine (Arguments.whole? g "max-steps")
    ({ s with engine := o.engine }, [], o.result.map fun _ => ())

/-- what is said of the machine in the end, and the exit code -/
def verdict (e : Engine) : Output × Int :=
  let q := e.snapshot
  match q.status with
  | .accepted => (.coloured "green" ("Accepted after " ++ toString q.steps ++ " steps. Output: " ++ e.output), 0)
  | .error =>
    let symbol := (q.cell?.map Text.quoted).getD "None"
    let place := "(" ++ q.state ++ ", " ++ symbol ++ ")"
    (.coloured "red" ("No transition for " ++ place ++ " after " ++ toString q.steps ++ " steps."), 2)
  | _ => (.coloured "yellow" ("Stopped without halting after " ++ toString q.steps ++ " steps."), 3)

/-- the shell for one run, at the speed that was given -/
def shell (c : Config) (g : Given) (h : Host) : Except Fault Shell :=
  match Shell.make c h, Arguments.whole? g "speed" with
  | .error f, _ => .error f
  | .ok s, none => .ok s
  | .ok s, some (.ok n) => .ok { s with speed := clampSpeed (.whole n) }
  | .ok _, some (.error got) => .error (.operand (.unordered .greater .whole got))

/-- one run of a machine on an input -/
def runOnce (s : Shell) (g : Given) (m : Definition) (input : Text) : Report :=
  match s.load m input with
  | (s, shown, .error f) => { shown, fault := some (.engine f), disk := s.engine.disk }
  | (s, shown, .ok false) => { exit := some 1, shown, disk := s.engine.disk }
  | (s, _, .ok true) =>
    match drive s g with
    | (s, shown, .error f) => { shown, fault := some (.engine f), disk := s.engine.disk }
    | (s, shown, .ok ()) =>
      let (closing, code) := verdict s.engine
      { exit := some code, shown := shown ++ [.panel s.panel, closing], disk := s.engine.disk }

/-- one run, with all that there is to show -/
def oneRun (c : Config) (g : Given) (h : Host) : Report :=
  match selection g h.disk with
  | .error f =>
    if isTold f then { exit := some 1, shown := [.trouble f], disk := h.disk }
    else { fault := some f, disk := h.disk }
  | .ok (m, input) =>
    match shell c g h with
    | .error f => { fault := some (.engine f), disk := h.disk }
    | .ok s => runOnce s g m input

def oneShot (c : Config) (g : Given) (h : Host) : Report := (oneRun c g h).on h.console

/-! ## The menu -/

/-- the menu, with the first preset loaded -/
def interactive (c : Config) (h : Host) : Progress :=
  match Shell.make c h with
  | .error f => .finished { fault := some (.engine f), disk := h.disk }
  | .ok s =>
    match s.load Preset.first.definition Preset.first.input with
    | (s, shown, .error f) => .finished { shown, fault := some (.engine f), disk := s.engine.disk }
    | (s, shown, .ok _) => .asking (.start true ⟨{ s with preset := some Preset.first.name }, shown, .back⟩ h.console)

/-! ## The program -/

/-- whether one run is asked for -/
def wantsOneRun (g : Given) : Bool :=
  (Arguments.filled? g "preset").isSome || (Arguments.filled? g "definition").isSome

def start (arguments : List String) (h : Host) : Progress :=
  match Arguments.read options arguments with
  | .help => .finished { exit := some 0, disk := h.disk }
  | .misuse => .finished { exit := some 2, disk := h.disk }
  | .run g =>
    match configuration g h.disk with
    | .error f =>
      -- what is told of a configuration has no text of its file in it, so that any console can show it
      if f.isTold then .finished { exit := some 1, shown := [.trouble (.config f)], disk := h.disk }
      else .finished { fault := some (.config f), disk := h.disk }
    | .ok c => if wantsOneRun g then .finished (oneShot c g h) else interactive c h

end TapeMachine.Simulator
