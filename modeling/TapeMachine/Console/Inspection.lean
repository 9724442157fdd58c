/-
The inspection program: it shows the table of a definition, and as LaTeX too if that is wanted.
-/
import TapeMachine.Console.Arguments
import TapeMachine.Console.Report

namespace TapeMachine.Inspection

def options : List Arguments.Known := [⟨"preset", .text⟩, ⟨"definition", .text⟩, ⟨"latex", .nothing⟩]

/-- the definition to show; a definition file comes before a preset -/
def selection (g : List (String × Arguments.Given)) (d : Disk) : Except ConsoleFault Definition :=
  match Arguments.filled? g "definition", Arguments.filled? g "preset" with
  | some path, _ => (Definition.load d path).mapError .load
  | none, some name =>
    match Preset.find? name with
    | some p => .ok p.definition
    | none => .error (.engine (.unknownPreset name))
  | none, none => .error .nothingNamed

def start (arguments : List String) (d : Disk) : Report :=
  match Arguments.read options arguments with
  | .help => { exit := some 0, disk := d }
  | .misuse => { exit := some 2, disk := d }
  | .run g =>
    match selection g d with
    | .error f => { fault := some f, disk := d }
    | .ok m => { shown := Output.definition m (Arguments.isPresent g "latex"), disk := d }

end TapeMachine.Inspection
