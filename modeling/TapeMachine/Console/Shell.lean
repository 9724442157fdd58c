/-
The state behind the console: an engine, the settings, the speed, the preset loaded last and the message of the last
failed load.
-/
import TapeMachine.Console.Output
import TapeMachine.Control.Engine

namespace TapeMachine

/-- what a console program finds around it -/
structure Host where
  disk : Disk
  clock : Clock
  /-- for each live run to come, the update of the display at which it is interrupted, if it is -/
  interrupts : List (Option Nat) := []
  /-- the ticks after which a live run that goes on is left alone -/
  patience : Nat
  /-- cells that there is room for on either side of an input -/
  room : Option Nat := some Padding.usualRoom
  console : Console := {}

structure Shell where
  config : Config
  engine : Engine
  speed : Number
  preset : Option String := none
  error : Option Text := none
  /-- as for the host -/
  interrupts : List (Option Nat) := []
  patience : Nat

namespace Shell

/-- the run log that the settings ask for, if they ask for one, and the disk with its directory -/
def makeJournal (c : Config) (h : Host) : Except DiskFault (Option Journal × Disk) :=
  if !c.logs then .ok (none, h.disk)
  else
    (Journal.start (c.textAt "output_directory") (c.textAt "log_file_prefix") h.clock h.disk).map fun p =>
      (some p.1, p.2)

/-- an engine with the run log that the settings ask for -/
def makeEngine (c : Config) (h : Host) : Except Fault Engine := do
  let (journal, disk) ← (makeJournal c h).mapError .disk
  let e ← (Engine.make c true disk h.clock).mapError .operand
  return { e with journal, room := h.room }

def make (c : Config) (h : Host) : Except Fault Shell := do
  let engine ← makeEngine c h
  return {
    config := c
    engine
    speed := .whole (c.intAt "default_speed")
    interrupts := h.interrupts
    patience := h.patience }

/-- cells shown on either side of the head -/
def window (s : Shell) : Int := s.config.intAt "render_window"

/-- the time between steps at the present speed -/
def interval (s : Shell) : Except Fault Seconds := (s.config.interval (.number s.speed)).mapError .operand

/-- the panel of a snapshot of the engine -/
def panelOf (s : Shell) (q : Snapshot) (message : Option Text) : Panel :=
  Panel.ofSnapshot q s.engine.definition s.engine.input s.window message

/-- the panel of the current snapshot, with the message of the last failed load -/
def panel (s : Shell) : Panel := s.panelOf s.engine.snapshot s.error

/-- loads a definition; one that is refused leaves the machine as it was and its message with the shell. The truth
value tells whether the definition was taken -/
def load (s : Shell) (d : Definition) (input : Text) : Shell × List Output × Except Fault Bool :=
  let o := Engine.loadDefinition Engine.notify s.engine d input
  let s := { s with engine := o.engine }
  match o.result with
  | .ok _ => ({ s with error := none }, [], .ok true)
  | .error (.definition f) =>
    ({ s with error := some f.message }, [.trouble (.engine (.definition f))], .ok false)
  | .error f => (s, [], .error f)

end Shell
end TapeMachine
