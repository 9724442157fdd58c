/-
What becomes of a console program.
-/
import TapeMachine.Console.Menu

namespace TapeMachine

/-- what a program has shown and left on the disk, and what ends it: an exit code, a fault, an output that the console
cannot show, or nothing of these -/
structure Report where
  exit : Option Int := none
  shown : List Output := []
  fault : Option ConsoleFault := none
  unshown : Option Output := none
  disk : Disk

namespace Report

/-- a program that has done its work ends at the first output that the console cannot show -/
def on (r : Report) (c : Console) : Report :=
  match r.shown.find? fun o => !c.shows o with
  | none => r
  | some o => { shown := r.shown.takeWhile c.shows, unshown := some o, disk := r.disk }

def ofDialogue (d : Dialogue) : Report where
  shown := d.shown
  fault := d.ending
  unshown := d.unshown
  disk := d.shell.engine.disk

end Report

inductive Progress where
  | finished (r : Report)
  | asking (d : Dialogue)

def Progress.report (answers : List String) : Progress → Report
  | .finished r => r
  | .asking d => .ofDialogue (d.run answers)

end TapeMachine
