/-
What can go wrong in a console program.
-/
import TapeMachine.Config.File
import TapeMachine.Control.Fault

namespace TapeMachine

/-- why a console program ends early, or what it tells the user of and goes on -/
inductive ConsoleFault where
  | engine (fault : Fault)
  | load (fault : LoadFault)
  | config (fault : ConfigFault)
  | noMoreAnswers
  | nothingNamed
deriving DecidableEq, Repr

namespace ConsoleFault

def message : ConsoleFault → Text
  | .engine f => f.message
  | .load f => f.message
  | .config f => f.message
  | .noMoreAnswers => "no more answers"
  | .nothingNamed => "You must specify either --preset or --definition."

/-- the fault as the user is told of it -/
def notice : ConsoleFault → Text
  | .config f => f.notice
  | f => f.message

end ConsoleFault
end TapeMachine
