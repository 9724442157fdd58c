/-
What can go wrong while a machine is driven.
-/
import TapeMachine.Config.Operand
import TapeMachine.Control.Ticker
import TapeMachine.Machine.Preset
import TapeMachine.Storage.Disk

namespace TapeMachine

/-- why an operation ends early -/
inductive Fault where
  | definition (fault : DefinitionFault)
  | unknownPreset (name : String)
  | operand (fault : OperandFault)
  /-- no cell to write at this position -/
  | noCell (head : Int)
  | ticker (fault : TickerFault)
  | notSubscribed
  | listenerFailed (name : String)
  | journalRefused (event : String)
  | disk (fault : DiskFault)
  /-- an interrupt from outside, which no repetition catches -/
  | interrupted
deriving DecidableEq, Repr

def Fault.message : Fault → Text
  | .definition f => f.message
  | .unknownPreset name => Preset.unknownMessage name
  | .operand f => f.message
  | .noCell head =>
    if isPosition head then "list assignment index out of range" else OperandFault.positionTooLarge.message
  | .ticker f => f.message
  | .notSubscribed => "list.remove(x): x not in list"
  | .listenerFailed name => "listener " ++ name ++ " failed"
  | .journalRefused event => "logger failed on " ++ event
  | .disk f => f.message
  | .interrupted => ""

end TapeMachine
