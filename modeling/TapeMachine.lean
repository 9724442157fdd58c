import TapeMachine.Text.Numeral
import TapeMachine.Machine.Textbook
import TapeMachine.Config.File
import TapeMachine.Control.Callback
import TapeMachine.Control.Evaluation
import TapeMachine.View.Panel
import TapeMachine.View.Inspector
import TapeMachine.Console.Menu
import TapeMachine.Console.Inspection
import TapeMachine.Console.Simulator
import TapeMachine.Main
import TapeMachine.Proofs.HaltingTime
import TapeMachine.Proofs.Simulation
import TapeMachine.Proofs.RunLog
import TapeMachine.Proofs.Trajectory
import TapeMachine.Proofs.Coupling
import TapeMachine.Proofs.Evaluation
import TapeMachine.Proofs.Written
import TapeMachine.Proofs.Increment
import TapeMachine.Proofs.Course
import TapeMachine.Proofs.Driving
import TapeMachine.Proofs.Safety
import TapeMachine.Proofs.LogCalls
import TapeMachine.Proofs.Verdicts
import TapeMachine.Proofs.Settings
import TapeMachine.Proofs.Addition
import TapeMachine.Proofs.ControlGraph
import TapeMachine.Proofs.Stranded
import TapeMachine.Proofs.LiveRun
import TapeMachine.Proofs.OneShot
import TapeMachine.Proofs.Upkeep
import TapeMachine.Proofs.BrokenOff
import TapeMachine.Proofs.Repetition
import TapeMachine.Proofs.Grammatical
import TapeMachine.Proofs.OneLine
import TapeMachine.Proofs.Directory
import TapeMachine.Proofs.Filing
import TapeMachine.Proofs.LastRule
import TapeMachine.Proofs.NormalForm
import TapeMachine.Proofs.InterruptedRun
import TapeMachine.Proofs.Loading
import TapeMachine.Proofs.MenuSession
import TapeMachine.Proofs.Laps
import TapeMachine.Proofs.LoadBudget
import TapeMachine.Proofs.LiveFrames
import TapeMachine.Proofs.ReadLimits
import TapeMachine.Proofs.ReadShown
import TapeMachine.Proofs.DefinitionFiles
import TapeMachine.Proofs.ConfigStore
import TapeMachine.Proofs.ConfigFiles
import TapeMachine.Proofs.TapeLayout
import TapeMachine.Proofs.ActionTable
import TapeMachine.Proofs.LatexTable
import TapeMachine.Proofs.SavedConfigs
import TapeMachine.Proofs.Subscriptions
import TapeMachine.Proofs.Pacing
