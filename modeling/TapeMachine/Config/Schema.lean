/-
Runtime settings.

A configuration binds keys to values. Nine keys are known, each with the kind of value it takes and a default; a
configuration is sound when all nine are there with their kinds and four bounds hold. Other keys are let through. A
truth value is never taken for a number.
-/
import TapeMachine.Json.Label

namespace TapeMachine

/-- settings by key -/
abbrev Config := Fields

structure Setting where
  key : String
  kind : Json.Kind
  default : Json

/-- the known settings, in the order in which they are checked -/
def settings : List Setting :=
  [⟨"tape_buffer", .whole, .ofInt 50⟩,
   ⟨"min_interval_ms", .whole, .ofInt 50⟩,
   ⟨"max_interval_ms", .whole, .ofInt 1000⟩,
   ⟨"default_speed", .whole, .ofInt 500⟩,
   ⟨"max_steps", .whole, .ofInt 100000⟩,
   ⟨"render_window", .whole, .ofInt 15⟩,
   ⟨"log_enabled", .bool, .bool true⟩,
   ⟨"output_directory", .string, .string "logs/"⟩,
   ⟨"log_file_prefix", .string, .string "turing_"⟩]

/-- why a configuration is refused -/
inductive SettingFault where
  | missing (key : String)
  | wrongKind (key : String) (expected got : Json.Kind)
  | emptyBuffer
  | negativeFloor
  | crossedBounds
  | noSteps
deriving DecidableEq, Repr

def SettingFault.message : SettingFault → String
  | .missing key => "Missing required configuration key: " ++ key
  | .wrongKind key expected got =>
    "Config key '" ++ key ++ "' expected <class '" ++ expected.name ++ "'>, got <class '" ++ got.name ++ "'>."
  | .emptyBuffer => "tape_buffer must be at least 1 cell."
  | .negativeFloor => "min_interval_ms cannot be negative."
  | .crossedBounds => "max_interval_ms must not be smaller than min_interval_ms."
  | .noSteps => "max_steps must be positive."

namespace Config

def defaults : Config := settings.map fun s => (s.key, s.default)

/-- no settings at all stand for the defaults -/
def orDefaults (c : Config) : Config := if c.isEmpty then defaults else c

/-- the whole number under a key; zero when there is none -/
def intAt (c : Config) (key : String) : Int :=
  match c.get? key with
  | some (.number (.whole n)) => n
  | _ => 0

/-- the text under a key; empty when there is none -/
def textAt (c : Config) (key : String) : Text :=
  match c.get? key with
  | some (.string s) => s
  | _ => ""

/-- whether a run log is wanted; it is unless the setting is there and holds an empty value -/
def logs (c : Config) : Bool := ((c.get? "log_enabled").map Json.isTruthy).getD true

/-- a setting that is there with its kind -/
def checkKind (c : Config) (s : Setting) : Except SettingFault Unit :=
  match c.get? s.key with
  | none => .error (.missing s.key)
  | some v => if v.kind = s.kind then .ok () else .error (.wrongKind s.key s.kind v.kind)

/-- the bounds that hold between the numbers -/
def checkBounds (c : Config) : Except SettingFault Unit :=
  if c.intAt "tape_buffer" < 1 then .error .emptyBuffer
  else if c.intAt "min_interval_ms" < 0 then .error .negativeFloor
  else if c.intAt "max_interval_ms" < c.intAt "min_interval_ms" then .error .crossedBounds
  else if c.intAt "max_steps" < 1 then .error .noSteps
  else .ok ()

/-- kinds in the order of the settings, then bounds -/
def validate (c : Config) : Except SettingFault Unit := do
  settings.forM c.checkKind
  c.checkBounds

end Config
end TapeMachine
