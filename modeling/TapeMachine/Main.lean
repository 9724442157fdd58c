/-
The command line.

The programs themselves are pure. This module brings them the files that they name, prints what they show, reads the
answers that they wait for, and writes what they have logged. With `inspect` as its first argument the command is the
inspection program, and else the simulator.
-/
import Std.Time.DateTime
import TapeMachine.Console.Inspection
import TapeMachine.Console.Screen
import TapeMachine.Console.Simulator

namespace TapeMachine.CommandLine

/-- the present moment -/
def now : IO Clock := do
  let t ← Std.Time.Timestamp.now
  let nanos := t.toNanosecondsSinceUnixEpoch.val.toNat
  return Clock.ofEpoch (nanos / 1000000000) (nanos / 1000 % 1000000)

/-- a disk with the file at a path, if there is one -/
def bring (d : Disk) (path : String) : IO Disk := do
  try
    let bytes ← IO.FS.readBinFile path
    return d.add path (Contents.ofBytes bytes)
  catch _ => return d

/-- the files that a command line may name -/
def named (options : List Arguments.Known) (arguments : List String) : List String :=
  match Arguments.read options arguments with
  | .run g => Simulator.usualConfig :: ["config", "definition"].filterMap (Arguments.text? g)
  | _ => []

/-- the real path of a route -/
def realPath (r : Route) : String :=
  let path := if r.head? = some Path.slash then Path.slash ++ Text.intercalate "/" r.tail else Text.intercalate "/" r
  toString (Path.join "." path)

/-- adds the files that were not there before to the real ones -/
def writeNew (before after : Disk) : IO Unit := do
  for f in after.files do
    match before.file? f.1, f.2 with
    | none, .text s =>
      IO.FS.createDirAll (realPath f.1.dropLast)
      let handle ← IO.FS.Handle.mk (realPath f.1) .append
      handle.putStr s
    | _, _ => pure ()

def display (shown : List Output) : IO Unit := do
  for o in shown do
    for l in Screen.lines o do
      IO.println l

/-- tells how a program has ended, and gives its exit code -/
def conclude (before : Disk) (r : Report) : IO UInt32 := do
  writeNew before r.disk
  match r.fault with
  | some f =>
    IO.eprintln f.message
    return 1
  | none => return ((r.exit.getD 0).toNat.toUInt32)

/-- a dialogue whose shell has the file of an answer on its disk, if the answer names one -/
def prepare (d : Dialogue) (answer : String) : IO Dialogue := do
  let clock ← now
  let engine := { d.shell.engine with clock }
  let disk ← match d.waiting with
    | some .definitionPath => bring engine.disk (Text.trim answer)
    | _ => pure engine.disk
  return { d with shell := { d.shell with engine := { engine with disk } } }

/-- asks until the dialogue is over; `told` outputs have been displayed -/
partial def converse (input : IO.FS.Stream) (told : Nat) (d : Dialogue) : IO Report := do
  display (d.shown.drop told)
  if d.waiting.isNone then return .ofDialogue d
  let line ← input.getLine
  if line.isEmpty then return .ofDialogue d
  let answer := if line.endsWith "\n" then (line.dropEnd 1).toString else line
  converse input d.shown.length ((← prepare d answer).answer answer)

def usage (options : List Arguments.Known) : String :=
  "options: " ++ " ".intercalate ((Arguments.help :: options).map fun o => "--" ++ o.name)

/-- tells the options when a command line asks for them, or cannot be followed -/
def advise (options : List Arguments.Known) (arguments : List String) : IO Unit :=
  match Arguments.read options arguments with
  | .help => IO.println (usage options)
  | .misuse => IO.eprintln (usage options)
  | .run _ => pure ()

/-- ticks of a live run after which the machine is paused -/
def patience : Nat := 100000

def simulate (arguments : List String) : IO UInt32 := do
  advise Simulator.options arguments
  let disk ← (named Simulator.options arguments).foldlM bring {}
  match Simulator.start arguments { disk, clock := ← now, patience } with
  | .finished r =>
    display r.shown
    conclude disk r
  | .asking d => conclude disk (← converse (← IO.getStdin) 0 d)

def inspect (arguments : List String) : IO UInt32 := do
  advise Inspection.options arguments
  let disk ← (named Inspection.options arguments).foldlM bring {}
  let r := Inspection.start arguments disk
  display r.shown
  conclude disk r

end TapeMachine.CommandLine

def main (arguments : List String) : IO UInt32 :=
  match arguments with
  | "inspect" :: rest => TapeMachine.CommandLine.inspect rest
  | _ => TapeMachine.CommandLine.simulate arguments
