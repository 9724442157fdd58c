/-
The engine that drives one machine.

An engine holds a definition with its table, the input it was loaded with, the current snapshot, a timer, a run log
and a list of subscribed listeners. Every change of the snapshot is a `commit`: it stops the timer unless the machine
runs on, records a halt, and hands the snapshot to the listeners subscribed at that moment, in order. A listener may
call the engine again, or fail, in the middle of the operation that it was called from; an operation that ends in a
fault keeps what it had changed.

Listeners are data. Each has a script of reactions; when it is given a snapshot that its next reaction is for, that
reaction is used up and its commands are performed. The operations take the way in which snapshots are handed on as a
parameter, `notify`. `notifyAt n` hands them on with room for `n` reactions inside one another, and since every one of
these uses up a reaction, the number of reactions left is room enough (`Engine.notify`).
-/
import TapeMachine.Config.Padding
import TapeMachine.Config.Speed
import TapeMachine.Control.Event
import TapeMachine.Control.Fault
import TapeMachine.Machine.Advance

namespace TapeMachine

/-! ## State -/

/-- a cap on steps; a value of a kind that has no order with numbers is none, but that shows only when a number of
steps is compared with it -/
abbrev Cap := Except Json.Kind Int

/-- the cap that a value stands for: the least whole number of steps that is not below it -/
def Cap.ofJson (v : Json) : Cap :=
  match v.number? with
  | some n => .ok n.ceiling
  | none => .error v.kind

/-- where a definition to load comes from -/
inductive Source where
  | definition (d : Definition)
  | preset (name : String)
  /-- an object, given where there is room for values `room` levels inside those that name something -/
  | data (fields : Fields) (room : Nat := Json.mostDepth)

/-- what can be asked of an engine -/
inductive Command where
  | load (source : Source) (input : Option Text)
  | step
  | run (interval : Seconds)
  /-- as `run`, with an interval that a value gives -/
  | runFor (interval : Json)
  | pause
  | reset
  | restart
  | runUntilHalt (cap : Option Cap)
  | subscribe (name : String)
  | unsubscribe (name : String)
  | fire
  | fail
  | interrupt

/-- what a listener does, once, when it is given a snapshot with these steps and this status -/
structure Reaction where
  steps : Option Int := none
  status : Option Status := none
  commands : List Command := []

def Reaction.isFor (r : Reaction) (q : Snapshot) : Bool :=
  (r.steps.all fun n => n == q.steps) && r.status.all fun s => s == q.status

structure Engine where
  /-- blank cells on either side of a fresh input -/
  padding : Padding
  /-- the least interval between steps -/
  least : Seconds
  /-- the cap on steps when none is given -/
  cap : Option Cap
  /-- cells that there is room for on either side of an input -/
  room : Option Nat := none
  definition : Option Definition := none
  table : Table := []
  input : Text := ""
  snapshot : Snapshot := {}
  ticker : Ticker Unit
  /-- the names of the listeners subscribed, in order; a name may come more than once -/
  subscribers : List String := []
  /-- what each listener has still to do -/
  scripts : List (String × List Reaction) := []
  journal : Option Journal := none
  /-- the events that the journal refuses to take -/
  refused : List String := []
  disk : Disk := {}
  clock : Clock
  /-- whether a trace is kept -/
  tracing : Bool := false
  /-- what has happened, the latest first -/
  trace : List Note := []

/-- what an operation leaves behind: the engine, and the value that it returns or the fault that ends it -/
structure Outcome (α : Type) where
  engine : Engine
  result : Except Fault α

namespace Outcome

variable {α β : Type}

/-- goes on with the value, unless there is a fault -/
def andThen (o : Outcome α) (f : Engine → α → Outcome β) : Outcome β :=
  match o.result with
  | .ok a => f o.engine a
  | .error x => ⟨o.engine, .error x⟩

def map (f : α → β) (o : Outcome α) : Outcome β := ⟨o.engine, o.result.map f⟩

end Outcome

namespace Engine

def done {α : Type} (e : Engine) (a : α) : Outcome α := ⟨e, .ok a⟩

def fault {α : Type} (e : Engine) (f : Fault) : Outcome α := ⟨e, .error f⟩

/-- an engine with the settings that it needs; the cap on steps is needed only later, and so is room -/
def make (c : Config) (loop : Bool) (disk : Disk) (clock : Clock) : Except OperandFault Engine := do
  let padding ← c.orDefaults.value "tape_buffer"
  let least ← c.orDefaults.value "min_interval_ms"
  let least ← least.asMillis
  return {
    padding := .ofJson padding
    least
    cap := (c.orDefaults.get? "max_steps").map Cap.ofJson
    ticker := { loop }
    disk
    clock }

/-- the timer ticks -/
def isRunning (e : Engine) : Bool := e.ticker.active

/-- the written part of the tape; empty while no definition is loaded -/
def output (e : Engine) : Text :=
  match e.definition with
  | some d => e.snapshot.output (some d.blank)
  | none => ""

def note (e : Engine) (n : Note) : Engine := if e.tracing then { e with trace := n :: e.trace } else e

def stopTicker (e : Engine) : Engine := { e with ticker := e.ticker.cancel }

/-! ## The run log -/

/-- writes to the journal, if there is one, and notes what was written -/
def writeLog (e : Engine) (write : Journal → Journal × Except DiskFault Disk) (n : Note) : Outcome Unit :=
  match e.journal with
  | none => e.done ()
  | some j =>
    match write j with
    | (j, .ok disk) => ({ e with journal := some j, disk }.note n).done ()
    | (j, .error f) => { e with journal := some j }.fault (.disk f)

def logEvent (e : Engine) (ev : Event) : Outcome Unit :=
  if e.journal.isSome ∧ ev.name ∈ e.refused then e.fault (.journalRefused ev.name)
  else e.writeLog (fun j => j.log e.clock ev.entry e.disk) (.event ev)

def logRun (e : Engine) (r : HaltedRun) : Outcome Unit :=
  e.writeLog (fun j => j.logRuns e.clock r.verdict [r.entry] e.disk) (.halted r)

/-- the run that has led to a halted snapshot -/
def haltedRun (e : Engine) (d : Definition) (q : Snapshot) : HaltedRun where
  verdict := if q.status = .accepted then .accepted else .rejected
  definition := d
  input := e.input
  output := q.output (some d.blank)
  state := q.state
  steps := q.steps

/-- records that the machine has halted -/
def logHalt (e : Engine) (q : Snapshot) : Outcome Unit :=
  (e.logEvent (.halt q.status q.state q.steps)).andThen fun e _ =>
    match e.definition with
    | some d => e.logRun (e.haltedRun d q)
    | none => e.done ()

/-- makes a snapshot the current one, up to the point where it is handed on -/
def place (e : Engine) (q : Snapshot) : Outcome Unit :=
  let before := e.snapshot
  let e := { e with snapshot := q }.note (.commit before q e.subscribers)
  let e := if q.status = .running then e else e.stopTicker
  if q.halted && !before.halted then e.logHalt q else e.done ()

/-! ## Operations, for a given way to hand snapshots on -/

section
variable (notify : Engine → Snapshot → Outcome Unit)

/-- makes a snapshot the current one -/
def commit (e : Engine) (q : Snapshot) : Outcome Snapshot :=
  (e.place q).andThen fun e _ => (notify e q).map fun _ => q

/-- gives a machine that does not tick a definition with its table, and an input -/
def equip (e : Engine) (d : Definition) (input : Text) : Engine :=
  { e.stopTicker with definition := some d, input, table := d.table }

/-- loads a definition that can start, with a fresh tape -/
def loadDefinition (e : Engine) (d : Definition) (input : Text) : Outcome Snapshot :=
  match d.validate with
  | .error f => e.fault (.definition f)
  | .ok () =>
    let e := e.equip d input
    match e.padding.count e.room with
    | .error f => e.fault (.operand f)
    | .ok n =>
      (e.logEvent (.loaded input d.initial d.table.length)).andThen fun e _ =>
        commit notify e { Snapshot.fresh d input n with truthHead := e.padding.isTruth }

/-- the definition that a source stands for -/
def resolve : Source → Except Fault Definition
  | .definition d => .ok d
  | .preset name =>
    match Preset.find? name with
    | some p => .ok p.definition
    | none => .error (.unknownPreset name)
  | .data fs room => (Definition.ofFields fs room).mapError .definition

def load (e : Engine) (source : Source) (input : Text) : Outcome Snapshot :=
  match resolve source with
  | .ok d => loadDefinition notify e d input
  | .error f => e.fault f

/-- commits the next snapshot; without a definition it is the same one again -/
def advanceOnce (e : Engine) : Outcome Snapshot :=
  match e.definition with
  | none => commit notify e e.snapshot
  | some d =>
    match advance d e.table e.snapshot with
    | some q => commit notify e q
    | none => e.fault (.noCell e.snapshot.head)

/-- one step by hand, which a running or halted machine does not take -/
def step (e : Engine) : Outcome Snapshot :=
  if e.snapshot.status.manual then advanceOnce notify e else e.done e.snapshot

/-- one step by the timer -/
def tick (e : Engine) : Outcome Unit :=
  if e.snapshot.status = .running then (advanceOnce notify e).map fun _ => () else e.stopTicker.done ()

/-- steps at an interval, and never faster than the least one, until the machine is paused or halts -/
def run (e : Engine) (interval : Seconds) : Outcome Snapshot :=
  let e := e.stopTicker
  if e.definition.isNone || e.snapshot.halted then (e.note (.runCalled false)).done e.snapshot
  else
    let interval := interval.max e.least
    match e.ticker.start interval () with
    | (t, .error f) => ({ e with ticker := t }.note (.runCalled false)).fault (.ticker f)
    | (t, .ok ()) =>
      let e := { e with ticker := t }.note (.runCalled true)
      (e.logEvent (.run interval e.snapshot.steps)).andThen fun e _ =>
        if e.snapshot.status = .running then e.done e.snapshot
        else commit notify e { e.snapshot with status := .running }

/-- steps at the interval that a value gives; a value that is no number cannot be compared with the least interval -/
def runFor (e : Engine) (interval : Json) : Outcome Snapshot :=
  match interval.number? with
  | some n => run notify e (.given n)
  | none =>
    let e := e.stopTicker.note .runMistyped
    if e.definition.isNone || e.snapshot.halted then e.done e.snapshot
    else e.fault (.operand (.unordered .greater .real interval.kind))

def pause (e : Engine) : Outcome Snapshot :=
  if e.snapshot.status = .running then
    (e.stopTicker.logEvent (.pause e.snapshot.steps)).andThen fun e _ =>
      commit notify e { e.snapshot with status := .paused }
  else e.done e.snapshot

/-- loads the same definition with an empty input -/
def reset (e : Engine) : Outcome Snapshot :=
  let e := e.stopTicker
  match e.definition with
  | none => e.done e.snapshot
  | some d => (e.logEvent .reset).andThen fun e _ => loadDefinition notify e d ""

/-- loads the same definition with the same input -/
def restart (e : Engine) : Outcome Snapshot :=
  let e := e.stopTicker
  match e.definition with
  | none => e.done e.snapshot
  | some d => loadDefinition notify e d e.input

/-- steps by hand are not done yet: the machine has not halted, and fewer than `cap` transitions lie behind it since
the count was `start` -/
def wantsMore (e : Engine) (start cap : Int) : Bool := !e.snapshot.halted && decide (e.snapshot.steps - start < cap)

/-- a step by hand can change the snapshot -/
def canMove (e : Engine) : Bool := e.snapshot.status.manual && e.definition.isSome

/-- steps by hand while they are wanted and possible, `fuel` of them at the most -/
def stepWhile (start cap : Int) : Nat → Engine → Outcome Snapshot
  | 0, e => e.done e.snapshot
  | fuel + 1, e =>
    if e.wantsMore start cap then
      let moves := e.canMove
      match step notify e with
      | ⟨e, .error f⟩ => e.fault f
      | ⟨e, .ok _⟩ => if moves then stepWhile start cap fuel e else e.done e.snapshot
    else e.done e.snapshot

/-- the sum of some numbers -/
def total (ns : List Nat) : Nat := ns.foldr (· + ·) 0

/-- the commands that listeners have still to perform -/
def commandsLeft (e : Engine) : Nat := total (e.scripts.map fun s => total (s.2.map fun r => r.commands.length))

/-- more steps than can be wanted: at most `cap` beyond the present count, and as many again after every load that a
listener may still cause -/
def stepBound (e : Engine) (cap : Int) : Nat := ((e.snapshot.steps + cap).toNat + 1) * (e.commandsLeft + 1)

/-- pauses, then steps by hand until the machine halts or has made `cap` transitions -/
def runUntilHalt (e : Engine) (cap : Option Cap) : Outcome Snapshot :=
  match cap.or e.cap with
  | none => e.fault (.operand (.missing "max_steps"))
  | some cap =>
    (pause notify e).andThen fun e _ =>
      match cap with
      | .ok cap => stepWhile notify e.snapshot.steps cap (e.stepBound cap) e
      | .error got =>
        if e.snapshot.halted then e.done e.snapshot else e.fault (.operand (.unordered .less .whole got))

/-- an operation `n` times in a row, up to the first fault; with what it returned last, which is `last` if it never
does -/
def times (op : Engine → Outcome Snapshot) (last : Option Snapshot) : Nat → Engine → Option Snapshot × Outcome Unit
  | 0, e => (last, e.done ())
  | n + 1, e =>
    let o := op e
    match o.result with
    | .ok q => times op (some q) n o.engine
    | .error f => (last, o.engine.fault f)

/-- runs the oldest pending tick; a fault in it ends the repetition. The truth value tells whether there was one -/
def fire (e : Engine) : Outcome Bool :=
  match e.ticker.due with
  | none => e.done false
  | some t =>
    let o := tick notify { e with ticker := t }
    match o.result with
    | .ok () => o.engine.done true
    | .error .interrupted => (o.engine.note .tickFailed).fault .interrupted
    | .error f => (o.engine.stopTicker.note .tickFailed).fault f

/-- runs up to `n` ticks, stopping when none is pending and after a fault; with the number of ticks run -/
def fireUpTo : Nat → Engine → Nat × Outcome Unit
  | 0, e => (0, e.done ())
  | n + 1, e =>
    let o := fire notify e
    match o.result with
    | .error f => (1, o.engine.fault f)
    | .ok false => (0, o.engine.done ())
    | .ok true =>
      let (k, o) := fireUpTo n o.engine
      (k + 1, o)

end

def subscribe (e : Engine) (name : String) : Engine := { e with subscribers := e.subscribers ++ [name] }

/-- takes one subscription of a listener back, the oldest one -/
def unsubscribe (e : Engine) (name : String) : Outcome Unit :=
  if name ∈ e.subscribers then { e with subscribers := e.subscribers.erase name }.done () else e.fault .notSubscribed

/-- gives a listener its script, unless it has one already -/
def enroll (e : Engine) (name : String) (script : List Reaction) : Engine :=
  if (e.scripts.lookup name).isSome then e else { e with scripts := e.scripts ++ [(name, script)] }

/-! ## Listeners -/

section
variable (notify : Engine → Snapshot → Outcome Unit)

/-- performs a command on behalf of the listener `self` -/
def perform (self : String) (e : Engine) : Command → Outcome Unit
  | .load source input => (load notify e source (input.getD "")).map fun _ => ()
  | .step => (step notify e).map fun _ => ()
  | .run interval => (run notify e interval).map fun _ => ()
  | .runFor interval => (runFor notify e interval).map fun _ => ()
  | .pause => (pause notify e).map fun _ => ()
  | .reset => (reset notify e).map fun _ => ()
  | .restart => (restart notify e).map fun _ => ()
  | .runUntilHalt cap => (runUntilHalt notify e cap).map fun _ => ()
  | .subscribe name => (e.subscribe name).done ()
  | .unsubscribe name => e.unsubscribe name
  | .fire => (fire notify e).map fun _ => ()
  | .fail => e.fault (.listenerFailed self)
  | .interrupt => e.fault .interrupted

/-- performs commands in turn, up to the first fault -/
def performAll (self : String) : Engine → List Command → Outcome Unit
  | e, [] => e.done ()
  | e, c :: cs => (perform notify self e c).andThen fun e _ => performAll self e cs

end

/-- the script of a listener after its next reaction is used up -/
def dropReaction (scripts : List (String × List Reaction)) (name : String) : List (String × List Reaction) :=
  scripts.map fun s => if s.1 = name then (s.1, s.2.tail) else s

/-- the next reaction of a listener, if it is for this snapshot, with the engine in which it is used up -/
def takeReaction (e : Engine) (name : String) (q : Snapshot) : Option (List Command × Engine) :=
  match e.scripts.lookup name with
  | some (r :: _) => if r.isFor q then some (r.commands, { e with scripts := dropReaction e.scripts name }) else none
  | _ => none

/-- the reactions that listeners have still in their scripts -/
def reactionsLeft (e : Engine) : Nat := total (e.scripts.map fun s => s.2.length)

/-- gives a snapshot to listeners in turn, up to the first fault -/
def deliver (react : String → Engine → Snapshot → Outcome Unit) (q : Snapshot) : Engine → List String → Outcome Unit
  | e, [] => e.done ()
  | e, l :: ls => (react l (e.note (.delivery l q)) q).andThen fun e _ => deliver react q e ls

/-- hands a snapshot to the listeners subscribed, with room for `n` reactions inside one another -/
def notifyAt : Nat → Engine → Snapshot → Outcome Unit
  | 0 => fun e q => deliver (fun _ e _ => e.done ()) q e e.subscribers
  | n + 1 => fun e q =>
    deliver (fun l e q =>
      match e.takeReaction l q with
      | some (cs, e) => performAll (notifyAt n) l e cs
      | none => e.done ()) q e e.subscribers

/-- hands a snapshot to the listeners subscribed -/
def notify (e : Engine) (q : Snapshot) : Outcome Unit := notifyAt e.reactionsLeft e q

/-- performs a command from outside -/
def apply (e : Engine) (c : Command) : Outcome Unit := perform notify "" e c

/-- performs commands from outside in turn, each whether or not the one before it ended in a fault -/
def applyAll (e : Engine) (cs : List Command) : Engine := cs.foldl (fun e c => (e.apply c).engine) e

end Engine
end TapeMachine
