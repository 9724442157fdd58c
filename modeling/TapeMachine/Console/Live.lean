/-
Live runs.

A live run shows a frame for the snapshot that it starts from and then one for each snapshot that the engine commits,
until the machine halts or an interrupt comes. The frames come from a listener that is subscribed for the time of the
run; the interrupt comes while that listener is given a snapshot, and the pause that follows is shown as well.
-/
import TapeMachine.Console.Shell

namespace TapeMachine.Live

/-- the listener that draws the frames -/
def display : String := "display"

/-- draws every frame, and is interrupted at the given one -/
def script : Option Nat → List Reaction
  | some (n + 1) => List.replicate n {} ++ [{ commands := [.interrupt] }]
  | _ => []

/-- lets the timer tick while the machine runs, `n` times at the most; a fault in a tick is the loop's affair, and
only an interrupt ends the run -/
def watch : Nat → Engine → Outcome Unit
  | 0, e => e.done ()
  | n + 1, e =>
    if e.snapshot.status = .running then
      let o := Engine.fire Engine.notify e
      match o.result with
      | .error .interrupted => o.engine.fault .interrupted
      | .error _ => watch n o.engine
      | .ok true => watch n o.engine
      | .ok false => o.engine.done ()
    else e.done ()

/-- the snapshots that the display was given, in order -/
def shots (e : Engine) : List Snapshot :=
  e.trace.reverse.filterMap fun n =>
    match n with
    | .delivery l q => if l = display then some q else none
    | _ => none

/-- an engine with the display subscribed -/
def attach (e : Engine) (stopAt : Option Nat) : Engine :=
  { e with
    tracing := true
    trace := []
    subscribers := e.subscribers ++ [display]
    scripts := e.scripts.filter (fun s => s.1 ≠ display) ++ [(display, script stopAt)] }

/-- pauses the machine and takes the display away, whatever the run ended with -/
def finish (o : Outcome Unit) : Outcome Unit :=
  let p := Engine.pause Engine.notify o.engine
  match p.result with
  | .error f => p.engine.fault f
  | .ok _ =>
    let u := p.engine.unsubscribe display
    match u.result with
    | .error f => u.engine.fault f
    | .ok () => ⟨u.engine, o.result⟩

/-- runs the machine at an interval with the display attached, and takes it away at the end -/
def drive (e : Engine) (interval : Seconds) (stopAt : Option Nat) (patience : Nat) : Outcome Unit :=
  finish ((Engine.run Engine.notify (attach e stopAt) interval).andThen fun e _ => watch patience e)

/-- a live run of the shell's machine; without an interval it ends at its first frame -/
def run (s : Shell) : Shell × List Output × Except Fault Unit :=
  match s.interval with
  | .error f => (s, [.live [s.panelOf s.engine.snapshot none]], .error f)
  | .ok interval =>
    let o := drive s.engine interval s.interrupts.head?.join s.patience
    let frames := (s.engine.snapshot :: shots o.engine).map fun q => s.panelOf q none
    let engine := { o.engine with tracing := s.engine.tracing, trace := s.engine.trace }
    ({ s with engine, interrupts := s.interrupts.tail }, [.live frames], o.result)

/-- a live run that an interrupt only pauses; the truth value tells whether one came -/
def runOrPause (s : Shell) : Shell × List Output × Except Fault Bool :=
  match run s with
  | (s, shown, .ok ()) => (s, shown, .ok false)
  | (s, shown, .error .interrupted) =>
    let o := Engine.pause Engine.notify s.engine
    ({ s with engine := o.engine }, shown, o.result.map fun _ => true)
  | (s, shown, .error f) => (s, shown, .error f)

end TapeMachine.Live
