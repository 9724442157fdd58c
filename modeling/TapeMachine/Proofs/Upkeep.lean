/-
What operations keep, whatever the log and the listeners do.

An operation may end after any of its steps, when the log refuses an entry or a listener raises. So a property of
engines that is to hold after it has to be kept by each step by itself: by what the log does (`KeptByLog`), by a new
snapshot, by the timer and by the listeners (`KeptBySteps`), and by a load and a start as well (`Kept`). Then it is kept
by every operation, broken off or not (`Kept.perform`).
-/
import TapeMachine.Proofs.Operations

namespace TapeMachine

/-- the note is one of an entry that the log was given -/
def Note.IsEntry : Note → Prop
  | .event _ => True
  | .halted _ => True
  | _ => False

namespace Engine

variable {e : Engine} {P : Engine → Prop} {notify : Engine → Snapshot → Outcome Unit}

theorem keeps_andThen {α β : Type} {o : Outcome α} {f : Engine → α → Outcome β} (h : P o.engine)
    (hf : ∀ a, P (f o.engine a).engine) : P (o.andThen f).engine := by
  unfold Outcome.andThen
  split
  · exact hf _
  · exact h

/-! ## The log -/

/-- giving the log an entry, and making notes of other things, leaves the property true -/
structure KeptByLog (P : Engine → Prop) : Prop where
  entry : ∀ e x, P e → P (e.logEntry x).engine
  note : ∀ e n, ¬ n.IsEntry → P e → P (e.note n)

/-- writing to the log, whether it takes the entry or not, changes nothing but the journal, the disk and the trace -/
theorem writeLog_frame (e : Engine) (write : Journal → Journal × Except DiskFault Disk) (n : Note) :
    ∃ j d t, (e.writeLog write n).engine = { e with journal := j, disk := d, trace := t } := by
  unfold writeLog
  split
  · exact ⟨e.journal, e.disk, e.trace, rfl⟩
  · split
    · exact ⟨_, _, _, note_eq _ n⟩
    · exact ⟨_, e.disk, e.trace, rfl⟩

theorem logEntry_frame (e : Engine) (x : LogEntry) :
    ∃ j d t, (e.logEntry x).engine = { e with journal := j, disk := d, trace := t } := by
  cases x with
  | event ev =>
    simp only [logEntry, logEvent]
    split_ifs
    · exact ⟨e.journal, e.disk, e.trace, rfl⟩
    · exact writeLog_frame e _ _
  | run r => exact writeLog_frame e _ _

theorem logEvent_frame (e : Engine) (ev : Event) :
    ∃ j d t, (e.logEvent ev).engine = { e with journal := j, disk := d, trace := t } := logEntry_frame e (.event ev)

/-- a property that does not depend on the log and on the trace -/
theorem keptByLog_of_frame (h : ∀ e j d t, P e → P { e with journal := j, disk := d, trace := t }) : KeptByLog P where
  entry := by
    intro e x hp
    obtain ⟨j, d, t, heq⟩ := logEntry_frame e x
    rw [heq]
    exact h e j d t hp
  note := by
    intro e n _ hp
    rw [note_eq]
    exact h e e.journal e.disk _ hp

namespace KeptByLog

theorem logEvent (h : KeptByLog P) (hp : P e) (ev : Event) : P (e.logEvent ev).engine := h.entry e (.event ev) hp

theorem logHalt (h : KeptByLog P) (hp : P e) (q : Snapshot) : P (e.logHalt q).engine := by
  have hevent := h.logEvent hp (.halt q.status q.state q.steps)
  refine keeps_andThen hevent ?_
  intro _
  split
  · exact h.entry _ (.run _) hevent
  · exact hevent

end KeptByLog

/-! ## Steps of the machine -/

/-- what an operation may do on a loaded machine leaves the property true -/
structure KeptBySteps (notify : Engine → Snapshot → Outcome Unit) (P : Engine → Prop) : Prop where
  log : KeptByLog P
  snapshot : ∀ e q, P e → P { e with snapshot := q }
  stop : ∀ e, P e → P e.stopTicker
  due : ∀ e t, e.ticker.due = some t → P e → P { e with ticker := t }
  heard : ∀ e q, P e → P (notify e q).engine
  subscribers : ∀ e l, P e → P { e with subscribers := l }

namespace KeptBySteps

theorem place (h : KeptBySteps notify P) (hp : P e) (q : Snapshot) : P (e.place q).engine := by
  have hplaced := h.log.note _ (.commit e.snapshot q e.subscribers) id (h.snapshot e q hp)
  have hstopped := h.stop _ hplaced
  unfold Engine.place
  simp only
  split_ifs
  · exact h.log.logHalt hplaced q
  · exact h.log.logHalt hstopped q
  · exact hplaced
  · exact hstopped

theorem commit (h : KeptBySteps notify P) (hp : P e) (q : Snapshot) : P (commit notify e q).engine :=
  keeps_andThen (h.place hp q) fun _ => h.heard _ q (h.place hp q)

theorem advanceOnce (h : KeptBySteps notify P) (hp : P e) : P (advanceOnce notify e).engine := by
  unfold Engine.advanceOnce
  split
  · exact h.commit hp _
  · split
    · exact h.commit hp _
    · exact hp

theorem step (h : KeptBySteps notify P) (hp : P e) : P (step notify e).engine := by
  unfold Engine.step
  split_ifs
  · exact h.advanceOnce hp
  · exact hp

theorem tick (h : KeptBySteps notify P) (hp : P e) : P (tick notify e).engine := by
  unfold Engine.tick
  split_ifs
  · exact h.advanceOnce hp
  · exact h.stop e hp

theorem fire (h : KeptBySteps notify P) (hp : P e) : P (fire notify e).engine := by
  unfold Engine.fire
  split
  · exact hp
  · rename_i t ht
    have htick := h.tick (h.due e t ht hp)
    simp only
    split
    · exact htick
    · exact h.log.note _ _ id htick
    · exact h.log.note _ _ id (h.stop _ htick)

theorem pause (h : KeptBySteps notify P) (hp : P e) : P (pause notify e).engine := by
  unfold Engine.pause
  split_ifs
  · have hlogged := h.log.logEvent (h.stop e hp) (.pause e.snapshot.steps)
    exact keeps_andThen hlogged fun _ => h.commit hlogged _
  · exact hp

theorem unsubscribe (h : KeptBySteps notify P) (hp : P e) (name : String) : P (e.unsubscribe name).engine := by
  unfold Engine.unsubscribe
  split_ifs
  · exact h.subscribers e _ hp
  · exact hp

theorem stepWhile (h : KeptBySteps notify P) (start cap : ℤ) (fuel : ℕ) (hp : P e) :
    P (stepWhile notify start cap fuel e).engine := by
  induction fuel generalizing e with
  | zero => exact hp
  | succ fuel ih =>
    have hstep := h.step hp
    rw [Engine.stepWhile]
    split_ifs
    · generalize Engine.step notify e = o at hstep ⊢
      obtain ⟨e₁, r⟩ := o
      cases r with
      | error f => exact hstep
      | ok q =>
        simp only
        split_ifs
        · exact ih hstep
        · exact hstep
    · exact hp

theorem runUntilHalt (h : KeptBySteps notify P) (hp : P e) (cap : Option Cap) :
    P (runUntilHalt notify e cap).engine := by
  unfold Engine.runUntilHalt
  split
  · exact hp
  · have hpause := h.pause hp
    refine keeps_andThen hpause ?_
    intro _
    split
    · exact h.stepWhile _ _ _ hpause
    · split_ifs
      · exact hpause
      · exact hpause

end KeptBySteps

/-! ## All operations -/

/-- so do a load and a start of the timer -/
structure Kept (notify : Engine → Snapshot → Outcome Unit) (P : Engine → Prop) : Prop
    extends KeptBySteps notify P where
  equip : ∀ e d input, P e → P (e.equip d input)
  start : ∀ e t i, e.ticker.start i () = (t, .ok ()) → P e → P { e with ticker := t }

namespace Kept

theorem loadDefinition (h : Kept notify P) (hp : P e) (d : Definition) (input : Text) :
    P (loadDefinition notify e d input).engine := by
  have hequip := h.equip e d input hp
  unfold Engine.loadDefinition
  split
  · exact hp
  · simp only
    split
    · exact hequip
    · have hlogged := h.log.logEvent hequip (.loaded input d.initial d.table.length)
      exact keeps_andThen hlogged fun _ => h.commit hlogged _

theorem load (h : Kept notify P) (hp : P e) (source : Source) (input : Text) :
    P (load notify e source input).engine := by
  unfold Engine.load
  split
  · exact h.loadDefinition hp _ input
  · exact hp

theorem run (h : Kept notify P) (hp : P e) (interval : Seconds) : P (run notify e interval).engine := by
  have hdeclined := h.log.note _ (.runCalled false) id (h.stop e hp)
  cases hgo : e.definition.isNone || e.snapshot.halted with
  | true =>
    rw [run_of_idle hgo]
    exact hdeclined
  | false =>
    cases ht : e.ticker.start (interval.max e.least) () with
    | mk t r =>
      cases r with
      | error f =>
        rw [run_of_refused hgo ht]
        exact hdeclined
      | ok u =>
        rw [run_of_ready hgo, ht]
        simp only
        have hstarted := h.log.note _ (.runCalled true) id (h.start e t _ ht hp)
        have hlogged := h.log.logEvent hstarted (.run (interval.max e.least)
          ({ e with ticker := t }.note (.runCalled true)).snapshot.steps)
        refine keeps_andThen hlogged ?_
        intro _
        split_ifs
        · exact hlogged
        · exact h.commit hlogged _

theorem runFor (h : Kept notify P) (hp : P e) (interval : Json) : P (runFor notify e interval).engine := by
  have hstopped := h.log.note _ .runMistyped id (h.stop e hp)
  unfold Engine.runFor
  split
  · exact h.run hp _
  · simp only
    split_ifs
    · exact hstopped
    · exact hstopped

theorem reset (h : Kept notify P) (hp : P e) : P (reset notify e).engine := by
  have hstopped := h.stop e hp
  unfold Engine.reset
  simp only
  split
  · exact hstopped
  · have hlogged := h.log.logEvent hstopped .reset
    exact keeps_andThen hlogged fun _ => h.loadDefinition hlogged _ ""

theorem restart (h : Kept notify P) (hp : P e) : P (restart notify e).engine := by
  have hstopped := h.stop e hp
  unfold Engine.restart
  simp only
  split
  · exact hstopped
  · exact h.loadDefinition hstopped _ _

/-- **What each step keeps, every operation keeps.** -/
theorem perform (h : Kept notify P) (hp : P e) (self : String) (c : Command) : P (perform notify self e c).engine := by
  cases c with
  | load source input => exact h.load hp source _
  | step => exact h.step hp
  | run interval => exact h.run hp interval
  | runFor interval => exact h.runFor hp interval
  | pause => exact h.pause hp
  | reset => exact h.reset hp
  | restart => exact h.restart hp
  | runUntilHalt cap => exact h.runUntilHalt hp cap
  | subscribe name => exact h.subscribers e _ hp
  | unsubscribe name => exact h.unsubscribe hp name
  | fire => exact h.fire hp
  | fail => exact hp
  | interrupt => exact hp

end Kept

end Engine
end TapeMachine
