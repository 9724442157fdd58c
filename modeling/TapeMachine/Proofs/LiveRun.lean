/-
A live run drives the machine as a batch does.

The listener that draws the frames only looks on, and stays subscribed until the run is over (`Displaying`). So a live
run is a run by the timer and a pause: as long as it is left to itself it makes one step for each tick that it is
watched for (`Attended.drive`), and the shell is the same as before but for its engine (`Attended.runOrPause`).
-/
import TapeMachine.Console.Live
import TapeMachine.Proofs.Driving

namespace TapeMachine

open Engine

namespace Live

/-- the display is there, and no script has a command -/
def Displaying : Audience := fun ls l => display ∈ ls ∧ Mute ls l

theorem notify_displays : Watches Displaying Engine.notify := by
  rintro e q ⟨hd, hm⟩
  obtain ⟨t, l, hl, heq⟩ := notify_watches e q hm
  exact ⟨t, l, ⟨hd, hl⟩, heq⟩

end Live

section Watch

variable {K : Audience} {n : ℤ} {d : Definition} {e : Engine}

/-- the machine is watched until it halts, or for so many ticks -/
theorem Engine.Attended.watch (h : Attended K n d e) (hw : Watches K Engine.notify)
    (ha : e.snapshot.status = .running → e.ticker.active = true)
    (hs : e.snapshot.status = .running ∨ e.snapshot.halted = true) (k : ℕ) :
    ∃ e', Live.watch k e = e'.done () ∧ advanceN d d.table k e.snapshot = some e'.snapshot ∧ e'.input = e.input ∧
      Attended K n d e' := by
  induction k generalizing e with
  | zero => exact ⟨e, rfl, rfl, rfl, h⟩
  | succ k ih =>
    rcases hs with hrun | hh
    · obtain ⟨e₁, hfire, hadv, ha₁, hinput₁, h₁⟩ := h.fire hw (ha hrun)
      obtain ⟨e', hrest, hadvN, hinput, h'⟩ := ih h₁ ha₁ (advance_of_running hadv hrun)
      refine ⟨e', ?_, ?_, hinput.trans hinput₁, h'⟩
      · simp only [Live.watch, if_pos hrun, hfire, done]
        exact hrest
      · rw [advanceN, hadv, Option.bind_some, hadvN]
    · have hr : e.snapshot.status ≠ .running := by
        intro hr
        rw [Snapshot.not_halted_of_running hr] at hh
        cases hh
      refine ⟨e, ?_, advanceN_of_halted _ hh _, rfl, h⟩
      rw [Live.watch, if_neg hr]

end Watch

section Drive

variable {n : ℤ} {d : Definition} {e : Engine}

/-- the end of a run pauses the machine, and takes the display away -/
theorem Engine.Attended.finish (h : Attended Live.Displaying n d e) :
    ∃ e' : Engine, Live.finish (e.done ()) = e'.done () ∧ e'.snapshot = e.snapshot.settled ∧ e'.input = e.input ∧
      e'.definition = some d := by
  obtain ⟨e₁, hpause, hsnap, hinput, h₁⟩ := h.pause Live.notify_displays
  have hmem : Live.display ∈ e₁.subscribers := h₁.audience.1
  refine ⟨{ e₁ with subscribers := e₁.subscribers.erase Live.display }, ?_, hsnap, hinput, h₁.definition⟩
  simp only [Live.finish, done, hpause, unsubscribe, if_pos hmem]

theorem Engine.Attended.attach (h : Attended Mute n d e) : Attended Live.Displaying n d (Live.attach e none) where
  sound := { h.sound with logs := h.sound.logs.of_sameLog ⟨rfl, rfl, rfl, rfl⟩ }
  definition := h.definition
  audience := by
    refine ⟨List.mem_append_right _ (List.mem_singleton_self _), ?_⟩
    intro s hs
    rcases List.mem_append.1 hs with hs | hs
    · exact h.audience s (List.mem_of_mem_filter hs)
    · rw [List.mem_singleton.1 hs]
      exact List.forall_mem_nil _

/-- **A live run makes a step for each tick it is watched for**, from the snapshot that a pause would leave. -/
theorem Engine.Attended.drive (h : Attended Mute n d e) (hp : Prepared n e) (hr : e.snapshot.status ≠ .running)
    (interval : Seconds) (patience : ℕ) :
    ∃ e' : Engine, Live.drive e interval none patience = e'.done () ∧
      advanceN d d.table patience e.snapshot.woken = some e'.snapshot ∧ e'.input = e.input ∧
      e'.definition = some d := by
  have h₀ := h.attach
  have hp₀ : Prepared n (Live.attach e none) := ⟨h₀.sound, hp.loop, hp.floor, hp.cap⟩
  obtain ⟨e₁, hrun, hstart, ha₁, hs₁, hinput₁, h₁⟩ := h₀.run_settled Live.notify_displays hp₀ hr interval
  obtain ⟨e₂, hwatch, hadv, hinput₂, h₂⟩ := h₁.watch Live.notify_displays ha₁ hs₁ patience
  obtain ⟨e', hfinish, hsnap, hinput, hdef⟩ := h₂.finish
  refine ⟨e', ?_, ?_, hinput.trans (hinput₂.trans hinput₁), hdef⟩
  · rw [Live.drive, hrun, Outcome.andThen_of_ok (a := e₁.snapshot) rfl, done_engine, hwatch, hfinish]
  · have hwoken : e₁.snapshot.settled = e.snapshot.woken := hstart
    rw [← hwoken, advanceN_settled, hadv, hsnap]
    rfl

end Drive

/-- a live run that is left to itself -/
theorem Engine.Attended.runOrPause {s : Shell} {n : ℤ} {d : Definition} (h : Attended Mute n d s.engine)
    (hp : Prepared n s.engine) (hr : s.engine.snapshot.status ≠ .running) {interval : Seconds}
    (hi : s.interval = .ok interval) (hno : s.interrupts.head?.join = none) :
    ∃ (e' : Engine) (frames : List Panel),
      Live.runOrPause s = ({ s with engine := e', interrupts := s.interrupts.tail }, [.live frames], .ok false) ∧
      advanceN d d.table s.patience s.engine.snapshot.woken = some e'.snapshot ∧ e'.input = s.engine.input ∧
      e'.definition = some d := by
  obtain ⟨e', hdrive, hadv, hinput, hdef⟩ := h.drive hp hr interval s.patience
  refine ⟨{ e' with tracing := s.engine.tracing, trace := s.engine.trace },
    (s.engine.snapshot :: Live.shots e').map fun q => s.panelOf q none, ?_, hadv, hinput, hdef⟩
  simp only [Live.runOrPause, Live.run, hi, hno, hdrive, done]

end TapeMachine
