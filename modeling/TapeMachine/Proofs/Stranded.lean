/-
Machines that run with nothing to drive them.

The status says that a machine runs, but it is the pending tick that makes it step. A tick that fails ends the
repetition and leaves the status as it is, and so does a run call that is refused. A machine that runs then is stranded:
nothing is there to fire, and a step by hand is ignored while a machine runs (`Stranded`). Whoever waits for the status
to change waits for ever, as `abandoned` shows, where a display fails in the first tick.

There is no other way to it. What the trace tells since the last run call is enough to see whether the repetition was
dropped (`dropped`); if it was not, a machine that runs has a single tick pending, which places the next snapshot
(`reaches_driven`). Unlike the coupling of a run and its timer this needs no loop and no least interval. A stranded
machine can still be paused, and then goes on by hand.
-/
import TapeMachine.Proofs.Coupling

namespace TapeMachine
namespace Engine

variable {n : ℤ} {e e' : Engine} {notify : Engine → Snapshot → Outcome Unit}

/-- since a run call has last started the timer, a tick has failed, or a run call was refused or gave no number for its
interval; the latest note comes first -/
def dropped : List Note → Bool
  | [] => false
  | .runCalled started :: _ => !started
  | .runMistyped :: _ => true
  | .tickFailed :: _ => true
  | _ :: ns => dropped ns

/-- the machine runs, and there is nothing to fire -/
def Stranded (e : Engine) : Prop := e.snapshot.status = .running ∧ e.ticker.pending = []

/-- a machine that runs has an armed timer, unless the repetition was dropped -/
structure Held (e : Engine) : Prop where
  tracing : e.tracing = true
  armed : dropped e.trace = false → e.snapshot.status = .running → e.ticker.active = true

/-! ## What changes do to the repetition -/

theorem Records.held {ns : List Note} {e₀ : Engine} (h : Records ns e₀ e') (ht : e₀.tracing = true)
    (ha : dropped (ns ++ e₀.trace) = false → e₀.snapshot.status = .running → e₀.ticker.active = true) : Held e' := by
  have htrace := h.trace ht
  obtain ⟨j, d, -, rfl⟩ := h.eq
  refine ⟨ht, ?_⟩
  rw [htrace]
  exact ha

/-- a note that tells of a dropped repetition -/
theorem Records.held_of_dropped {x : Note} {e₀ : Engine} (h : Records [x] e₀ e') (ht : e₀.tracing = true)
    (hx : ∀ tr, dropped (x :: tr) = true) : Held e' := by
  refine h.held ht ?_
  intro hno
  rw [List.singleton_append, hx] at hno
  cases hno

/-- **Every change arms the timer, stops the machine, or tells that it drops the repetition.** -/
theorem Change.held (hs : Sound n e) (h : Held e) (hc : Change e e') : Held e' := by
  have ht := h.tracing
  cases hc with
  | load d input m hd hn h' => exact h'.held ht fun _ hr => by cases hr
  | reset d m he hd hn h' => exact h'.held ht fun _ hr => by cases hr
  | step q hm hq h' =>
    exact h'.held ht fun _ hr => absurd hr (next_not_running hq (Status.not_running_of_manual hm))
  | tick t q htick hrun hq h' =>
    refine h'.held ht ?_
    intro _ hr
    have hq' : q.status = .running := hr
    rw [Engine.placed, if_pos hq']
    exact (hs.owned.due htick).2.2
  | start t interval hd hh hi hr h' => exact h'.held ht fun _ _ => (hs.owned.start hi).2
  | restart t interval hi hr h' => exact h'.held ht fun _ _ => (hs.owned.start hi).2
  | decline hd h' => exact h'.held_of_dropped ht fun _ => rfl
  | refuse interval f hi h' => exact h'.held_of_dropped ht fun _ => rfl
  | mistype h' => exact h'.held_of_dropped ht fun _ => rfl
  | pause hr h' => exact h'.held ht fun _ hr => by cases hr
  | stop hr h' =>
    rw [h']
    exact ⟨ht, fun _ hrun => absurd hrun hr⟩
  | fail h' =>
    rw [h']
    exact (records_note e.stopTicker .tickFailed).held_of_dropped ht fun _ => rfl
  | interrupt h' =>
    rw [h']
    exact (records_note e .tickFailed).held_of_dropped ht fun _ => rfl
  | subscribe l h' =>
    rw [h']
    exact ⟨ht, h.armed⟩
  | script l h' =>
    rw [h']
    exact ⟨ht, h.armed⟩
  | deliver l q h' =>
    rw [h']
    exact (records_note e (.delivery l q)).held ht h.armed

theorem Changes.held (hs : Sound n e) (h : Held e) (hc : Changes e e') : Held e' :=
  Changes.preserve (fun hs h hc => hc.held hs h) hs h hc

/-! ## Stranded machines -/

theorem Stranded.step (h : Stranded e) : step notify e = e.done e.snapshot := by
  refine step_of_not_manual ?_
  rw [h.1]
  rfl

theorem Stranded.fire (h : Stranded e) : fire notify e = e.done false := by
  rw [Engine.fire, Ticker.due, h.2]

/-- whoever waits for ticks waits in vain -/
theorem Stranded.fireUpTo (h : Stranded e) (k : ℕ) : fireUpTo notify k e = (0, e.done ()) := by
  cases k with
  | zero => rfl
  | succ k =>
    rw [Engine.fireUpTo, h.fire]
    rfl

/-- a machine that runs after its timer was stopped -/
theorem stranded_of_stopTicker (hs : Sound n e) (hr : e.snapshot.status = .running) (x : Note) :
    Stranded (e.stopTicker.note x) := by
  have hpending : e.stopTicker.ticker.pending = [] := hs.owned.cancel_pending
  rw [note_eq]
  exact ⟨hr, hpending⟩

/-- a tick that fails places the next snapshot, and what the listeners leave behind loses its timer -/
theorem fire_fails (hn : Heard n notify) (hs : Sound n e) {f : Fault} (hf : (fire notify e).result = .error f)
    (hi : f ≠ .interrupted) :
    ∃ q e₁, e.next = some q ∧ Places e q e₁ ∧ (fire notify e).engine = e₁.stopTicker.note .tickFailed := by
  cases ht : e.ticker.due with
  | none =>
    rw [Engine.fire, ht] at hf
    cases hf
  | some t =>
    obtain ⟨q, hq, htick⟩ := tick_places hn hs ht
    refine ⟨q, _, hq, htick, ?_⟩
    simp only [Engine.fire, ht] at hf ⊢
    generalize tick notify { e with ticker := t } = o at hf ⊢
    obtain ⟨e₁, r⟩ := o
    cases r with
    | ok u => cases hf
    | error g =>
      cases g with
      | interrupted => exact absurd (Except.error.inj hf).symm hi
      | _ => rfl

/-! ## Engines that can be reached -/

/-- what drives a machine that runs, and what becomes of it when nothing does -/
structure Driven (e : Engine) : Prop where
  /-- unless the repetition was dropped there is a single tick, and it places the next snapshot -/
  driven : dropped e.trace = false → e.snapshot.status = .running →
    e.ticker.pending.length = 1 ∧
      ∃ q, e.next = some q ∧ ∀ notify, Listens notify → Places e q (fire notify e).engine
  /-- a tick that fails drops the repetition, and the machine is stranded if it runs then -/
  fails : ∀ notify f, Listens notify → (fire notify e).result = .error f → f ≠ .interrupted →
    ∃ q e₁, e.next = some q ∧ Places e q e₁ ∧ (fire notify e).engine = e₁.stopTicker.note .tickFailed ∧
      (e₁.snapshot.status = .running → Stranded (fire notify e).engine)
  /-- no step leads on, by hand or by the timer -/
  stranded : Stranded e → ∀ notify, step notify e = e.done e.snapshot ∧ ∀ k, fireUpTo notify k e = (0, e.done ())
  /-- but the machine can be paused -/
  pauses : Stranded e → ∀ notify, Listens notify → Places e (e.withStatus .paused) (pause notify e).engine

theorem Held.driven (hs : Sound n e) (h : Held e) : Driven e where
  driven := by
    intro hno hr
    have hactive := h.armed hno hr
    obtain ⟨t, ht⟩ := hs.owned.due_of_active hactive
    obtain ⟨q, hq, -⟩ := hs.next (Snapshot.not_halted_of_running hr)
    refine ⟨hs.owned.length_pending.2.2 hactive, q, hq, ?_⟩
    intro notify hn
    obtain ⟨q', hq', hplaces⟩ := fire_places (fun e q he => reaches_changes (hn e q) he) hs ht
    obtain rfl : q' = q := Option.some.inj (hq'.symm.trans hq)
    exact hplaces
  fails := by
    intro notify f hn hf hi
    obtain ⟨q, e₁, hq, hplaces, heq⟩ := fire_fails (fun e q he => reaches_changes (hn e q) he) hs hf hi
    refine ⟨q, e₁, hq, hplaces, heq, ?_⟩
    intro hr
    rw [heq]
    exact stranded_of_stopTicker (Changes.sound hs hplaces.changes) hr _
  stranded := fun h notify => ⟨h.step, h.fireUpTo⟩
  pauses := fun h notify hn => pause_places (fun e q he => reaches_changes (hn e q) he) hs h.1

/-- **A machine that runs is driven unless its repetition was dropped**, whatever the commands from outside and the
listeners do, faults included. The settings give at least one cell of padding, for which there is room, and the log
takes every entry. -/
theorem reaches_driven {c : Config} {loop : Bool} {disk : Disk} {clock : Clock} {journal : Option Journal}
    {refused : List String} {room : Option ℕ} (hm : make c loop disk clock = .ok e)
    (hn : e.padding.count room = .ok n) (hpos : 1 ≤ n)
    (hl : { e with room, journal, refused, tracing := true }.LogsAll)
    (h : Reaches { e with room, journal, refused, tracing := true } e') : Driven e' := by
  have hs := sound_of_make hm hn hpos hl
  have hnew : Held { e with room, journal, refused, tracing := true } := by
    obtain ⟨padding, least, v, -, -, rfl⟩ := make_eq hm
    refine ⟨rfl, fun _ hr => ?_⟩
    cases hr
  have hc := reaches_changes h hs
  exact (Changes.held hs hnew hc).driven (Changes.sound hs hc)

/-- the busy beaver with a display that fails at its first step, which is a tick -/
def abandoned : Engine :=
  applyAll { bench with scripts := [("display", [⟨some 1, none, [.fail]⟩])] }
    [.subscribe "display", .load (.definition Preset.busyBeaver) none, .run (.given (.whole 1)), .fire]

/-- **A machine can be left running with nothing to drive it**, on a loop and with a least interval of zero. -/
theorem abandoned_stranded :
    make benchSettings true {} bench.clock = .ok { bench with tracing := false } ∧ bench.LogsAll ∧
      Reaches bench abandoned ∧ abandoned.snapshot.steps = 1 ∧ Stranded abandoned := by
  have hr : Reaches bench abandoned := (Reaches.script _ (.refl _)).trans (applyAll_reaches _ _)
  exact ⟨make_bench, logsAll_of_no_journal rfl, hr, by decide +kernel, by decide +kernel, by decide +kernel⟩

/-- the same machine, run again -/
def resumed : Engine := abandoned.applyAll [.run (.given (.whole 1)), .fire]

theorem resumed_driven :
    let e : Engine := { bench with tracing := false }
    make benchSettings true {} bench.clock = .ok e ∧ e.padding.count e.room = .ok 1 ∧ bench.LogsAll ∧
      Reaches bench resumed ∧ dropped resumed.trace = false ∧ resumed.snapshot.status = .running ∧ Driven resumed := by
  have hl : bench.LogsAll := logsAll_of_no_journal rfl
  have hr : Reaches bench resumed :=
    ((Reaches.script _ (.refl _)).trans (applyAll_reaches _ _)).trans (applyAll_reaches _ _)
  exact ⟨make_bench, rfl, hl, hr, by decide +kernel, by decide +kernel,
    reaches_driven make_bench rfl (by decide) hl hr⟩

end Engine
end TapeMachine
