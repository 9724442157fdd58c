/-
Calls that the log breaks off.

A control call writes its log entry in the middle of its work, and nothing takes back what was done before when the log
refuses it. What a refused entry leaves behind is the same for every machine that can be reached, whatever the log took
or refused before (`reaches_brokenOff`): the snapshot is the one before the call; a load has already given the machine
its new definition with the table and the input, and a reset that the log refuses at the load has lost the input; the
timer ticks after a run, and is stopped after every other call.

So no control call is undone by the refusal (`refused_harms`): one of each that leaves the machine or its pending tick
other than they were.

Since the log may fail here, operations are taken apart into steps smaller than a `Change`, after any of which an
operation may end (`Touch`). Two things hold after each of them: the loop holds no handle but the timer's own, and the
table is that of the definition (`Equipped`).
-/
import TapeMachine.Proofs.Course
import TapeMachine.Proofs.Upkeep

namespace TapeMachine

/-- the log has refused an entry -/
def Fault.ofLog : Fault → Bool
  | .journalRefused _ => true
  | .disk _ => true
  | _ => false

namespace Outcome

variable {α β : Type}

/-- the log has broken the operation off -/
def Refused (o : Outcome α) : Prop := ∃ f, o.result = .error f ∧ f.ofLog = true

/-- an operation in two parts that is broken off is so in its first part, and then ends there, or in its second one -/
theorem Refused.andThen {o : Outcome α} {f : Engine → α → Outcome β} (h : (o.andThen f).Refused) :
    (o.Refused ∧ (o.andThen f).engine = o.engine) ∨ ∃ a, o.result = .ok a ∧ (f o.engine a).Refused := by
  obtain ⟨x, hx, hlog⟩ := h
  cases hr : o.result with
  | error y =>
    rw [Outcome.andThen, hr] at hx
    obtain rfl : y = x := Except.error.inj hx
    refine Or.inl ⟨⟨y, hr, hlog⟩, ?_⟩
    rw [Outcome.andThen, hr]
  | ok a =>
    rw [andThen_of_ok hr] at hx
    exact Or.inr ⟨a, rfl, x, hx, hlog⟩

theorem Succeeds.not_refused {o : Outcome α} (h : o.Succeeds) : ¬ o.Refused := by
  obtain ⟨a, ha⟩ := h
  rintro ⟨f, hf, -⟩
  rw [ha] at hf
  cases hf

end Outcome

namespace Engine

variable {e e' : Engine} {notify : Engine → Snapshot → Outcome Unit}

/-! ## Steps after which an operation may end -/

/-- one thing that an operation does to an engine -/
inductive Touch (e : Engine) : Engine → Prop where
  | log (j : Option Journal) (refused : List String) (disk : Disk) (clock : Clock) (trace : List Note) :
    Touch e { e with journal := j, refused, disk, clock, trace }
  | snapshot (q : Snapshot) : Touch e { e with snapshot := q }
  | stop : Touch e e.stopTicker
  | start (t : Ticker Unit) (i : Seconds) (h : e.ticker.start i () = (t, .ok ())) : Touch e { e with ticker := t }
  | due (t : Ticker Unit) (h : e.ticker.due = some t) : Touch e { e with ticker := t }
  | equip (d : Definition) (input : Text) : Touch e (e.equip d input)
  | subscribers (l : List String) : Touch e { e with subscribers := l }
  | scripts (l : List (String × List Reaction)) : Touch e { e with scripts := l }

/-- one thing after another -/
abbrev Touches : Engine → Engine → Prop := Relation.ReflTransGen Touch

/-- the loop holds no handle but the timer's own, and the table is that of the definition -/
structure Equipped (e : Engine) : Prop where
  owned : e.ticker.Owned
  table : ∀ d, e.definition = some d → e.table = d.table

theorem Touch.equipped (h : Equipped e) (ht : Touch e e') : Equipped e' := by
  cases ht with
  | log j refused disk clock trace => exact ⟨h.owned, h.table⟩
  | snapshot q => exact ⟨h.owned, h.table⟩
  | stop => exact ⟨h.owned.cancel, h.table⟩
  | start t i hi => exact ⟨(h.owned.start hi).1, h.table⟩
  | due t hd => exact ⟨(h.owned.due hd).2.1, h.table⟩
  | equip d input =>
    refine ⟨h.owned.cancel, ?_⟩
    intro d' hd
    rw [← Option.some.inj hd]
    rfl
  | subscribers l => exact ⟨h.owned, h.table⟩
  | scripts l => exact ⟨h.owned, h.table⟩

theorem Touches.equipped (h : Equipped e) (ht : Touches e e') : Equipped e' := by
  induction ht with
  | refl => exact h
  | tail _ ht ih => exact ht.equipped ih

theorem touches_note (e : Engine) (n : Note) : Touches e (e.note n) := by
  rw [note_eq]
  exact .single (.log e.journal e.refused e.disk e.clock _)

/-- what an engine has become by such steps, it becomes by every operation -/
theorem kept_touches (hn : ∀ e q, Touches e (notify e q).engine) (e : Engine) : Kept notify (Touches e) where
  log := keptByLog_of_frame fun e' j d t h => h.tail (.log j e'.refused d e'.clock t)
  snapshot := fun _ q h => h.tail (.snapshot q)
  stop := fun _ h => h.tail .stop
  due := fun _ t ht h => h.tail (.due t ht)
  heard := fun e' q h => h.trans (hn e' q)
  equip := fun _ d input h => h.tail (.equip d input)
  start := fun _ t i ht h => h.tail (.start t i ht)
  subscribers := fun _ l h => h.tail (.subscribers l)

theorem touches_perform (hn : ∀ e q, Touches e (notify e q).engine) (e : Engine) (self : String) (c : Command) :
    Touches e (perform notify self e c).engine :=
  (kept_touches hn e).perform .refl self c

/-! ## Engines that can be reached with any log -/

/-- `e'` comes of `e` by commands from outside and from listeners, as in `Reaches`, with a log that may turn into any
other at any moment, so that it may take one entry and refuse the next -/
inductive ReachesAnyLog : Engine → Engine → Prop where
  | refl (e : Engine) : ReachesAnyLog e e
  | perform {e e' : Engine} (notify : Engine → Snapshot → Outcome Unit) (self : String) (c : Command)
      (h : ReachesAnyLog e e') (hn : ∀ e q, ReachesAnyLog e (notify e q).engine) :
      ReachesAnyLog e (perform notify self e' c).engine
  | deliver {e e' : Engine} (l : String) (q : Snapshot) (h : ReachesAnyLog e e') :
      ReachesAnyLog e (e'.note (.delivery l q))
  | script {e e' : Engine} (l : List (String × List Reaction)) (h : ReachesAnyLog e e') :
      ReachesAnyLog e { e' with scripts := l }
  | log {e e' : Engine} (j : Option Journal) (refused : List String) (disk : Disk) (clock : Clock)
      (h : ReachesAnyLog e e') : ReachesAnyLog e { e' with journal := j, refused, disk, clock }

theorem ReachesAnyLog.touches (h : ReachesAnyLog e e') : Touches e e' := by
  induction h with
  | refl e => exact .refl
  | perform notify self c _ _ ih ihn => exact ih.trans (touches_perform ihn _ self c)
  | deliver l q _ ih => exact ih.trans (touches_note _ _)
  | script l _ ih => exact ih.tail (.scripts l)
  | @log e e' j refused disk clock _ ih => exact ih.tail (.log j refused disk clock e'.trace)

theorem Reaches.anyLog (h : Reaches e e') : ReachesAnyLog e e' := by
  induction h with
  | refl e => exact .refl e
  | perform notify self c _ _ ih ihn => exact .perform notify self c ih ihn
  | deliver l q _ ih => exact .deliver l q ih
  | script l _ ih => exact .script l ih

/-! ## What a refused entry leaves behind -/

/-- listeners that do not fail -/
def Unfailing (notify : Engine → Snapshot → Outcome Unit) : Prop := ∀ e q, (notify e q).Succeeds

/-- the operation leaves this machine behind, and so many ticks pending -/
structure LeavesBehind (o : Outcome Snapshot) (m : Machine) (ticks : ℕ) : Prop where
  machine : o.engine.machine = m
  pending : o.engine.ticker.pending.length = ticks

section Refused

variable {d : Definition} {input : Text} {interval : Seconds}

/-- a snapshot that has not halted is committed without an entry -/
theorem commit_succeeds (hn : Unfailing notify) {q : Snapshot} (hq : q.halted = false) (e : Engine) :
    (commit notify e q).Succeeds := by
  have hplace : (e.place q).result = .ok () := by
    rw [place, hq]
    rfl
  rw [commit, Outcome.andThen_of_ok hplace]
  exact (hn _ q).map _

theorem logEvent_machine (e : Engine) (ev : Event) :
    (e.logEvent ev).engine.machine = e.machine ∧ (e.logEvent ev).engine.ticker = e.ticker := by
  obtain ⟨j, d, t, h⟩ := logEvent_frame e ev
  rw [h]
  exact ⟨rfl, rfl⟩

/-- the entry is the only thing that a log can refuse of an operation that goes on with a commit -/
theorem refused_logEvent {ev : Event} {f : Engine → Unit → Outcome Snapshot} (hf : ∀ e, (f e ()).Succeeds)
    (h : ((e.logEvent ev).andThen f).Refused) :
    ((e.logEvent ev).andThen f).engine.machine = e.machine ∧
      ((e.logEvent ev).andThen f).engine.ticker = e.ticker := by
  rcases h.andThen with ⟨-, hend⟩ | ⟨u, -, hrest⟩
  · rw [hend]
    exact logEvent_machine e ev
  · exact absurd hrest (hf _).not_refused

theorem loadDefinition_refused (hn : Unfailing notify) (h : (loadDefinition notify e d input).Refused) :
    d.Valid ∧ (loadDefinition notify e d input).engine.machine = ⟨some d, d.table, input, e.snapshot⟩ ∧
      (loadDefinition notify e d input).engine.ticker = e.ticker.cancel := by
  cases hv : d.validate with
  | error f =>
    obtain ⟨x, hx, hlog⟩ := h
    simp only [loadDefinition, hv] at hx
    rw [← Except.error.inj hx] at hlog
    cases hlog
  | ok u =>
    refine ⟨d.validate_ok_iff.1 hv, ?_⟩
    cases hc : (e.equip d input).padding.count (e.equip d input).room with
    | error f =>
      obtain ⟨x, hx, hlog⟩ := h
      simp only [loadDefinition, hv, hc] at hx
      rw [← Except.error.inj hx] at hlog
      cases hlog
    | ok n =>
      simp only [loadDefinition, hv, hc] at h ⊢
      exact refused_logEvent (fun e => commit_succeeds hn rfl e) h

theorem resolve_error {source : Source} {f : Fault} (h : resolve source = .error f) : f.ofLog = false := by
  unfold resolve at h
  split at h
  · cases h
  · split at h
    · cases h
    · rw [← Except.error.inj h]
      rfl
  · rename_i fs room
    cases hf : Definition.ofFields fs room with
    | error x =>
      rw [hf] at h
      rw [← Except.error.inj h]
      rfl
    | ok d =>
      rw [hf] at h
      cases h

theorem load_leaves (ho : Equipped e) (hn : Unfailing notify) {source : Source}
    (h : (load notify e source input).Refused) :
    ∃ d, resolve source = .ok d ∧ d.Valid ∧
      LeavesBehind (load notify e source input) ⟨some d, d.table, input, e.snapshot⟩ 0 := by
  cases hs : resolve source with
  | error f =>
    obtain ⟨x, hx, hlog⟩ := h
    simp only [load, hs] at hx
    rw [← Except.error.inj hx, resolve_error hs] at hlog
    cases hlog
  | ok d =>
    simp only [load, hs] at h ⊢
    obtain ⟨hd, hmachine, hticker⟩ := loadDefinition_refused hn h
    refine ⟨d, rfl, hd, hmachine, ?_⟩
    rw [hticker, ho.owned.cancel_pending]
    rfl

/-- a run that the log refuses has started the timer -/
theorem run_leaves (ho : Equipped e) (hn : Unfailing notify) (h : (run notify e interval).Refused) :
    LeavesBehind (run notify e interval) e.machine 1 := by
  cases hgo : e.definition.isNone || e.snapshot.halted with
  | true =>
    rw [run_of_idle hgo] at h
    exact absurd h (done_succeeds _ _).not_refused
  | false =>
    cases ht : e.ticker.start (interval.max e.least) () with
    | mk t r =>
      cases r with
      | error f =>
        obtain ⟨x, hx, hlog⟩ := h
        rw [run_of_refused hgo ht] at hx
        rw [← Except.error.inj hx] at hlog
        cases hlog
      | ok u =>
        have hnote : ({ e with ticker := t }.note (.runCalled true)).machine = e.machine ∧
            ({ e with ticker := t }.note (.runCalled true)).ticker = t := by
          rw [note_eq]
          exact ⟨rfl, rfl⟩
        rw [run_of_ready hgo, ht] at h ⊢
        simp only at h ⊢
        obtain ⟨hmachine, hticker⟩ := refused_logEvent (fun e => by
          split_ifs
          · exact done_succeeds _ _
          · exact commit_succeeds hn rfl e) h
        refine ⟨hmachine.trans hnote.1, ?_⟩
        rw [hticker, hnote.2]
        exact (ho.owned.start ht).1.length_pending.2.2 (ho.owned.start ht).2

theorem runFor_leaves (ho : Equipped e) (hn : Unfailing notify) {interval : Json}
    (h : (runFor notify e interval).Refused) : LeavesBehind (runFor notify e interval) e.machine 1 := by
  unfold runFor at h ⊢
  split
  · rename_i n hnumber
    rw [hnumber] at h
    exact run_leaves ho hn h
  · rename_i hnumber
    rw [hnumber] at h
    obtain ⟨x, hx, hlog⟩ := h
    simp only at hx
    split_ifs at hx
    · cases hx
    · rw [← Except.error.inj hx] at hlog
      cases hlog

theorem stopTicker_pending (ho : Equipped e) : e.ticker.cancel.pending.length = 0 := by
  rw [ho.owned.cancel_pending]
  rfl

theorem pause_leaves (ho : Equipped e) (hn : Unfailing notify) (h : (pause notify e).Refused) :
    LeavesBehind (pause notify e) e.machine 0 := by
  unfold pause at h ⊢
  split_ifs at h ⊢
  · obtain ⟨hmachine, hticker⟩ := refused_logEvent (fun e => commit_succeeds hn rfl e) h
    refine ⟨hmachine, ?_⟩
    rw [hticker]
    exact stopTicker_pending ho
  · exact absurd h (done_succeeds _ _).not_refused

theorem restart_leaves (ho : Equipped e) (hn : Unfailing notify) (h : (restart notify e).Refused) :
    LeavesBehind (restart notify e) e.machine 0 := by
  cases hd : e.definition with
  | none =>
    rw [restart_of_none hd] at h
    exact absurd h (done_succeeds _ _).not_refused
  | some d =>
    have hd' : e.stopTicker.definition = some d := hd
    simp only [restart, hd'] at h ⊢
    obtain ⟨-, hmachine, hticker⟩ := loadDefinition_refused hn h
    refine ⟨?_, ?_⟩
    · rw [hmachine, machine, hd, ho.table d hd]
      rfl
    · rw [hticker]
      exact stopTicker_pending (Touch.stop.equipped ho)

/-- a reset writes two entries: its own one, and that of the load -/
theorem reset_leaves (ho : Equipped e) (hn : Unfailing notify) (h : (reset notify e).Refused) :
    ((e.logEvent .reset).Refused ∧ LeavesBehind (reset notify e) e.machine 0) ∨
      ((e.logEvent .reset).Succeeds ∧ LeavesBehind (reset notify e) { e.machine with input := "" } 0) := by
  cases hd : e.definition with
  | none =>
    rw [reset_of_none hd] at h
    exact absurd h (done_succeeds _ _).not_refused
  | some d =>
    have hd' : e.stopTicker.definition = some d := hd
    have hsame : SameLog e e.stopTicker := ⟨rfl, rfl, rfl, rfl⟩
    have hresult : (e.stopTicker.logEvent .reset).result = (e.logEvent .reset).result :=
      (logEntry_sameLog hsame (.event .reset)).1
    obtain ⟨hmachine, hticker⟩ := logEvent_machine e.stopTicker .reset
    simp only [reset, hd'] at h ⊢
    rcases h.andThen with ⟨⟨f, hf, hlog⟩, hend⟩ | ⟨u, hu, hload⟩
    · refine Or.inl ⟨⟨f, hresult.symm.trans hf, hlog⟩, ?_, ?_⟩
      · rw [hend]
        exact hmachine
      · rw [hend, hticker]
        exact stopTicker_pending ho
    · refine Or.inr ⟨⟨u, hresult.symm.trans hu⟩, ?_⟩
      rw [Outcome.andThen_of_ok hu]
      obtain ⟨-, hloaded, hstopped⟩ := loadDefinition_refused hn hload
      refine ⟨?_, ?_⟩
      · have hsnapshot : (e.stopTicker.logEvent .reset).engine.snapshot = e.snapshot :=
          congrArg Machine.snapshot hmachine
        rw [hloaded, hsnapshot, machine, hd, ho.table d hd]
      · rw [hstopped, hticker]
        exact stopTicker_pending (Touch.stop.equipped ho)

end Refused

/-- what the control calls leave behind when the log refuses an entry of theirs, and no listener fails -/
structure BrokenOff (e : Engine) : Prop where
  load : ∀ notify source input, Unfailing notify → (load notify e source input).Refused →
    ∃ d, resolve source = .ok d ∧ d.Valid ∧
      LeavesBehind (load notify e source input) ⟨some d, d.table, input, e.snapshot⟩ 0
  run : ∀ notify interval, Unfailing notify → (run notify e interval).Refused →
    LeavesBehind (run notify e interval) e.machine 1
  runFor : ∀ notify interval, Unfailing notify → (runFor notify e interval).Refused →
    LeavesBehind (runFor notify e interval) e.machine 1
  pause : ∀ notify, Unfailing notify → (pause notify e).Refused → LeavesBehind (pause notify e) e.machine 0
  /-- a reset that the log refuses at once, or only at the load -/
  reset : ∀ notify, Unfailing notify → (reset notify e).Refused →
    ((e.logEvent .reset).Refused ∧ LeavesBehind (reset notify e) e.machine 0) ∨
      ((e.logEvent .reset).Succeeds ∧ LeavesBehind (reset notify e) { e.machine with input := "" } 0)
  restart : ∀ notify, Unfailing notify → (restart notify e).Refused → LeavesBehind (restart notify e) e.machine 0

theorem Equipped.brokenOff (h : Equipped e) : BrokenOff e where
  load := fun _ _ _ hn hr => load_leaves h hn hr
  run := fun _ _ hn hr => run_leaves h hn hr
  runFor := fun _ _ hn hr => runFor_leaves h hn hr
  pause := fun _ hn hr => pause_leaves h hn hr
  reset := fun _ hn hr => reset_leaves h hn hr
  restart := fun _ hn hr => restart_leaves h hn hr

/-- **A call that the log breaks off leaves the snapshot as it was**, and the rest as the call has made it before its
entry, whatever the settings, the commands from outside, the listeners and the log did before. -/
theorem reaches_brokenOff {c : Config} {loop : Bool} {disk : Disk} {clock : Clock} {room : Option ℕ}
    {journal : Option Journal} {refused : List String} {tracing : Bool} (hm : make c loop disk clock = .ok e)
    (h : ReachesAnyLog { e with room, journal, refused, tracing } e') : BrokenOff e' := by
  have hnew : Equipped { e with room, journal, refused, tracing } := by
    obtain ⟨padding, least, v, -, -, rfl⟩ := make_eq hm
    refine ⟨rfl, ?_⟩
    intro d hd
    cases hd
  exact (h.touches.equipped hnew).brokenOff

/-- a machine whose log refuses the events of one name -/
def refusing (event : String) : Engine :=
  { bench with journal := some ⟨"", "turing_", "1970-01-01"⟩, refused := [event], tracing := false }

/-- the same, with the busy beaver loaded -/
def refusingLoaded (event : String) : Engine :=
  (refusing event).applyAll [.load (.definition Preset.busyBeaver) (some "1")]

/-- the same, asked to run -/
def refusingRun (event : String) : Engine := (refusingLoaded event).applyAll [.run (.given (.whole 1))]

theorem refusing_anyLog (event : String) :
    ReachesAnyLog (refusing event) (refusingLoaded event) ∧ ReachesAnyLog (refusing event) (refusingRun event) := by
  have hloaded : Reaches (refusing event) (refusingLoaded event) := applyAll_reaches _ _
  exact ⟨hloaded.anyLog, (hloaded.trans (applyAll_reaches _ _)).anyLog⟩

/-- the machine runs, and from then on the log refuses loads: a reset stops it, and the input is lost -/
theorem reset_brokenOff :
    let idly : Engine → Snapshot → Outcome Unit := fun e _ => e.done ()
    let e : Engine := { bench with tracing := false }
    let e' : Engine := { refusingRun "halt" with refused := ["initialize"] }
    make benchSettings true {} bench.clock = .ok e ∧ ReachesAnyLog (refusing "halt") e' ∧ Unfailing idly ∧
      (reset idly e').Refused ∧ e'.input = "1" ∧ (reset idly e').engine.input = "" ∧ BrokenOff e' := by
  have hr : ReachesAnyLog (refusing "halt") { refusingRun "halt" with refused := ["initialize"] } :=
    (refusing_anyLog "halt").2.log _ ["initialize"] _ _
  exact ⟨make_bench, hr, fun e _ => done_succeeds e (), ⟨.journalRefused "initialize", by decide +kernel, rfl⟩,
    by decide +kernel, by decide +kernel, reaches_brokenOff make_bench hr⟩

/-! ## Calls that are not undone -/

/-- the machine is the same, and a tick is pending or not as before -/
structure Unharmed (e e' : Engine) : Prop where
  machine : e'.machine = e.machine
  pending : e'.ticker.pending.isEmpty = e.ticker.pending.isEmpty

/-- a refused call that is not undone -/
def Harms (e : Engine) (o : Outcome Snapshot) : Prop := o.Refused ∧ ¬ Unharmed e o.engine

theorem harms_of_pending (event : String) {o : Outcome Snapshot} (hr : o.result = .error (.journalRefused event))
    (hp : o.engine.ticker.pending.isEmpty ≠ e.ticker.pending.isEmpty) : Harms e o :=
  ⟨⟨_, hr, rfl⟩, fun h => hp h.pending⟩

/-- **No control call is undone when the log refuses its entry.** Without listeners, a first load leaves a definition
with no tape for it, a run leaves a tick pending on an idle machine, and a pause, a reset and a restart of a machine
that runs leave it running with nothing pending. -/
theorem refused_harms :
    let idly : Engine → Snapshot → Outcome Unit := fun e _ => e.done ()
    (∀ event, ReachesAnyLog (refusing event) (refusingLoaded event) ∧
      ReachesAnyLog (refusing event) (refusingRun event)) ∧ Unfailing idly ∧
      Harms (refusing "initialize") (load idly (refusing "initialize") (.definition Preset.busyBeaver) "1") ∧
      Harms (refusingLoaded "run") (run idly (refusingLoaded "run") (.given (.whole 1))) ∧
      Harms (refusingRun "pause") (pause idly (refusingRun "pause")) ∧
      Harms (refusingRun "reset") (reset idly (refusingRun "reset")) ∧
      Harms (refusingRun "initialize") (restart idly (refusingRun "initialize")) := by
  refine ⟨refusing_anyLog, fun e _ => done_succeeds e (), ?_, ?_, ?_, ?_, ?_⟩
  · refine ⟨⟨.journalRefused "initialize", by decide +kernel, rfl⟩, ?_⟩
    intro h
    have hdefined := congrArg (fun m => m.definition.isSome) h.machine
    exact absurd hdefined (by decide +kernel)
  · exact harms_of_pending "run" (by decide +kernel) (by decide +kernel)
  · exact harms_of_pending "pause" (by decide +kernel) (by decide +kernel)
  · exact harms_of_pending "reset" (by decide +kernel) (by decide +kernel)
  · exact harms_of_pending "initialize" (by decide +kernel) (by decide +kernel)

end Engine
end TapeMachine
