/-
The pace of live runs.

At a speed of `k` the time between two steps is the longest interval less `k` milliseconds, and never less than the
least one (`millis`). The speed of a shell is the one of the settings, or one that was given on the command line or in
the menu and brought into its range (`Tuned`). In its range, and for every speed above it as well, the interval lies
between the least and the longest one, and a higher speed never makes it longer. It is the very interval that a live run
asks the timer for, and that the timer is left with, whatever the log refuses and whenever an interrupt comes
(`inUse_paced`): the engine raises it to the least interval, which changes nothing.

The speed of the settings is not brought into its range. One below zero is let through by the check of the settings,
and its interval is longer than the longest one (`default_beyond_longest`).
-/
import TapeMachine.Proofs.MenuSession
import TapeMachine.Proofs.Subscriptions

namespace TapeMachine

open Engine

/-! ## Intervals in exact arithmetic -/

/-- the exact number of seconds; an infinite or undefined span has none -/
def Seconds.rational? : Seconds → Option ℚ
  | .given n => n.toRat?
  | .ofMillis n => n.toRat?.map fun x => x / 1000

namespace Config

variable {c : Config}

/-- the milliseconds between two steps at a speed -/
def millis (c : Config) (speed : ℤ) : ℤ := max (c.intAt "min_interval_ms") (c.intAt "max_interval_ms" - speed)

theorem floor_le_millis (c : Config) (k : ℤ) : c.intAt "min_interval_ms" ≤ c.millis k := le_max_left _ _

/-- only a speed below zero makes an interval longer than the longest one -/
theorem Accepted.millis_le_iff (h : c.Accepted) (k : ℤ) : c.millis k ≤ c.intAt "max_interval_ms" ↔ 0 ≤ k := by
  have hordered := h.ordered
  rw [millis, max_le_iff]
  omega

theorem millis_anti (c : Config) {k k' : ℤ} (h : k ≤ k') : c.millis k' ≤ c.millis k := by
  unfold millis
  omega

theorem Accepted.longest_get? (h : c.Accepted) :
    c.get? "max_interval_ms" = some (.ofInt (c.intAt "max_interval_ms")) :=
  h.get?_whole (s := ⟨"max_interval_ms", .whole, .ofInt 1000⟩) (by simp [settings]) rfl

theorem Accepted.delay (h : c.Accepted) (k : ℤ) : c.delay (.number (.whole k)) = .ok (.whole (c.millis k)) := by
  have hfloor : c.orDefaults.value "min_interval_ms" = .ok (.ofInt (c.intAt "min_interval_ms")) := by
    rw [h.orDefaults, value, h.floor_get?]
  have hlongest : c.orDefaults.value "max_interval_ms" = .ok (.ofInt (c.intAt "max_interval_ms")) := by
    rw [h.orDefaults, value, h.longest_get?]
  have hminus : (Json.ofInt (c.intAt "max_interval_ms")).minus (.number (.whole k)) =
      .ok (.whole (c.intAt "max_interval_ms" - k)) := rfl
  have hgreater : (Json.ofInt (c.intAt "min_interval_ms")).orGreater (.whole (c.intAt "max_interval_ms" - k)) =
      .ok ((Number.whole (c.intAt "min_interval_ms")).max (.whole (c.intAt "max_interval_ms" - k))) := rfl
  simp only [Config.delay, hfloor, hlongest, hminus, hgreater, bind, Except.bind, Number.max_whole]
  rfl

/-- the interval at a speed, unless it does not fit the 64-bit format -/
theorem Accepted.interval (h : c.Accepted) (k : ℤ) : c.interval (.number (.whole k)) =
    if (Seconds.ofMillis? (.whole (c.millis k))).isSome then .ok (.ofMillis (.whole (c.millis k)))
    else .error .quotientTooLarge := by
  have hnumber : (Json.number (.whole (c.millis k))).number? = some (.whole (c.millis k)) := rfl
  simp only [Config.interval, h.delay k, bind, Except.bind, Json.asMillis, hnumber]
  cases hs : Seconds.ofMillis? (.whole (c.millis k)) with
  | none => rfl
  | some s =>
    rw [Seconds.eq_ofMillis hs]
    rfl

end Config

theorem clampSpeed_whole (n : ℤ) : ∃ k, clampSpeed (.whole n) = .whole k ∧ 0 ≤ k ∧ k ≤ maxSpeed := by
  refine ⟨min (max n 0) maxSpeed, ?_, ?_, min_le_right _ _⟩
  · rw [clampSpeed, Number.max_whole, Number.min_whole]
  · exact le_min (le_max_right _ _) (by decide)

/-! ## Engines -/

namespace Ticker

variable {κ : Type} {t t' : Ticker κ}

theorem cancel_interval (t : Ticker κ) : t.cancel.interval = t.interval := by
  unfold cancel
  split <;> rfl

theorem due_interval (hd : t.due = some t') : t'.interval = t.interval := by
  unfold due at hd
  split at hd
  · cases hd
  · obtain rfl := Option.some.inj hd
    rfl

theorem start_interval {i : Seconds} {a : κ} (hs : t.start i a = (t', .ok ())) : t'.interval = some i := by
  unfold start at hs
  split_ifs at hs
  · cases hs
  · cases hs
  · obtain rfl := (Prod.mk.inj hs).1
    rfl

end Ticker

namespace Engine

variable {e : Engine} {c : Config} {i : Seconds}

theorem bystanding_notify (h : Bystanding e.scripts) (q : Snapshot) : Bystanding (notify e q).engine.scripts :=
  (notify_aside h q).bystanding

/-- an engine of the settings `c` on a loop, with listeners that leave it alone -/
structure Fitted (c : Config) (e : Engine) : Prop where
  least : e.least = .ofMillis (.whole (c.intAt "min_interval_ms"))
  loop : e.ticker.loop = true
  bystanding : Bystanding e.scripts

theorem kept_fitted (c : Config) : Kept notify (Fitted c) where
  log := keptByLog_of_frame fun _ _ _ _ h => ⟨h.least, h.loop, h.bystanding⟩
  snapshot := fun _ _ h => ⟨h.least, h.loop, h.bystanding⟩
  stop := fun _ h => ⟨h.least, (Ticker.cancel_loop _).trans h.loop, h.bystanding⟩
  due := fun _ _ ht h => ⟨h.least, (Ticker.due_loop ht).trans h.loop, h.bystanding⟩
  heard := by
    intro e q h
    have hbystanding := bystanding_notify h.bystanding q
    obtain ⟨l, s, t, heq⟩ := (notify_aside h.bystanding q).leaves
    rw [heq] at hbystanding ⊢
    exact ⟨h.least, h.loop, hbystanding⟩
  subscribers := fun _ _ h => ⟨h.least, h.loop, h.bystanding⟩
  equip := fun _ _ _ h => ⟨h.least, (Ticker.cancel_loop _).trans h.loop, h.bystanding⟩
  start := fun _ _ _ ht h => ⟨h.least, (Ticker.start_loop ht).trans h.loop, h.bystanding⟩

/-- the timer was last started with this interval, and the listeners leave it alone -/
structure TicksEvery (i : Seconds) (e : Engine) : Prop where
  interval : e.ticker.interval = some i
  bystanding : Bystanding e.scripts

theorem kept_ticksEvery (i : Seconds) : KeptBySteps notify (TicksEvery i) where
  log := keptByLog_of_frame fun _ _ _ _ h => ⟨h.interval, h.bystanding⟩
  snapshot := fun _ _ h => ⟨h.interval, h.bystanding⟩
  stop := fun _ h => ⟨(Ticker.cancel_interval _).trans h.interval, h.bystanding⟩
  due := fun _ _ ht h => ⟨(Ticker.due_interval ht).trans h.interval, h.bystanding⟩
  heard := by
    intro e q h
    have hbystanding := bystanding_notify h.bystanding q
    obtain ⟨l, s, t, heq⟩ := (notify_aside h.bystanding q).leaves
    rw [heq] at hbystanding ⊢
    exact ⟨h.interval, hbystanding⟩
  subscribers := fun _ _ h => ⟨h.interval, h.bystanding⟩

/-- an interval that is not below the least one is not raised -/
theorem Fitted.max_least (h : Fitted c e) {m : ℤ} (hm : c.intAt "min_interval_ms" ≤ m) :
    (Seconds.ofMillis (.whole m)).max e.least = .ofMillis (.whole m) := by
  have hlt : (Seconds.ofMillis (.whole m)).lt (.ofMillis (.whole (c.intAt "min_interval_ms"))) = false :=
    decide_eq_false (by omega)
  rw [h.least, Seconds.max, hlt]
  rfl

/-- a run that is not declined starts the timer with the interval that it is asked for -/
theorem Fitted.run (h : Fitted c e) (hgo : (e.definition.isNone || e.snapshot.halted) = false)
    (hfloor : 0 ≤ c.intAt "min_interval_ms") {m : ℤ} (hm : c.intAt "min_interval_ms" ≤ m) :
    TicksEvery (.ofMillis (.whole m)) (run notify e (.ofMillis (.whole m))).engine := by
  have hnonneg : (Seconds.ofMillis (.whole m)).isNegative = false := by
    have hnumber : (Number.whole m).NonNegative := ⟨decide_eq_false (by omega), by simp⟩
    exact (Number.nonNegative_thousandth hnumber).1
  have hok := Ticker.start_ok h.loop hnonneg ()
  cases ht : e.ticker.start (.ofMillis (.whole m)) () with
  | mk t r =>
    rw [ht] at hok
    obtain rfl : r = .ok () := hok
    have hkept := kept_ticksEvery (.ofMillis (.whole m))
    have hticker : TicksEvery (.ofMillis (.whole m)) { e with ticker := t } :=
      ⟨Ticker.start_interval ht, h.bystanding⟩
    have hstarted := hkept.log.note _ (.runCalled true) id hticker
    rw [run_of_ready hgo, h.max_least hm, ht]
    simp only
    have hlogged := hkept.log.logEvent hstarted (.run (.ofMillis (.whole m))
      ({ e with ticker := t }.note (.runCalled true)).snapshot.steps)
    refine keeps_andThen hlogged ?_
    intro _
    split_ifs
    · exact hlogged
    · exact hkept.commit hlogged _

end Engine

/-! ## Live runs -/

namespace Live

variable {e : Engine} {c : Config} {P : Engine → Prop}

theorem keeps_watch (h : KeptBySteps Engine.notify P) (k : ℕ) (hp : P e) : P (watch k e).engine := by
  induction k generalizing e with
  | zero => exact hp
  | succ k ih =>
    have hfire := h.fire hp
    unfold watch
    split_ifs
    · simp only
      split
      · exact hfire
      · exact ih hfire
      · exact ih hfire
      · exact hfire
    · exact hp

theorem keeps_finish (h : KeptBySteps Engine.notify P) {o : Outcome Unit} (hp : P o.engine) : P (finish o).engine := by
  have hpause := h.pause hp
  have hdetached := h.unsubscribe hpause display
  unfold finish
  simp only
  split
  · exact hpause
  · split
    · exact hdetached
    · exact hdetached

theorem bystanding_script (stopAt : Option ℕ) : ∀ r ∈ script stopAt, ∀ a ∈ r.commands, a.aside = true := by
  intro r hr a ha
  match stopAt with
  | none => cases hr
  | some 0 => cases hr
  | some (n + 1) =>
    rcases List.mem_append.1 hr with hr | hr
    · rw [List.eq_of_mem_replicate hr] at ha
      cases ha
    · rw [List.mem_singleton.1 hr] at ha
      rw [List.mem_singleton.1 ha]
      rfl

/-- the display leaves the machine alone, and may be interrupted -/
theorem fitted_attach (h : Fitted c e) (stopAt : Option ℕ) : Fitted c (attach e stopAt) := by
  refine ⟨h.least, h.loop, ?_⟩
  intro s hs
  rcases List.mem_append.1 hs with hs | hs
  · exact h.bystanding s (List.mem_filter.1 hs).1
  · rw [List.mem_singleton.1 hs]
    exact bystanding_script stopAt

theorem fitted_drive (h : Fitted c e) (i : Seconds) (stopAt : Option ℕ) (patience : ℕ) :
    Fitted c (drive e i stopAt patience).engine := by
  have hkept := kept_fitted c
  have hrun := hkept.run (fitted_attach h stopAt) i
  exact keeps_finish hkept.toKeptBySteps (keeps_andThen hrun fun _ => keeps_watch hkept.toKeptBySteps patience hrun)

/-- **A live run leaves the timer with the interval that it was asked for**, whatever the log and the display do. -/
theorem ticksEvery_drive (h : Fitted c e) (hgo : (e.definition.isNone || e.snapshot.halted) = false)
    (hfloor : 0 ≤ c.intAt "min_interval_ms") {m : ℤ} (hm : c.intAt "min_interval_ms" ≤ m) (stopAt : Option ℕ)
    (patience : ℕ) : TicksEvery (.ofMillis (.whole m)) (drive e (.ofMillis (.whole m)) stopAt patience).engine := by
  have hkept := kept_ticksEvery (.ofMillis (.whole m))
  have hrun := (fitted_attach h stopAt).run hgo hfloor hm
  exact keeps_finish hkept (keeps_andThen hrun fun _ => keeps_watch hkept patience hrun)

end Live

/-! ## Shells -/

/-- a shell of the settings `c`, at the speed of the settings or at one that was brought into its range -/
structure Tuned (c : Config) (s : Shell) : Prop where
  config : s.config = c
  speed : ∃ k, s.speed = .whole k ∧ (k = c.intAt "default_speed" ∨ 0 ≤ k ∧ k ≤ maxSpeed)
  engine : Fitted c s.engine

section Tuned

variable {c : Config} {s : Shell}

theorem Tuned.withEngine (h : Tuned c s) {e : Engine} (he : Fitted c e) : Tuned c { s with engine := e } :=
  ⟨h.config, h.speed, he⟩

theorem Tuned.withSpeed (h : Tuned c s) (n : ℤ) : Tuned c { s with speed := clampSpeed (.whole n) } := by
  obtain ⟨k, hk, hrange⟩ := clampSpeed_whole n
  exact ⟨h.config, ⟨k, hk, Or.inr hrange⟩, h.engine⟩

theorem Tuned.load (h : Tuned c s) (d : Definition) (input : Text) : Tuned c (s.load d input).1 := by
  have he := (kept_fitted c).loadDefinition h.engine d input
  unfold Shell.load
  simp only
  split
  · exact ⟨h.config, h.speed, he⟩
  · exact ⟨h.config, h.speed, he⟩
  · exact h.withEngine he

/-- a live run keeps the settings and the speed -/
theorem Tuned.run (h : Tuned c s) : Tuned c (Live.run s).1 := by
  unfold Live.run
  split
  · exact h
  · rename_i i _
    have hdriven := Live.fitted_drive h.engine i s.interrupts.head?.join s.patience
    exact ⟨h.config, h.speed, hdriven.least, hdriven.loop, hdriven.bystanding⟩

theorem Tuned.runOrPause (h : Tuned c s) : Tuned c (Live.runOrPause s).1 := by
  have hrun := h.run
  unfold Live.runOrPause
  generalize Live.run s = x at hrun ⊢
  obtain ⟨s', shown, r⟩ := x
  split
  · rename_i heq
    obtain rfl := (Prod.mk.inj heq).1
    exact hrun
  · rename_i heq
    obtain rfl := (Prod.mk.inj heq).1
    exact hrun.withEngine ((kept_fitted c).pause hrun.engine)
  · rename_i heq
    obtain rfl := (Prod.mk.inj heq).1
    exact hrun

theorem tuned_make {h : Host} (hc : c.Accepted) (hs : Shell.make c h = .ok s) : Tuned c s := by
  unfold Shell.make at hs
  cases hm : Shell.makeEngine c h with
  | error f =>
    rw [hm] at hs
    cases hs
  | ok e =>
    rw [hm] at hs
    obtain rfl := Except.ok.inj hs
    obtain ⟨journal, disk, e₀, hmake, rfl⟩ := Session.makeEngine_cases hm
    obtain rfl := eq_ofSettings hc hmake
    exact ⟨rfl, ⟨_, rfl, Or.inl rfl⟩, rfl, rfl, List.forall_mem_nil _⟩

theorem tuned_shell {g : Simulator.Given} {h : Host} (hc : c.Accepted) (hs : Simulator.shell c g h = .ok s) :
    Tuned c s := by
  unfold Simulator.shell at hs
  split at hs
  · cases hs
  · rename_i hm _
    obtain rfl := Except.ok.inj hs
    exact tuned_make hc hm
  · rename_i hm _
    obtain rfl := Except.ok.inj hs
    exact (tuned_make hc hm).withSpeed _
  · cases hs

end Tuned

/-! ## The menu -/

namespace Menu

variable {c : Config} {s : Shell}

theorem operate_tuned (h : Tuned c s) {op : Engine → Outcome Snapshot} (hop : Fitted c (op s.engine).engine) :
    Tuned c (operate s op).shell := by
  unfold operate
  simp only
  split
  · exact h.withEngine hop
  · exact h.withEngine hop

theorem loading_tuned (h : Tuned c s) (d : Definition) (input : Text) {taken : Shell → Shell × List Output}
    (ht : ∀ s, Tuned c s → Tuned c (taken s).1) : Tuned c (loading s d input taken).shell := by
  have hload := h.load d input
  unfold loading
  generalize s.load d input = x at hload ⊢
  obtain ⟨s', shown, r⟩ := x
  split
  · rename_i heq
    obtain rfl := (Prod.mk.inj heq).1
    exact ht _ hload
  · rename_i heq
    obtain rfl := (Prod.mk.inj heq).1
    exact hload
  · rename_i heq
    obtain rfl := (Prod.mk.inj heq).1
    exact hload

theorem run_tuned (h : Tuned c s) : Tuned c (run s).shell := by
  have hrun := h.runOrPause
  unfold run
  split_ifs
  · exact h
  · exact h
  · split
    · exact h
    · generalize Live.runOrPause s = x at hrun ⊢
      obtain ⟨s', shown, r⟩ := x
      split
      · rename_i heq
        obtain rfl := (Prod.mk.inj heq).1
        exact hrun
      · rename_i heq
        obtain rfl := (Prod.mk.inj heq).1
        exact hrun
      · rename_i heq
        obtain rfl := (Prod.mk.inj heq).1
        exact hrun

theorem option?_tuned (h : Tuned c s) {x : String} {t : Turn} (ht : option? s x = some t) : Tuned c t.shell := by
  have hkept := kept_fitted c
  unfold option? at ht
  split at ht
  all_goals first
    | obtain rfl := Option.some.inj ht
    | cases ht
  · exact h
  · exact h
  · exact h
  · unfold setInput
    split_ifs
    · exact h
    · exact h
  · unfold step
    split_ifs
    · exact h
    · exact h
    · exact operate_tuned h (hkept.step h.engine)
  · exact run_tuned h
  · exact operate_tuned h (hkept.reset h.engine)
  · exact operate_tuned h (hkept.restart h.engine)
  · exact h
  · exact h

theorem setSpeed_tuned (h : Tuned c s) (n : ℤ) : Tuned c (setSpeed s (.whole n)).shell := by
  have hset := h.withSpeed n
  unfold setSpeed
  simp only
  split
  · exact hset
  · exact hset

/-- **An answer keeps the settings, and sets the speed only within its range.** -/
theorem answer?_tuned (h : Tuned c s) {a : String} {q : Question} {t : Turn} (ht : answer? s a q = some t) :
    Tuned c t.shell := by
  cases q with
  | choice => exact option?_tuned h ht
  | presetIndex =>
    obtain ⟨n, -, rfl⟩ := Option.map_eq_some_iff.1 ht
    have hchoose : ∀ i, Tuned c (choosePreset s i).shell := by
      intro i
      unfold choosePreset
      split
      · exact h
      · exact loading_tuned h _ _ fun s hs => ⟨hs.config, hs.speed, hs.engine⟩
    cases n with
    | whole i => exact hchoose i
    | real x => exact hchoose (-1)
  | definitionPath =>
    obtain rfl := Option.some.inj ht
    unfold readDefinition
    split
    · exact h
    · split_ifs
      · exact ⟨h.config, h.speed, h.engine⟩
      · exact h
  | inputFor d path =>
    obtain rfl := Option.some.inj ht
    exact loading_tuned h d _ fun s hs => ⟨hs.config, hs.speed, hs.engine⟩
  | newInput =>
    obtain rfl := Option.some.inj ht
    unfold changeInput
    split
    · exact loading_tuned h _ _ fun s hs => hs
    · exact h
  | speed =>
    obtain ⟨n, hn, rfl⟩ := Option.map_eq_some_iff.1 ht
    obtain ⟨k, rfl⟩ : ∃ k, n = .whole k := by
      unfold numberAnswer? at hn
      split at hn
      · obtain ⟨k, -, rfl⟩ := Option.map_eq_some_iff.1 hn
        exact ⟨k, rfl⟩
      · obtain ⟨k, hk, -⟩ := h.speed
        exact ⟨k, (Option.some.inj hn).symm.trans hk⟩
    exact setSpeed_tuned h k

end Menu

/-- a dialogue of the menu after any answers, with files and time that go on between them -/
inductive Underway (c : Config) : Dialogue → Prop where
  | start {d : Dialogue} (h : Host) (hd : Simulator.interactive c h = .asking d) : Underway c d
  | world {d : Dialogue} (disk : Disk) (clock : Clock) (hd : Underway c d) :
      Underway c { d with shell := { d.shell with engine := { d.shell.engine with disk, clock } } }
  | answer {d : Dialogue} (a : String) (hd : Underway c d) : Underway c (d.answer a)

theorem tuned_interactive {c : Config} {h : Host} {d : Dialogue} (hc : c.Accepted)
    (hd : Simulator.interactive c h = .asking d) : Tuned c d.shell := by
  unfold Simulator.interactive at hd
  split at hd
  · cases hd
  · rename_i s hs
    have hload := (tuned_make hc hs).load Preset.first.definition Preset.first.input
    generalize s.load Preset.first.definition Preset.first.input = x at hload hd
    obtain ⟨s', shown, r⟩ := x
    cases r with
    | error f => cases hd
    | ok b =>
      obtain rfl := Progress.asking.inj hd
      rw [Dialogue.start, Dialogue.follow_shell]
      exact ⟨hload.config, hload.speed, hload.engine⟩

theorem Underway.tuned {c : Config} {d : Dialogue} (hc : c.Accepted) (h : Underway c d) : Tuned c d.shell := by
  induction h with
  | start h hd => exact tuned_interactive hc hd
  | world disk clock _ ih => exact ih.withEngine ⟨ih.engine.least, ih.engine.loop, ih.engine.bystanding⟩
  | @answer d a _ ih =>
    cases hw : d.waiting with
    | none =>
      rw [Dialogue.answer, hw]
      exact ih
    | some q =>
      rcases d.answer_cases hw a with ⟨t, ht, heq⟩ | ⟨-, hshell⟩
      · rw [heq, Dialogue.follow_shell]
        exact Menu.answer?_tuned ih ht
      · rw [hshell]
        exact ih

/-! ## The law of the pace -/

/-- a shell of which a live run may be asked for: of one run, with its machine loaded, or of the menu -/
inductive InUse (c : Config) : Shell → Prop where
  | once {s : Shell} (g : Simulator.Given) (h : Host) (hs : Simulator.shell c g h = .ok s) (d : Definition)
      (input : Text) : InUse c (s.load d input).1
  | menu {d : Dialogue} (hd : Underway c d) : InUse c d.shell

theorem InUse.tuned {c : Config} {s : Shell} (hc : c.Accepted) (h : InUse c s) : Tuned c s := by
  cases h with
  | once g h hs d input => exact (tuned_shell hc hs).load d input
  | menu hd => exact hd.tuned hc

/-- the pace of a shell at the speed `k` -/
structure Paced (c : Config) (s : Shell) (k : ℤ) : Prop where
  speed : s.speed = .whole k
  /-- the speed is that of the settings, or in its range -/
  origin : k = c.intAt "default_speed" ∨ 0 ≤ k ∧ k ≤ maxSpeed
  interval : s.interval =
    if (Seconds.ofMillis? (.whole (c.millis k))).isSome then .ok (.ofMillis (.whole (c.millis k)))
    else .error (.operand .quotientTooLarge)
  /-- an interval is not below the least one, nor above the longest one unless the speed is below zero -/
  bounds : ∀ i, s.interval = .ok i → ∃ x, i.rational? = some x ∧ (c.intAt "min_interval_ms" / 1000 : ℚ) ≤ x ∧
    (x ≤ (c.intAt "max_interval_ms" / 1000 : ℚ) ↔ 0 ≤ k)
  /-- a higher speed never makes it longer -/
  faster : ∀ k' i i', k ≤ k' → s.interval = .ok i → c.interval (.number (.whole k')) = .ok i' →
    ∃ x x', i.rational? = some x ∧ i'.rational? = some x' ∧ x' ≤ x
  /-- the engine does not raise it -/
  unraised : ∀ i, s.interval = .ok i → i.max s.engine.least = i
  /-- a live run of a machine that has not halted starts the timer with it -/
  runs : ∀ i, s.interval = .ok i → s.engine.definition.isSome = true → s.engine.snapshot.halted = false →
    (Live.run s).1.engine.ticker.interval = some i

theorem Tuned.paced {c : Config} {s : Shell} (hc : c.Accepted) (h : Tuned c s) : ∃ k, Paced c s k := by
  obtain ⟨k, hspeed, horigin⟩ := h.speed
  have hinterval : s.interval =
      if (Seconds.ofMillis? (.whole (c.millis k))).isSome then .ok (.ofMillis (.whole (c.millis k)))
      else .error (.operand .quotientTooLarge) := by
    rw [Shell.interval, h.config, hspeed, hc.interval k]
    split_ifs
    · rfl
    · rfl
  have hmillis : ∀ i, s.interval = .ok i → i = .ofMillis (.whole (c.millis k)) := by
    intro i hi
    rw [hinterval] at hi
    split_ifs at hi
    exact (Except.ok.inj hi).symm
  have hrational : ∀ m : ℤ, (Seconds.ofMillis (.whole m)).rational? = some ((m : ℚ) / 1000) := fun _ => rfl
  have hthousand : (0 : ℚ) < 1000 := by norm_num
  refine ⟨k, hspeed, horigin, hinterval, ?_, ?_, ?_, ?_⟩
  · intro i hi
    rw [hmillis i hi]
    refine ⟨_, hrational _, ?_, ?_⟩
    · rw [div_le_div_iff_of_pos_right hthousand]
      exact_mod_cast c.floor_le_millis k
    · rw [div_le_div_iff_of_pos_right hthousand, ← hc.millis_le_iff k]
      exact_mod_cast Iff.rfl
  · intro k' i i' hk hi hi'
    rw [hc.interval k'] at hi'
    split_ifs at hi'
    rw [hmillis i hi, ← Except.ok.inj hi']
    refine ⟨_, _, hrational _, hrational _, ?_⟩
    rw [div_le_div_iff_of_pos_right hthousand]
    exact_mod_cast c.millis_anti hk
  · intro i hi
    rw [hmillis i hi]
    exact h.engine.max_least (c.floor_le_millis k)
  · intro i hi hd hh
    have hgo : (s.engine.definition.isNone || s.engine.snapshot.halted) = false := by
      rw [hh, Bool.or_false, ← Option.not_isSome, hd]
      rfl
    have hdrive := Live.ticksEvery_drive h.engine hgo hc.floor (c.floor_le_millis k) s.interrupts.head?.join s.patience
    unfold Live.run
    rw [hi]
    rw [← hmillis i hi] at hdrive
    exact hdrive.interval

/-- **A live run keeps to the interval of its speed**: at least the least one and, at every speed that is not below
zero, at most the longest one; shorter or the same at a higher speed; and the very one that the timer is started with.
-/
theorem inUse_paced {c : Config} {s : Shell} (hc : c.validate = .ok ()) (hs : InUse c s) : ∃ k, Paced c s k :=
  (hs.tuned (c.validate_eq_ok_iff.1 hc)).paced (c.validate_eq_ok_iff.1 hc)

/-- the menu after its speed was set to a number beyond the range -/
def hurried : Shell := ((Session.opening.answer "9").answer "5000").shell

theorem inUse_paced_hurried :
    let c := Simulator.settingsWith 1000
    c.validate = .ok () ∧ InUse c hurried ∧ hurried.speed = .whole maxSpeed ∧
      hurried.interval = .ok (.ofMillis (.whole 50)) ∧
      (Live.run hurried).1.engine.ticker.interval = some (.ofMillis (.whole 50)) ∧ ∃ k, Paced c hurried k := by
  have hopening : Underway (Simulator.settingsWith 1000) Session.opening :=
    .start Session.evening (by with_unfolding_all rfl)
  have huse : InUse (Simulator.settingsWith 1000) hurried := .menu ((hopening.answer "9").answer "5000")
  exact ⟨Simulator.validate_settingsWith, huse, by decide +kernel, by decide +kernel, by decide +kernel,
    inUse_paced Simulator.validate_settingsWith huse⟩

/-- settings with a speed below zero -/
def reluctant : Config := (Simulator.settingsWith 1000).put "default_speed" (.ofInt (-500))

/-- **A speed of the settings below zero makes the interval longer than the longest one.** -/
theorem default_beyond_longest :
    ∃ s i x, reluctant.validate = .ok () ∧ InUse reluctant s ∧ s.interval = .ok i ∧ i.rational? = some x ∧
      (reluctant.intAt "max_interval_ms" / 1000 : ℚ) < x ∧ (Live.run s).1.engine.ticker.interval = some i := by
  have hc : reluctant.validate = .ok () := by with_unfolding_all rfl
  have hj : Shell.makeJournal reluctant (Simulator.host 20) = .ok (none, {}) := by with_unfolding_all rfl
  have hs : Simulator.shell reluctant [] (Simulator.host 20) =
      .ok (Simulator.newShell reluctant [] (Simulator.host 20) none {}) :=
    Simulator.shell_eq (reluctant.validate_eq_ok_iff.1 hc) (by decide +kernel) (fun got hgot => by cases hgot) hj
  refine ⟨_, .ofMillis (.whole 1500), 1500 / 1000, hc,
    .once [] (Simulator.host 20) hs Preset.first.definition Preset.first.input, by decide +kernel, rfl, ?_,
    by decide +kernel⟩
  have hlongest : reluctant.intAt "max_interval_ms" = 1000 := by with_unfolding_all rfl
  rw [hlongest]
  norm_num

end TapeMachine
