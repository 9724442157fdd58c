/-
Accepted settings are enough to run safely.

Before listeners that do not fail every ordinary command that is given to a prepared engine comes to its end
(`perform_succeeds`), also when the listeners perform ordinary commands themselves (`Obliging.performs`): no cell is
written off the tape, the timer is never asked for a negative interval, and no setting is missing.

The tape has the padding and the input on it from the start, and a step adds at most one cell and moves the head by at
most one (`advance_near`); so the length of the tape lies between bounds that only the number of steps widens (`Roomy`).
Both are fields of `Safe`, which every engine that can be reached has (`reaches_safe`), where there is room for the
padding. A padding beyond all positions is accepted too, and no load gets by it (`boundless_unsafe`).
-/
import TapeMachine.Proofs.Coupling
import TapeMachine.Proofs.Settings

namespace TapeMachine

/-! ## The tape -/

section Tape

variable {d : Definition} {t : Table} {s q : Snapshot} {n : ℤ} {input : Text}

/-- one step apart: the head and the length of the tape differ by one at the most, and the tape grows by no more cells
than there are transitions -/
structure Near (s q : Snapshot) : Prop where
  head : |q.head - s.head| ≤ 1
  kept : s.tape.length ≤ q.tape.length
  grown : q.tape.length ≤ s.tape.length + (q.steps - s.steps)
  steps : s.steps ≤ q.steps ∧ q.steps ≤ s.steps + 1

theorem near_withStatus (s : Snapshot) (status : Status) : Near s { s with status } := by
  refine ⟨?_, le_rfl, ?_, le_rfl, ?_⟩
  · rw [sub_self, abs_zero]
    exact zero_le_one
  · rw [sub_self, add_zero]
  · exact (Int.lt_succ s.steps).le

theorem growTape_near (blank : Text) (tape : List Text) {head : ℤ} (h : 0 ≤ head ∧ head < tape.length) (m : Move) :
    |(growTape blank tape (head + m.shift)).2 - head| ≤ 1 ∧
      tape.length ≤ (growTape blank tape (head + m.shift)).1.length ∧
      (growTape blank tape (head + m.shift)).1.length ≤ tape.length + 1 := by
  have hm := m.shift_cases
  unfold growTape
  rw [abs_le]
  split_ifs
  · simp only [List.length_cons]
    omega
  · simp only [List.length_append, List.length_singleton]
    omega
  · simp only
    omega

theorem advance_near (h : advance d t s = some q) (hs : s.halted = false) (hr : s.InRange) : Near s q := by
  rcases advance_cases h hs with ⟨-, rfl⟩ | ⟨-, -, rfl⟩ | ⟨r, -, -, hq⟩
  · exact near_withStatus s _
  · exact near_withStatus s _
  · obtain ⟨tape, hw, rfl⟩ := Option.map_eq_some_iff.1 hq
    rw [writeCell_of_inRange hr] at hw
    obtain rfl := Option.some.inj hw
    have hlen : (s.tape.set s.head.toNat r.write).length = s.tape.length := List.length_set
    have hgrow := growTape_near d.blank (s.tape.set s.head.toNat r.write) (by rw [hlen]; exact hr) r.move
    rw [hlen] at hgrow
    obtain ⟨hhead, hkept, hgrown⟩ := hgrow
    refine ⟨hhead, hkept, ?_, ?_⟩
    · simp only
      omega
    · simp only
      omega

/-- the tape holds the padding and the input, and no more cells beyond them than there were steps -/
structure Roomy (n : ℤ) (input : Text) (s : Snapshot) : Prop where
  nonneg : 0 ≤ s.steps
  least : 2 * n + input.length ≤ s.tape.length
  most : s.tape.length ≤ 2 * n + input.length + s.steps

theorem roomy_fresh (d : Definition) (input : Text) (hn : 1 ≤ n) (truth : Bool) :
    Roomy n input { Snapshot.fresh d input n with truthHead := truth } := by
  have hinput : input.singletons.length = input.length := List.length_map _
  have hlen : ((Snapshot.fresh d input n).tape.length : ℤ) = 2 * n + input.length := by
    simp only [Snapshot.fresh, paddedTape, List.length_append, List.length_replicate, hinput]
    omega
  exact ⟨le_rfl, hlen.ge, by rw [hlen]; exact (add_zero _).ge⟩

theorem Roomy.near (h : Roomy n input s) (hq : Near s q) : Roomy n input q := by
  obtain ⟨hnonneg, hleast, hmost⟩ := h
  obtain ⟨-, hkept, hgrown, hsteps, -⟩ := hq
  refine ⟨by omega, by omega, by omega⟩

end Tape

namespace Engine

variable {n : ℤ} {e e' : Engine} {notify : Engine → Snapshot → Outcome Unit}

/-! ## Listeners that do not fail -/

/-- listeners that do not fail on an engine that is prepared, whatever they do with it -/
structure Obliging (n : ℤ) (notify : Engine → Snapshot → Outcome Unit) : Prop where
  listens : Listens notify
  succeeds : ∀ e q, Prepared n e → (notify e q).Succeeds

theorem Obliging.heard (h : Obliging n notify) : Heard n notify := fun e q he => reaches_changes (h.listens e q) he

/-! ## Operations that come to their end -/

theorem HandsOn.succeeds {ns : List Note} {e₁ : Engine} {o : Outcome Snapshot} (ho : HandsOn notify ns e₁ o)
    (hn : Obliging n notify) (h : Prepared n e) (hc : ∀ e', Records ns e₁ e' → Change e e') : o.Succeeds := by
  obtain ⟨e', hrec, rfl⟩ := ho
  exact (hn.succeeds e' _ (h.changes (.single (hc e' hrec)))).map _

section Operations

variable (hn : Obliging n notify) (h : Prepared n e)

include hn h

theorem loadDefinition_succeeds {d : Definition} (hd : d.Valid) (input : Text) :
    (loadDefinition notify e d input).Succeeds :=
  (loadDefinition_handsOn notify hd h.sound.logs h.sound.room input).succeeds hn h
    fun _ hrec => .load d input n hd h.sound.room hrec

theorem reset_succeeds : (reset notify e).Succeeds := by
  cases hd : e.definition with
  | none =>
    rw [reset_of_none hd]
    exact done_succeeds _ _
  | some d =>
    exact (reset_handsOn notify h.sound hd).succeeds hn h
      fun _ hrec => .reset d n hd (h.sound.valid d hd) h.sound.room hrec

theorem restart_succeeds : (restart notify e).Succeeds := by
  cases hd : e.definition with
  | none =>
    rw [restart_of_none hd]
    exact done_succeeds _ _
  | some d =>
    exact (restart_handsOn notify h.sound hd).succeeds hn h
      fun _ hrec => .load d e.input n (h.sound.valid d hd) h.sound.room hrec

theorem step_succeeds : (step notify e).Succeeds := by
  cases hs : e.snapshot.status.manual with
  | false =>
    rw [step_of_not_manual hs]
    exact done_succeeds _ _
  | true =>
    -- the head is on the tape, so that there is a cell to write
    obtain ⟨q, hq, -⟩ := h.sound.next (Status.not_halted_of_manual hs)
    rw [step_of_manual hs]
    exact (advanceOnce_handsOn notify h.sound.logs hq).succeeds hn h fun _ hrec => .step q hs hq hrec

theorem pause_succeeds : (pause notify e).Succeeds := by
  by_cases hs : e.snapshot.status = .running
  · exact (pause_handsOn notify h.sound hs).succeeds hn h fun _ hrec => .pause hs hrec
  · rw [pause_of_not_running hs]
    exact done_succeeds _ _

/-- no run is refused: its interval is at least the least one, which is not negative -/
theorem run_succeeds (interval : Seconds) : (run notify e interval).Succeeds := by
  cases hgo : e.definition.isNone || e.snapshot.halted with
  | true =>
    rw [run_of_idle hgo]
    exact done_succeeds _ _
  | false =>
    obtain ⟨t, ht⟩ := h.starts interval
    by_cases hs : e.snapshot.status = .running
    · obtain ⟨e₁, -, heq⟩ := run_of_started notify h.sound hgo ht
      rw [heq, if_pos hs]
      exact done_succeeds _ _
    · obtain ⟨hd, hh⟩ := Bool.or_eq_false_iff.1 hgo
      have hsome : e.definition.isSome = true := by
        rw [← Option.not_isNone, hd]
        rfl
      exact (run_handsOn notify h.sound hgo ht hs).succeeds hn h fun _ hrec => .start t _ hsome hh ht hs hrec

theorem runFor_succeeds {interval : Json} (hi : interval.number?.isSome = true) :
    (runFor notify e interval).Succeeds := by
  obtain ⟨x, hx⟩ := Option.isSome_iff_exists.1 hi
  rw [runFor, hx]
  exact run_succeeds hn h _

omit h in
theorem stepWhile_succeeds (start cap : ℤ) (fuel : ℕ) (h : Prepared n e) :
    (stepWhile notify start cap fuel e).Succeeds := by
  induction fuel generalizing e with
  | zero => exact done_succeeds _ _
  | succ fuel ih =>
    cases hw : e.wantsMore start cap with
    | false =>
      rw [stepWhile, hw]
      exact done_succeeds _ _
    | true =>
      have hstep := step_succeeds hn h
      have hchanges := step_changes hn.heard h.sound
      simp only [stepWhile, hw, if_true]
      generalize step notify e = o at hstep hchanges ⊢
      obtain ⟨e₁, r⟩ := o
      obtain ⟨q, rfl⟩ := hstep
      cases e.canMove with
      | false => exact done_succeeds _ _
      | true => exact ih (h.changes hchanges)

theorem runUntilHalt_succeeds {cap : Option Cap} (hcap : ∀ got, cap ≠ some (.error got)) :
    (runUntilHalt notify e cap).Succeeds := by
  obtain ⟨k, hk⟩ : ∃ k, cap.or e.cap = some (.ok k) := by
    rcases cap with _ | got | k
    · exact h.cap
    · exact absurd rfl (hcap got)
    · exact ⟨k, rfl⟩
  rw [runUntilHalt, hk]
  refine (pause_succeeds hn h).andThen ?_
  intro q
  exact stepWhile_succeeds hn _ _ _ (h.changes (pause_changes hn.heard h.sound))

theorem fire_succeeds : (fire notify e).Succeeds := by
  cases ht : e.ticker.due with
  | none =>
    rw [fire, ht]
    exact done_succeeds _ _
  | some t =>
    obtain ⟨q, o, hs, hq, heq, ho⟩ := tick_handsOn notify h.sound ht
    obtain ⟨u, hu⟩ := (ho.succeeds hn h fun _ hrec => .tick t q ht hs hq hrec).map fun _ => ()
    rw [fire, ht]
    simp only [heq, hu]
    exact done_succeeds _ _

end Operations

/-! ## Commands -/

/-- the commands that a user of the engine gives: an interval is a number, a cap is one too, and what is loaded is
accepted -/
def Ordinary : Command → Prop
  | .load source _ => ∃ d, resolve source = .ok d ∧ d.validate = .ok ()
  | .step => True
  | .run _ => True
  | .runFor interval => interval.number?.isSome = true
  | .pause => True
  | .reset => True
  | .restart => True
  | .runUntilHalt cap => ∀ got, cap ≠ some (.error got)
  | .subscribe _ => True
  | .fire => True
  | _ => False

/-- **An ordinary command comes to its end**, before listeners that do. -/
theorem perform_succeeds (hn : Obliging n notify) (h : Prepared n e) (self : String) {c : Command} (hc : Ordinary c) :
    (perform notify self e c).Succeeds := by
  cases c with
  | load source input =>
    obtain ⟨d, hr, hd⟩ := hc
    rw [perform, load, hr]
    exact (loadDefinition_succeeds hn h (d.validate_ok_iff.1 hd) _).map _
  | step => exact (step_succeeds hn h).map _
  | run interval => exact (run_succeeds hn h interval).map _
  | runFor interval => exact (runFor_succeeds hn h hc).map _
  | pause => exact (pause_succeeds hn h).map _
  | reset => exact (reset_succeeds hn h).map _
  | restart => exact (restart_succeeds hn h).map _
  | runUntilHalt cap => exact (runUntilHalt_succeeds hn h hc).map _
  | subscribe name => exact done_succeeds _ _
  | fire => exact (fire_succeeds hn h).map _
  | unsubscribe name => exact hc.elim
  | fail => exact hc.elim
  | interrupt => exact hc.elim

/-- listeners that do nothing -/
theorem obliging_done (n : ℤ) : Obliging n fun e _ => e.done () :=
  ⟨fun e _ => .refl e, fun e _ _ => done_succeeds e ()⟩

/-- listeners that perform ordinary commands, before listeners like these -/
theorem Obliging.performs (hn : Obliging n notify) (self : String) {cs : List Command} (hcs : ∀ c ∈ cs, Ordinary c) :
    Obliging n fun e _ => performAll notify self e cs := by
  refine ⟨fun e _ => performAll_reaches hn.listens self cs e, ?_⟩
  intro e q h
  induction cs generalizing e with
  | nil => exact done_succeeds e ()
  | cons c cs ih =>
    obtain ⟨hc, hcs⟩ := List.forall_mem_cons.1 hcs
    refine (perform_succeeds hn h self hc).andThen ?_
    intro u
    exact ih hcs _ (h.changes (perform_changes hn.heard h.sound self c))

/-! ## Engines that can be reached -/

/-- the tape of a machine has room for its input -/
def HasRoom (n : ℤ) (e : Engine) : Prop := ∀ d, e.definition = some d → Roomy n e.input e.snapshot

theorem Course.hasRoom (hs : Sound n e) (h : HasRoom n e) (hc : Course n e e') : HasRoom n e' := by
  intro d hd
  cases hc with
  | rest hm =>
    obtain ⟨hdef, -, hinput, hsnap⟩ := Machine.mk.inj hm
    rw [hinput, hsnap]
    exact h d (hdef.symm.trans hd)
  | load d' input hd' hm =>
    obtain ⟨-, -, hinput, hsnap⟩ := Machine.mk.inj hm
    rw [hinput, hsnap]
    exact roomy_fresh d' input hs.pos _
  | step q hh hq hm =>
    obtain ⟨hdef, -, hinput, hsnap⟩ := Machine.mk.inj hm
    have hd' : e.definition = some d := hdef.symm.trans hd
    have hadv := hq
    simp only [Engine.next, hd'] at hadv
    rw [hinput, hsnap]
    exact (h d hd').near (advance_near hadv hh (hs.inRange d hd'))
  | status q hh hq hd' hm =>
    obtain ⟨hdef, -, hinput, hsnap⟩ := Machine.mk.inj hm
    rw [hinput, hsnap]
    exact (h d (hdef.symm.trans hd)).near (near_withStatus e.snapshot q)

theorem Changes.hasRoom (hs : Sound n e) (h : HasRoom n e) (hc : Changes e e') : HasRoom n e' :=
  Changes.keeps (fun _ _ hs h hc => Course.hasRoom hs h hc) hs h hc

/-- nothing that is asked for in order can fail, and the tape is as it should be -/
structure Safe (n : ℤ) (e : Engine) : Prop where
  performs : ∀ notify self c, Obliging n notify → Ordinary c → (perform notify self e c).Succeeds
  inRange : ∀ d, e.definition = some d → e.snapshot.tape ≠ [] ∧ 0 ≤ e.snapshot.head ∧
    e.snapshot.head < e.snapshot.tape.length
  roomy : ∀ d, e.definition = some d → Roomy n e.input e.snapshot
  /-- by hand and by the timer there is a next snapshot, one step apart -/
  transition : ∀ d, e.definition = some d → e.snapshot.halted = false →
    ∃ q, advance d e.table e.snapshot = some q ∧ Near e.snapshot q

theorem Prepared.safe (h : Prepared n e) (hroom : HasRoom n e) : Safe n e where
  performs := fun _ self _ hn hc => perform_succeeds hn h self hc
  inRange := by
    intro d hd
    have hr := h.sound.inRange d hd
    exact ⟨hr.tape_ne_nil, hr⟩
  roomy := hroom
  transition := by
    intro d hd hh
    obtain ⟨q, hq, -⟩ := h.sound.next hh
    simp only [Engine.next, hd] at hq
    exact ⟨q, hq, advance_near hq hh (h.sound.inRange d hd)⟩

/-- **Accepted settings are enough to run safely** where there is room for the padding, whatever the commands from
outside and the listeners have done. The least interval fits the 64-bit format, there is a loop, and the log takes every
entry. -/
theorem reaches_safe {c : Config} (hc : c.validate = .ok ())
    (hfits : (Seconds.ofMillis? (.whole (c.intAt "min_interval_ms"))).isSome = true) (disk : Disk) (clock : Clock) :
    ∃ e, make c true disk clock = .ok e ∧
      ∀ (room : Option ℕ) (journal : Option Journal) (refused : List String) (tracing : Bool) (e' : Engine),
        e.padding.count room = .ok (c.intAt "tape_buffer") → { e with room, journal, refused, tracing }.LogsAll →
        Reaches { e with room, journal, refused, tracing } e' → Safe (c.intAt "tape_buffer") e' := by
  have hc' := c.validate_eq_ok_iff.1 hc
  have hm := make_of_accepted hc' true disk clock
  rw [if_pos hfits] at hm
  refine ⟨_, hm, ?_⟩
  intro room journal refused tracing e' hn hl h
  have hprep := prepared_of_make hc' hm hn hl
  have hchanges := reaches_changes h hprep.sound
  refine (hprep.changes hchanges).safe (Changes.hasRoom hprep.sound ?_ hchanges)
  intro d hd
  cases hd

/-- a listener that loads the machine again at every snapshot, steps, and asks for a run backwards in time -/
def tireless (e : Engine) (_ : Snapshot) : Outcome Unit :=
  performAll (fun e _ => e.done ()) "tireless" e [.restart, .step, .run (.given (.whole (-1)))]

theorem tireless_obliging (n : ℤ) : Obliging n tireless := by
  refine (obliging_done n).performs "tireless" ?_
  simp [Ordinary]

/-- the busy beaver after its first tick -/
def ticking : Engine :=
  applyAll (ofSettings Config.defaults true {} bench.clock)
    [.load (.definition Preset.busyBeaver) none, .run (.given (.whole 2)), .fire]

theorem ticking_safe :
    let e := ofSettings Config.defaults true {} bench.clock
    Config.defaults.validate = .ok () ∧
      (Seconds.ofMillis? (.whole (Config.defaults.intAt "min_interval_ms"))).isSome = true ∧ e.LogsAll ∧
      Reaches e ticking ∧ ticking.snapshot.status = .running ∧ Safe 50 ticking ∧ Obliging 50 tireless ∧
      (perform tireless "" ticking .fire).Succeeds := by
  have hl : (ofSettings Config.defaults true {} bench.clock).LogsAll := logsAll_of_no_journal rfl
  have hr : Reaches (ofSettings Config.defaults true {} bench.clock) ticking := applyAll_reaches _ _
  obtain ⟨e, hm, hsafe⟩ := reaches_safe validate_defaults floor_fits_defaults {} bench.clock
  obtain rfl : ofSettings Config.defaults true {} bench.clock = e :=
    Except.ok.inj ((make_defaults true {} bench.clock).symm.trans hm)
  have hsafe' := hsafe none none [] false ticking rfl hl hr
  exact ⟨validate_defaults, floor_fits_defaults, hl, hr, by decide +kernel, hsafe', tireless_obliging 50,
    hsafe'.performs _ "" .fire (tireless_obliging 50) trivial⟩

/-- the default settings with a padding beyond all positions -/
def boundlessSettings : Config := Config.defaults.put "tape_buffer" (.ofInt (2 ^ 63))

/-- **Accepted settings do not give room for their padding**: where room is limited at all, a load of a definition that
can start ends in a fault, and leaves the definition there with no tape for it. -/
theorem boundless_unsafe :
    let e := ofSettings boundlessSettings true {} bench.clock
    boundlessSettings.validate = .ok () ∧
      (Seconds.ofMillis? (.whole (boundlessSettings.intAt "min_interval_ms"))).isSome = true ∧
      make boundlessSettings true {} bench.clock = .ok e ∧ Ordinary (.load (.definition Preset.busyBeaver) none) ∧
      ∀ most, { e with room := some most }.LogsAll ∧
        ({ e with room := some most }.apply (.load (.definition Preset.busyBeaver) none)).result =
          .error (.operand .positionTooLarge) ∧
        ({ e with room := some most }.apply (.load (.definition Preset.busyBeaver) none)).engine.definition =
          some Preset.busyBeaver ∧
        ({ e with room := some most }.apply (.load (.definition Preset.busyBeaver) none)).engine.snapshot.tape =
          [] := by
  have hc : boundlessSettings.validate = .ok () := by with_unfolding_all rfl
  have hfits : (Seconds.ofMillis? (.whole (boundlessSettings.intAt "min_interval_ms"))).isSome = true := by
    decide +kernel
  have hm := make_of_accepted (boundlessSettings.validate_eq_ok_iff.1 hc) true {} bench.clock
  rw [if_pos hfits] at hm
  have hd : Preset.busyBeaver.validate = .ok () := by decide +kernel
  refine ⟨hc, hfits, hm, ⟨_, rfl, hd⟩, fun most => ⟨logsAll_of_no_journal rfl, ?_⟩⟩
  have hcount : (ofSettings boundlessSettings true {} bench.clock).padding.count (some most) =
      .error .positionTooLarge := by
    have hpadding : (ofSettings boundlessSettings true {} bench.clock).padding = .cells (2 ^ 63) := by decide +kernel
    rw [hpadding, Padding.count, Padding.fit]
    exact if_pos (by decide)
  simp only [apply, perform, load, resolve, loadDefinition, hd, equip, stopTicker, hcount, Outcome.map]
  exact ⟨rfl, rfl, rfl⟩

end Engine
end TapeMachine
