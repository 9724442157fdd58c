/-
Operations as sequences of changes.

Whatever listeners do that are called in the middle of an operation, the operation is a sequence of changes
(`perform_changes`). So is all that commands and listeners lead to, in any nesting (`Reaches`, `reaches_changes`).
Nothing else has to be looked at to prove an invariant: a property that every change keeps holds of every engine that
can be reached.
-/
import TapeMachine.Proofs.Changes

namespace TapeMachine
namespace Engine

variable {n : ℤ} {e e' : Engine}

/-! ## Operations that commit -/

section Operations

variable {notify : Engine → Snapshot → Outcome Unit}

/-- listeners that, whatever they do with an engine in order, only change -/
def Heard (n : ℤ) (notify : Engine → Snapshot → Outcome Unit) : Prop :=
  ∀ e q, Sound n e → Changes e (notify e q).engine

theorem commit_eq (hl : e.LogsAll) (q : Snapshot) :
    commit notify e q = (notify (e.place q).engine q).map fun _ => q := by
  rw [commit, Outcome.andThen_of_ok (place_records hl q).1]

/-- `e'` comes of `e` by a change to the snapshot `q`, and by what the listeners do that are given it -/
def Places (e : Engine) (q : Snapshot) (e' : Engine) : Prop := ∃ e₁, Change e e₁ ∧ e₁.snapshot = q ∧ Changes e₁ e'

theorem Places.changes {q : Snapshot} (h : Places e q e') : Changes e e' := by
  obtain ⟨e₁, hc, -, hcs⟩ := h
  exact (Relation.ReflTransGen.single hc).trans hcs

theorem Places.then {q : Snapshot} {e'' : Engine} (h : Places e q e') (hc : Changes e' e'') : Places e q e'' := by
  obtain ⟨e₁, hc₁, hq, hcs⟩ := h
  exact ⟨e₁, hc₁, hq, hcs.trans hc⟩

/-- an operation that comes, up to the records `ns`, to the engine `e₁`, and hands its snapshot on -/
def HandsOn (notify : Engine → Snapshot → Outcome Unit) (ns : List Note) (e₁ : Engine) (o : Outcome Snapshot) : Prop :=
  ∃ e', Records ns e₁ e' ∧ o = (notify e' e₁.snapshot).map fun _ => e₁.snapshot

theorem HandsOn.places {ns : List Note} {e₁ : Engine} {o : Outcome Snapshot} (ho : HandsOn notify ns e₁ o)
    (hn : Heard n notify) (h : Sound n e) (hc : ∀ e', Records ns e₁ e' → Change e e') :
    Places e e₁.snapshot o.engine := by
  obtain ⟨e', hrec, rfl⟩ := ho
  exact ⟨e', hc e' hrec, hrec.snapshot, hn e' _ ((hc e' hrec).sound h)⟩

theorem commit_handsOn {ns : List Note} {e₁ : Engine} (hl : e.LogsAll)
    (hrec : Records ns e₁ (e.place e₁.snapshot).engine) : HandsOn notify ns e₁ (commit notify e e₁.snapshot) :=
  ⟨_, hrec, commit_eq hl _⟩

theorem unrecorded_loaded (d : Definition) (input : Text) (n : ℤ) : Unrecorded (loaded · d input n) :=
  ⟨fun _ _ _ _ => rfl, fun _ => ⟨rfl, rfl, rfl, rfl⟩, fun _ => rfl, fun _ => rfl⟩

theorem loaded_stopTicker (e : Engine) (d : Definition) (input : Text) (n : ℤ) :
    e.stopTicker.loaded d input n = e.loaded d input n := by
  simp only [loaded, stopTicker, Ticker.cancel_cancel, freshly]

theorem Records.loadNotes {ns : List Note} (h : Records ns e e') (d : Definition) (input : Text) (n : ℤ) :
    e'.loadNotes d input n = e.loadNotes d input n := by
  have hlog := h.logNotes [.event (.loaded input d.initial d.table.length)]
  obtain ⟨j, disk, -, rfl⟩ := h.eq
  rw [Engine.loadNotes, hlog]
  rfl

theorem placed_stopTicker (e : Engine) {q : Snapshot} (hs : q.status ≠ .running) :
    e.stopTicker.placed q = e.placed q := by
  simp only [placed, stopTicker, if_neg hs, Ticker.cancel_cancel]

/-! ### Loads -/

/-- a load of a definition that can start hands a fresh snapshot on -/
theorem loadDefinition_handsOn (notify : Engine → Snapshot → Outcome Unit) {d : Definition} (hd : d.Valid)
    (hl : e.LogsAll) (hr : e.padding.count e.room = .ok n) (input : Text) :
    HandsOn notify (e.loadNotes d input n) (e.loaded d input n) (loadDefinition notify e d input) := by
  have hl₀ : (e.equip d input).LogsAll := hl.of_sameLog ⟨rfl, rfl, rfl, rfl⟩
  obtain ⟨hok, hlog⟩ := records_logEvent hl₀ (.loaded input d.initial d.table.length)
  have hl₁ := hlog.logs hl₀
  have hplace := (place_records hl₁ (e.freshly d input n)).2
  have hrec := (hlog.map (unrecorded_placed (e.freshly d input n))).trans hplace
  rw [hlog.placeNotes] at hrec
  have he : (e.equip d input).placed (e.freshly d input n) = e.loaded d input n := by
    simp only [equip, placed, loaded, stopTicker, freshly, Snapshot.fresh, reduceCtorEq, if_false,
      Ticker.cancel_cancel]
  rw [he] at hrec
  have hload : loadDefinition notify e d input =
      commit notify ((e.equip d input).logEvent (.loaded input d.initial d.table.length)).engine
        (e.freshly d input n) := by
    have hv : d.validate = .ok () := d.validate_ok_iff.2 hd
    have hr₀ : (e.equip d input).padding.count (e.equip d input).room = .ok n := hr
    have hpad : (e.equip d input).padding.isTruth = e.padding.isTruth := rfl
    simp only [loadDefinition, hv, hr₀]
    rw [Outcome.andThen_of_ok hok, freshly, ← hpad, ← hlog.padding]
  rw [hload]
  exact commit_handsOn hl₁ hrec

theorem loadDefinition_places (hn : Heard n notify) (h : Sound n e) {d : Definition} (hd : d.Valid) (input : Text) :
    Places e (e.freshly d input n) (loadDefinition notify e d input).engine :=
  (loadDefinition_handsOn notify hd h.logs h.room input).places hn h fun _ hrec => .load d input n hd h.room hrec

theorem loadDefinition_changes (hn : Heard n notify) (h : Sound n e) (d : Definition) (input : Text) :
    Changes e (loadDefinition notify e d input).engine := by
  cases hv : d.validate with
  | error f =>
    simp only [loadDefinition, hv]
    exact .refl
  | ok u => exact (loadDefinition_places hn h (d.validate_ok_iff.1 hv) input).changes

theorem load_changes (hn : Heard n notify) (h : Sound n e) (source : Source) (input : Text) :
    Changes e (load notify e source input).engine := by
  unfold load
  split
  · exact loadDefinition_changes hn h _ _
  · exact .refl

theorem not_running_of_none (h : Sound n e) (hd : e.definition = none) : e.snapshot.status ≠ .running := by
  rw [h.idle hd]
  decide

theorem reset_of_none (hd : e.definition = none) : reset notify e = e.stopTicker.done e.snapshot := by
  have hd' : e.stopTicker.definition = none := hd
  simp only [reset, hd']
  rfl

theorem reset_handsOn (notify : Engine → Snapshot → Outcome Unit) (h : Sound n e) {d : Definition}
    (hd : e.definition = some d) :
    HandsOn notify (e.loadNotes d "" n ++ e.logNotes [.event .reset]) (e.loaded d "" n) (reset notify e) := by
  have hd' : e.stopTicker.definition = some d := hd
  obtain ⟨hok, hlog⟩ := records_logEvent h.stopTicker.logs .reset
  have hsound := hlog.sound h.stopTicker
  obtain ⟨e', hload, heq⟩ := loadDefinition_handsOn notify (h.valid d hd) hsound.logs hsound.room ""
  have hrec := (hlog.map (unrecorded_loaded d "" n)).trans hload
  rw [loaded_stopTicker, hlog.loadNotes] at hrec
  have hfresh : ((e.stopTicker.logEvent .reset).engine.loaded d "" n).snapshot = (e.loaded d "" n).snapshot := by
    simp only [loaded, freshly, hlog.padding]
    rfl
  rw [hfresh] at heq
  refine ⟨e', hrec, ?_⟩
  simp only [reset, hd']
  rw [Outcome.andThen_of_ok hok, heq]

theorem reset_places (hn : Heard n notify) (h : Sound n e) {d : Definition} (hd : e.definition = some d) :
    Places e (e.freshly d "" n) (reset notify e).engine :=
  (reset_handsOn notify h hd).places hn h fun _ hrec => .reset d n hd (h.valid d hd) h.room hrec

theorem reset_changes (hn : Heard n notify) (h : Sound n e) : Changes e (reset notify e).engine := by
  cases hd : e.definition with
  | none =>
    rw [reset_of_none hd]
    exact .single (.stop (not_running_of_none h hd) rfl)
  | some d => exact (reset_places hn h hd).changes

theorem restart_of_none (hd : e.definition = none) : restart notify e = e.stopTicker.done e.snapshot := by
  have hd' : e.stopTicker.definition = none := hd
  simp only [restart, hd']
  rfl

theorem restart_handsOn (notify : Engine → Snapshot → Outcome Unit) (h : Sound n e) {d : Definition}
    (hd : e.definition = some d) :
    HandsOn notify (e.loadNotes d e.input n) (e.loaded d e.input n) (restart notify e) := by
  have hd' : e.stopTicker.definition = some d := hd
  obtain ⟨e', hrec, heq⟩ := loadDefinition_handsOn notify (h.valid d hd) h.stopTicker.logs h.room e.input
  rw [loaded_stopTicker] at hrec heq
  refine ⟨e', hrec, ?_⟩
  simp only [restart, hd']
  exact heq

theorem restart_places (hn : Heard n notify) (h : Sound n e) {d : Definition} (hd : e.definition = some d) :
    Places e (e.freshly d e.input n) (restart notify e).engine :=
  (restart_handsOn notify h hd).places hn h fun _ hrec => .load d e.input n (h.valid d hd) h.room hrec

theorem restart_changes (hn : Heard n notify) (h : Sound n e) : Changes e (restart notify e).engine := by
  cases hd : e.definition with
  | none =>
    rw [restart_of_none hd]
    exact .single (.stop (not_running_of_none h hd) rfl)
  | some d => exact (restart_places hn h hd).changes

/-! ### Steps -/

/-- a manual step, and a tick, commit the next snapshot -/
theorem advanceOnce_eq {q : Snapshot} (hq : e.next = some q) : advanceOnce notify e = commit notify e q := by
  rw [advanceOnce]
  cases hd : e.definition with
  | none =>
    rw [Engine.next, hd] at hq
    rw [← Option.some.inj hq]
  | some d =>
    rw [Engine.next, hd] at hq
    simp only [hq]

theorem advanceOnce_handsOn (notify : Engine → Snapshot → Outcome Unit) (hl : e.LogsAll) {q : Snapshot}
    (hq : e.next = some q) : HandsOn notify (e.placeNotes q) (e.placed q) (advanceOnce notify e) := by
  rw [advanceOnce_eq hq]
  exact commit_handsOn hl (place_records hl q).2

theorem step_of_not_manual (hs : e.snapshot.status.manual = false) : step notify e = e.done e.snapshot := by
  rw [step, hs]
  rfl

theorem step_of_manual (hs : e.snapshot.status.manual = true) : step notify e = advanceOnce notify e := by
  rw [step, if_pos hs]

theorem step_changes (hn : Heard n notify) (h : Sound n e) : Changes e (step notify e).engine := by
  cases hs : e.snapshot.status.manual with
  | false =>
    rw [step_of_not_manual hs]
    exact .refl
  | true =>
    obtain ⟨q, hq, -⟩ := h.next (Status.not_halted_of_manual hs)
    rw [step_of_manual hs]
    exact ((advanceOnce_handsOn notify h.logs hq).places hn h fun _ hrec => .step q hs hq hrec).changes

/-! ### Pauses and runs -/

theorem pause_handsOn (notify : Engine → Snapshot → Outcome Unit) (h : Sound n e) (hs : e.snapshot.status = .running) :
    HandsOn notify (.commit e.snapshot (e.withStatus .paused) e.subscribers ::
      e.logNotes [.event (.pause e.snapshot.steps)]) (e.placed (e.withStatus .paused)) (pause notify e) := by
  obtain ⟨hok, hlog⟩ := records_logEvent h.stopTicker.logs (.pause e.snapshot.steps)
  have hl₁ := hlog.logs h.stopTicker.logs
  have hp : (e.withStatus .paused).status ≠ .running := by
    intro hr
    cases hr
  have hrec := (hlog.map (unrecorded_placed _)).trans (place_records hl₁ (e.withStatus .paused)).2
  rw [placed_stopTicker e hp, hlog.placeNotes] at hrec
  rw [pause, if_pos hs, Outcome.andThen_of_ok hok, hlog.snapshot]
  exact commit_handsOn hl₁ hrec

theorem pause_places (hn : Heard n notify) (h : Sound n e) (hs : e.snapshot.status = .running) :
    Places e (e.withStatus .paused) (pause notify e).engine :=
  (pause_handsOn notify h hs).places hn h fun _ hrec => .pause hs hrec

theorem pause_of_not_running (hs : e.snapshot.status ≠ .running) : pause notify e = e.done e.snapshot := by
  rw [pause, if_neg hs]

theorem pause_changes (hn : Heard n notify) (h : Sound n e) : Changes e (pause notify e).engine := by
  by_cases hs : e.snapshot.status = .running
  · exact (pause_places hn h hs).changes
  · rw [pause_of_not_running hs]
    exact .refl

section Run

variable {interval : Seconds} {t : Ticker Unit}

theorem run_of_idle (hgo : (e.definition.isNone || e.snapshot.halted) = true) :
    run notify e interval = (e.stopTicker.note (.runCalled false)).done e.snapshot := by
  have hgo' : (e.stopTicker.definition.isNone || e.stopTicker.snapshot.halted) = true := hgo
  simp only [run, hgo', if_true]
  rfl

/-- a run asks the timer to start at an interval that is not below the least one -/
theorem run_of_ready (hgo : (e.definition.isNone || e.snapshot.halted) = false) :
    run notify e interval =
      match e.ticker.start (interval.max e.least) () with
      | (t, .error f) => ({ e with ticker := t }.note (.runCalled false)).fault (.ticker f)
      | (t, .ok ()) =>
        let e₁ := { e with ticker := t }.note (.runCalled true)
        (e₁.logEvent (.run (interval.max e.least) e₁.snapshot.steps)).andThen fun e _ =>
          if e.snapshot.status = .running then e.done e.snapshot
          else commit notify e { e.snapshot with status := .running } := by
  have hgo' : (e.stopTicker.definition.isNone || e.stopTicker.snapshot.halted) = false := hgo
  rw [← Ticker.start_cancel]
  simp only [run, hgo', Bool.false_eq_true, if_false]
  rfl

theorem run_of_refused (hgo : (e.definition.isNone || e.snapshot.halted) = false) {f : TickerFault}
    (ht : e.ticker.start (interval.max e.least) () = (t, .error f)) :
    run notify e interval = (e.stopTicker.note (.runCalled false)).fault (.ticker f) := by
  rw [run_of_ready hgo, ht, Ticker.start_error ht]
  rfl

/-- the records of a run for which the timer has started -/
theorem run_of_started (notify : Engine → Snapshot → Outcome Unit) (h : Sound n e)
    (hgo : (e.definition.isNone || e.snapshot.halted) = false)
    (ht : e.ticker.start (interval.max e.least) () = (t, .ok ())) :
    ∃ e₁, Records (e.startNotes (interval.max e.least)) { e with ticker := t } e₁ ∧
      run notify e interval =
        if e.snapshot.status = .running then e₁.done e₁.snapshot else commit notify e₁ (e.withStatus .running) := by
  have hnote := records_note { e with ticker := t } (.runCalled true)
  have hsnap : ({ e with ticker := t }.note (.runCalled true)).snapshot = e.snapshot := hnote.snapshot
  have hl := hnote.logs (h.logs.of_sameLog ⟨rfl, rfl, rfl, rfl⟩)
  obtain ⟨hok, hlog⟩ := records_logEvent hl (.run (interval.max e.least) e.snapshot.steps)
  have hrec := hnote.trans hlog
  rw [hnote.logNotes] at hrec
  refine ⟨_, hrec, ?_⟩
  rw [run_of_ready hgo, ht]
  simp only [hsnap]
  rw [Outcome.andThen_of_ok hok, hrec.snapshot]
  rfl

theorem run_handsOn (notify : Engine → Snapshot → Outcome Unit) (h : Sound n e)
    (hgo : (e.definition.isNone || e.snapshot.halted) = false)
    (ht : e.ticker.start (interval.max e.least) () = (t, .ok ())) (hs : e.snapshot.status ≠ .running) :
    HandsOn notify (.commit e.snapshot (e.withStatus .running) e.subscribers :: e.startNotes (interval.max e.least))
      { e with ticker := t, snapshot := e.withStatus .running } (run notify e interval) := by
  obtain ⟨e₁, hrec, heq⟩ := run_of_started notify h hgo ht
  have hl := hrec.logs (h.logs.of_sameLog ⟨rfl, rfl, rfl, rfl⟩)
  have hplace := (hrec.map (unrecorded_placed (e.withStatus .running))).trans
    (place_records hl (e.withStatus .running)).2
  rw [hrec.placeNotes] at hplace
  rw [heq, if_neg hs]
  exact commit_handsOn hl hplace

theorem run_changes (hn : Heard n notify) (h : Sound n e) (interval : Seconds) :
    Changes e (run notify e interval).engine := by
  cases hgo : e.definition.isNone || e.snapshot.halted with
  | true =>
    rw [run_of_idle hgo]
    refine .single (.decline ?_ (records_note _ _))
    rcases Bool.or_eq_true_iff.1 hgo with hd | hh
    · exact Or.inl (Option.isNone_iff_eq_none.1 hd)
    · exact Or.inr hh
  | false =>
    obtain ⟨hd, hh⟩ := Bool.or_eq_false_iff.1 hgo
    cases ht : e.ticker.start (interval.max e.least) () with
    | mk t r =>
      cases r with
      | error f =>
        rw [run_of_refused hgo ht]
        exact .single (.refuse interval f (by rw [ht]) (records_note _ _))
      | ok u =>
        by_cases hs : e.snapshot.status = .running
        · obtain ⟨e₁, hrec, heq⟩ := run_of_started notify h hgo ht
          rw [heq, if_pos hs]
          exact .single (.restart t _ ht hs hrec)
        · have hsome : e.definition.isSome = true := by
            rw [← Option.not_isNone, hd]
            rfl
          exact ((run_handsOn notify h hgo ht hs).places hn h fun _ hrec => .start t _ hsome hh ht hs hrec).changes

end Run

theorem runFor_changes (hn : Heard n notify) (h : Sound n e) (interval : Json) :
    Changes e (runFor notify e interval).engine := by
  unfold runFor
  split
  · exact run_changes hn h _
  · have hm : Changes e (e.stopTicker.note .runMistyped) := .single (.mistype (records_note _ _))
    simp only
    split_ifs
    · exact hm
    · exact hm

theorem stepWhile_changes (hn : Heard n notify) (start cap : ℤ) (fuel : ℕ) (h : Sound n e) :
    Changes e (stepWhile notify start cap fuel e).engine := by
  induction fuel generalizing e with
  | zero => exact .refl
  | succ fuel ih =>
    have hstep := step_changes hn h
    simp only [stepWhile]
    by_cases hw : e.wantsMore start cap = true
    · rw [if_pos hw]
      generalize step notify e = o at hstep ⊢
      obtain ⟨e₁, r⟩ := o
      cases r with
      | error f => exact hstep
      | ok q =>
        simp only
        split_ifs
        · exact hstep.trans (ih (hstep.sound h))
        · exact hstep
    · rw [if_neg hw]
      exact .refl

theorem runUntilHalt_changes (hn : Heard n notify) (h : Sound n e) (cap : Option Cap) :
    Changes e (runUntilHalt notify e cap).engine := by
  unfold runUntilHalt
  split
  · exact .refl
  · have hpause := pause_changes hn h
    generalize pause notify e = o at hpause ⊢
    obtain ⟨e₁, r⟩ := o
    cases r with
    | error f => exact hpause
    | ok q =>
      simp only [Outcome.andThen]
      split
      · exact hpause.trans (stepWhile_changes hn _ _ _ (hpause.sound h))
      · split_ifs
        · exact hpause
        · exact hpause

/-- an armed timer goes with a running machine, so that a tick that is due makes a step -/
theorem tick_handsOn (notify : Engine → Snapshot → Outcome Unit) (h : Sound n e) {t : Ticker Unit}
    (ht : e.ticker.due = some t) :
    ∃ q o, e.snapshot.status = .running ∧ e.next = some q ∧ tick notify { e with ticker := t } = o.map (fun _ => ()) ∧
      HandsOn notify (e.placeNotes q) ({ e with ticker := t }.placed q) o := by
  have hs : e.snapshot.status = .running := h.driven (h.owned.due ht).1
  obtain ⟨q, hq, -⟩ := h.next (Snapshot.not_halted_of_running hs)
  have hl : ({ e with ticker := t } : Engine).LogsAll := h.logs.of_sameLog ⟨rfl, rfl, rfl, rfl⟩
  have hq' : ({ e with ticker := t } : Engine).next = some q := hq
  refine ⟨q, _, hs, hq, ?_, advanceOnce_handsOn notify hl hq'⟩
  rw [tick, if_pos hs]

theorem tick_places (hn : Heard n notify) (h : Sound n e) {t : Ticker Unit} (ht : e.ticker.due = some t) :
    ∃ q, e.next = some q ∧ Places e q (tick notify { e with ticker := t }).engine := by
  obtain ⟨q, o, hs, hq, heq, ho⟩ := tick_handsOn notify h ht
  refine ⟨q, hq, ?_⟩
  rw [heq, Outcome.map_engine]
  exact ho.places hn h fun _ hrec => .tick t q ht hs hq hrec

/-- a tick that is due places the next snapshot, whether it fails or not -/
theorem fire_places (hn : Heard n notify) (h : Sound n e) {t : Ticker Unit} (ht : e.ticker.due = some t) :
    ∃ q, e.next = some q ∧ Places e q (fire notify e).engine := by
  obtain ⟨q, hq, htick⟩ := tick_places hn h ht
  refine ⟨q, hq, ?_⟩
  rw [fire, ht]
  simp only
  split
  · exact htick
  · exact htick.then (.single (.interrupt rfl))
  · exact htick.then (.single (.fail rfl))

theorem fire_changes (hn : Heard n notify) (h : Sound n e) : Changes e (fire notify e).engine := by
  cases ht : e.ticker.due with
  | none =>
    rw [fire, ht]
    exact .refl
  | some t =>
    obtain ⟨q, -, hplaces⟩ := fire_places hn h ht
    exact hplaces.changes

theorem unsubscribe_changes (e : Engine) (name : String) : Changes e (e.unsubscribe name).engine := by
  unfold unsubscribe
  split_ifs
  · exact .single (.subscribe _ rfl)
  · exact .refl

/-- **A command is a sequence of changes**, whatever the listeners do that it calls. -/
theorem perform_changes (hn : Heard n notify) (h : Sound n e) (self : String) (c : Command) :
    Changes e (perform notify self e c).engine := by
  cases c with
  | load source input => exact load_changes hn h _ _
  | step => exact step_changes hn h
  | run interval => exact run_changes hn h _
  | runFor interval => exact runFor_changes hn h _
  | pause => exact pause_changes hn h
  | reset => exact reset_changes hn h
  | restart => exact restart_changes hn h
  | runUntilHalt cap => exact runUntilHalt_changes hn h _
  | subscribe name => exact .single (.subscribe _ rfl)
  | unsubscribe name => exact unsubscribe_changes e name
  | fire => exact fire_changes hn h
  | fail => exact .refl
  | interrupt => exact .refl

end Operations

/-! ## Engines that can be reached -/

/-- `e'` comes of `e` by commands from outside and from listeners. A listener, when it is called, may do all that leads
to engines that can be reached, commands included, and may then fail or not; what it does may depend on the whole
engine, and so on all that has happened before, as far as there is a trace. -/
inductive Reaches : Engine → Engine → Prop where
  | refl (e : Engine) : Reaches e e
  | perform {e e' : Engine} (notify : Engine → Snapshot → Outcome Unit) (self : String) (c : Command) (h : Reaches e e')
      (hn : ∀ e q, Reaches e (notify e q).engine) : Reaches e (perform notify self e' c).engine
  /-- the trace tells of a delivery -/
  | deliver {e e' : Engine} (l : String) (q : Snapshot) (h : Reaches e e') : Reaches e (e'.note (.delivery l q))
  /-- the listeners have something else to do -/
  | script {e e' : Engine} (l : List (String × List Reaction)) (h : Reaches e e') : Reaches e { e' with scripts := l }

/-- **All that can be reached is reached by changes.** -/
theorem reaches_changes (h : Reaches e e') (hs : Sound n e) : Changes e e' := by
  induction h with
  | refl e => exact .refl
  | perform notify self c _ _ ih ihn =>
    have hn : Heard n notify := fun e q he => ihn e q he
    exact (ih hs).trans (perform_changes hn ((ih hs).sound hs) self c)
  | deliver l q _ ih => exact (ih hs).tail (.deliver l q rfl)
  | script l _ ih => exact (ih hs).tail (.script l rfl)

theorem Reaches.trans {e'' : Engine} (h : Reaches e e') (h' : Reaches e' e'') : Reaches e e'' := by
  induction h' with
  | refl e => exact h
  | perform notify self c _ hn ih _ => exact .perform notify self c (ih h) hn
  | deliver l q _ ih => exact .deliver l q (ih h)
  | script l _ ih => exact .script l (ih h)

theorem performAll_reaches {notify : Engine → Snapshot → Outcome Unit} (hn : ∀ e q, Reaches e (notify e q).engine)
    (self : String) (cs : List Command) (e : Engine) : Reaches e (performAll notify self e cs).engine := by
  induction cs generalizing e with
  | nil => exact .refl e
  | cons c cs ih =>
    have hc : Reaches e (perform notify self e c).engine := .perform notify self c (.refl e) hn
    rw [performAll, Outcome.andThen]
    split
    · exact hc.trans (ih _)
    · exact hc

theorem deliver_reaches {react : String → Engine → Snapshot → Outcome Unit}
    (hr : ∀ l e q, Reaches e (react l e q).engine) (q : Snapshot) (ls : List String) (e : Engine) :
    Reaches e (deliver react q e ls).engine := by
  induction ls generalizing e with
  | nil => exact .refl e
  | cons l ls ih =>
    have hl : Reaches e (react l (e.note (.delivery l q)) q).engine := (Reaches.deliver l q (.refl e)).trans (hr l _ q)
    rw [deliver, Outcome.andThen]
    split
    · exact hl.trans (ih _)
    · exact hl

theorem notifyAt_reaches (m : ℕ) (e : Engine) (q : Snapshot) : Reaches e (notifyAt m e q).engine := by
  induction m generalizing e q with
  | zero => exact deliver_reaches (fun _ e _ => .refl e) q _ e
  | succ m ih =>
    refine deliver_reaches ?_ q _ e
    intro l e q
    unfold takeReaction
    split
    · rename_i cs e₁ hcs
      split at hcs
      · split_ifs at hcs
        obtain ⟨rfl, rfl⟩ := Prod.mk.inj (Option.some.inj hcs)
        exact (Reaches.script _ (.refl e)).trans (performAll_reaches ih l _ _)
      · cases hcs
    · exact .refl e

/-- scripted listeners are a case of it -/
theorem notify_reaches (e : Engine) (q : Snapshot) : Reaches e (notify e q).engine := notifyAt_reaches _ e q

theorem applyAll_reaches (cs : List Command) (e : Engine) : Reaches e (e.applyAll cs) := by
  induction cs generalizing e with
  | nil => exact .refl e
  | cons c cs ih => exact (Reaches.perform notify "" c (.refl e) notify_reaches).trans (ih _)

end Engine
end TapeMachine
