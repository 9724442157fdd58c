/-
The coupling of a run and its timer.

The status says whether a machine runs, the handle of the timer whether it will step, and the two are kept in different
places. With a least interval of zero or more, on a loop, they go together at every moment between two operations
(`Coupled`): there is at most one handle, there is one if and only if the timer is active, and then the machine runs.
The converse holds as long as no tick has failed since the last run call (`stalled`). Once the machine has stopped it
stays so, and nothing fires, until a run call starts the timer again (`stopped`).

Both are read off the trace, and every change keeps them in step with the status (`Change.timed`). The rest follows for
every engine that can be reached (`reaches_coupled`).
-/
import TapeMachine.Proofs.Course
import TapeMachine.Proofs.Intervals

namespace TapeMachine
namespace Engine

variable {n : ℤ} {e e' e'' : Engine}

/-! ## What the trace says -/

/-- since the last run call a tick has failed, or that call gave no number for its interval; the latest note comes first
-/
def stalled : List Note → Bool
  | [] => false
  | .runCalled _ :: _ => false
  | .runMistyped :: _ => true
  | .tickFailed :: _ => true
  | _ :: ns => stalled ns

/-- since a run call has last started the timer, a snapshot has come that does not run: the machine was paused, loaded,
reset or restarted, or has halted -/
def stopped : List Note → Bool
  | [] => true
  | .runCalled true :: _ => false
  | .commit _ q _ :: ns => decide (q.status ≠ .running) || stopped ns
  | _ :: ns => stopped ns

/-- notes of what was written to the log -/
def Logged (ns : List Note) : Prop := ∀ x ∈ ns, (∃ ev, x = .event ev) ∨ ∃ r, x = .halted r

theorem Logged.cons {ns : List Note} {x : Note} (h : Logged (x :: ns)) :
    ((∃ ev, x = .event ev) ∨ ∃ r, x = .halted r) ∧ Logged ns :=
  ⟨h x List.mem_cons_self, fun y hy => h y (List.mem_cons_of_mem x hy)⟩

theorem logged_logNotes {ns : List Note} (h : Logged ns) (e : Engine) : Logged (e.logNotes ns) := by
  unfold logNotes
  split_ifs
  · exact h
  · intro x hx
    cases hx

theorem logged_event (ev : Event) : Logged [.event ev] := fun _ hx => Or.inl ⟨ev, List.mem_singleton.1 hx⟩

theorem logged_haltNotes (e : Engine) (q : Snapshot) : Logged (e.haltNotes q) := by
  refine logged_logNotes ?_ e
  intro x hx
  rcases List.mem_append.1 hx with hx | hx
  · rw [Option.mem_toList, Option.map_eq_some_iff] at hx
    obtain ⟨d, -, rfl⟩ := hx
    exact Or.inr ⟨_, rfl⟩
  · exact logged_event _ x hx

theorem stopped_logged {ns : List Note} (h : Logged ns) (tr : List Note) : stopped (ns ++ tr) = stopped tr := by
  induction ns with
  | nil => rfl
  | cons x ns ih =>
    obtain ⟨⟨ev, rfl⟩ | ⟨r, rfl⟩, hns⟩ := h.cons
    · exact ih hns
    · exact ih hns

theorem stopped_placeNotes (e : Engine) (q : Snapshot) (tr : List Note) :
    stopped (e.placeNotes q ++ tr) = (decide (q.status ≠ .running) || stopped tr) := by
  unfold placeNotes
  split_ifs
  · rw [List.append_assoc, stopped_logged (logged_haltNotes e q)]
    rfl
  · rfl

theorem stopped_startNotes (e : Engine) (interval : Seconds) (tr : List Note) :
    stopped (e.startNotes interval ++ tr) = false := by
  rw [startNotes, List.append_assoc, stopped_logged (logged_logNotes (logged_event _) e)]
  rfl

/-- a machine that has stopped stays so until a run call starts the timer -/
theorem stopped_append {tr new : List Note} (h : stopped tr = true) (hno : Note.runCalled true ∉ new) :
    stopped (new ++ tr) = true := by
  induction new with
  | nil => exact h
  | cons x new ih =>
    have ih' := ih fun hx => hno (List.mem_cons_of_mem x hx)
    cases x with
    | runCalled started =>
      cases started with
      | true => exact absurd List.mem_cons_self hno
      | false => exact ih'
    | commit p q audience =>
      rw [List.cons_append, stopped, ih', Bool.or_true]
    | delivery l q => exact ih'
    | event ev => exact ih'
    | halted r => exact ih'
    | runMistyped => exact ih'
    | tickFailed => exact ih'

/-! ## Status, timer and trace -/

/-- the engine ticks on a loop, its least interval is not negative, and it keeps a trace -/
structure OnLoop (e : Engine) : Prop where
  loop : e.ticker.loop = true
  floor : ∃ m : Number, m.NonNegative ∧ e.least = .ofMillis m
  tracing : e.tracing = true

/-- status, timer and trace agree -/
structure Timed (e : Engine) : Prop where
  onLoop : e.OnLoop
  armed : stalled e.trace = false → e.snapshot.status = .running → e.ticker.active = true
  stopped_iff : stopped e.trace = true ↔ e.snapshot.status ≠ .running

theorem Records.trace {ns : List Note} (h : Records ns e e') (ht : e.tracing = true) : e'.trace = ns ++ e.trace := by
  obtain ⟨j, d, -, rfl⟩ := h.eq
  simp only [traced, ht, if_true]

theorem Records.onLoop {ns : List Note} (h : Records ns e e') (ho : OnLoop e) : OnLoop e' := by
  obtain ⟨j, d, -, rfl⟩ := h.eq
  exact ⟨ho.loop, ho.floor, ho.tracing⟩

/-- notes keep status, timer and trace in agreement if they say what has become of the status and the timer -/
theorem Records.timed {ns : List Note} (h : Records ns e e') (ho : OnLoop e)
    (ha : stalled (ns ++ e.trace) = false → e.snapshot.status = .running → e.ticker.active = true)
    (hs : stopped (ns ++ e.trace) = true ↔ e.snapshot.status ≠ .running) : Timed e' := by
  have hloop := h.onLoop ho
  have htrace := h.trace ho.tracing
  obtain ⟨j, d, -, rfl⟩ := h.eq
  refine ⟨hloop, ?_, ?_⟩
  · rw [htrace]
    exact ha
  · rw [htrace]
    exact hs

theorem OnLoop.stopTicker (h : OnLoop e) : OnLoop e.stopTicker :=
  ⟨(Ticker.cancel_loop e.ticker).trans h.loop, h.floor, h.tracing⟩

theorem OnLoop.placed (h : OnLoop e) (q : Snapshot) : OnLoop (e.placed q) := by
  refine ⟨?_, h.floor, h.tracing⟩
  unfold Engine.placed
  split_ifs
  · exact h.loop
  · exact (Ticker.cancel_loop e.ticker).trans h.loop

/-- a snapshot is placed that does not run -/
theorem Records.timed_placed {q : Snapshot} (h : Records (e.placeNotes q) (e.placed q) e') (ho : OnLoop e)
    (hq : q.status ≠ .running) : Timed e' := by
  refine h.timed (ho.placed q) (fun _ hr => absurd hr hq) ?_
  have htrace : (e.placed q).trace = e.trace := rfl
  rw [htrace, stopped_placeNotes, decide_eq_true hq, Bool.true_or]
  exact iff_of_true rfl hq

/-- a machine is loaded -/
theorem Records.timed_loaded {ns : List Note} {d : Definition} {input : Text} {m : ℤ}
    (h : Records ns (e.loaded d input m) e') (ho : OnLoop e) (hns : stopped (ns ++ e.trace) = true) : Timed e' := by
  have hidle : (e.loaded d input m).snapshot.status ≠ .running := by
    intro hr
    cases hr
  refine h.timed ⟨(Ticker.cancel_loop e.ticker).trans ho.loop, ho.floor, ho.tracing⟩ ?_ (iff_of_true hns hidle)
  intro _ hr
  exact absurd hr hidle

/-- **Every change keeps status, timer and trace in agreement.** -/
theorem Change.timed (hs : Sound n e) (h : Timed e) (hc : Change e e') : Timed e' := by
  have ho := h.onLoop
  cases hc with
  | load d input m hd hn h' => exact h'.timed_loaded ho rfl
  | reset d m he hd hn h' => exact h'.timed_loaded ho rfl
  | step q hm hq h' =>
    exact h'.timed_placed ho (next_not_running hq (Status.not_running_of_manual hm))
  | tick t q ht hr hq h' =>
    have ho' : OnLoop { e with ticker := t } := ⟨(Ticker.due_loop ht).trans ho.loop, ho.floor, ho.tracing⟩
    by_cases hrun : q.status = .running
    · refine h'.timed (ho'.placed q) ?_ ?_
      · intro _ _
        rw [Engine.placed, if_pos hrun]
        exact (hs.owned.due ht).2.2
      · have htrace : ({ e with ticker := t }.placed q).trace = e.trace := rfl
        have hstopped : ¬ stopped e.trace = true := fun hst => h.stopped_iff.1 hst hr
        rw [htrace, stopped_placeNotes, decide_eq_false (not_not.2 hrun), Bool.false_or]
        exact iff_of_false hstopped (not_not.2 hrun)
    · exact h'.timed_placed (e := { e with ticker := t }) ho' hrun
  | start t interval hd hh ht hr h' =>
    refine h'.timed ⟨(Ticker.start_loop ht).trans ho.loop, ho.floor, ho.tracing⟩ (fun _ _ => (hs.owned.start ht).2) ?_
    rw [List.cons_append, stopped, stopped_startNotes, Bool.or_false, decide_eq_true_iff]
  | restart t interval ht hr h' =>
    refine h'.timed ⟨(Ticker.start_loop ht).trans ho.loop, ho.floor, ho.tracing⟩ (fun _ _ => (hs.owned.start ht).2) ?_
    rw [stopped_startNotes]
    exact iff_of_false Bool.false_ne_true (not_not.2 hr)
  | decline hd h' =>
    have hnr : e.snapshot.status ≠ .running := by
      rcases hd with hd | hd
      · rw [hs.idle hd]
        decide
      · intro hr
        rw [Snapshot.halted, hr] at hd
        cases hd
    exact h'.timed ho.stopTicker (fun _ hr => absurd hr hnr) h.stopped_iff
  | refuse interval f ht h' =>
    obtain ⟨m, hm, hleast⟩ := ho.floor
    rw [hleast, Ticker.start_ok ho.loop (Seconds.isNegative_max hm interval)] at ht
    cases ht
  | mistype h' =>
    refine h'.timed ho.stopTicker ?_ h.stopped_iff
    intro hst
    cases hst
  | pause hr h' =>
    have hp : (e.withStatus .paused).status ≠ .running := by
      intro hr
      cases hr
    exact h'.timed (ho.placed _) (fun _ hq => absurd hq hp) (iff_of_true rfl hp)
  | stop hr h' =>
    rw [h']
    exact ⟨ho.stopTicker, fun _ hq => absurd hq hr, h.stopped_iff⟩
  | fail h' =>
    rw [h']
    refine (records_note _ _).timed ho.stopTicker ?_ h.stopped_iff
    intro hst
    cases hst
  | interrupt h' =>
    rw [h']
    refine (records_note _ _).timed ho ?_ h.stopped_iff
    intro hst
    cases hst
  | subscribe l h' => rw [h']; exact ⟨⟨ho.loop, ho.floor, ho.tracing⟩, h.armed, h.stopped_iff⟩
  | script l h' => rw [h']; exact ⟨⟨ho.loop, ho.floor, ho.tracing⟩, h.armed, h.stopped_iff⟩
  | deliver l q h' =>
    rw [h']
    exact (records_note _ _).timed ho h.armed h.stopped_iff

theorem Changes.timed (hs : Sound n e) (h : Timed e) (hc : Changes e e') : Timed e' :=
  Changes.preserve (fun hs h hc => hc.timed hs h) hs h hc

/-! ## Between two operations -/

/-- nothing runs, and nothing is there to fire -/
structure Still (e : Engine) : Prop where
  status : e.snapshot.status ≠ .running
  pending : e.ticker.pending = []
  fire : ∀ notify, fire notify e = e.done false

/-- the commands that stop a machine: a pause, a reset, a restart, and a load that is accepted -/
def Stops : Command → Prop
  | .pause => True
  | .reset => True
  | .restart => True
  | .load source _ => ∃ d, resolve source = .ok d ∧ d.Valid
  | _ => False

/-- listeners that do what leads to engines that can be reached -/
def Listens (notify : Engine → Snapshot → Outcome Unit) : Prop := ∀ e q, Reaches e (notify e q).engine

/-- no run call has started the timer between `e` and `e'` -/
def NoRunSince (e e' : Engine) : Prop := ∃ new, e'.trace = new ++ e.trace ∧ Note.runCalled true ∉ new

/-- firing does nothing, or it makes one step and gives the next snapshot to the listeners; a fault of theirs ends the
repetition, unless it is an interrupt -/
def FiresOnce (e : Engine) (notify : Engine → Snapshot → Outcome Unit) : Prop :=
  fire notify e = e.done false ∨
    ∃ t q, e.ticker.due = some t ∧ e.next = some q ∧
      let e₁ := ({ e with ticker := t }.place q).engine
      e₁.snapshot = q ∧
        ((fire notify e).engine = (notify e₁ q).engine ∨
          (fire notify e).engine = (notify e₁ q).engine.note .tickFailed ∨
          (fire notify e).engine = (notify e₁ q).engine.stopTicker.note .tickFailed)

/-- a run and its timer go together -/
structure Coupled (e : Engine) : Prop where
  atMostOne : e.ticker.pending.length ≤ 1
  one_iff : e.ticker.pending.length = 1 ↔ e.ticker.active = true
  driven : e.ticker.active = true → e.snapshot.status = .running
  armed : stalled e.trace = false → e.snapshot.status = .running → e.ticker.pending.length = 1
  /-- since the machine has stopped, in the middle of an operation or not, no run call has started the timer -/
  still : stopped e.trace = true → e.Still
  /-- the same after a command that stops it, whatever else happens then -/
  stops : ∀ notify self c e', Listens notify → Stops c → Reaches (perform notify self e c).engine e' → NoRunSince e e' →
    e'.Still
  fires : ∀ notify, e.FiresOnce notify

theorem Sound.still (h : Sound n e) (hs : e.snapshot.status ≠ .running) : e.Still := by
  have hp : e.ticker.pending = [] := by
    have ho := h.owned
    unfold Ticker.Owned at ho
    cases hh : e.ticker.handle with
    | none => rw [ho, hh]; rfl
    | some k => exact absurd (h.driven (by rw [Ticker.active, hh]; rfl)) hs
  refine ⟨hs, hp, ?_⟩
  intro notify
  unfold Engine.fire Ticker.due
  rw [hp]

theorem Change.grows (ht : e.tracing = true) (hc : Change e e') : ∃ new, e'.trace = new ++ e.trace := by
  cases hc with
  | load d input m hd hn h' => exact ⟨_, h'.trace ht⟩
  | reset d m he hd hn h' => exact ⟨_, h'.trace ht⟩
  | step q hm hq h' => exact ⟨_, h'.trace ht⟩
  | tick t q hd hr hq h' => exact ⟨_, h'.trace ht⟩
  | start t interval hd hh hi hr h' => exact ⟨_, h'.trace ht⟩
  | restart t interval hi hr h' => exact ⟨_, h'.trace ht⟩
  | decline hd h' => exact ⟨_, h'.trace ht⟩
  | refuse interval f hi h' => exact ⟨_, h'.trace ht⟩
  | mistype h' => exact ⟨_, h'.trace ht⟩
  | pause hr h' => exact ⟨_, h'.trace ht⟩
  | stop hr h' => exact ⟨[], by rw [h']; rfl⟩
  | fail h' => rw [h']; exact ⟨_, (records_note _ _).trace ht⟩
  | interrupt h' => rw [h']; exact ⟨_, (records_note _ _).trace ht⟩
  | subscribe l h' => exact ⟨[], by rw [h']; rfl⟩
  | script l h' => exact ⟨[], by rw [h']; rfl⟩
  | deliver l q h' => rw [h']; exact ⟨_, (records_note _ _).trace ht⟩

theorem Changes.grows (ht : e.tracing = true) (hc : Changes e e') : ∃ new, e'.trace = new ++ e.trace := by
  induction hc with
  | refl => exact ⟨[], rfl⟩
  | tail hm hc ih =>
    obtain ⟨new, hnew⟩ := ih
    obtain ⟨newer, hnewer⟩ := hc.grows ((Changes.sameMake hm).tracing.trans ht)
    exact ⟨newer ++ new, by rw [hnewer, hnew, List.append_assoc]⟩

/-- the machine has stopped at `e`, and no run call has started the timer since -/
theorem Changes.still (hs : Sound n e) (h : Timed e) (hq : e.snapshot.status ≠ .running) (hc : Changes e e')
    {new : List Note} (hnew : e'.trace = new ++ e.trace) (hno : Note.runCalled true ∉ new) : e'.Still := by
  refine (Changes.sound hs hc).still ?_
  rw [← (Changes.timed hs h hc).stopped_iff, hnew]
  exact stopped_append (h.stopped_iff.2 hq) hno

/-- a command places a snapshot that does not run: what comes after it is still -/
theorem Places.still (hs : Sound n e) (h : Timed e) {q : Snapshot} (hp : Places e q e') (hq : q.status ≠ .running)
    (hc : Changes e' e'') (hno : NoRunSince e e'') : e''.Still := by
  obtain ⟨e₁, hc₁, rfl, hcs⟩ := hp
  obtain ⟨new, hnew, hrun⟩ := hno
  have hs₁ := hc₁.sound hs
  have h₁ := hc₁.timed hs h
  obtain ⟨first, hfirst⟩ := hc₁.grows h.onLoop.tracing
  obtain ⟨later, hlater⟩ := Changes.grows h₁.onLoop.tracing (hcs.trans hc)
  have hsplit : later ++ first = new := by
    rw [hlater, hfirst, ← List.append_assoc] at hnew
    exact List.append_cancel_right hnew
  refine Changes.still hs₁ h₁ hq (hcs.trans hc) hlater fun hm => hrun ?_
  rw [← hsplit]
  exact List.mem_append_left first hm

theorem stops_still {notify : Engine → Snapshot → Outcome Unit} (hn : Heard n notify) (hs : Sound n e) (h : Timed e)
    (self : String) {c : Command} (hst : Stops c) (hc : Changes (perform notify self e c).engine e')
    (hno : NoRunSince e e') : e'.Still := by
  have hrest : e.snapshot.status ≠ .running → Changes e e' → e'.Still := by
    intro hr hc'
    obtain ⟨new, hnew, hrun⟩ := hno
    exact Changes.still hs h hr hc' hnew hrun
  cases c with
  | pause =>
    by_cases hr : e.snapshot.status = .running
    · exact Places.still hs h (pause_places hn hs hr) (fun h => by cases h) hc hno
    · exact hrest hr ((pause_changes hn hs).trans hc)
  | reset =>
    cases hd : e.definition with
    | none => exact hrest (not_running_of_none hs hd) ((reset_changes hn hs).trans hc)
    | some d => exact Places.still hs h (reset_places hn hs hd) (fun h => by cases h) hc hno
  | restart =>
    cases hd : e.definition with
    | none => exact hrest (not_running_of_none hs hd) ((restart_changes hn hs).trans hc)
    | some d => exact Places.still hs h (restart_places hn hs hd) (fun h => by cases h) hc hno
  | load source input =>
    obtain ⟨d, hr, hd⟩ := hst
    have hload : load notify e source (input.getD "") = loadDefinition notify e d (input.getD "") := by
      rw [load, hr]
    rw [perform, hload] at hc
    exact Places.still hs h (loadDefinition_places hn hs hd _) (fun h => by cases h) hc hno
  | step => exact hst.elim
  | run interval => exact hst.elim
  | runFor interval => exact hst.elim
  | runUntilHalt cap => exact hst.elim
  | subscribe name => exact hst.elim
  | unsubscribe name => exact hst.elim
  | fire => exact hst.elim
  | fail => exact hst.elim
  | interrupt => exact hst.elim

theorem fires_once (h : Sound n e) (notify : Engine → Snapshot → Outcome Unit) : e.FiresOnce notify := by
  unfold FiresOnce
  cases ht : e.ticker.due with
  | none =>
    rw [Engine.fire, ht]
    exact Or.inl rfl
  | some t =>
    have hs : e.snapshot.status = .running := h.driven (h.owned.due ht).1
    obtain ⟨q, hq, -⟩ := h.next (Snapshot.not_halted_of_running hs)
    have hl : ({ e with ticker := t } : Engine).LogsAll := h.logs.of_sameLog ⟨rfl, rfl, rfl, rfl⟩
    have htick : (tick notify { e with ticker := t }).engine =
        (notify ({ e with ticker := t }.place q).engine q).engine := by
      rw [tick, if_pos hs, Outcome.map_engine, advanceOnce_eq (e := { e with ticker := t }) hq, commit_eq hl,
        Outcome.map_engine]
    refine Or.inr ⟨t, q, rfl, hq, (place_records hl q).2.snapshot, ?_⟩
    simp only [← htick, Engine.fire, ht]
    split
    · exact Or.inl rfl
    · exact Or.inr (Or.inl rfl)
    · exact Or.inr (Or.inr rfl)

theorem coupled (hs : Sound n e) (h : Timed e) : e.Coupled where
  atMostOne := hs.owned.length_pending.1
  one_iff := hs.owned.length_pending.2
  driven := hs.driven
  armed := fun hst hr => hs.owned.length_pending.2.2 (h.armed hst hr)
  still := fun hst => hs.still (h.stopped_iff.1 hst)
  stops := by
    intro notify self c e' hn hc hr hno
    have hh : Heard n notify := fun e q he => reaches_changes (hn e q) he
    have hp := perform_changes hh hs self c
    exact stops_still hh hs h self hc (reaches_changes hr (Changes.sound hs hp)) hno
  fires := fires_once hs

theorem least_of_make {c : Config} {loop : Bool} {disk : Disk} {clock : Clock} {v : Json} {m : Number}
    (hm : make c loop disk clock = .ok e) (hv : c.orDefaults.value "min_interval_ms" = .ok v)
    (hnum : v.number? = some m) : e.least = .ofMillis m := by
  obtain ⟨padding, least, w, hw, hl, rfl⟩ := make_eq hm
  obtain rfl : v = w := Except.ok.inj (hv.symm.trans hw)
  simp only [Json.asMillis, hnum, Seconds.ofMillis?] at hl
  split at hl
  · rename_i hs
    split at hs
    · cases hs
    · rw [← Except.ok.inj hl, ← Option.some.inj hs]
  · cases hl

/-- **A run and its timer stay together**, whatever the commands from outside and the listeners do, faults included. The
settings give at least one cell of padding, for which there is room, and a least interval that is not negative, there is
a loop, and the log takes every entry. That a machine which runs has a tick pending is suspended while it is `stalled`:
from a tick that failed, or a run call whose interval is no number, to the next run call. -/
theorem reaches_coupled {c : Config} {disk : Disk} {clock : Clock} {journal : Option Journal} {refused : List String}
    {room : Option ℕ} {v : Json} {m : Number} (hm : make c true disk clock = .ok e)
    (hn : e.padding.count room = .ok n) (hpos : 1 ≤ n)
    (hv : c.orDefaults.value "min_interval_ms" = .ok v) (hnum : v.number? = some m) (hfloor : m.NonNegative)
    (hl : { e with room, journal, refused, tracing := true }.LogsAll)
    (h : Reaches { e with room, journal, refused, tracing := true } e') : e'.Coupled := by
  have hs := sound_of_make hm hn hpos hl
  have hleast := least_of_make hm hv hnum
  have hnew : Timed { e with room, journal, refused, tracing := true } := by
    obtain ⟨padding, least, w, -, -, rfl⟩ := make_eq hm
    refine ⟨⟨rfl, ⟨m, hfloor, hleast⟩, rfl⟩, ?_, iff_of_true rfl ?_⟩
    · intro _ hr
      cases hr
    · intro hr
      cases hr
  have hc := reaches_changes h hs
  exact coupled (Changes.sound hs hc) (Changes.timed hs hnew hc)

/-- a machine that a listener starts again, twice, in the middle of the first tick -/
def eager : Engine :=
  applyAll { bench with
    scripts := [("eager", [⟨some 1, none, [.run (.given (.whole 1)), .run (.given (.whole (-1)))]⟩])] }
    [.subscribe "eager", .load (.definition Preset.busyBeaver) none, .run (.given (.whole 2)), .fire]

theorem eager_coupled :
    let e : Engine := { bench with tracing := false }
    make benchSettings true {} bench.clock = .ok e ∧ e.padding.count e.room = .ok 1 ∧
      benchSettings.orDefaults.value "min_interval_ms" = .ok (.ofInt 0) ∧ (Number.whole 0).NonNegative ∧
      bench.LogsAll ∧ Reaches bench eager ∧ eager.snapshot.status = .running ∧ stalled eager.trace = false ∧
      eager.ticker.pending.length = 1 ∧ eager.Coupled := by
  have hl : bench.LogsAll := logsAll_of_no_journal rfl
  have hr : Reaches bench eager := (Reaches.script _ (.refl _)).trans (applyAll_reaches _ _)
  have hv : benchSettings.orDefaults.value "min_interval_ms" = .ok (.ofInt 0) := rfl
  have hfloor : (Number.whole 0).NonNegative := by decide
  exact ⟨make_bench, rfl, hv, hfloor, hl, hr, by decide +kernel, by decide +kernel, by decide +kernel,
    reaches_coupled make_bench rfl (by decide) hv rfl hfloor hl hr⟩

end Engine
end TapeMachine
