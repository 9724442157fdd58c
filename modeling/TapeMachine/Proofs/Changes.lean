/-
What an engine does between two moments at which listeners can look at it.

A `Change` is everything that one engine call does before the next delivery: a definition is loaded, a transition is
made by hand or by the timer, a run starts or is declined, the machine is paused, a failed tick ends the repetition.
Each constructor gives the whole new engine, up to its records.

The changes assume an engine in order (`Sound`): its log takes every entry, the definition can start and has its table,
the head is on the tape, and the timer's handle is the only one on the loop. Every change keeps that (`Change.sound`).
-/
import TapeMachine.Proofs.RunLog
import TapeMachine.Proofs.Simulation

namespace TapeMachine

/-! ## The timer -/

namespace Ticker

variable {κ : Type} {t t' : Ticker κ}

/-- the loop holds the timer's own handle and no other -/
def Owned (t : Ticker κ) : Prop := t.pending = t.handle.toList

theorem Owned.cancel_pending (h : t.Owned) : t.cancel.pending = [] := by
  unfold Owned at h
  unfold Ticker.cancel
  cases hh : t.handle with
  | none => rw [h, hh]; rfl
  | some k => simp [h, hh]

theorem Owned.length_pending (h : t.Owned) :
    t.pending.length ≤ 1 ∧ (t.pending.length = 1 ↔ t.active = true) := by
  unfold Owned at h
  rw [h, active]
  cases t.handle with
  | none => exact ⟨Nat.zero_le 1, iff_of_false Nat.zero_ne_one Bool.false_ne_true⟩
  | some k => exact ⟨le_rfl, iff_of_true rfl rfl⟩

theorem cancel_handle (t : Ticker κ) : t.cancel.handle = none := by
  unfold Ticker.cancel
  cases hh : t.handle with
  | none => exact hh
  | some k => rfl

theorem cancel_active (t : Ticker κ) : t.cancel.active = false := by
  rw [active, cancel_handle]
  rfl

theorem cancel_of_none (h : t.handle = none) : t.cancel = t := by
  rw [Ticker.cancel, h]

theorem cancel_cancel (t : Ticker κ) : t.cancel.cancel = t.cancel := cancel_of_none t.cancel_handle

theorem Owned.cancel (h : t.Owned) : t.cancel.Owned := by
  rw [Owned, h.cancel_pending, cancel_handle]
  rfl

theorem owned_arm (h : t.pending = []) : t.arm.Owned ∧ t.arm.active = true := by
  refine ⟨?_, rfl⟩
  rw [Owned, arm, h]
  rfl

theorem Owned.start {i : Seconds} {c : κ} (h : t.Owned) (hs : t.start i c = (t', .ok ())) :
    t'.Owned ∧ t'.active = true := by
  unfold Ticker.start at hs
  split_ifs at hs
  · cases (Prod.mk.inj hs).2
  · cases (Prod.mk.inj hs).2
  · rw [← (Prod.mk.inj hs).1]
    refine owned_arm ?_
    exact h.cancel_pending

theorem cancel_loop (t : Ticker κ) : t.cancel.loop = t.loop := by
  unfold Ticker.cancel
  split <;> rfl

theorem start_loop {i : Seconds} {c : κ} (hs : t.start i c = (t', .ok ())) : t'.loop = t.loop := by
  unfold Ticker.start at hs
  split_ifs at hs
  · cases (Prod.mk.inj hs).2
  · cases (Prod.mk.inj hs).2
  · rw [← (Prod.mk.inj hs).1]
    exact t.cancel_loop

theorem due_loop (hd : t.due = some t') : t'.loop = t.loop := by
  unfold Ticker.due at hd
  split at hd
  · cases hd
  · rw [← Option.some.inj hd]
    rfl

/-- on a loop the timer starts at every interval that is not negative -/
theorem start_ok {i : Seconds} (hl : t.loop = true) (hi : i.isNegative = false) (c : κ) : (t.start i c).2 = .ok () := by
  unfold Ticker.start
  rw [hi, hl]
  rfl

theorem start_error {i : Seconds} {c : κ} {f : TickerFault} (hs : t.start i c = (t', .error f)) : t' = t.cancel := by
  unfold Ticker.start at hs
  split_ifs at hs
  · exact (Prod.mk.inj hs).1.symm
  · exact (Prod.mk.inj hs).1.symm
  · cases (Prod.mk.inj hs).2

theorem start_cancel (t : Ticker κ) (i : Seconds) (c : κ) : t.cancel.start i c = t.start i c := by
  unfold Ticker.start
  rw [cancel_cancel, cancel_loop]

theorem Owned.due (h : t.Owned) (hd : t.due = some t') : t.active = true ∧ t'.Owned ∧ t'.active = true := by
  unfold Owned at h
  unfold Ticker.due at hd
  cases hh : t.handle with
  | none =>
    rw [h, hh] at hd
    cases hd
  | some k =>
    rw [h, hh] at hd
    obtain rfl := Option.some.inj hd
    refine ⟨by rw [active, hh]; rfl, owned_arm rfl⟩

/-- an active timer has something due -/
theorem Owned.due_of_active (h : t.Owned) (ha : t.active = true) : ∃ t', t.due = some t' := by
  unfold Owned at h
  unfold active at ha
  obtain ⟨k, hk⟩ := Option.isSome_iff_exists.1 ha
  rw [hk] at h
  refine ⟨({ t with pending := [] } : Ticker κ).arm, ?_⟩
  rw [Ticker.due, h]
  rfl

end Ticker

/-! ## Steps and statuses -/

theorem Status.not_halted_of_manual {q : Status} (h : q.manual = true) : q.halted = false := by
  cases q <;> first | rfl | cases h

theorem Snapshot.not_halted_of_running {s : Snapshot} (h : s.status = .running) : s.halted = false := by
  rw [halted, h]
  rfl

theorem Status.not_running_of_manual {q : Status} (h : q.manual = true) : q ≠ .running := by
  rintro rfl
  cases h

section Advance

variable {d : Definition} {t : Table} {s q : Snapshot}

/-- a machine that has not halted is accepted, is stuck, or applies a rule -/
theorem advance_cases (h : advance d t s = some q) (hs : s.halted = false) :
    (s.state = d.accept ∧ q = { s with status := .accepted }) ∨
      (s.state ≠ d.accept ∧ t.find? s.state (s.read d.blank) = none ∧ q = { s with status := .error }) ∨
      ∃ r, s.state ≠ d.accept ∧ t.find? s.state (s.read d.blank) = some r ∧ applyRule d r s = some q := by
  rw [advance, if_neg (by rw [hs]; exact Bool.false_ne_true)] at h
  split_ifs at h with ha
  · exact Or.inl ⟨ha, (Option.some.inj h).symm⟩
  · cases hf : t.find? s.state (s.read d.blank) with
    | none =>
      rw [hf] at h
      exact Or.inr (Or.inl ⟨ha, rfl, (Option.some.inj h).symm⟩)
    | some r =>
      rw [hf] at h
      exact Or.inr (Or.inr ⟨r, ha, rfl, h⟩)

theorem advance_not_running (h : advance d t s = some q) (hs : s.status ≠ .running) : q.status ≠ .running := by
  cases hh : s.halted with
  | true =>
    rw [advance_of_halted t hh] at h
    obtain rfl := Option.some.inj h
    exact hs
  | false =>
    rcases advance_cases h hh with ⟨-, rfl⟩ | ⟨-, -, rfl⟩ | ⟨r, -, -, hr⟩
    · intro hq
      cases hq
    · intro hq
      cases hq
    · obtain ⟨tape, -, rfl⟩ := Option.map_eq_some_iff.1 hr
      simp only [statusAfter]
      split_ifs
      · decide
      · decide
      · exact hs

end Advance

namespace Engine

variable {n : ℤ} {e e' : Engine}

/-! ## Engines in order -/

/-- an engine in order, with `n` cells of padding -/
structure Sound (n : ℤ) (e : Engine) : Prop where
  pos : 1 ≤ n
  room : e.padding.count e.room = .ok n
  logs : e.LogsAll
  valid : ∀ d, e.definition = some d → d.Valid
  table : ∀ d, e.definition = some d → e.table = d.table
  inRange : ∀ d, e.definition = some d → e.snapshot.InRange
  idle : e.definition = none → e.snapshot.status = .idle
  owned : e.ticker.Owned
  driven : e.ticker.active = true → e.snapshot.status = .running

/-- the snapshot after one step; without a definition it is the same one again -/
def next (e : Engine) : Option Snapshot :=
  match e.definition with
  | none => some e.snapshot
  | some d => advance d e.table e.snapshot

/-- the snapshot of a machine just loaded -/
def freshly (e : Engine) (d : Definition) (input : Text) (n : ℤ) : Snapshot :=
  { Snapshot.fresh d input n with truthHead := e.padding.isTruth }

/-- the engine after a load, without its records -/
def loaded (e : Engine) (d : Definition) (input : Text) (n : ℤ) : Engine :=
  { e with
    definition := some d
    table := d.table
    input
    snapshot := e.freshly d input n
    ticker := e.ticker.cancel }

def withStatus (e : Engine) (q : Status) : Snapshot := { e.snapshot with status := q }

/-- what is noted of a load -/
def loadNotes (e : Engine) (d : Definition) (input : Text) (n : ℤ) : List Note :=
  .commit e.snapshot (e.freshly d input n) e.subscribers ::
    e.logNotes [.event (.loaded input d.initial d.table.length)]

/-- what is noted of a run that starts -/
def startNotes (e : Engine) (interval : Seconds) : List Note :=
  e.logNotes [.event (.run interval e.snapshot.steps)] ++ [.runCalled true]

/-! ## Changes -/

/-- what one engine call does before the next delivery -/
inductive Change (e e' : Engine) : Prop where
  | load (d : Definition) (input : Text) (n : ℤ) (hd : d.Valid) (hn : e.padding.count e.room = .ok n)
      (h : Records (e.loadNotes d input n) (e.loaded d input n) e')
  | reset (d : Definition) (n : ℤ) (he : e.definition = some d) (hd : d.Valid) (hn : e.padding.count e.room = .ok n)
      (h : Records (e.loadNotes d "" n ++ e.logNotes [.event .reset]) (e.loaded d "" n) e')
  /-- a step by hand -/
  | step (q : Snapshot) (hs : e.snapshot.status.manual = true) (hq : e.next = some q)
      (h : Records (e.placeNotes q) (e.placed q) e')
  /-- a step by the timer, which has been armed anew -/
  | tick (t : Ticker Unit) (q : Snapshot) (ht : e.ticker.due = some t) (hs : e.snapshot.status = .running)
      (hq : e.next = some q) (h : Records (e.placeNotes q) ({ e with ticker := t }.placed q) e')
  /-- a run starts -/
  | start (t : Ticker Unit) (interval : Seconds) (hd : e.definition.isSome = true) (hh : e.snapshot.halted = false)
      (ht : e.ticker.start interval () = (t, .ok ())) (hs : e.snapshot.status ≠ .running)
      (h : Records (.commit e.snapshot (e.withStatus .running) e.subscribers :: e.startNotes interval)
        { e with ticker := t, snapshot := e.withStatus .running } e')
  /-- a run goes on at another interval -/
  | restart (t : Ticker Unit) (interval : Seconds) (ht : e.ticker.start interval () = (t, .ok ()))
      (hs : e.snapshot.status = .running) (h : Records (e.startNotes interval) { e with ticker := t } e')
  /-- a run is asked for without a definition, or of a halted machine -/
  | decline (hs : e.definition = none ∨ e.snapshot.halted = true) (h : Records [.runCalled false] e.stopTicker e')
  /-- the timer does not start -/
  | refuse (interval : Seconds) (f : TickerFault) (ht : (e.ticker.start (interval.max e.least) ()).2 = .error f)
      (h : Records [.runCalled false] e.stopTicker e')
  /-- a run is asked for with an interval that is no number -/
  | mistype (h : Records [.runMistyped] e.stopTicker e')
  | pause (hs : e.snapshot.status = .running)
      (h : Records (.commit e.snapshot (e.withStatus .paused) e.subscribers ::
        e.logNotes [.event (.pause e.snapshot.steps)]) (e.placed (e.withStatus .paused)) e')
  /-- the timer is stopped while the machine does not run -/
  | stop (hs : e.snapshot.status ≠ .running) (h : e' = e.stopTicker)
  /-- a tick fails, and ends the repetition -/
  | fail (h : e' = e.stopTicker.note .tickFailed)
  /-- an interrupt ends a tick, but not the repetition -/
  | interrupt (h : e' = e.note .tickFailed)
  | subscribe (l : List String) (h : e' = { e with subscribers := l })
  | script (l : List (String × List Reaction)) (h : e' = { e with scripts := l })
  | deliver (l : String) (q : Snapshot) (h : e' = e.note (.delivery l q))

/-- one change after another -/
abbrev Changes : Engine → Engine → Prop := Relation.ReflTransGen Change

/-! ## Changes keep the engine in order -/

theorem Records.sound {ns : List Note} (h : Records ns e e') (hs : Sound n e) : Sound n e' := by
  have hl := h.logs hs.logs
  obtain ⟨j, d, -, rfl⟩ := h.eq
  exact { hs with logs := hl }

theorem Sound.stopTicker (h : Sound n e) : Sound n e.stopTicker :=
  { h with
    logs := h.logs.of_sameLog ⟨rfl, rfl, rfl, rfl⟩
    owned := h.owned.cancel
    driven := by
      intro ha
      rw [Engine.stopTicker, Ticker.cancel_active] at ha
      cases ha }

/-- an engine in order has a next snapshot, with the head on the tape -/
theorem Sound.next (h : Sound n e) (hh : e.snapshot.halted = false) :
    ∃ q, e.next = some q ∧ (∀ d, e.definition = some d → q.InRange) ∧ (e.definition = none → q = e.snapshot) := by
  unfold Engine.next
  cases hd : e.definition with
  | none =>
    refine ⟨e.snapshot, rfl, ?_, fun _ => rfl⟩
    intro d hd
    cases hd
  | some d =>
    obtain ⟨q, hq, hrun⟩ := run_shows 1 (Snapshot.shows_textbook (h.inRange d hd)) hh
    rw [h.table d hd]
    simp only [advanceN, Option.bind_fun_some] at hq
    refine ⟨q, hq, fun _ _ => hrun.shows.inRange, ?_⟩
    intro hn
    cases hn

theorem next_not_running {q : Snapshot} (h : e.next = some q) (hs : e.snapshot.status ≠ .running) :
    q.status ≠ .running := by
  unfold Engine.next at h
  split at h
  · rw [← Option.some.inj h]
    exact hs
  · exact advance_not_running h hs

theorem placed_ticker {q : Snapshot} (hs : q.status ≠ .running) : (e.placed q).ticker = e.ticker.cancel := by
  simp only [Engine.placed, if_neg hs]

theorem Sound.placed {q : Snapshot} (h : Sound n e) (hr : ∀ d, e.definition = some d → q.InRange)
    (hi : e.definition = none → q.status = .idle) : Sound n (e.placed q) := by
  refine { h with logs := h.logs.of_sameLog ⟨rfl, rfl, rfl, rfl⟩, inRange := hr, idle := hi, owned := ?_, driven := ?_ }
  · unfold Engine.placed
    split_ifs
    · exact h.owned
    · exact h.owned.cancel
  · intro ha
    by_contra hs
    have hq : q.status ≠ .running := hs
    rw [placed_ticker hq, Ticker.cancel_active] at ha
    cases ha

theorem Sound.loaded (h : Sound n e) {d : Definition} (hd : d.Valid) (input : Text) :
    Sound n (e.loaded d input n) where
  pos := h.pos
  room := h.room
  logs := h.logs.of_sameLog ⟨rfl, rfl, rfl, rfl⟩
  valid := by
    intro d' hd'
    cases hd'
    exact hd
  table := by
    intro d' hd'
    cases hd'
    rfl
  inRange := fun _ _ => Snapshot.fresh_inRange d input h.pos _
  idle := by
    intro hn
    cases hn
  owned := h.owned.cancel
  driven := by
    intro ha
    rw [Engine.loaded, Ticker.cancel_active] at ha
    cases ha

/-- a running machine has a definition -/
theorem Sound.defined (h : Sound n e) (hs : e.snapshot.status ≠ .idle) : e.definition ≠ none :=
  fun hn => hs (h.idle hn)

/-- a timer that has just been armed goes with a running machine -/
theorem Sound.withTicker (h : Sound n e) {t : Ticker Unit} (ht : t.Owned) {q : Snapshot}
    (hq : ∀ d, e.definition = some d → q.InRange) (hr : q.status = .running) (hd : e.definition ≠ none) :
    Sound n { e with ticker := t, snapshot := q } :=
  { h with
    logs := h.logs.of_sameLog ⟨rfl, rfl, rfl, rfl⟩
    inRange := hq
    idle := fun hn => absurd hn hd
    owned := ht
    driven := fun _ => hr }

/-- **Every change keeps the engine in order.** -/
theorem Change.sound (h : Sound n e) (hm : Change e e') : Sound n e' := by
  cases hm with
  | load d input m hd hn h' =>
    obtain rfl : n = m := Except.ok.inj (h.room.symm.trans hn)
    exact h'.sound (h.loaded hd input)
  | reset d m he hd hn h' =>
    obtain rfl : n = m := Except.ok.inj (h.room.symm.trans hn)
    exact h'.sound (h.loaded hd "")
  | step q hs hq h' =>
    obtain ⟨q', hq', hr, hi⟩ := h.next (Status.not_halted_of_manual hs)
    obtain rfl : q' = q := Option.some.inj (hq'.symm.trans hq)
    refine h'.sound (h.placed hr ?_)
    intro hn
    rw [hi hn, h.idle hn]
  | tick t q ht hs hq h' =>
    obtain ⟨q', hq', hr, hi⟩ := h.next (Snapshot.not_halted_of_running hs)
    obtain rfl : q' = q := Option.some.inj (hq'.symm.trans hq)
    obtain ⟨-, ho, -⟩ := h.owned.due ht
    have hd : e.definition ≠ none := h.defined (by rw [hs]; decide)
    exact h'.sound ((h.withTicker ho h.inRange hs hd).placed hr fun hn => absurd hn hd)
  | start t interval hd hh ht hs h' =>
    obtain ⟨ho, -⟩ := h.owned.start ht
    refine h'.sound (h.withTicker ho h.inRange rfl ?_)
    intro hn
    rw [hn] at hd
    cases hd
  | restart t interval ht hs h' =>
    obtain ⟨ho, -⟩ := h.owned.start ht
    exact h'.sound (h.withTicker ho h.inRange hs (h.defined (by rw [hs]; decide)))
  | decline hs h' => exact h'.sound h.stopTicker
  | refuse interval f ht h' => exact h'.sound h.stopTicker
  | mistype h' => exact h'.sound h.stopTicker
  | pause hs h' =>
    have hd : e.definition ≠ none := h.defined (by rw [hs]; decide)
    exact h'.sound (h.placed h.inRange fun hn => absurd hn hd)
  | stop hs h' => rw [h']; exact h.stopTicker
  | fail h' => rw [h']; exact (records_note _ _).sound h.stopTicker
  | interrupt h' => rw [h']; exact (records_note _ _).sound h
  | subscribe l h' =>
    rw [h']
    exact { h with logs := h.logs.of_sameLog ⟨rfl, rfl, rfl, rfl⟩ }
  | script l h' =>
    rw [h']
    exact { h with logs := h.logs.of_sameLog ⟨rfl, rfl, rfl, rfl⟩ }
  | deliver l q h' => rw [h']; exact (records_note _ _).sound h

theorem Changes.sound (h : Sound n e) (hm : Changes e e') : Sound n e' := by
  induction hm with
  | refl => exact h
  | tail _ hm ih => exact hm.sound ih

/-- what a single change keeps is kept by any number of them -/
theorem Changes.preserve {P : Engine → Prop} (hP : ∀ {e e'}, Sound n e → P e → Change e e' → P e') (hs : Sound n e)
    (h : P e) (hc : Changes e e') : P e' := by
  induction hc with
  | refl => exact h
  | tail hm hc ih => exact hP (Changes.sound hs hm) ih hc

/-! ## New engines -/

section Make

variable {c : Config} {loop : Bool} {disk : Disk} {clock : Clock}

theorem make_eq (hm : make c loop disk clock = .ok e) :
    ∃ padding least v, Config.value c.orDefaults "min_interval_ms" = .ok v ∧ v.asMillis = .ok least ∧
      e =
        { padding
          least
          cap := (c.orDefaults.get? "max_steps").map Cap.ofJson
          ticker := { loop }
          disk
          clock } := by
  unfold make at hm
  cases hp : c.orDefaults.value "tape_buffer" with
  | error f => rw [hp] at hm; cases hm
  | ok p =>
    cases hv : c.orDefaults.value "min_interval_ms" with
    | error f => rw [hp, hv] at hm; cases hm
    | ok v =>
      cases hl : v.asMillis with
      | error f =>
        rw [hp, hv] at hm
        simp only [bind, Except.bind, hl] at hm
        cases hm
      | ok least =>
        rw [hp, hv] at hm
        simp only [bind, Except.bind, hl, pure, Except.pure] at hm
        exact ⟨_, least, v, rfl, hl, (Except.ok.inj hm).symm⟩

/-- an engine just made is in order, once it has room for its padding and a log that takes every entry -/
theorem sound_of_make (hm : make c loop disk clock = .ok e) {room : Option ℕ} (hn : e.padding.count room = .ok n)
    (hpos : 1 ≤ n) {journal : Option Journal} {refused : List String} {tracing : Bool}
    (hl : { e with room, journal, refused, tracing }.LogsAll) : Sound n { e with room, journal, refused, tracing } := by
  obtain ⟨padding, least, v, -, -, rfl⟩ := make_eq hm
  refine ⟨hpos, hn, hl, ?_, ?_, ?_, fun _ => rfl, rfl, ?_⟩
  · intro d hd
    cases hd
  · intro d hd
    cases hd
  · intro d hd
    cases hd
  · intro ha
    cases ha

end Make

/-- an engine with a single cell of padding and no least interval, on a loop, with a trace -/
def bench : Engine where
  padding := .cells 1
  least := .ofMillis (.whole 0)
  cap := none
  ticker := { loop := true }
  clock := ⟨1970, 1, 1, 0, 0, 0, 0⟩
  tracing := true

/-- the settings that it is made with -/
def benchSettings : Config := [("tape_buffer", .ofInt 1), ("min_interval_ms", .ofInt 0)]

theorem make_bench : make benchSettings true {} bench.clock = .ok { bench with tracing := false } := by
  with_unfolding_all rfl

/-- the same without a loop and without a trace, as for an evaluation -/
def bare : Engine := { bench with ticker := { loop := false }, tracing := false }

theorem make_bare : make benchSettings false {} bench.clock = .ok bare := by
  with_unfolding_all rfl

end Engine
end TapeMachine
