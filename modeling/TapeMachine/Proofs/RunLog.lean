/-
What logging changes.

An engine whose log takes every entry (`LogsAll`) goes through its log calls without a fault, and all that such a call
changes is the journal, the disk and the trace (`Records`). The log's answers depend on the journal, the names it
refuses, the disk and the clock, and on nothing else in the engine (`SameLog`), so that an engine keeps its good log
whatever else happens to it.

`place_records` says what placing a snapshot does: the snapshot is new, the timer goes on only if the machine runs, and
the trace tells of the change and, when the machine has halted just now, of the halt.
-/
import Mathlib.Tactic
import TapeMachine.Control.Engine

namespace TapeMachine

namespace Outcome

variable {α β : Type}

@[simp] theorem map_engine (f : α → β) (o : Outcome α) : (o.map f).engine = o.engine := rfl

theorem andThen_of_ok {o : Outcome α} {a : α} (h : o.result = .ok a) (f : Engine → α → Outcome β) :
    o.andThen f = f o.engine a := by
  rw [andThen, h]

/-- the operation comes to its end -/
def Succeeds (o : Outcome α) : Prop := ∃ a, o.result = .ok a

theorem Succeeds.map {o : Outcome α} (h : o.Succeeds) (f : α → β) : (o.map f).Succeeds := by
  obtain ⟨a, ha⟩ := h
  refine ⟨f a, ?_⟩
  rw [Outcome.map, ha]
  rfl

theorem Succeeds.andThen {o : Outcome α} {f : Engine → α → Outcome β} (h : o.Succeeds)
    (hf : ∀ a, (f o.engine a).Succeeds) : (o.andThen f).Succeeds := by
  obtain ⟨a, ha⟩ := h
  rw [andThen_of_ok ha]
  exact hf a

end Outcome

namespace Engine

variable {e e' e'' : Engine}

@[simp] theorem done_engine {α : Type} (e : Engine) (a : α) : (e.done a).engine = e := rfl

theorem done_succeeds {α : Type} (e : Engine) (a : α) : (e.done a).Succeeds := ⟨a, rfl⟩

/-! ## A log that takes every entry -/

/-- what the run log can be given -/
inductive LogEntry where
  | event (ev : Event)
  | run (r : HaltedRun)

/-- gives the log an entry -/
def logEntry (e : Engine) : LogEntry → Outcome Unit
  | .event ev => e.logEvent ev
  | .run r => e.logRun r

/-- gives the log entries in turn, up to the first fault -/
def logEntries (e : Engine) : List LogEntry → Outcome Unit
  | [] => e.done ()
  | x :: xs => (e.logEntry x).andThen fun e _ => logEntries e xs

/-- the log takes whatever it is given -/
def LogsAll (e : Engine) : Prop := ∀ xs, (e.logEntries xs).result = .ok ()

/-- the two engines have the same log -/
structure SameLog (e e' : Engine) : Prop where
  journal : e'.journal = e.journal
  refused : e'.refused = e.refused
  disk : e'.disk = e.disk
  clock : e'.clock = e.clock

theorem SameLog.symm (h : SameLog e e') : SameLog e' e := ⟨h.journal.symm, h.refused.symm, h.disk.symm, h.clock.symm⟩

theorem note_eq (e : Engine) (n : Note) :
    e.note n = { e with trace := if e.tracing then n :: e.trace else e.trace } := by
  unfold note
  split_ifs <;> rfl

theorem sameLog_note (e : Engine) (n : Note) : SameLog e (e.note n) := by
  rw [note_eq]
  exact ⟨rfl, rfl, rfl, rfl⟩

theorem writeLog_sameLog (h : SameLog e e') (write : Journal → Journal × Except DiskFault Disk) (n : Note) :
    (e'.writeLog write n).result = (e.writeLog write n).result ∧
      SameLog (e.writeLog write n).engine (e'.writeLog write n).engine := by
  cases hj : e.journal with
  | none =>
    have hj' : e'.journal = none := h.journal.trans hj
    simp only [writeLog, hj, hj']
    exact ⟨rfl, h⟩
  | some j =>
    have hj' : e'.journal = some j := h.journal.trans hj
    simp only [writeLog, hj, hj']
    split
    · refine ⟨rfl, ?_⟩
      simp only [note_eq]
      exact ⟨rfl, h.refused, rfl, h.clock⟩
    · exact ⟨rfl, rfl, h.refused, h.disk, h.clock⟩

theorem logEntry_sameLog (h : SameLog e e') (x : LogEntry) :
    (e'.logEntry x).result = (e.logEntry x).result ∧ SameLog (e.logEntry x).engine (e'.logEntry x).engine := by
  cases x with
  | event ev =>
    simp only [logEntry, logEvent, h.journal, h.refused, h.clock, h.disk]
    split_ifs
    · exact ⟨rfl, h⟩
    · exact writeLog_sameLog h _ _
  | run r =>
    simp only [logEntry, logRun, h.clock, h.disk]
    exact writeLog_sameLog h _ _

theorem logEntries_sameLog (h : SameLog e e') (xs : List LogEntry) :
    (e'.logEntries xs).result = (e.logEntries xs).result := by
  induction xs generalizing e e' with
  | nil => rfl
  | cons x xs ih =>
    have hx := logEntry_sameLog h x
    simp only [logEntries, Outcome.andThen, hx.1]
    split
    · exact ih hx.2
    · rfl

theorem LogsAll.of_sameLog (hl : e.LogsAll) (h : SameLog e e') : e'.LogsAll := by
  intro xs
  rw [logEntries_sameLog h, hl xs]

theorem LogsAll.logEntry (hl : e.LogsAll) (x : LogEntry) :
    (e.logEntry x).result = .ok () ∧ (e.logEntry x).engine.LogsAll := by
  have h1 := hl [x]
  simp only [logEntries, Outcome.andThen] at h1
  cases hr : (e.logEntry x).result with
  | error f => rw [hr] at h1; cases h1
  | ok u =>
    refine ⟨rfl, ?_⟩
    intro xs
    have h2 := hl (x :: xs)
    simp only [logEntries, Outcome.andThen, hr] at h2
    exact h2

theorem logsAll_of_no_journal (h : e.journal = none) : e.LogsAll := by
  intro xs
  induction xs with
  | nil => rfl
  | cons x xs ih =>
    have hx : e.logEntry x = e.done () := by
      cases x <;> simp [Engine.logEntry, logEvent, logRun, writeLog, h]
    rw [logEntries, hx]
    exact ih

/-! ## What changes -/

/-- the trace with notes added to it, the latest first -/
def traced (e : Engine) (ns : List Note) : List Note := if e.tracing then ns ++ e.trace else e.trace

/-- notes that are made only when there is a journal -/
def logNotes (e : Engine) (ns : List Note) : List Note := if e.journal.isSome then ns else []

/-- nothing is new but the records: the journal, the disk, and the trace with the notes `ns` added to it -/
structure Records (ns : List Note) (e e' : Engine) : Prop where
  eq : ∃ j d, j.isSome = e.journal.isSome ∧ e' = { e with journal := j, disk := d, trace := e.traced ns }
  logs : e.LogsAll → e'.LogsAll

theorem traced_nil (e : Engine) : e.traced [] = e.trace := ite_self _

theorem logNotes_append (e : Engine) (ns ms : List Note) : e.logNotes (ns ++ ms) = e.logNotes ns ++ e.logNotes ms := by
  unfold logNotes
  split_ifs <;> rfl

theorem Records.refl (e : Engine) : Records [] e e :=
  ⟨⟨e.journal, e.disk, rfl, by rw [traced_nil]⟩, id⟩

theorem Records.trans {ns ms : List Note} (h : Records ns e e') (h' : Records ms e' e'') :
    Records (ms ++ ns) e e'' := by
  obtain ⟨j, d, hj, rfl⟩ := h.eq
  obtain ⟨j', d', hj', rfl⟩ := h'.eq
  refine ⟨⟨j', d', hj'.trans hj, ?_⟩, fun hl => h'.logs (h.logs hl)⟩
  unfold traced
  cases e.tracing with
  | true => simp only [if_true, List.append_assoc]
  | false => rfl

theorem records_note (e : Engine) (n : Note) : Records [n] e (e.note n) :=
  ⟨⟨e.journal, e.disk, rfl, note_eq e n⟩, fun hl => hl.of_sameLog (sameLog_note e n)⟩

theorem Records.definition {ns : List Note} (h : Records ns e e') : e'.definition = e.definition := by
  obtain ⟨j, d, -, rfl⟩ := h.eq
  rfl

theorem Records.padding {ns : List Note} (h : Records ns e e') : e'.padding = e.padding := by
  obtain ⟨j, d, -, rfl⟩ := h.eq
  rfl

theorem Records.snapshot {ns : List Note} (h : Records ns e e') : e'.snapshot = e.snapshot := by
  obtain ⟨j, d, -, rfl⟩ := h.eq
  rfl

theorem Records.haltedRun {ns : List Note} (h : Records ns e e') (d : Definition) (q : Snapshot) :
    e'.haltedRun d q = e.haltedRun d q := by
  obtain ⟨j, disk, -, rfl⟩ := h.eq
  rfl

theorem Records.logNotes {ns : List Note} (h : Records ns e e') (ms : List Note) : e'.logNotes ms = e.logNotes ms := by
  obtain ⟨j, d, hj, rfl⟩ := h.eq
  simp only [Engine.logNotes, hj]

/-- the note that is made of an entry -/
def LogEntry.note : LogEntry → Note
  | .event ev => .event ev
  | .run r => .halted r

theorem writeLog_eq {write : Journal → Journal × Except DiskFault Disk} {n : Note}
    (h : (e.writeLog write n).result = .ok ()) :
    ∃ j d, j.isSome = e.journal.isSome ∧
      (e.writeLog write n).engine = { e with journal := j, disk := d, trace := e.traced (e.logNotes [n]) } := by
  cases hj : e.journal with
  | none =>
    have hn : e.logNotes [n] = [] := by simp only [logNotes, hj, Option.isSome_none, Bool.false_eq_true, if_false]
    refine ⟨e.journal, e.disk, by rw [hj], ?_⟩
    simp only [writeLog, hj, done_engine, hn, traced_nil]
    rw [← hj]
  | some j =>
    have hn : e.logNotes [n] = [n] := by simp only [logNotes, hj, Option.isSome_some, if_true]
    simp only [writeLog, hj] at h ⊢
    split at h
    · rename_i j' d hw
      refine ⟨some j', d, rfl, ?_⟩
      rw [hn, done_engine, note_eq]
      rfl
    · cases h

theorem records_logEntry (hl : e.LogsAll) (x : LogEntry) :
    (e.logEntry x).result = .ok () ∧ Records (e.logNotes [x.note]) e (e.logEntry x).engine := by
  obtain ⟨hr, hl'⟩ := hl.logEntry x
  refine ⟨hr, ?_, fun _ => hl'⟩
  cases x with
  | event ev =>
    simp only [logEntry, logEvent] at hr ⊢
    split_ifs at hr ⊢
    · cases hr
    · exact writeLog_eq hr
  | run r => exact writeLog_eq hr

theorem records_logEvent (hl : e.LogsAll) (ev : Event) :
    (e.logEvent ev).result = .ok () ∧ Records (e.logNotes [.event ev]) e (e.logEvent ev).engine :=
  records_logEntry hl (.event ev)

/-- what the trace says of a halt -/
def haltNotes (e : Engine) (q : Snapshot) : List Note :=
  e.logNotes ((e.definition.map fun d => Note.halted (e.haltedRun d q)).toList ++
    [.event (.halt q.status q.state q.steps)])

theorem records_logHalt (hl : e.LogsAll) (q : Snapshot) :
    (e.logHalt q).result = .ok () ∧ Records (e.haltNotes q) e (e.logHalt q).engine := by
  obtain ⟨hr, hrec⟩ := records_logEvent hl (.halt q.status q.state q.steps)
  rw [logHalt, Outcome.andThen_of_ok hr, haltNotes, logNotes_append, hrec.definition]
  cases hd : e.definition with
  | none =>
    refine ⟨rfl, ?_⟩
    rw [Option.map_none, Option.toList_none, logNotes, ite_self, List.nil_append]
    exact hrec
  | some d =>
    obtain ⟨hr', hrec'⟩ := records_logEntry (hrec.logs hl) (.run (e.haltedRun d q))
    rw [hrec.logNotes] at hrec'
    simp only [hrec.haltedRun]
    exact ⟨hr', hrec.trans hrec'⟩

theorem Records.haltNotes {ns : List Note} (h : Records ns e e') (q : Snapshot) : e'.haltNotes q = e.haltNotes q := by
  simp only [Engine.haltNotes, h.logNotes, h.definition, h.haltedRun]

/-- `f` neither reads nor changes the records -/
structure Unrecorded (f : Engine → Engine) : Prop where
  comm : ∀ e j d t, f { e with journal := j, disk := d, trace := t } = { f e with journal := j, disk := d, trace := t }
  sameLog : ∀ e, SameLog e (f e)
  tracing : ∀ e, (f e).tracing = e.tracing
  trace : ∀ e, (f e).trace = e.trace

theorem Records.map {ns : List Note} {f : Engine → Engine} (h : Records ns e e') (hf : Unrecorded f) :
    Records ns (f e) (f e') := by
  refine ⟨?_, fun hl => (h.logs (hl.of_sameLog (hf.sameLog e).symm)).of_sameLog (hf.sameLog e')⟩
  obtain ⟨j, d, hj, rfl⟩ := h.eq
  refine ⟨j, d, by rw [hj, (hf.sameLog e).journal], ?_⟩
  rw [hf.comm]
  simp only [traced, hf.tracing, hf.trace]

/-- what the trace says of a new snapshot -/
def placeNotes (e : Engine) (q : Snapshot) : List Note :=
  (if q.halted && !e.snapshot.halted then e.haltNotes q else []) ++ [.commit e.snapshot q e.subscribers]

/-- the timer goes on only if the machine runs -/
def placed (e : Engine) (q : Snapshot) : Engine :=
  { e with snapshot := q, ticker := if q.status = .running then e.ticker else e.ticker.cancel }

theorem unrecorded_placed (q : Snapshot) : Unrecorded (placed · q) :=
  ⟨fun _ _ _ _ => rfl, fun _ => ⟨rfl, rfl, rfl, rfl⟩, fun _ => rfl, fun _ => rfl⟩

theorem Records.placeNotes {ns : List Note} (h : Records ns e e') (q : Snapshot) :
    e'.placeNotes q = e.placeNotes q := by
  have hh := h.haltNotes q
  obtain ⟨j, d, -, rfl⟩ := h.eq
  simp only [Engine.placeNotes, hh]

/-- placing a snapshot never fails, and changes nothing but the snapshot, the timer and the records -/
theorem place_records (hl : e.LogsAll) (q : Snapshot) :
    (e.place q).result = .ok () ∧ Records (e.placeNotes q) (e.placed q) (e.place q).engine := by
  have hcommit : Records [.commit e.snapshot q e.subscribers] (e.placed q)
      (let e' := { e with snapshot := q }.note (.commit e.snapshot q e.subscribers)
       if q.status = .running then e' else e'.stopTicker) := by
    have h := records_note (e.placed q) (.commit e.snapshot q e.subscribers)
    unfold placed at h ⊢
    split_ifs at h ⊢
    · exact h
    · rw [note_eq] at h ⊢
      exact h
  have hl' := hcommit.logs (hl.of_sameLog ⟨rfl, rfl, rfl, rfl⟩)
  simp only [place]
  unfold placeNotes
  cases q.halted && !e.snapshot.halted with
  | false => exact ⟨rfl, hcommit⟩
  | true =>
    obtain ⟨hr, hrec⟩ := records_logHalt hl' q
    rw [hcommit.haltNotes] at hrec
    exact ⟨hr, hcommit.trans hrec⟩

end Engine

end TapeMachine
