/-
Every halt is recorded once, and as it was.

The fresh snapshots that loads, resets and restarts commit divide the trace into spans. In each of them the run log is
given one event and one entry of a run if the machine has halted there, and none if it has not (`Recorded`), whatever
listeners do in the middle of an operation: a halted machine commits nothing until it is loaded again, so that one
change of a span can be a halt, and it writes both records (`Change.accounted`).

The entry is truthful: a reader finds in it what there is to tell (`HaltedRun.Tells`), and it goes to the file of its
verdict (`LoggedBy`). The snapshot shows the textbook machine after as many transitions as it counts (`Tracks`), by
whatever mixture of ways it was driven; an evaluation with one more step than that stops at the same place, and there is
one summary of what it finds (`Tracks.reports`).
-/
import TapeMachine.Machine.Grammar
import TapeMachine.Proofs.Evaluation
import TapeMachine.Proofs.LogCalls

namespace TapeMachine

open Textbook

/-! ## How far a machine has come -/

/-- the snapshot shows the textbook machine after as many transitions as it counts -/
def Tracks (d : Definition) (input : Text) (s : Snapshot) : Prop :=
  ∃ (off k : ℕ) (c : Textbook), s.steps = k ∧ Shows d off s c ∧ Makes d k (start d input) c

section Tracks

variable {d : Definition} {input : Text} {s q p : Snapshot} {n : ℤ}

theorem tracks_fresh (d : Definition) (input : Text) (hn : 1 ≤ n) (truth : Bool) :
    Tracks d input { Snapshot.fresh d input n with truthHead := truth } :=
  ⟨n.toNat, 0, start d input, rfl, Snapshot.fresh_shows d input hn truth, .refl d _⟩

theorem Tracks.withStatus (h : Tracks d input s) (status : Status) : Tracks d input { s with status } := by
  obtain ⟨off, k, c, hk, hshows, hmakes⟩ := h
  exact ⟨off, k, c, hk, ⟨hshows.inRange, hshows.cell, hshows.head, hshows.state⟩, hmakes⟩

theorem Tracks.advance (h : Tracks d input s) (hs : s.halted = false) (hq : advance d d.table s = some q) :
    Tracks d input q := by
  obtain ⟨off, k, c, hk, hshows, hmakes⟩ := h
  cases hr : c.rule? d with
  | none =>
    rw [advance_of_stopped hshows hs hr] at hq
    rw [← Option.some.inj hq]
    exact Tracks.withStatus ⟨off, k, c, hk, hshows, hmakes⟩ _
  | some r =>
    obtain ⟨q', hq', happlied⟩ := advance_applies hshows hs hr
    obtain rfl : q' = q := Option.some.inj (hq'.symm.trans hq)
    refine ⟨_, k + 1, apply r c, ?_, happlied.shows, hmakes.trans (.single hr)⟩
    rw [happlied.steps, hk, Nat.cast_add, Nat.cast_one]

/-- where a halted snapshot shows the textbook machine: in the accepting state, or without a rule -/
theorem Shows.verdict {off : ℕ} {c : Textbook} (h : Shows d off q c) (hon : OnTrajectory d p q)
    (hq : q.halted = true) :
    (q.status = .accepted ∧ c.state = d.accept) ∨ (q.status = .error ∧ c.state ≠ d.accept ∧ Stopped d c) := by
  have hstate : c.state = q.state := h.state
  rw [hstate]
  cases hst : q.status with
  | accepted => exact Or.inl ⟨rfl, hon.accepted hst⟩
  | error =>
    obtain ⟨hne, hfind⟩ := hon.error hst
    refine Or.inr ⟨rfl, hne, ?_⟩
    rw [Stopped, h.rule?, if_neg hne, hfind]
  | _ =>
    rw [Snapshot.halted, hst] at hq
    cases hq

/-- a halted snapshot is one that an evaluation with one more step than it counts comes to -/
theorem Tracks.reports (h : Tracks d input q) (hon : OnTrajectory d p q) (hq : q.halted = true) :
    ∃ k, (q.summary d (some input)).Reports d (start d input) (some input) (q.steps + 1).toNat k := by
  obtain ⟨off, k, c, hk, hshows, hmakes⟩ := h
  have hstate : c.state = q.state := hshows.state
  have hends := hshows.verdict hon hq
  have hstopped : Stopped d c := by
    rcases hends with ⟨-, ha⟩ | ⟨-, -, hs⟩
    · exact stopped_of_accept ha
    · exact hs
  have htime := hmakes.haltingTime_eq hstopped
  have hcap : (q.steps + 1).toNat = k + 1 := by omega
  have hle : (k : ℕ∞) ≤ (k + 1 : ℕ) := Nat.cast_le.2 (Nat.le_succ k)
  have hlt : (k : ℕ∞) < (k + 1 : ℕ) := Nat.cast_lt.2 (Nat.lt_succ_self k)
  rw [hcap]
  refine ⟨k, ?_, rfl, hk, ?_, ?_, ?_, ?_, ?_, Summary.accepted_iff _, Summary.halted_iff _⟩
  · rw [htime, min_eq_left hle]
  · rw [hmakes.run]
    exact hstate.symm
  · rw [hmakes.run]
    exact hshows.written
  · rw [hmakes.run, htime]
    rcases hends with ⟨hst, ha⟩ | ⟨hst, hne, -⟩
    · exact iff_of_true hst ⟨ha, hle, Nat.succ_pos k⟩
    · refine iff_of_false ?_ fun h => hne h.1
      intro ha
      rw [Snapshot.summary, hst] at ha
      cases ha
  · rw [hmakes.run, htime]
    rcases hends with ⟨hst, ha⟩ | ⟨hst, hne, -⟩
    · refine iff_of_false ?_ fun h => h.1 ha
      intro he
      rw [Snapshot.summary, hst] at he
      cases he
    · exact iff_of_true hst ⟨hne, hlt⟩
  · intro hna hne
    rcases hends with ⟨hst, -⟩ | ⟨hst, -⟩
    · exact absurd hst hna
    · exact absurd hst hne

end Tracks

/-! ## Entries that are truthful -/

namespace HaltedRun

/-- an evaluation of a definition on the input of the entry, with one more step than the entry tells of, ends with this
status and with the output, the state and the steps of the entry -/
def Confirmed (r : HaltedRun) (d : Definition) (status : Status) : Prop :=
  ∀ (c : Config) (room : Option ℕ) (e : Engine) (n : ℤ), Engine.make c false {} Clock.origin = .ok e →
    e.padding.count room = .ok n → 1 ≤ n →
    evaluate c d (some r.input) (some (.ok (r.steps + 1))) room =
      .ok ⟨some r.input, r.output, r.state, r.steps, status⟩

/-- what a reader finds in the entry that the log is given of a run -/
structure Tells (entry : Fields) (r : HaltedRun) : Prop where
  definition : entry.get? "definition" = some r.definition.toJson
  input : entry.get? "input" = some (.string r.input)
  output : entry.get? "output" = some (.string r.output)
  state : entry.get? "state" = some (.string r.state)
  steps : entry.get? "steps" = some (.ofInt r.steps)

theorem tells_entry (r : HaltedRun) : Tells r.entry r := ⟨rfl, rfl, rfl, rfl, rfl⟩

/-- the entry tells of a halted snapshot what is true -/
structure Truthful (r : HaltedRun) (q : Snapshot) : Prop where
  entry : Tells r.entry r
  accepted : r.verdict = .accepted ↔ q.status = .accepted
  rejected : r.verdict = .rejected ↔ q.status = .error
  snapshot : r.output = q.output (some r.definition.blank) ∧ r.state = q.state ∧ r.steps = q.steps
  confirmed : r.Confirmed r.definition q.status
  /-- the same for the definition that is read back from the entry's data -/
  readBack : ∃ d, (∀ room, Definition.ofJson r.definition.toJson room = .ok d) ∧ r.Confirmed d q.status

end HaltedRun

section Truthful

variable {d : Definition} {q p : Snapshot} {e : Engine}

theorem confirmed_of_reports {r : HaltedRun} {k : ℕ} (hd : d.Valid)
    (h : (q.summary d (some r.input)).Reports d (start d r.input) (some r.input) (r.steps + 1).toNat k)
    (hr : q.summary d (some r.input) = ⟨some r.input, r.output, r.state, r.steps, q.status⟩) :
    r.Confirmed d q.status := by
  intro c room e n hm hn hpos
  have hcap : (some (.ok (r.steps + 1)) : Option Cap).or e.cap = some (.ok (r.steps + 1)) := rfl
  obtain ⟨s, k', heval, hs⟩ := exists_reports hd (some r.input) hm hn hpos hcap
  rw [heval, hs.unique h, hr]

open Engine in
theorem haltedRun_truthful (hd : d.Valid) (hq : q.halted = true) (h : Tracks d e.input q)
    (hon : OnTrajectory d p q) : (e.haltedRun d q).Truthful q := by
  obtain ⟨k, hk⟩ := h.reports hon hq
  have hverdict : (e.haltedRun d q).verdict = if q.status = .accepted then .accepted else .rejected := rfl
  refine ⟨HaltedRun.tells_entry _, ?_, ?_, ⟨rfl, rfl, rfl⟩, confirmed_of_reports hd hk rfl, _, d.ofJson_toJson, ?_⟩
  · rw [hverdict]
    split_ifs with ha
    · exact iff_of_true rfl ha
    · exact iff_of_false (by decide) ha
  · rw [hverdict]
    rw [Snapshot.halted] at hq
    cases hst : q.status <;> simp [hst, Status.halted] at hq ⊢
  · -- the alphabet takes no part in what the machine does
    have hd' : ({ d with alphabet := Definition.withBlank d.alphabet d.blank } : Definition).Valid :=
      ⟨hd.initial_named, hd.initial_listed, hd.accept_named, hd.accept_listed⟩
    exact confirmed_of_reports hd' (hk.congr rfl rfl rfl) rfl

end Truthful

/-! ## Spans -/

namespace Note

/-- an idle snapshot with a tape; before the first load there is none -/
def isFresh : Note → Bool
  | .commit _ q _ => q.status == .idle && !q.tape.isEmpty
  | _ => false

/-- the event of a halt -/
def isHalt : Note → Bool
  | .event (.halt ..) => true
  | _ => false

/-- the entry of a run that has halted -/
def isRun : Note → Bool
  | .halted _ => true
  | _ => false

/-- neither a fresh snapshot nor a halted one, nor the record of a halt -/
def Quiet : Note → Prop
  | .commit _ q _ => (q.status ≠ .idle ∨ q.tape = []) ∧ q.halted = false
  | .event (.halt ..) => False
  | .halted _ => False
  | _ => True

theorem Quiet.not_fresh {x : Note} (h : x.Quiet) : x.isFresh = false := by
  cases x with
  | commit p q audience =>
    rcases h.1 with hs | ht
    · rw [isFresh, beq_false_of_ne hs, Bool.false_and]
    · rw [isFresh, ht, List.isEmpty_nil, Bool.not_true, Bool.and_false]
  | _ => rfl

theorem Quiet.not_halt {x : Note} (h : x.Quiet) : x.isHalt = false := by
  cases x with
  | event ev =>
    cases ev with
    | halt status state steps => exact h.elim
    | _ => rfl
  | _ => rfl

theorem Quiet.not_run {x : Note} (h : x.Quiet) : x.isRun = false := by
  cases x with
  | halted r => exact h.elim
  | _ => rfl

/-- the commit of a load, a reset or a restart, with `n` cells of padding -/
def OfLoad (n : ℤ) (x : Note) : Prop :=
  ∃ p d input truth audience, d.Valid ∧ x = .commit p { Snapshot.fresh d input n with truthHead := truth } audience

theorem OfLoad.isFresh {n : ℤ} {x : Note} (h : x.OfLoad n) (hn : 1 ≤ n) : x.isFresh = true := by
  obtain ⟨p, d, input, truth, audience, -, rfl⟩ := h
  have htape := (Snapshot.fresh_inRange d input hn truth).tape_ne_nil
  rw [Note.isFresh, List.isEmpty_eq_false_iff.2 htape]
  rfl

end Note

section Spans

variable {n : ℤ} {ns span tr : List Note} {halted : Bool} {p q : Snapshot} {audience : List String} {r : HaltedRun}

/-- the machine has halted in the span -/
def Halts (span : List Note) : Prop := ∃ p q audience, .commit p q audience ∈ span ∧ q.halted = true

/-- what the run log is given in a span of a trace: at most one event of a halt and one entry of a run, one of each if
the machine has halted, and the entry is that of the halted snapshot -/
structure Recorded (span : List Note) : Prop where
  halts_le : span.countP Note.isHalt ≤ 1
  runs_le : span.countP Note.isRun ≤ 1
  halts_iff : span.countP Note.isHalt = 1 ↔ Halts span
  runs_iff : span.countP Note.isRun = 1 ↔ Halts span
  truthful : ∀ r, .halted r ∈ span → ∃ p q audience, .commit p q audience ∈ span ∧ q.halted = true ∧
    .event (.halt q.status q.state q.steps) ∈ span ∧ r.Truthful q

/-- how a span comes about: nothing has halted, or one change has, and made its records -/
inductive Account (span : List Note) : Prop
  | going (h : ∀ x ∈ span, x.Quiet)
  | halted (later earlier : List Note) (p q : Snapshot) (audience : List String) (r : HaltedRun) (hq : q.halted = true)
      (hr : r.Truthful q) (hl : ∀ x ∈ later, x.Quiet) (he : ∀ x ∈ earlier, x.Quiet)
      (h : span = later ++
        .halted r :: .event (.halt q.status q.state q.steps) :: .commit p q audience :: earlier)

theorem countP_quiet {f : Note → Bool} (hf : ∀ x : Note, x.Quiet → f x = false) (h : ∀ x ∈ ns, x.Quiet) :
    ns.countP f = 0 := by
  rw [List.countP_eq_zero]
  intro x hx
  rw [hf x (h x hx)]
  exact Bool.false_ne_true

theorem not_halts_quiet (h : ∀ x ∈ span, x.Quiet) : ¬ Halts span := by
  rintro ⟨p, q, audience, hx, hq⟩
  have hquiet := (h _ hx).2
  rw [hq] at hquiet
  cases hquiet

theorem Account.recorded (h : Account span) : Recorded span := by
  cases h with
  | going h =>
    have hhalts := countP_quiet (fun _ => Note.Quiet.not_halt) h
    have hruns := countP_quiet (fun _ => Note.Quiet.not_run) h
    have hno := not_halts_quiet h
    refine ⟨by omega, by omega, iff_of_false (by omega) hno, iff_of_false (by omega) hno, ?_⟩
    intro r hr
    exact (h _ hr).elim
  | halted later earlier p q audience r hq hr hl he h =>
    have hhalts : span.countP Note.isHalt = 1 := by
      rw [h, List.countP_append, countP_quiet (fun _ => Note.Quiet.not_halt) hl,
        List.countP_cons_of_neg (p := Note.isHalt) (a := .halted r) Bool.false_ne_true,
        List.countP_cons_of_pos (p := Note.isHalt) (a := .event (.halt ..)) rfl,
        List.countP_cons_of_neg (p := Note.isHalt) (a := .commit ..) Bool.false_ne_true,
        countP_quiet (fun _ => Note.Quiet.not_halt) he]
    have hruns : span.countP Note.isRun = 1 := by
      rw [h, List.countP_append, countP_quiet (fun _ => Note.Quiet.not_run) hl,
        List.countP_cons_of_pos (p := Note.isRun) (a := .halted r) rfl,
        List.countP_cons_of_neg (p := Note.isRun) (a := .event (.halt ..)) Bool.false_ne_true,
        List.countP_cons_of_neg (p := Note.isRun) (a := .commit ..) Bool.false_ne_true,
        countP_quiet (fun _ => Note.Quiet.not_run) he]
    have hcommit : .commit p q audience ∈ span := by
      rw [h]
      simp
    have hevent : .event (.halt q.status q.state q.steps) ∈ span := by
      rw [h]
      simp
    have hyes : Halts span := ⟨p, q, audience, hcommit, hq⟩
    refine ⟨hhalts.le, hruns.le, iff_of_true hhalts hyes, iff_of_true hruns hyes, ?_⟩
    intro r' hr'
    refine ⟨p, q, audience, hcommit, hq, hevent, ?_⟩
    rw [h, List.mem_append] at hr'
    rcases hr' with hx | hx
    · exact (hl _ hx).elim
    · rcases List.mem_cons.1 hx with hx | hx
      · cases hx
        exact hr
      · have hmem : .halted r' ∈ earlier := by simpa using hx
        exact (he _ hmem).elim

theorem Account.quiet (h : Account span) (hns : ∀ x ∈ ns, x.Quiet) : Account (ns ++ span) := by
  cases h with
  | going h =>
    refine .going ?_
    intro x hx
    rcases List.mem_append.1 hx with hx | hx
    · exact hns x hx
    · exact h x hx
  | halted later earlier p q audience r hq hr hl he h =>
    refine .halted (ns ++ later) earlier p q audience r hq hr ?_ he (by rw [h, List.append_assoc])
    intro x hx
    rcases List.mem_append.1 hx with hx | hx
    · exact hns x hx
    · exact hl x hx

/-- every span is accounted for, nothing has halted in the last one, which comes first, unless the machine is halted,
and between the spans stand the commits of loads -/
structure Accounted (n : ℤ) (tr : List Note) (halted : Bool) : Prop where
  spans : ∃ span older, tr.splitOnP Note.isFresh = span :: older ∧ Account span ∧ (∀ s ∈ older, Account s) ∧
    (halted = false → ∀ x ∈ span, x.Quiet)
  loads : ∀ x ∈ tr, x.isFresh = true → x.OfLoad n

theorem splitOnP_cons_of_not_fresh {x : Note} (hx : x.isFresh = false) {older : List (List Note)}
    (h : tr.splitOnP Note.isFresh = span :: older) : (x :: tr).splitOnP Note.isFresh = (x :: span) :: older := by
  rw [List.splitOnP_cons_eq_if_modifyHead, hx, h]
  rfl

theorem splitOnP_quiet (hns : ∀ x ∈ ns, x.Quiet) {older : List (List Note)}
    (h : tr.splitOnP Note.isFresh = span :: older) : (ns ++ tr).splitOnP Note.isFresh = (ns ++ span) :: older := by
  induction ns with
  | nil => exact h
  | cons x ns ih =>
    obtain ⟨hx, hns⟩ := List.forall_mem_cons.1 hns
    exact splitOnP_cons_of_not_fresh hx.not_fresh (ih hns)

theorem Accounted.quiet (h : Accounted n tr halted) (hns : ∀ x ∈ ns, x.Quiet) : Accounted n (ns ++ tr) halted := by
  obtain ⟨span, older, hsplit, hspan, holder, hgoing⟩ := h.spans
  refine ⟨⟨ns ++ span, older, splitOnP_quiet hns hsplit, hspan.quiet hns, holder, ?_⟩, ?_⟩
  · intro hh x hx
    rcases List.mem_append.1 hx with hx | hx
    · exact hns x hx
    · exact hgoing hh x hx
  · intro x hx hfresh
    rcases List.mem_append.1 hx with hx | hx
    · rw [(hns x hx).not_fresh] at hfresh
      cases hfresh
    · exact h.loads x hx hfresh

/-- a load opens a span -/
theorem Accounted.load (h : Accounted n tr halted) (hn : 1 ≤ n) {x : Note} (hx : x.OfLoad n) (halted' : Bool) :
    Accounted n (x :: tr) halted' := by
  obtain ⟨span, older, hsplit, hspan, holder, -⟩ := h.spans
  refine ⟨⟨[], span :: older, ?_, .going (List.forall_mem_nil _), ?_, fun _ => List.forall_mem_nil _⟩, ?_⟩
  · rw [List.splitOnP_cons_eq_if_modifyHead, hx.isFresh hn, hsplit]
    rfl
  · exact List.forall_mem_cons.2 ⟨hspan, holder⟩
  · exact List.forall_mem_cons.2 ⟨fun _ => hx, h.loads⟩

/-- a machine that goes on halts, and its records are made -/
theorem Accounted.halt (h : Accounted n tr false) (hq : q.halted = true) (hr : r.Truthful q) :
    Accounted n (.halted r :: .event (.halt q.status q.state q.steps) :: .commit p q audience :: tr) true := by
  obtain ⟨span, older, hsplit, -, holder, hgoing⟩ := h.spans
  have hfresh : (Note.commit p q audience).isFresh = false := by
    have hstatus : q.status ≠ .idle := by
      intro hi
      rw [Snapshot.halted, hi] at hq
      cases hq
    rw [Note.isFresh, beq_false_of_ne hstatus, Bool.false_and]
  refine ⟨⟨.halted r :: .event (.halt q.status q.state q.steps) :: .commit p q audience :: span, older, ?_, ?_, holder,
    ?_⟩, ?_⟩
  · exact splitOnP_cons_of_not_fresh rfl (splitOnP_cons_of_not_fresh rfl (splitOnP_cons_of_not_fresh hfresh hsplit))
  · exact .halted [] span p q audience r hq hr (List.forall_mem_nil _) (hgoing rfl) rfl
  · intro hh
    cases hh
  · intro x hx hx'
    rcases List.mem_cons.1 hx with rfl | hx
    · cases hx'
    rcases List.mem_cons.1 hx with rfl | hx
    · cases hx'
    rcases List.mem_cons.1 hx with rfl | hx
    · rw [hfresh] at hx'
      cases hx'
    · exact h.loads x hx hx'

end Spans

/-! ## Engines -/

namespace Engine

variable {n : ℤ} {e e' : Engine}

/-- the snapshot shows how far the machine has come -/
def OnTrack (e : Engine) : Prop := ∀ d, e.definition = some d → Tracks d e.input e.snapshot

theorem Course.onTrack (hs : Sound n e) (h : OnTrack e) (hc : Course n e e') : OnTrack e' := by
  intro d hd
  cases hc with
  | rest hm =>
    obtain ⟨hdef, -, hinput, hsnap⟩ := Machine.mk.inj hm
    rw [hinput, hsnap]
    exact h d (hdef.symm.trans hd)
  | load d' input hd' hm =>
    obtain ⟨hdef, -, hinput, hsnap⟩ := Machine.mk.inj hm
    obtain rfl : d = d' := Option.some.inj (hd.symm.trans hdef)
    rw [hinput, hsnap]
    exact tracks_fresh d input hs.pos _
  | step q hh hq hm =>
    obtain ⟨hdef, -, hinput, hsnap⟩ := Machine.mk.inj hm
    have hd' : e.definition = some d := hdef.symm.trans hd
    have hadv := hq
    simp only [Engine.next, hd', hs.table d hd'] at hadv
    rw [hinput, hsnap]
    exact (h d hd').advance hh hadv
  | status q hh hq hd' hm =>
    obtain ⟨hdef, -, hinput, hsnap⟩ := Machine.mk.inj hm
    rw [hinput, hsnap]
    exact (h d (hdef.symm.trans hd)).withStatus q

/-- there is no tape before the first load -/
def TapelessAtFirst (e : Engine) : Prop := e.definition = none → e.snapshot.tape = []

/-- the log and the trace of an engine tell of every halt -/
structure Registered (n : ℤ) (e : Engine) : Prop where
  follows : Follows n e
  onTrack : OnTrack e
  tapeless : TapelessAtFirst e
  logged : e.journal.isSome = true
  tracing : e.tracing = true
  accounted : Accounted n e.trace e.snapshot.halted

theorem quiet_logged (e : Engine) {ev : Event} (h : (Note.event ev).Quiet) : ∀ x ∈ e.logNotes [.event ev], x.Quiet := by
  unfold logNotes
  split_ifs
  · exact List.forall_mem_singleton.2 h
  · exact List.forall_mem_nil _

theorem quiet_startNotes (e : Engine) (interval : Seconds) : ∀ x ∈ e.startNotes interval, x.Quiet := by
  intro x hx
  have hev : (Note.event (.run interval e.snapshot.steps)).Quiet := trivial
  rcases List.mem_append.1 hx with hx | hx
  · exact quiet_logged e hev x hx
  · rw [List.mem_singleton.1 hx]
    trivial

theorem Records.accounted {ns : List Note} (h : Records ns e e') (ht : e.tracing = true)
    (ha : Accounted n (ns ++ e.trace) e.snapshot.halted) : Accounted n e'.trace e'.snapshot.halted := by
  rw [h.trace ht, h.snapshot]
  exact ha

theorem accounted_loaded {tr : List Note} {halted : Bool} (ha : Accounted n tr halted) (hn : 1 ≤ n) (e : Engine)
    {d : Definition} (hd : d.Valid) (input : Text) (halted' : Bool) :
    Accounted n (e.loadNotes d input n ++ tr) halted' := by
  have hev : (Note.event (.loaded input d.initial d.table.length)).Quiet := trivial
  exact (ha.quiet (quiet_logged e hev)).load hn ⟨e.snapshot, d, input, _, _, hd, rfl⟩ halted'

theorem advance_ne_idle {d : Definition} {t : Table} {s q : Snapshot} (h : advance d t s = some q)
    (hs : s.halted = false) : q.status ≠ .idle := by
  rcases advance_cases h hs with ⟨-, rfl⟩ | ⟨-, -, rfl⟩ | ⟨r, -, -, hr⟩
  · intro hi
    cases hi
  · intro hi
    cases hi
  · obtain ⟨tape, -, rfl⟩ := Option.map_eq_some_iff.1 hr
    exact statusAfter_ne_idle r.next s.status

/-- a step, by hand or by the timer, halts and is recorded, or goes on quietly -/
theorem Registered.place (h : Registered n e) (hs : Sound n e) (hh : e.snapshot.halted = false) {q : Snapshot}
    (hq : e.next = some q) : Accounted n (e.placeNotes q ++ e.trace) q.halted := by
  have hgoing := h.accounted
  rw [hh] at hgoing
  cases hd : e.definition with
  | none =>
    obtain ⟨q', hq', -, hsame⟩ := hs.next hh
    obtain rfl : q' = q := Option.some.inj (hq'.symm.trans hq)
    have hcommit : (Note.commit e.snapshot e.snapshot e.subscribers).Quiet := ⟨Or.inr (h.tapeless hd), hh⟩
    rw [hsame hd, placeNotes, hh]
    exact hgoing.quiet (List.forall_mem_singleton.2 hcommit)
  | some d =>
    have hadv := hq
    simp only [Engine.next, hd, hs.table d hd] at hadv
    cases hqh : q.halted with
    | false =>
      rw [placeNotes, hqh]
      have hcommit : (Note.commit e.snapshot q e.subscribers).Quiet := ⟨Or.inl (advance_ne_idle hadv hh), hqh⟩
      exact hgoing.quiet (List.forall_mem_singleton.2 hcommit)
    | true =>
      have hnotes : e.haltNotes q = [.halted (e.haltedRun d q), .event (.halt q.status q.state q.steps)] := by
        rw [haltNotes, logNotes, if_pos h.logged, hd]
        rfl
      rw [placeNotes, hqh, hh, hnotes]
      exact hgoing.halt hqh (haltedRun_truthful (hs.valid d hd) hqh ((h.onTrack d hd).advance hh hadv)
        (h.follows.next hh hq hd))

/-- **Every change accounts for what it does to the machine.** -/
theorem Change.accounted (hs : Sound n e) (h : Registered n e) (hc : Change e e') :
    Accounted n e'.trace e'.snapshot.halted := by
  have ht := h.tracing
  have ha := h.accounted
  cases hc with
  | load d input m hd hn h' =>
    obtain rfl : n = m := Except.ok.inj (hs.room.symm.trans hn)
    exact h'.accounted ht (accounted_loaded ha hs.pos e hd input _)
  | reset d m he hd hn h' =>
    obtain rfl : n = m := Except.ok.inj (hs.room.symm.trans hn)
    have hev : (Note.event .reset).Quiet := trivial
    refine h'.accounted ht ?_
    rw [List.append_assoc]
    exact accounted_loaded (ha.quiet (quiet_logged e hev)) hs.pos e hd "" _
  | step q hm hq h' => exact h'.accounted ht (h.place hs (Status.not_halted_of_manual hm) hq)
  | tick t q htick hr hq h' => exact h'.accounted ht (h.place hs (Snapshot.not_halted_of_running hr) hq)
  | start t interval hd hh hi hr h' =>
    have hcommit : (Note.commit e.snapshot (e.withStatus .running) e.subscribers).Quiet := by
      refine ⟨Or.inl ?_, rfl⟩
      intro hi
      cases hi
    rw [hh] at ha
    exact h'.accounted ht (ha.quiet (List.forall_mem_cons.2 ⟨hcommit, quiet_startNotes e interval⟩))
  | restart t interval hi hr h' => exact h'.accounted ht (ha.quiet (quiet_startNotes e interval))
  | decline hd h' => exact h'.accounted ht (ha.quiet (List.forall_mem_singleton.2 trivial))
  | refuse interval f hi h' => exact h'.accounted ht (ha.quiet (List.forall_mem_singleton.2 trivial))
  | mistype h' => exact h'.accounted ht (ha.quiet (List.forall_mem_singleton.2 trivial))
  | pause hr h' =>
    have hcommit : (Note.commit e.snapshot (e.withStatus .paused) e.subscribers).Quiet := by
      refine ⟨Or.inl ?_, rfl⟩
      intro hi
      cases hi
    have hev : (Note.event (.pause e.snapshot.steps)).Quiet := trivial
    rw [Snapshot.not_halted_of_running hr] at ha
    exact h'.accounted ht (ha.quiet (List.forall_mem_cons.2 ⟨hcommit, quiet_logged e hev⟩))
  | stop hr h' =>
    rw [h']
    exact ha
  | fail h' =>
    rw [h']
    exact (records_note e.stopTicker _).accounted ht (ha.quiet (List.forall_mem_singleton.2 trivial))
  | interrupt h' =>
    rw [h']
    exact (records_note e _).accounted ht (ha.quiet (List.forall_mem_singleton.2 trivial))
  | subscribe l h' =>
    rw [h']
    exact ha
  | script l h' =>
    rw [h']
    exact ha
  | deliver l q h' =>
    rw [h']
    exact (records_note e _).accounted ht (ha.quiet (List.forall_mem_singleton.2 trivial))

end Engine
end TapeMachine
