/-
The control graph of a machine.

A snapshot is committed on top of another one, and the statuses of the two are an edge of a small graph: from idle and
from paused a machine goes on, or starts to run; a running one goes on, or is paused; each of them may halt; and nothing
leads on from a halt but a load. Between loads nothing but the status changes, or one transition of the definition is
made and counted (`Edge`). Before the first load there is a single snapshot, which is committed again and again.

Every change adds no snapshot to the history, or one that may follow the latest (`Change.commits`). So the history of
every engine that can be reached is a walk in the graph (`Walk`, `reaches_controlled`).
-/
import TapeMachine.Proofs.Verdicts

namespace TapeMachine

/-! ## The graph -/

/-- the statuses that may come after a status, as long as the machine is not loaded again -/
def Status.successors : Status → List Status
  | .idle => [.paused, .running, .accepted, .error]
  | .paused => [.paused, .running, .accepted, .error]
  | .running => [.running, .paused, .accepted, .error]
  | .accepted => []
  | .error => []

namespace Snapshot

variable {d : Definition} {p q : Snapshot}

/-- `q` comes of `p` by the rule that the definition has for it -/
def Transition (d : Definition) (p q : Snapshot) : Prop :=
  ∃ r, p.state ≠ d.accept ∧ d.table.find? p.state (p.read d.blank) = some r ∧ applyRule d r p = some q

/-- nothing has changed but the status -/
def Rests (p q : Snapshot) : Prop := q.tape = p.tape ∧ q.head = p.head ∧ q.state = p.state ∧ q.steps = p.steps

/-- `q` may follow `p` as long as the machine is not loaded again -/
structure Edge (d : Definition) (p q : Snapshot) : Prop where
  status : q.status ∈ p.status.successors
  moves : (Transition d p q ∧ q.steps = p.steps + 1) ∨ Rests p q
  /-- an idle machine is not paused, but makes a step by hand -/
  paused : p.status = .idle → q.status = .paused → Transition d p q
  /-- no transition is made when a run starts -/
  starts : p.status = .idle ∨ p.status = .paused → q.status = .running → Rests p q
  /-- and none when it is paused -/
  pauses : p.status = .running → q.status = .paused → Rests p q
  /-- a machine is stuck where it is -/
  error : q.status = .error → Rests p q

/-- a machine that has just been loaded, with `n` cells of padding -/
def Loaded (n : ℤ) (q : Snapshot) : Prop :=
  ∃ (d : Definition) (input : Text) (truth : Bool), d.Valid ∧ q = { Snapshot.fresh d input n with truthHead := truth }

theorem rests_withStatus (p : Snapshot) (status : Status) : Rests p { p with status } := ⟨rfl, rfl, rfl, rfl⟩

theorem edge_withStatus (p : Snapshot) {status : Status} (h : status ∈ p.status.successors)
    (hne : p.status = .idle → status ≠ .paused) : Edge d p { p with status } where
  status := h
  moves := Or.inr (rests_withStatus p status)
  paused := fun hi hp => absurd hp (hne hi)
  starts := fun _ _ => rests_withStatus p status
  pauses := fun _ _ => rests_withStatus p status
  error := fun _ => rests_withStatus p status

/-- a halt is near to every machine that goes on -/
theorem mem_successors_of_halted {p q : Status} (hp : p.halted = false) (hq : q.halted = true) : q ∈ p.successors := by
  cases p <;> cases q <;> simp_all [Status.halted, Status.successors]

theorem statusAfter_mem_successors (d : Definition) (next : Text) {p : Status} (hp : p.halted = false) :
    statusAfter d next p ∈ p.successors := by
  unfold statusAfter
  split_ifs with ha hi
  · exact mem_successors_of_halted hp rfl
  · rw [hi]
    decide
  · cases p <;> simp_all [Status.halted, Status.successors]

/-- the rule that is applied does not start a run -/
theorem running_of_statusAfter {next : Text} {p : Status} (h : statusAfter d next p = .running) :
    p = .running := by
  unfold statusAfter at h
  split_ifs at h
  exact h

/-- nor does it pause one -/
theorem statusAfter_running_ne_paused (d : Definition) (next : Text) : statusAfter d next .running ≠ .paused := by
  by_cases ha : next = d.accept
  · rw [statusAfter, if_pos ha]
    decide
  · rw [statusAfter, if_neg ha, if_neg (by decide)]
    decide

theorem edge_advance (h : advance d d.table p = some q) (hp : p.halted = false) : Edge d p q := by
  rcases advance_cases h hp with ⟨-, rfl⟩ | ⟨-, -, rfl⟩ | ⟨r, hne, hf, hr⟩
  · exact edge_withStatus p (mem_successors_of_halted hp rfl) fun _ => by decide
  · exact edge_withStatus p (mem_successors_of_halted hp rfl) fun _ => by decide
  have htransition : Transition d p q := ⟨r, hne, hf, hr⟩
  obtain ⟨tape, -, rfl⟩ := Option.map_eq_some_iff.1 hr
  refine ⟨statusAfter_mem_successors d r.next hp, Or.inl ⟨htransition, rfl⟩, fun _ _ => htransition, ?_, ?_, ?_⟩
  · intro hs hq
    have hrun : p.status = .running := running_of_statusAfter hq
    rw [hrun] at hs
    rcases hs with hs | hs <;> cases hs
  · intro hs hq
    rw [hs] at hq
    exact absurd hq (statusAfter_running_ne_paused d r.next)
  · intro hq
    exact absurd hq (statusAfter_ne_error hp r.next)

theorem edge_start (hp : p.halted = false) (hr : p.status ≠ .running) : Edge d p { p with status := .running } := by
  refine edge_withStatus p ?_ fun _ => by decide
  rw [halted] at hp
  cases hs : p.status <;> simp_all [Status.halted, Status.successors]

theorem edge_pause (hr : p.status = .running) : Edge d p { p with status := .paused } := by
  refine edge_withStatus p ?_ fun hi => ?_
  · rw [hr]
    decide
  · rw [hr] at hi
    cases hi

/-- nothing leads on from a halt -/
theorem Edge.not_halted (h : Edge d p q) : p.halted = false := by
  have hs := h.status
  rw [halted]
  cases hst : p.status <;> simp_all [Status.halted, Status.successors]

end Snapshot

/-! ## Histories -/

/-- the snapshot that a note tells the commit of -/
def Note.committed? : Note → Option Snapshot
  | .commit _ q _ => some q
  | _ => none

/-- the snapshots committed, the latest first, on top of the one that an engine is made with -/
def history (tr : List Note) : List Snapshot := tr.filterMap Note.committed? ++ [({} : Snapshot)]

theorem history_append (ns tr : List Note) : history (ns ++ tr) = ns.filterMap Note.committed? ++ history tr := by
  rw [history, List.filterMap_append, List.append_assoc]
  rfl

/-- snapshots that were committed one on top of the other, `q` the latest: without a definition the one that an engine
is made with, over and over again; with a definition that of a load, and then what the definition leads to -/
inductive Walk (n : ℤ) : Option Definition → Snapshot → List Snapshot → Prop
  | made : Walk n none {} []
  | wait {older : List Snapshot} (h : Walk n none {} older) : Walk n none {} ({} :: older)
  | load {loaded : Option Definition} {p : Snapshot} {older : List Snapshot} (d : Definition) (input : Text)
      (truth : Bool) (hd : d.Valid) (h : Walk n loaded p older) :
      Walk n (some d) { Snapshot.fresh d input n with truthHead := truth } (p :: older)
  | next {d : Definition} {p : Snapshot} {older : List Snapshot} (q : Snapshot) (ht : p.tape ≠ [])
      (he : Snapshot.Edge d p q) (h : Walk n (some d) p older) : Walk n (some d) q (p :: older)

section Walk

variable {n : ℤ} {q : Snapshot} {older : List Snapshot}

/-- before the first load there is a single snapshot -/
theorem Walk.unloaded {loaded : Option Definition} (h : Walk n loaded q older) (hn : loaded = none) :
    ∀ x ∈ q :: older, x = {} := by
  induction h with
  | made => exact List.forall_mem_singleton.2 rfl
  | wait h ih => exact List.forall_mem_cons.2 ⟨rfl, ih rfl⟩
  | load d input truth hd h ih => cases hn
  | next q ht he h ih => cases hn

/-- a definition comes with a load -/
theorem Walk.exists_loaded {loaded : Option Definition} (h : Walk n loaded q older) (hne : loaded ≠ none) :
    ∃ x ∈ q :: older, x.Loaded n := by
  induction h with
  | made => exact absurd rfl hne
  | wait h ih => exact absurd rfl hne
  | load d input truth hd h ih => exact ⟨_, List.mem_cons_self, d, input, truth, hd, rfl⟩
  | next q ht he h ih =>
    obtain ⟨x, hx, hl⟩ := ih hne
    exact ⟨x, List.mem_cons_of_mem q hx, hl⟩

/-- `q` may follow `p`: a machine is loaded, or it goes on, or there is none yet; and after a halt it is loaded -/
structure Successor (n : ℤ) (p q : Snapshot) : Prop where
  follows : q.Loaded n ∨ (p.tape ≠ [] ∧ ∃ d, Snapshot.Edge d p q) ∨ (p = {} ∧ q = {})
  halted : p.halted = true → q.Loaded n

theorem successor_loaded {p : Snapshot} (h : q.Loaded n) : Successor n p q := ⟨Or.inl h, fun _ => h⟩

/-- **Any two snapshots in a row are an edge, or a load.** -/
theorem Walk.chain {loaded : Option Definition} (h : Walk n loaded q older) :
    (q :: older).IsChain fun q p => Successor n p q := by
  induction h with
  | made => exact List.isChain_singleton _
  | wait h ih =>
    refine List.isChain_cons_cons.2 ⟨⟨Or.inr (Or.inr ⟨rfl, rfl⟩), ?_⟩, ih⟩
    intro hh
    cases hh
  | load d input truth hd h ih => exact List.isChain_cons_cons.2 ⟨successor_loaded ⟨d, input, truth, hd, rfl⟩, ih⟩
  | next q ht he h ih =>
    refine List.isChain_cons_cons.2 ⟨⟨Or.inr (Or.inl ⟨ht, _, he⟩), ?_⟩, ih⟩
    intro hh
    rw [he.not_halted] at hh
    cases hh

end Walk

namespace Engine

variable {n : ℤ} {e e' : Engine}

theorem Logged.commits_nil {ns : List Note} (h : Logged ns) : ns.filterMap Note.committed? = [] := by
  rw [List.filterMap_eq_nil_iff]
  intro x hx
  obtain ⟨ev, rfl⟩ | ⟨r, rfl⟩ := h x hx
  · rfl
  · rfl

theorem commits_event (e : Engine) (ev : Event) : (e.logNotes [.event ev]).filterMap Note.committed? = [] :=
  (logged_logNotes (logged_event ev) e).commits_nil

theorem commits_placeNotes (e : Engine) (q : Snapshot) : (e.placeNotes q).filterMap Note.committed? = [q] := by
  rw [placeNotes, List.filterMap_append]
  split_ifs
  · rw [(logged_haltNotes e q).commits_nil]
    rfl
  · rfl

theorem commits_loadNotes (e : Engine) (d : Definition) (input : Text) :
    (e.loadNotes d input n).filterMap Note.committed? = [e.freshly d input n] := by
  rw [loadNotes, List.filterMap_cons, commits_event]
  rfl

theorem commits_startNotes (e : Engine) (interval : Seconds) :
    (e.startNotes interval).filterMap Note.committed? = [] := by
  rw [startNotes, List.filterMap_append, commits_event]
  rfl

/-! ## What a change commits -/

/-- what a change adds to the trace: no commit, that of a load, or that of a snapshot which may follow the latest -/
inductive Commits (n : ℤ) (e e' : Engine) (new : List Note) : Prop
  | rest (hc : new.filterMap Note.committed? = []) (hd : e'.definition = e.definition) (hq : e'.snapshot = e.snapshot)
  | load (hc : new.filterMap Note.committed? = [e'.snapshot]) (d : Definition) (input : Text) (truth : Bool)
      (hv : d.Valid) (hd : e'.definition = some d)
      (hq : e'.snapshot = { Snapshot.fresh d input n with truthHead := truth })
  | wait (hc : new.filterMap Note.committed? = [e'.snapshot]) (hn : e.definition = none) (hd : e'.definition = none)
      (hq : e'.snapshot = e.snapshot)
  | next (hc : new.filterMap Note.committed? = [e'.snapshot]) (d : Definition) (hd : e.definition = some d)
      (hd' : e'.definition = some d) (he : Snapshot.Edge d e.snapshot e'.snapshot)

theorem Records.commits_rest {ns : List Note} {e₀ : Engine} (h : Records ns e₀ e')
    (hns : ns.filterMap Note.committed? = []) (hd : e₀.definition = e.definition) (hq : e₀.snapshot = e.snapshot) :
    Commits n e e' ns :=
  .rest hns (h.definition.trans hd) (h.snapshot.trans hq)

theorem Records.commits_load {ns : List Note} {d : Definition} {input : Text} (h : Records ns (e.loaded d input n) e')
    (hd : d.Valid) (hns : ns.filterMap Note.committed? = [e.freshly d input n]) : Commits n e e' ns := by
  have hsnap : e'.snapshot = e.freshly d input n := h.snapshot
  exact .load (hns.trans (by rw [hsnap])) d input _ hd h.definition hsnap

/-- a step, by hand or by the timer, commits the next snapshot -/
theorem Records.commits_next {q : Snapshot} {e₀ : Engine} (h : Records (e.placeNotes q) (e₀.placed q) e')
    (hs : Sound n e) (hd : e₀.definition = e.definition) (hh : e.snapshot.halted = false) (hq : e.next = some q) :
    Commits n e e' (e.placeNotes q) := by
  have hsnap : e'.snapshot = q := h.snapshot
  have hnotes : (e.placeNotes q).filterMap Note.committed? = [e'.snapshot] := by rw [commits_placeNotes, hsnap]
  have hsame := h.definition.trans hd
  cases hdef : e.definition with
  | none =>
    simp only [Engine.next, hdef] at hq
    exact .wait hnotes hdef (hsame.trans hdef) (hsnap.trans (Option.some.inj hq).symm)
  | some d =>
    simp only [Engine.next, hdef, hs.table d hdef] at hq
    rw [← hsnap] at hq
    exact .next hnotes d hdef (hsame.trans hdef) (Snapshot.edge_advance hq hh)

/-- a run starts, or is paused -/
theorem Records.commits_status {ns : List Note} {e₀ : Engine} {status : Status} (h : Records ns e₀ e')
    (hns : ns.filterMap Note.committed? = [e.withStatus status]) (hd : e₀.definition = e.definition)
    (hq : e₀.snapshot = e.withStatus status) (hne : e.definition ≠ none)
    (he : ∀ d, Snapshot.Edge d e.snapshot (e.withStatus status)) : Commits n e e' ns := by
  obtain ⟨d, hd'⟩ := Option.ne_none_iff_exists'.1 hne
  have hsnap : e'.snapshot = e.withStatus status := h.snapshot.trans hq
  refine .next (hns.trans (by rw [hsnap])) d hd' ((h.definition.trans hd).trans hd') ?_
  rw [hsnap]
  exact he d

/-- **A change commits nothing, a load, or a snapshot which may follow the latest.** -/
theorem Change.commits (hs : Sound n e) (ht : e.tracing = true) (hc : Change e e') :
    ∃ new, e'.trace = new ++ e.trace ∧ Commits n e e' new := by
  cases hc with
  | load d input m hd hn h =>
    obtain rfl : n = m := Except.ok.inj (hs.room.symm.trans hn)
    exact ⟨_, h.trace ht, h.commits_load hd (commits_loadNotes e d input)⟩
  | reset d m he hd hn h =>
    obtain rfl : n = m := Except.ok.inj (hs.room.symm.trans hn)
    refine ⟨_, h.trace ht, h.commits_load hd ?_⟩
    rw [List.filterMap_append, commits_loadNotes, commits_event]
    rfl
  | step q hm hq h => exact ⟨_, h.trace ht, h.commits_next hs rfl (Status.not_halted_of_manual hm) hq⟩
  | tick t q htick hr hq h => exact ⟨_, h.trace ht, h.commits_next hs rfl (Snapshot.not_halted_of_running hr) hq⟩
  | start t interval hd hh hi hr h =>
    refine ⟨_, h.trace ht, h.commits_status ?_ rfl rfl ?_ fun d => Snapshot.edge_start hh hr⟩
    · rw [List.filterMap_cons, commits_startNotes]
      rfl
    · intro hn
      rw [hn] at hd
      cases hd
  | restart t interval hi hr h => exact ⟨_, h.trace ht, h.commits_rest (commits_startNotes e interval) rfl rfl⟩
  | decline hd h => exact ⟨_, h.trace ht, h.commits_rest rfl rfl rfl⟩
  | refuse interval f hi h => exact ⟨_, h.trace ht, h.commits_rest rfl rfl rfl⟩
  | mistype h => exact ⟨_, h.trace ht, h.commits_rest rfl rfl rfl⟩
  | pause hr h =>
    refine ⟨_, h.trace ht, h.commits_status ?_ rfl rfl ?_ fun d => Snapshot.edge_pause hr⟩
    · rw [List.filterMap_cons, commits_event]
      rfl
    · intro hn
      exact absurd hr (not_running_of_none hs hn)
  | stop hr h => exact ⟨[], by rw [h]; rfl, .rest rfl (by rw [h]; rfl) (by rw [h]; rfl)⟩
  | fail h =>
    rw [h]
    exact ⟨_, (records_note e.stopTicker _).trace ht, (records_note e.stopTicker _).commits_rest rfl rfl rfl⟩
  | interrupt h =>
    rw [h]
    exact ⟨_, (records_note e _).trace ht, (records_note e _).commits_rest rfl rfl rfl⟩
  | subscribe l h => exact ⟨[], by rw [h]; rfl, .rest rfl (by rw [h]) (by rw [h])⟩
  | script l h => exact ⟨[], by rw [h]; rfl, .rest rfl (by rw [h]) (by rw [h])⟩
  | deliver l q h =>
    rw [h]
    exact ⟨_, (records_note e _).trace ht, (records_note e _).commits_rest rfl rfl rfl⟩

/-! ## Walks -/

/-- the history of an engine is a walk up to its snapshot -/
structure Walks (n : ℤ) (e : Engine) : Prop where
  tracing : e.tracing = true
  walk : ∃ older, history e.trace = e.snapshot :: older ∧ Walk n e.definition e.snapshot older

/-- without a definition the machine has the snapshot that it was made with -/
theorem Walks.snapshot_eq (h : Walks n e) (hd : e.definition = none) : e.snapshot = {} := by
  obtain ⟨older, -, hwalk⟩ := h.walk
  exact hwalk.unloaded hd _ List.mem_cons_self

/-- **Every change goes on with the walk.** -/
theorem Change.walks (hs : Sound n e) (h : Walks n e) (hc : Change e e') : Walks n e' := by
  obtain ⟨older, holder, hwalk⟩ := h.walk
  obtain ⟨new, htrace, hcommits⟩ := hc.commits hs h.tracing
  have hhistory : history e'.trace = new.filterMap Note.committed? ++ e.snapshot :: older := by
    rw [htrace, history_append, holder]
  refine ⟨hc.sameMake.tracing.trans h.tracing, ?_⟩
  cases hcommits with
  | rest hnew hd hq =>
    rw [hnew, List.nil_append] at hhistory
    rw [hd, hq]
    exact ⟨older, hhistory, hwalk⟩
  | load hnew d input truth hv hd hq =>
    rw [hnew] at hhistory
    refine ⟨_, hhistory, ?_⟩
    rw [hd, hq]
    exact .load d input truth hv hwalk
  | wait hnew hn hd hq =>
    rw [hnew] at hhistory
    refine ⟨_, hhistory, ?_⟩
    rw [hn, h.snapshot_eq hn] at hwalk
    rw [hd, hq, h.snapshot_eq hn]
    exact .wait hwalk
  | next hnew d hd hd' he =>
    rw [hnew] at hhistory
    refine ⟨_, hhistory, ?_⟩
    rw [hd] at hwalk
    rw [hd']
    exact .next _ (hs.inRange d hd).tape_ne_nil he hwalk

theorem Changes.walks (hs : Sound n e) (h : Walks n e) (hc : Changes e e') : Walks n e' :=
  Changes.preserve (fun hs h hc => hc.walks hs h) hs h hc

/-- a load has succeeded since `e` -/
def LoadedSince (n : ℤ) (e e' : Engine) : Prop :=
  ∃ new, e'.trace = new ++ e.trace ∧ ∃ q ∈ new.filterMap Note.committed?, q.Loaded n

/-- before the first load the snapshot stays as it is -/
theorem Changes.awaits (hs : Sound n e) (h : Walks n e) (hd : e.definition = none) (hc : Changes e e') :
    (e'.definition = none ∧ e'.snapshot = e.snapshot) ∨ LoadedSince n e e' := by
  have h' := Changes.walks hs h hc
  by_cases hd' : e'.definition = none
  · exact Or.inl ⟨hd', (h'.snapshot_eq hd').trans (h.snapshot_eq hd).symm⟩
  obtain ⟨new, hnew⟩ := Changes.grows h.tracing hc
  obtain ⟨older, holder, hwalk⟩ := h.walk
  obtain ⟨older', holder', hwalk'⟩ := h'.walk
  obtain ⟨q, hq, hl⟩ := hwalk'.exists_loaded hd'
  rw [← holder', hnew, history_append, holder, List.mem_append] at hq
  rcases hq with hq | hq
  · exact Or.inr ⟨new, hnew, q, hq, hl⟩
  · -- what was there before is no load
    obtain ⟨d, input, truth, -, hfresh⟩ := hl
    have htape := (Snapshot.fresh_inRange d input hs.pos truth).tape_ne_nil
    rw [← hfresh, hwalk.unloaded hd q hq] at htape
    exact absurd rfl htape

/-! ## Engines that can be reached -/

/-- the control state follows the graph -/
structure Controlled (n : ℤ) (e : Engine) : Prop where
  walk : ∃ older, history e.trace = e.snapshot :: older ∧ Walk n e.definition e.snapshot older
  /-- any two snapshots in a row -/
  chain : (history e.trace).IsChain fun q p => Successor n p q
  initialised : e.definition ≠ none ↔ e.snapshot.tape ≠ []
  /-- without a definition a load has to succeed before there is another snapshot -/
  awaits : e.definition = none → ∀ notify self c, Listens notify →
    let e' := (perform notify self e c).engine
    (e'.definition = none ∧ e'.snapshot = e.snapshot) ∨ LoadedSince n e e'

theorem Walks.controlled (hs : Sound n e) (h : Walks n e) : Controlled n e where
  walk := h.walk
  chain := by
    obtain ⟨older, holder, hwalk⟩ := h.walk
    rw [holder]
    exact hwalk.chain
  initialised := by
    cases hd : e.definition with
    | none =>
      rw [h.snapshot_eq hd]
      exact iff_of_false (fun hne => hne rfl) fun hne => hne rfl
    | some d => exact iff_of_true (Option.some_ne_none d) (hs.inRange d hd).tape_ne_nil
  awaits := by
    intro hd notify self c hn
    have hheard : Heard n notify := fun e q he => reaches_changes (hn e q) he
    exact Changes.awaits hs h hd (perform_changes hheard hs self c)

/-- **The control state follows its graph**, whatever the commands from outside and the listeners do, faults included.
The settings give at least one cell of padding, for which there is room, and the log takes every entry. -/
theorem reaches_controlled {c : Config} {loop : Bool} {disk : Disk} {clock : Clock} {journal : Option Journal}
    {refused : List String} {room : Option ℕ} (hm : make c loop disk clock = .ok e)
    (hn : e.padding.count room = .ok n) (hpos : 1 ≤ n)
    (hl : { e with room, journal, refused, tracing := true }.LogsAll)
    (h : Reaches { e with room, journal, refused, tracing := true } e') : Controlled n e' := by
  have hs := sound_of_make hm hn hpos hl
  have hnew : Walks n { e with room, journal, refused, tracing := true } := by
    obtain ⟨padding, least, v, -, -, rfl⟩ := make_eq hm
    exact ⟨rfl, [], rfl, .made⟩
  have hc := reaches_changes h hs
  exact (Changes.walks hs hnew hc).controlled (Changes.sound hs hc)

/-- the busy beaver, stepped in vain before it is loaded, with a listener that starts it again in the middle of its halt
-/
def wayward : Engine :=
  applyAll { bench with
    scripts :=
      [("wayward", [⟨none, some .accepted, [.step, .restart, .step, .run (.given (.whole 1)), .pause, .fail]⟩])] }
    [.step, .subscribe "wayward", .load (.definition Preset.busyBeaver) none, .run (.given (.whole 1)), .fire, .pause,
      .step, .runUntilHalt (some (.ok 20)), .run (.given (.whole 1)), .fire, .reset]

theorem wayward_controlled :
    let e : Engine := { bench with tracing := false }
    make benchSettings true {} bench.clock = .ok e ∧ e.padding.count e.room = .ok 1 ∧ bench.LogsAll ∧
      Reaches bench wayward ∧
      ((history wayward.trace).map Snapshot.status).destutter (· ≠ ·) =
        [.idle, .running, .paused, .running, .paused, .idle, .accepted, .paused, .running, .idle] ∧
      Controlled 1 wayward := by
  have hl : bench.LogsAll := logsAll_of_no_journal rfl
  have hr : Reaches bench wayward := (Reaches.script _ (.refl _)).trans (applyAll_reaches _ _)
  exact ⟨make_bench, rfl, hl, hr, by decide +kernel, reaches_controlled make_bench rfl (by decide) hl hr⟩

end Engine
end TapeMachine
