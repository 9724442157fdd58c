/-
The trajectory of a definition and an input.

A snapshot is on a trajectory when its tape, head and state are those that as many steps as it counts produce from the
start of the trajectory, and its status says of them what it should (`OnTrajectory`). A step leads from there to the
next point of the trajectory, or halts where it is. An engine follows (`Follows`) when its snapshot is on the trajectory
of its definition and input, from the fresh snapshot on.

Every change keeps that (`Change.follows`), and so it holds of every engine that can be reached, whatever the listeners
do in the middle of a command (`reaches_onTrajectory`).
-/
import TapeMachine.Proofs.Operations

namespace TapeMachine

/-! ## Snapshots -/

/-- the snapshot is where `steps` steps from `start` lead, and its status is the right one for that -/
structure OnTrajectory (d : Definition) (start s : Snapshot) : Prop where
  reached : ∃ q, advanceN d d.table s.steps.toNat start = some q ∧ q.tape = s.tape ∧ q.head = s.head ∧
    q.state = s.state ∧ (s.halted = false → q.halted = false)
  nonneg : 0 ≤ s.steps
  accepted : s.status = .accepted → s.state = d.accept
  error : s.status = .error → s.state ≠ d.accept ∧ d.table.find? s.state (s.read d.blank) = none
  idle : s.status = .idle → s.steps = 0
  going : s.halted = false → 0 < s.steps → s.state ≠ d.accept

section Snapshot

variable {d : Definition} {start s q : Snapshot}

theorem advanceN_succ (t : Table) (n : ℕ) (s : Snapshot) :
    advanceN d t (n + 1) s = (advanceN d t n s).bind (advance d t) := by
  induction n generalizing s with
  | zero => simp only [advanceN, Option.bind_fun_some, Option.bind_some]
  | succ n ih =>
    rw [advanceN]
    cases h : advance d t s with
    | none => simp only [advanceN, h, Option.bind_none]
    | some q => rw [Option.bind_some, ih, advanceN, h, Option.bind_some]

theorem onTrajectory_start (h : s.steps = 0) (hs : s.status = .idle) (ht : s.tape = start.tape)
    (hh : s.head = start.head) (hq : s.state = start.state) (hi : start.status = .idle) : OnTrajectory d start s where
  reached := by
    refine ⟨start, ?_, ht.symm, hh.symm, hq.symm, ?_⟩
    · rw [h]
      rfl
    · intro _
      rw [Snapshot.halted, hi]
      rfl
  nonneg := h.ge
  accepted := by
    intro ha
    rw [hs] at ha
    cases ha
  error := by
    intro ha
    rw [hs] at ha
    cases ha
  idle := fun _ => h
  going := by
    intro _ hpos
    rw [h] at hpos
    exact absurd hpos (lt_irrefl 0)

/-- another status for the same point of the trajectory -/
theorem OnTrajectory.withStatus (h : OnTrajectory d start s) {q : Status} (hgo : q.halted = false → s.halted = false)
    (hi : q ≠ .idle) (ha : q = .accepted → s.state = d.accept)
    (he : q = .error → s.state ≠ d.accept ∧ d.table.find? s.state (s.read d.blank) = none) :
    OnTrajectory d start { s with status := q } where
  reached := by
    obtain ⟨p, hp, ht, hh, hst, hp'⟩ := h.reached
    exact ⟨p, hp, ht, hh, hst, fun hq => hp' (hgo hq)⟩
  nonneg := h.nonneg
  accepted := ha
  error := he
  idle := fun hq => absurd hq hi
  going := fun hq hpos => h.going (hgo hq) hpos

theorem halted_statusAfter {q : Status} (hq : q.halted = false) (next : Text) :
    (statusAfter d next q).halted = true ↔ next = d.accept := by
  unfold statusAfter
  split_ifs with ha hi
  · exact iff_of_true rfl ha
  · exact iff_of_false (by decide) ha
  · rw [hq]
    exact iff_of_false Bool.false_ne_true ha

theorem statusAfter_ne_idle (next : Text) (q : Status) : statusAfter d next q ≠ .idle := by
  unfold statusAfter
  split_ifs with ha hi
  · decide
  · decide
  · exact hi

theorem statusAfter_eq_accepted {q : Status} (hq : q.halted = false) (next : Text)
    (h : statusAfter d next q = .accepted) : next = d.accept := by
  rw [← halted_statusAfter hq, h]
  rfl

theorem statusAfter_ne_error {q : Status} (hq : q.halted = false) (next : Text) : statusAfter d next q ≠ .error := by
  intro h
  have hnext : next = d.accept := by
    rw [← halted_statusAfter hq, h]
    rfl
  rw [statusAfter, if_pos hnext] at h
  cases h

/-- the step that applies a rule to `s` applies it to every snapshot at the same point -/
theorem OnTrajectory.applyRule (h : OnTrajectory d start s) (hs : s.halted = false) (ha : s.state ≠ d.accept)
    {r : Rule} (hr : d.table.find? s.state (s.read d.blank) = some r) (hq : applyRule d r s = some q) :
    OnTrajectory d start q := by
  obtain ⟨tape, hw, rfl⟩ := Option.map_eq_some_iff.1 hq
  have hnonneg := h.nonneg
  refine ⟨?_, by simp only; omega, statusAfter_eq_accepted hs r.next, ?_, ?_, ?_⟩
  · obtain ⟨⟨_, _, _, steps, status, truth⟩, hp, rfl, rfl, rfl, hgo⟩ := h.reached
    have hk : (s.steps + 1).toNat = s.steps.toNat + 1 := by omega
    have hp' := hgo hs
    rw [hk, advanceN_succ, hp, Option.bind_some, advance_of_find hp' ha hr]
    simp only [TapeMachine.applyRule, hw, Option.map_some]
    generalize growTape d.blank tape (s.head + r.move.shift) = grown
    obtain ⟨tape', head'⟩ := grown
    refine ⟨_, rfl, rfl, rfl, rfl, ?_⟩
    intro hn
    rw [← Bool.not_eq_true, Snapshot.halted, halted_statusAfter hs] at hn
    rw [← Bool.not_eq_true, Snapshot.halted, halted_statusAfter hp']
    exact hn
  · exact fun he => absurd he (statusAfter_ne_error hs r.next)
  · exact fun hi => absurd hi (statusAfter_ne_idle r.next s.status)
  · intro hn _ hacc
    rw [← Bool.not_eq_true, Snapshot.halted, halted_statusAfter hs] at hn
    exact hn hacc

/-- a step leads to the next point of the trajectory, or halts -/
theorem OnTrajectory.advance (h : OnTrajectory d start s) (hs : s.halted = false)
    (hq : advance d d.table s = some q) : OnTrajectory d start q := by
  rw [TapeMachine.advance, if_neg (by rw [hs]; exact Bool.false_ne_true)] at hq
  split_ifs at hq with ha
  · rw [← Option.some.inj hq]
    refine h.withStatus ?_ (by decide) (fun _ => ha) ?_
    · intro hgo
      cases hgo
    · intro he
      cases he
  · cases hr : d.table.find? s.state (s.read d.blank) with
    | none =>
      rw [hr] at hq
      rw [← Option.some.inj hq]
      refine h.withStatus ?_ (by decide) ?_ fun _ => ⟨ha, hr⟩
      · intro hgo
        cases hgo
      · intro hacc
        cases hacc
    | some r =>
      rw [hr] at hq
      exact h.applyRule hs ha hr hq

end Snapshot

/-! ## Engines -/

namespace Engine

variable {n : ℤ} {e e' : Engine}

/-- the engine has the table of its definition, and its snapshot is on the trajectory of the definition and the input -/
def Follows (n : ℤ) (e : Engine) : Prop :=
  ∀ d, e.definition = some d → e.table = d.table ∧ OnTrajectory d (Snapshot.fresh d e.input n) e.snapshot

theorem Records.follows {ns : List Note} (h : Records ns e e') (hf : Follows n e) : Follows n e' := by
  obtain ⟨j, disk, -, rfl⟩ := h.eq
  exact hf

theorem follows_loaded (e : Engine) (d : Definition) (input : Text) : Follows n (e.loaded d input n) := by
  intro d' hd
  obtain rfl : d = d' := Option.some.inj hd
  exact ⟨rfl, onTrajectory_start rfl rfl rfl rfl rfl rfl⟩

theorem Follows.next (h : Follows n e) (hh : e.snapshot.halted = false) {q : Snapshot} (hq : e.next = some q)
    {d : Definition} (hd : e.definition = some d) : OnTrajectory d (Snapshot.fresh d e.input n) q := by
  obtain ⟨ht, hon⟩ := h d hd
  simp only [Engine.next, hd, ht] at hq
  exact hon.advance hh hq

/-- a status in which the machine can go on -/
theorem Follows.withStatus (h : Follows n e) (hh : e.snapshot.halted = false) {q : Status}
    (hq : q = .running ∨ q = .paused) {d : Definition} (hd : e.definition = some d) :
    OnTrajectory d (Snapshot.fresh d e.input n) (e.withStatus q) := by
  obtain ⟨-, hon⟩ := h d hd
  refine hon.withStatus (fun _ => hh) ?_ ?_ ?_
  · rintro rfl
    rcases hq with hq | hq <;> cases hq
  · rintro rfl
    rcases hq with hq | hq <;> cases hq
  · rintro rfl
    rcases hq with hq | hq <;> cases hq

/-- **Every change keeps the engine on its trajectory.** -/
theorem Change.follows (hs : Sound n e) (h : Follows n e) (hc : Change e e') : Follows n e' := by
  cases hc with
  | load d input m hd hn h' =>
    obtain rfl : n = m := Except.ok.inj (hs.room.symm.trans hn)
    exact h'.follows (follows_loaded e d input)
  | reset d m he hd hn h' =>
    obtain rfl : n = m := Except.ok.inj (hs.room.symm.trans hn)
    exact h'.follows (follows_loaded e d "")
  | step q hm hq h' =>
    exact h'.follows fun d hd => ⟨(h d hd).1, h.next (Status.not_halted_of_manual hm) hq hd⟩
  | tick t q ht hr hq h' =>
    exact h'.follows fun d hd => ⟨(h d hd).1, h.next (Snapshot.not_halted_of_running hr) hq hd⟩
  | start t interval hd hh ht hr h' =>
    exact h'.follows fun d hd => ⟨(h d hd).1, h.withStatus hh (Or.inl rfl) hd⟩
  | restart t interval ht hr h' => exact h'.follows h
  | decline hd h' => exact h'.follows h
  | refuse interval f ht h' => exact h'.follows h
  | mistype h' => exact h'.follows h
  | pause hr h' =>
    exact h'.follows fun d hd => ⟨(h d hd).1, h.withStatus (Snapshot.not_halted_of_running hr) (Or.inr rfl) hd⟩
  | stop hr h' => rw [h']; exact h
  | fail h' => rw [h']; exact (records_note _ _).follows h
  | interrupt h' => rw [h']; exact (records_note _ _).follows h
  | subscribe l h' => rw [h']; exact h
  | script l h' => rw [h']; exact h
  | deliver l q h' => rw [h']; exact (records_note _ _).follows h

theorem Changes.follows (hs : Sound n e) (h : Follows n e) (hc : Changes e e') : Follows n e' :=
  Changes.preserve (fun hs h hc => hc.follows hs h) hs h hc

/-- **A machine never leaves the trajectory of its definition and input**, whatever the commands from outside and the
listeners do, faults included. The settings give at least one cell of padding, for which there is room, and the log
takes every entry. -/
theorem reaches_onTrajectory {c : Config} {loop : Bool} {disk : Disk} {clock : Clock} {journal : Option Journal}
    {refused : List String} {room : Option ℕ} {tracing : Bool} (hm : make c loop disk clock = .ok e)
    (hn : e.padding.count room = .ok n) (hpos : 1 ≤ n) (hl : { e with room, journal, refused, tracing }.LogsAll)
    (h : Reaches { e with room, journal, refused, tracing } e') (d : Definition) (hd : e'.definition = some d) :
    e'.table = d.table ∧ OnTrajectory d (Snapshot.fresh d e'.input n) e'.snapshot := by
  have hs := sound_of_make hm hn hpos hl
  have hnew : Follows n { e with room, journal, refused, tracing } := by
    obtain ⟨padding, least, v, -, -, rfl⟩ := make_eq hm
    intro d hd
    cases hd
  exact Changes.follows hs hnew (reaches_changes h hs) d hd

/-- the busy beaver with a listener that goes on by itself in the middle of a tick, and then fails -/
def restless : Engine :=
  applyAll { bench with
    scripts := [("restless", [⟨some 2, none, [.pause, .step, .run (.given (.whole 1)), .fail]⟩])] }
    [.subscribe "restless", .load (.definition Preset.busyBeaver) none, .run (.given (.whole 1)), .fire, .fire, .fire,
      .pause, .step]

theorem restless_onTrajectory :
    let e : Engine := { bench with tracing := false }
    make benchSettings true {} bench.clock = .ok e ∧ e.padding.count e.room = .ok 1 ∧ bench.LogsAll ∧
      Reaches bench restless ∧ restless.definition = some Preset.busyBeaver ∧ restless.snapshot.steps = 4 ∧
      restless.table = Preset.busyBeaver.table ∧
      OnTrajectory Preset.busyBeaver (Snapshot.fresh Preset.busyBeaver restless.input 1) restless.snapshot := by
  have hl : bench.LogsAll := logsAll_of_no_journal rfl
  have hr : Reaches bench restless := (Reaches.script _ (.refl _)).trans (applyAll_reaches _ _)
  have hd : restless.definition = some Preset.busyBeaver := by decide +kernel
  exact ⟨make_bench, rfl, hl, hr, hd, by decide +kernel, reaches_onTrajectory make_bench rfl (by decide) hl hr _ hd⟩

end Engine
end TapeMachine
