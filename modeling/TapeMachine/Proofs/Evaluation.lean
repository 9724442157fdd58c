/-
Evaluation computes what the textbook machine does.

Without listeners nothing comes between the steps of a batch, and it is the run of `advanceN` up to the cap
(`Attended.runUntilHalt`). A fresh snapshot shows the textbook machine at its start, with as many cells to the left of
it as there is padding; so the summary of an evaluation tells what that machine does under the cap (`Summary.Reports`).
There is one such summary, and the padding does not show in it (`evaluate_reports`).
-/
import TapeMachine.Control.Evaluation
import TapeMachine.Proofs.Driving
import TapeMachine.Proofs.Written

namespace TapeMachine

open Textbook

/-! ## The textbook machine under a cap -/

section Reports

variable {d : Definition} {c : Textbook} {input : Option Text} {n : ℤ} {cap k : ℕ} {s s' : Summary}

/-- the summary tells what the textbook machine `c` does in at most `cap` transitions: it makes `k` of them -/
structure Summary.Reports (d : Definition) (c : Textbook) (input : Option Text) (cap k : ℕ) (s : Summary) : Prop where
  transitions : (k : ℕ∞) = min (haltingTime d c) cap
  given : s.input = input
  steps : s.steps = k
  state : s.state = (run d k c).state
  output : Written d.blank (run d k c).tape s.output
  accepted_iff : s.status = .accepted ↔ (run d k c).state = d.accept ∧ haltingTime d c ≤ cap ∧ 1 ≤ cap
  error_iff : s.status = .error ↔ (run d k c).state ≠ d.accept ∧ haltingTime d c < cap
  otherwise : s.status ≠ .accepted → s.status ≠ .error → s.status = if cap = 0 then .idle else .paused
  accepted : s.accepted = true ↔ s.status = .accepted
  halted : s.halted = true ↔ s.status = .accepted ∨ s.status = .error

theorem Summary.accepted_iff (s : Summary) : s.accepted = true ↔ s.status = .accepted := by
  rw [Summary.accepted, beq_iff_eq]

theorem Summary.halted_iff (s : Summary) : s.halted = true ↔ s.status = .accepted ∨ s.status = .error := by
  rw [Summary.halted]
  cases s.status <;> simp [Status.halted]

/-- **There is one such summary.** -/
theorem Summary.Reports.unique {k' : ℕ} (h : s.Reports d c input cap k) (h' : s'.Reports d c input cap k') :
    s = s' := by
  have hk : (k : ℕ∞) = k' := by
    calc (k : ℕ∞) = min (haltingTime d c) cap := h.transitions
      _ = k' := h'.transitions.symm
  obtain rfl : k = k' := Nat.cast_inj.1 hk
  have hstatus : s.status = s'.status := by
    by_cases ha : s.status = .accepted
    · rw [ha, h'.accepted_iff.2 (h.accepted_iff.1 ha)]
    · by_cases he : s.status = .error
      · rw [he, h'.error_iff.2 (h.error_iff.1 he)]
      · have ha' : s'.status ≠ .accepted := fun hs => ha (h.accepted_iff.2 (h'.accepted_iff.1 hs))
        have he' : s'.status ≠ .error := fun hs => he (h.error_iff.2 (h'.error_iff.1 hs))
        rw [h.otherwise ha he, h'.otherwise ha' he']
  obtain ⟨i, o, q, n, st⟩ := s
  obtain ⟨i', o', q', n', st'⟩ := s'
  obtain rfl : i = i' := h.given.trans h'.given.symm
  obtain rfl : o = o' := h.output.unique h'.output
  obtain rfl : q = q' := h.state.trans h'.state.symm
  obtain rfl : n = n' := h.steps.trans h'.steps.symm
  obtain rfl : st = st' := hstatus
  rfl

/-- a fresh snapshot shows the textbook machine at its start, with the left padding to the left of it -/
theorem Snapshot.fresh_shows (d : Definition) (input : Text) (hn : 1 ≤ n) (truth : Bool) :
    Shows d n.toNat { Snapshot.fresh d input n with truthHead := truth } (start d input) where
  inRange := Snapshot.fresh_inRange d input hn truth
  cell := by
    intro j
    have hblank : ∀ x ∈ List.replicate n.toNat d.blank, x = d.blank := fun x hx => List.eq_of_mem_replicate hx
    have hpadded : (Snapshot.fresh d input n).tape =
        List.replicate n.toNat d.blank ++ input.singletons ++ List.replicate n.toNat d.blank := rfl
    simp only [hpadded]
    rw [tapeOf_between hblank hblank, List.length_replicate, add_sub_cancel_right]
    rfl
  head := by
    simp only [start, Snapshot.fresh]
    omega
  state := rfl

/-- the last snapshot of a run, summed up -/
def Snapshot.summary (d : Definition) (input : Option Text) (q : Snapshot) : Summary :=
  ⟨input, q.output (some d.blank), q.state, q.steps, q.status⟩

theorem RunShows.reports {off : ℕ} {p q : Snapshot} (h : RunShows d off cap p c q) (hidle : p.status = .idle)
    (hsteps : p.steps = 0) (input : Option Text) : (q.summary d input).Reports d c input cap (made d cap c) := by
  have hstatus := h.status
  rw [hidle] at hstatus
  have hb : Status.idle.halted = false := rfl
  refine ⟨?_, rfl, ?_, ?_, ?_, ?_, ?_, ?_, ?_, ?_⟩
  · rw [made_eq_min, min_comm]
  · have hq := h.steps
    rw [hsteps, zero_add] at hq
    exact hq
  · rw [run_made]
    exact h.shows.state.symm
  · rw [run_made]
    exact h.shows.written
  · rw [run_made, Snapshot.summary, hstatus, endStatus_eq_accepted hb]
    constructor
    · rintro ⟨hpos, hacc⟩
      exact ⟨hacc, haltingTime_le (stopped_of_accept hacc), hpos⟩
    · rintro ⟨hacc, -, hpos⟩
      exact ⟨hpos, hacc⟩
  · rw [run_made, Snapshot.summary, hstatus, endStatus_eq_error hb, and_comm]
  · intro ha he
    rw [Snapshot.summary, hstatus] at ha he ⊢
    unfold endStatus at ha he ⊢
    split_ifs at ha he ⊢
    · rfl
    · exact absurd rfl ha
    · exact absurd rfl he
    · rfl
  · exact Summary.accepted_iff _
  · exact Summary.halted_iff _

/-- what the machine does is read off its rules, its blank symbol and its accept state alone -/
theorem Summary.Reports.congr {d' : Definition} (h : s.Reports d c input cap k) (hr : rule? d' = rule? d)
    (hb : d'.blank = d.blank) (ha : d'.accept = d.accept) : s.Reports d' c input cap k := by
  have hrun := run_congr hr
  have htime := haltingTime_congr hr
  refine ⟨?_, h.given, h.steps, ?_, ?_, ?_, ?_, h.otherwise, h.accepted, h.halted⟩
  · rw [htime]
    exact h.transitions
  · rw [hrun]
    exact h.state
  · rw [hrun, hb]
    exact h.output
  · rw [hrun, htime, ha]
    exact h.accepted_iff
  · rw [hrun, htime, ha]
    exact h.error_iff

end Reports

/-! ## Evaluation -/

section Load

open Engine

variable {c : Config} {d : Definition} {room : Option ℕ} {e : Engine} {n : ℤ}

/-- the machine of an evaluation once it is loaded -/
theorem loads_freshly (hd : d.Valid) (hm : make c false {} Clock.origin = .ok e) (hn : e.padding.count room = .ok n)
    (hpos : 1 ≤ n) (input : Text) :
    ∃ e₁ : Engine, loadDefinition Engine.notify { e with room } d input = e₁.done e₁.snapshot ∧
      e₁.snapshot = e.freshly d input n ∧ e₁.cap = e.cap ∧ Attended Mute n d e₁ := by
  have hnew : e.journal = none ∧ e.scripts = [] := by
    obtain ⟨padding, least, v, -, -, rfl⟩ := make_eq hm
    exact ⟨rfl, rfl⟩
  have hs : Sound n { e with room } := sound_of_make hm hn hpos (logsAll_of_no_journal hnew.1)
  have hmute : Mute e.subscribers e.scripts := by
    rw [hnew.2]
    exact List.forall_mem_nil _
  obtain ⟨e₁, hload, hsnap, -, -, hmake, h₁⟩ := (loadDefinition_handsOn Engine.notify hd hs.logs hs.room
    input).attended notify_watches hs rfl hmute fun _ hrec => .load d _ n hd hs.room hrec
  exact ⟨e₁, hload, hsnap, hmake.cap, h₁⟩

/-- an evaluation sums up the snapshot that so many steps from the fresh one lead to -/
theorem evaluate_freshly (hd : d.Valid) (input : Option Text) {cap : Option Cap} {m : ℤ}
    (hm : make c false {} Clock.origin = .ok e) (hn : e.padding.count room = .ok n) (hpos : 1 ≤ n)
    (hcap : cap.or e.cap = some (.ok m)) :
    ∃ q, advanceN d d.table m.toNat (e.freshly d (input.getD "") n) = some q ∧
      evaluate c d input cap room = .ok (q.summary d input) := by
  obtain ⟨e₁, hload, hsnap, hcap₁, h₁⟩ := loads_freshly hd hm hn hpos (input.getD "")
  have hsteps : 0 ≤ e₁.snapshot.steps := by
    rw [hsnap]
    exact le_rfl
  have hfresh : e₁.snapshot.settled = e.freshly d (input.getD "") n := by
    rw [hsnap]
    rfl
  rw [← hcap₁] at hcap
  obtain ⟨e₂, hrun, hadv, -, h₂⟩ := h₁.runUntilHalt notify_watches hsteps hcap
  rw [hfresh] at hadv
  refine ⟨_, hadv, ?_⟩
  have hout : e₂.output = e₂.snapshot.output (some d.blank) := by
    simp only [Engine.output, h₂.definition]
  simp only [evaluate, hm, Except.mapError, bind, Except.bind, hload, done, hrun, hout, pure, Except.pure,
    Snapshot.summary]

end Load

theorem evaluate_eq {c : Config} {d : Definition} (hd : d.Valid) (input : Option Text) {cap : Option Cap}
    {room : Option ℕ} {e : Engine} {n m : ℤ} (hm : Engine.make c false {} Clock.origin = .ok e)
    (hn : e.padding.count room = .ok n) (hpos : 1 ≤ n) (hcap : cap.or e.cap = some (.ok m)) :
    ∃ truth q, advanceN d d.table m.toNat { Snapshot.fresh d (input.getD "") n with truthHead := truth } = some q ∧
      evaluate c d input cap room = .ok (q.summary d input) := by
  obtain ⟨q, hq, heval⟩ := evaluate_freshly hd input hm hn hpos hcap
  exact ⟨_, q, hq, heval⟩

/-- an evaluation sums up what the textbook machine does -/
theorem exists_reports {c : Config} {d : Definition} (hd : d.Valid) (input : Option Text) {cap : Option Cap}
    {room : Option ℕ} {e : Engine} {n m : ℤ} (hm : Engine.make c false {} Clock.origin = .ok e)
    (hn : e.padding.count room = .ok n) (hpos : 1 ≤ n) (hcap : cap.or e.cap = some (.ok m)) :
    ∃ s k, evaluate c d input cap room = .ok s ∧ s.Reports d (start d (input.getD "")) input m.toNat k := by
  obtain ⟨truth, q, hq, heval⟩ := evaluate_eq hd input hm hn hpos hcap
  obtain ⟨q', hq', hrun⟩ := run_shows m.toNat (Snapshot.fresh_shows d (input.getD "") hpos truth) rfl
  obtain rfl : q = q' := Option.some.inj (hq.symm.trans hq')
  exact ⟨_, _, heval, hrun.reports rfl rfl input⟩

/-- an evaluation of a machine that comes to its accept state within the cap -/
theorem Summary.Reports.of_makes {d : Definition} {c c' : Textbook} {input : Option Text} {cap k t : ℕ} {s : Summary}
    (h : s.Reports d c input cap k) (hc : Makes d t c c') (ha : c'.state = d.accept) (ht : t ≤ cap) (hcap : 1 ≤ cap) :
    s.steps = t ∧ s.state = d.accept ∧ s.status = .accepted ∧ Written d.blank c'.tape s.output := by
  have htime := hc.haltingTime_eq (stopped_of_accept ha)
  obtain rfl : k = t := by
    have hk := h.transitions
    rw [htime, min_eq_left (Nat.cast_le.2 ht)] at hk
    exact Nat.cast_inj.1 hk
  have hstate := h.state
  have hwritten := h.output
  rw [hc.run] at hstate hwritten
  refine ⟨h.steps, hstate.trans ha, ?_, hwritten⟩
  rw [h.accepted_iff, htime, hc.run]
  exact ⟨ha, Nat.cast_le.2 ht, hcap⟩

/-- **Evaluation computes what the textbook machine does under the cap**, and the padding does not show: for a
definition that can start, an input and a cap there is one summary, which tells what the machine does, and the
evaluation ends with it whatever the settings are otherwise. -/
theorem evaluate_reports (d : Definition) (hd : d.validate = .ok ()) (input : Option Text) (m : ℤ) :
    ∃ s k, Summary.Reports d (start d (input.getD "")) input m.toNat k s ∧
      ∀ (c : Config) (cap : Option Cap) (room : Option ℕ) (e : Engine) (n : ℤ),
        Engine.make c false {} Clock.origin = .ok e → e.padding.count room = .ok n → 1 ≤ n →
        cap.or e.cap = some (.ok m) → evaluate c d input cap room = .ok s := by
  have hv := d.validate_ok_iff.1 hd
  have hreports : ∀ (n : ℤ) (truth : Bool) (q : Snapshot), 1 ≤ n →
      advanceN d d.table m.toNat { Snapshot.fresh d (input.getD "") n with truthHead := truth } = some q →
      ∃ k, Summary.Reports d (start d (input.getD "")) input m.toNat k (q.summary d input) := by
    intro n truth q hn hq
    obtain ⟨q', hq', hrun⟩ := run_shows m.toNat (Snapshot.fresh_shows d (input.getD "") hn truth) rfl
    obtain rfl : q = q' := Option.some.inj (hq.symm.trans hq')
    exact ⟨_, hrun.reports rfl rfl input⟩
  obtain ⟨q, hq, -⟩ := run_shows m.toNat (Snapshot.fresh_shows d (input.getD "") le_rfl false) rfl
  obtain ⟨k, hk⟩ := hreports 1 false q le_rfl hq
  refine ⟨_, k, hk, ?_⟩
  intro c cap room e n hm hn hpos hcap
  obtain ⟨truth, q', hq', heval⟩ := evaluate_eq hv input hm hn hpos hcap
  obtain ⟨k', hk'⟩ := hreports n truth q' hpos hq'
  rw [heval, hk'.unique hk]

/-- the busy beaver halts within twenty steps, with the same summary for a single cell of padding as for the defaults -/
theorem evaluate_busyBeaver :
    let s : Summary := ⟨none, "111111", "halt", 13, .accepted⟩
    Preset.busyBeaver.validate = .ok () ∧
      (∃ k, s.Reports Preset.busyBeaver (start Preset.busyBeaver "") none 20 k) ∧
      evaluate Engine.benchSettings Preset.busyBeaver none (some (.ok 20)) none = .ok s ∧
      evaluate [] Preset.busyBeaver none (some (.ok 20)) none = .ok s := by
  have hd : Preset.busyBeaver.validate = .ok () := by decide
  obtain ⟨s, k, hk, heval⟩ := evaluate_reports Preset.busyBeaver hd none 20
  have hbench : Engine.make Engine.benchSettings false {} Clock.origin =
      .ok { Engine.bench with ticker := { loop := false }, tracing := false } := by with_unfolding_all rfl
  have hdefaults : Engine.make [] false {} Clock.origin =
      .ok { Engine.bench with
        padding := .cells 50
        least := .ofMillis (.whole 50)
        cap := some (.ok 100000)
        ticker := { loop := false }
        tracing := false } := by with_unfolding_all rfl
  have h₁ := heval Engine.benchSettings (some (.ok 20)) none _ 1 hbench rfl le_rfl rfl
  have h₂ := heval [] (some (.ok 20)) none _ 50 hdefaults rfl (by decide) rfl
  have hs : evaluate Engine.benchSettings Preset.busyBeaver none (some (.ok 20)) none =
      .ok ⟨none, "111111", "halt", 13, .accepted⟩ := by decide +kernel
  obtain rfl := Except.ok.inj (h₁.symm.trans hs)
  exact ⟨hd, ⟨k, hk⟩, h₁, h₂⟩

end TapeMachine
