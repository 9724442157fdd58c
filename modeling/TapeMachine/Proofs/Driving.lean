/-
Three ways to drive a machine.

A machine can be stepped by hand, run in a batch up to a cap, or run by the timer. Each way has its own guard and its
own status while it goes on, and with listeners that only look on (`Watches`) nothing comes in between. Then all three
make the steps of `advanceN`, one after another: a step by hand and a batch make them from the snapshot as a pause
leaves it (`settled`), the timer makes them from the running snapshot, and the pause that ends the run settles it.
Settling before a step or after it comes to the same (`advance_settled`), and so the three agree
(`Attended.driversAgree`).
-/
import TapeMachine.Proofs.Coupling
import TapeMachine.Proofs.Settings
import TapeMachine.Proofs.Trajectory

namespace TapeMachine

/-! ## Snapshots that are settled -/

/-- the snapshot that a pause leaves -/
def Snapshot.settled (s : Snapshot) : Snapshot := if s.status = .running then { s with status := .paused } else s

section Settled

variable {d : Definition} {t : Table} {s q : Snapshot}

theorem Snapshot.settled_of_not_running (h : s.status ≠ .running) : s.settled = s := if_neg h

theorem Snapshot.settled_not_running (s : Snapshot) : s.settled.status ≠ .running := by
  unfold settled
  split_ifs with h
  · intro hp
    cases hp
  · exact h

theorem Snapshot.settled_steps (s : Snapshot) : s.settled.steps = s.steps := by
  unfold settled
  split_ifs <;> rfl

theorem statusAfter_running (d : Definition) (next : Text) :
    statusAfter d next .running = if next = d.accept then .accepted else .running := rfl

theorem statusAfter_paused (d : Definition) (next : Text) :
    statusAfter d next .paused = if next = d.accept then .accepted else .paused := rfl

theorem statusAfter_idle (d : Definition) (next : Text) : statusAfter d next .idle = statusAfter d next .paused := rfl

theorem applyRule_settled (d : Definition) (r : Rule) (hs : s.status = .running) :
    applyRule d r { s with status := .paused } = (applyRule d r s).map Snapshot.settled := by
  simp only [applyRule, hs, statusAfter_running, statusAfter_paused, Option.map_map]
  congr 1
  funext tape
  simp only [Function.comp_apply, Snapshot.settled]
  by_cases ha : r.next = d.accept
  · rw [if_pos ha, if_pos ha, if_neg (by decide)]
  · rw [if_neg ha, if_neg ha, if_pos rfl]

/-- **Settling before a step or after it comes to the same.** -/
theorem advance_settled (d : Definition) (t : Table) (s : Snapshot) :
    advance d t s.settled = (advance d t s).map Snapshot.settled := by
  by_cases hs : s.status = .running
  · have hh : s.halted = false := Snapshot.not_halted_of_running hs
    have hread : ({ s with status := .paused } : Snapshot).read d.blank = s.read d.blank := rfl
    rw [Snapshot.settled, if_pos hs, advance, advance, hread, hh]
    simp only [Snapshot.halted, Status.halted, Bool.false_eq_true, if_false]
    split_ifs
    · rfl
    · cases t.find? s.state (s.read d.blank) with
      | none => rfl
      | some r => exact applyRule_settled d r hs
  · rw [Snapshot.settled_of_not_running hs]
    cases hq : advance d t s with
    | none => rfl
    | some q => rw [Option.map_some, Snapshot.settled_of_not_running (advance_not_running hq hs)]

theorem advanceN_settled (d : Definition) (t : Table) (k : ℕ) (s : Snapshot) :
    advanceN d t k s.settled = (advanceN d t k s).map Snapshot.settled := by
  induction k generalizing s with
  | zero => rfl
  | succ k ih =>
    rw [advanceN, advanceN, advance_settled]
    cases advance d t s with
    | none => rfl
    | some q => exact ih q

/-- an idle snapshot becomes paused -/
def Snapshot.woken (s : Snapshot) : Snapshot := if s.status = .idle then { s with status := .paused } else s

theorem Snapshot.woken_of_halted (h : s.halted = true) : s.woken = s := by
  rw [woken, if_neg]
  intro hi
  rw [halted, hi] at h
  cases h

theorem Snapshot.woken_of_not_running (hh : s.halted = false) (hr : s.status ≠ .running) :
    s.woken = { s with status := .paused } := by
  obtain ⟨tape, head, state, steps, status, truth⟩ := s
  cases status with
  | idle => rfl
  | running => exact absurd rfl hr
  | paused => rfl
  | accepted => cases hh
  | error => cases hh

/-- an idle machine steps as a paused one does -/
theorem advance_woken (d : Definition) (t : Table) (s : Snapshot) : advance d t s.woken = advance d t s := by
  unfold Snapshot.woken
  split_ifs with hs
  · have hread : ({ s with status := .paused } : Snapshot).read d.blank = s.read d.blank := rfl
    have hh : s.halted = false := by
      rw [Snapshot.halted, hs]
      rfl
    have hh' : ({ s with status := .paused } : Snapshot).halted = false := rfl
    rw [advance, advance, hread, hh, hh']
    simp only [applyRule, hs, statusAfter_idle, Bool.false_eq_true, if_false]
  · rfl

/-- only the first step leaves the idle status behind -/
theorem advanceN_woken {k : ℕ} (h : advanceN d t k s = some q) :
    advanceN d t k s.woken = some (if k = 0 then q.woken else q) := by
  cases k with
  | zero =>
    obtain rfl := Option.some.inj h
    rfl
  | succ k =>
    rw [if_neg (Nat.succ_ne_zero k), ← h, advanceN, advanceN, advance_woken]

theorem advanceN_add (d : Definition) (t : Table) (m k : ℕ) (s : Snapshot) :
    advanceN d t (m + k) s = (advanceN d t m s).bind (advanceN d t k) := by
  induction m generalizing s with
  | zero => rw [Nat.zero_add, advanceN, Option.bind_some]
  | succ m ih =>
    rw [Nat.succ_add, advanceN, advanceN]
    cases advance d t s with
    | none => rfl
    | some q => exact ih q

theorem advanceN_not_running {k : ℕ} (h : advanceN d t k s = some q) (hs : s.status ≠ .running) :
    q.status ≠ .running := by
  induction k generalizing s with
  | zero =>
    obtain rfl := Option.some.inj h
    exact hs
  | succ k ih =>
    obtain ⟨p, hp, hq⟩ := Option.bind_eq_some_iff.1 h
    exact ih hq (advance_not_running hp hs)

/-- a running machine runs on or halts -/
theorem advance_of_running (h : advance d t s = some q) (hs : s.status = .running) :
    q.status = .running ∨ q.halted = true := by
  rcases advance_cases h (Snapshot.not_halted_of_running hs) with ⟨-, rfl⟩ | ⟨-, -, rfl⟩ | ⟨r, -, -, hr⟩
  · exact Or.inr rfl
  · exact Or.inr rfl
  · obtain ⟨tape, -, rfl⟩ := Option.map_eq_some_iff.1 hr
    simp only [Snapshot.halted, hs, statusAfter_running]
    split_ifs
    · exact Or.inr rfl
    · exact Or.inl rfl

/-- a step of a machine that has not halted is a transition, or halts where it is -/
theorem advance_steps (h : advance d t s = some q) (hs : s.halted = false) :
    q.steps = s.steps + 1 ∨ (q.halted = true ∧ q.steps = s.steps) := by
  rcases advance_cases h hs with ⟨-, rfl⟩ | ⟨-, -, rfl⟩ | ⟨r, -, -, hr⟩
  · exact Or.inr ⟨rfl, rfl⟩
  · exact Or.inr ⟨rfl, rfl⟩
  · obtain ⟨tape, -, rfl⟩ := Option.map_eq_some_iff.1 hr
    exact Or.inl rfl

theorem advance_steps_le (h : advance d t s = some q) : s.steps ≤ q.steps := by
  cases hs : s.halted with
  | true =>
    rw [advance_of_halted t hs] at h
    rw [Option.some.inj h]
  | false =>
    rcases advance_steps h hs with hq | ⟨-, hq⟩
    · omega
    · exact hq.ge

theorem advanceN_steps_le {k : ℕ} (h : advanceN d t k s = some q) : s.steps ≤ q.steps := by
  induction k generalizing s with
  | zero =>
    obtain rfl := Option.some.inj h
    exact le_rfl
  | succ k ih =>
    obtain ⟨p, hp, hq⟩ := Option.bind_eq_some_iff.1 h
    exact (advance_steps_le hp).trans (ih hq)

theorem Status.manual_of_not_halted {q : Status} (h : q.halted = false) (hr : q ≠ .running) : q.manual = true := by
  cases q with
  | idle => rfl
  | running => exact absurd rfl hr
  | paused => rfl
  | accepted => cases h
  | error => cases h

end Settled

/-! ## Listeners that only look on -/

namespace Engine

/-- a condition on who is subscribed and on what the scripts hold -/
abbrev Audience := List String → List (String × List Reaction) → Prop

/-- listeners that make no engine call and do not fail, on every engine with such an audience; of what happens they may
keep a record -/
def Watches (K : Audience) (notify : Engine → Snapshot → Outcome Unit) : Prop :=
  ∀ e q, K e.subscribers e.scripts →
    ∃ t l, K e.subscribers l ∧ notify e q = ({ e with trace := t, scripts := l } : Engine).done ()

/-- scripts without a command -/
def Mute : Audience := fun _ l => ∀ s ∈ l, ∀ r ∈ s.2, r.commands = []

section Mute

variable {e : Engine}

theorem mute_dropReaction {ls : List String} {l : List (String × List Reaction)} (h : Mute ls l) (name : String) :
    Mute ls (dropReaction l name) := by
  intro s hs r hr
  obtain ⟨x, hx, rfl⟩ := List.mem_map.1 hs
  split_ifs at hr
  · exact h x hx r (List.mem_of_mem_tail hr)
  · exact h x hx r hr

theorem takeReaction_mute {ls : List String} {name : String} {q : Snapshot} {cs : List Command} {e' : Engine}
    (h : Mute ls e.scripts) (ht : e.takeReaction name q = some (cs, e')) :
    cs = [] ∧ ∃ l, Mute ls l ∧ e' = { e with scripts := l } := by
  unfold takeReaction at ht
  split at ht
  · rename_i r rs hl
    split_ifs at ht
    obtain ⟨rfl, rfl⟩ := Prod.mk.inj (Option.some.inj ht)
    obtain ⟨before, after, heq, -⟩ := List.lookup_eq_some_iff.1 hl
    have hmem : (name, r :: rs) ∈ e.scripts := by
      rw [heq]
      exact List.mem_append_right before List.mem_cons_self
    exact ⟨h _ hmem r List.mem_cons_self, _, mute_dropReaction h name, rfl⟩
  · cases ht

theorem deliver_watches {react : String → Engine → Snapshot → Outcome Unit} {ls : List String}
    (hr : ∀ name e q, Mute ls e.scripts → ∃ l, Mute ls l ∧ react name e q = ({ e with scripts := l } : Engine).done ())
    (q : Snapshot) (names : List String) (h : Mute ls e.scripts) :
    ∃ t l, Mute ls l ∧ deliver react q e names = ({ e with trace := t, scripts := l } : Engine).done () := by
  induction names generalizing e with
  | nil => exact ⟨e.trace, e.scripts, h, rfl⟩
  | cons name names ih =>
    obtain ⟨l, hl, heq⟩ := hr name (e.note (.delivery name q)) q (by rw [note_eq]; exact h)
    obtain ⟨t', l', hl', heq'⟩ := ih (e := { e.note (.delivery name q) with scripts := l }) hl
    refine ⟨t', l', hl', ?_⟩
    rw [deliver, heq, Outcome.andThen_of_ok (a := ()) rfl, done_engine, heq', note_eq]

/-- scripted listeners without a command only look on -/
theorem notify_watches : Watches Mute notify := by
  intro e q h
  unfold notify
  cases e.reactionsLeft with
  | zero => exact deliver_watches (fun name e q h => ⟨e.scripts, h, rfl⟩) q e.subscribers h
  | succ m =>
    refine deliver_watches ?_ q e.subscribers h
    intro name e q h
    cases ht : e.takeReaction name q with
    | none => exact ⟨e.scripts, h, rfl⟩
    | some x =>
      obtain ⟨cs, e'⟩ := x
      obtain ⟨rfl, l, hl, rfl⟩ := takeReaction_mute h ht
      exact ⟨l, hl, rfl⟩

end Mute

/-! ## Operations before such listeners -/

variable {K : Audience} {notify : Engine → Snapshot → Outcome Unit} {n : ℤ} {d : Definition} {e : Engine}

/-- an engine in order, with a definition and with an audience that only looks on -/
structure Attended (K : Audience) (n : ℤ) (d : Definition) (e : Engine) : Prop where
  sound : Sound n e
  definition : e.definition = some d
  audience : K e.subscribers e.scripts

/-- what hands a snapshot on comes to its end, with that snapshot -/
theorem HandsOn.attended {ns : List Note} {e₁ : Engine} {o : Outcome Snapshot} (ho : HandsOn notify ns e₁ o)
    (hw : Watches K notify) (hs : Sound n e) (hd : e₁.definition = some d) (hk : K e₁.subscribers e₁.scripts)
    (hc : ∀ e', Records ns e₁ e' → Change e e') :
    ∃ e', o = e'.done e'.snapshot ∧ e'.snapshot = e₁.snapshot ∧ e'.ticker = e₁.ticker ∧ e'.input = e₁.input ∧
      SameMake e e' ∧ Attended K n d e' := by
  obtain ⟨e₂, hrec, rfl⟩ := ho
  have hs₂ := (hc e₂ hrec).sound hs
  have hmake := (hc e₂ hrec).sameMake
  have hframe : e₂.ticker = e₁.ticker ∧ e₂.input = e₁.input ∧ e₂.subscribers = e₁.subscribers ∧
      e₂.scripts = e₁.scripts := by
    obtain ⟨j, disk, -, rfl⟩ := hrec.eq
    exact ⟨rfl, rfl, rfl, rfl⟩
  obtain ⟨hticker, hinput, hsub, hscripts⟩ := hframe
  rw [← hsub, ← hscripts] at hk
  obtain ⟨t, l, hl, heq⟩ := hw e₂ e₁.snapshot hk
  refine ⟨{ e₂ with trace := t, scripts := l }, ?_, hrec.snapshot, hticker, hinput,
    ⟨hmake.least, hmake.cap, hmake.loop, hmake.journal, hmake.tracing⟩, ?_, hrec.definition.trans hd, hl⟩
  · rw [heq, ← hrec.snapshot]
    rfl
  · exact { hs₂ with logs := hs₂.logs.of_sameLog ⟨rfl, rfl, rfl, rfl⟩ }

/-- the next snapshot of an engine with a definition -/
theorem Attended.next (h : Attended K n d e) (hh : e.snapshot.halted = false) :
    ∃ q, e.next = some q ∧ advance d d.table e.snapshot = some q := by
  obtain ⟨q, hq, -⟩ := h.sound.next hh
  refine ⟨q, hq, ?_⟩
  rw [Engine.next, h.definition] at hq
  simp only [h.sound.table d h.definition] at hq
  exact hq

theorem Attended.step (h : Attended K n d e) (hw : Watches K notify) (hr : e.snapshot.status ≠ .running) :
    ∃ e', step notify e = e'.done e'.snapshot ∧ advance d d.table e.snapshot = some e'.snapshot ∧
      e'.input = e.input ∧ Attended K n d e' := by
  cases hh : e.snapshot.halted with
  | true =>
    have hm : e.snapshot.status.manual = false := by
      cases hm : e.snapshot.status.manual with
      | false => rfl
      | true => exact absurd (Status.not_halted_of_manual hm) (by rw [← Snapshot.halted, hh]; decide)
    exact ⟨e, step_of_not_manual hm, advance_of_halted _ hh, rfl, h⟩
  | false =>
    have hm := Status.manual_of_not_halted hh hr
    obtain ⟨q, hq, hadv⟩ := h.next hh
    have hplaced : ∀ e', Records (e.placeNotes q) (e.placed q) e' → Change e e' := fun _ hrec => .step q hm hq hrec
    obtain ⟨e', heq, hsnap, -, hinput, -, h'⟩ := (advanceOnce_handsOn notify h.sound.logs hq).attended hw h.sound
      h.definition h.audience hplaced
    refine ⟨e', ?_, ?_, hinput, h'⟩
    · rw [step_of_manual hm, heq]
    · rw [hsnap, hadv]
      rfl

/-- so many steps by hand -/
theorem Attended.steps (h : Attended K n d e) (hw : Watches K notify) (hr : e.snapshot.status ≠ .running) (k : ℕ)
    (last : Option Snapshot) :
    ∃ e', (times (Engine.step notify) last k e).2 = e'.done () ∧ advanceN d d.table k e.snapshot = some e'.snapshot ∧
      Attended K n d e' := by
  induction k generalizing e last with
  | zero => exact ⟨e, rfl, rfl, h⟩
  | succ k ih =>
    obtain ⟨e₁, hstep, hadv, -, h₁⟩ := h.step hw hr
    obtain ⟨e', htimes, hadvN, h'⟩ := ih h₁ (advance_not_running hadv hr) (some e₁.snapshot)
    refine ⟨e', ?_, ?_, h'⟩
    · simp only [times, hstep, done]
      exact htimes
    · rw [advanceN, hadv, Option.bind_some, hadvN]

theorem Attended.pause (h : Attended K n d e) (hw : Watches K notify) :
    ∃ e', pause notify e = e'.done e'.snapshot ∧ e'.snapshot = e.snapshot.settled ∧ e'.input = e.input ∧
      Attended K n d e' := by
  by_cases hs : e.snapshot.status = .running
  · obtain ⟨e', heq, hsnap, -, hinput, -, h'⟩ := (pause_handsOn notify h.sound hs).attended hw h.sound h.definition
      h.audience fun _ hrec => .pause hs hrec
    refine ⟨e', heq, ?_, hinput, h'⟩
    rw [hsnap, Snapshot.settled, if_pos hs]
    rfl
  · exact ⟨e, pause_of_not_running hs, (Snapshot.settled_of_not_running hs).symm, rfl, h⟩

/-! ### Batches -/

theorem stepWhile_done {start cap : ℤ} (h : e.wantsMore start cap = false) (fuel : ℕ) :
    stepWhile notify start cap fuel e = e.done e.snapshot := by
  cases fuel with
  | zero => rfl
  | succ fuel => rw [stepWhile, h]; rfl

/-- a loop with enough fuel makes the steps that are missing -/
theorem Attended.stepWhile (h : Attended K n d e) (hw : Watches K notify) (hr : e.snapshot.status ≠ .running)
    (start cap : ℤ) {fuel k : ℕ} (hk : (cap - (e.snapshot.steps - start)).toNat = k) (hfuel : k ≤ fuel) :
    ∃ e', stepWhile notify start cap fuel e = e'.done e'.snapshot ∧
      advanceN d d.table k e.snapshot = some e'.snapshot ∧ e'.input = e.input ∧ Attended K n d e' := by
  induction fuel generalizing e k with
  | zero =>
    obtain rfl : k = 0 := Nat.le_zero.1 hfuel
    exact ⟨e, rfl, rfl, rfl, h⟩
  | succ fuel ih =>
    cases hmore : e.wantsMore start cap with
    | false =>
      refine ⟨e, stepWhile_done hmore _, ?_, rfl, h⟩
      rw [wantsMore, Bool.and_eq_false_iff, Bool.not_eq_false', decide_eq_false_iff_not] at hmore
      rcases hmore with hhalted | hcap
      · exact advanceN_of_halted _ hhalted k
      · obtain rfl : k = 0 := by omega
        rfl
    | true =>
      have hgo := hmore
      rw [wantsMore, Bool.and_eq_true, Bool.not_eq_true', decide_eq_true_iff] at hgo
      obtain ⟨hh, hcap⟩ := hgo
      have hmove : e.canMove = true := by
        rw [canMove, Status.manual_of_not_halted hh hr, h.definition]
        rfl
      obtain ⟨e₁, hstep, hadv, hinput, h₁⟩ := h.step hw hr
      obtain ⟨k, rfl⟩ : ∃ m, k = m + 1 := ⟨k - 1, by omega⟩
      have hloop : Engine.stepWhile notify start cap (fuel + 1) e = Engine.stepWhile notify start cap fuel e₁ := by
        simp only [Engine.stepWhile, hmore, hstep, hmove, done, if_true]
      rw [hloop, advanceN, hadv, Option.bind_some, ← hinput]
      rcases advance_steps hadv hh with hsteps | ⟨hhalted, -⟩
      · exact ih h₁ (advance_not_running hadv hr) (by omega) (by omega)
      · have hdone : e₁.wantsMore start cap = false := by
          rw [wantsMore, hhalted]
          rfl
        exact ⟨e₁, stepWhile_done hdone fuel, advanceN_of_halted _ hhalted k, rfl, h₁⟩

theorem le_stepBound {m : ℤ} (h : 0 ≤ e.snapshot.steps) : m.toNat ≤ e.stepBound m := by
  calc m.toNat ≤ (e.snapshot.steps + m).toNat + 1 := by omega
    _ ≤ e.stepBound m := Nat.le_mul_of_pos_right _ (Nat.succ_pos _)

/-- **A batch makes as many steps as its cap allows**, from the snapshot that a pause leaves. -/
theorem Attended.runUntilHalt (h : Attended K n d e) (hw : Watches K notify) (hsteps : 0 ≤ e.snapshot.steps)
    {cap : Option Cap} {m : ℤ} (hcap : cap.or e.cap = some (.ok m)) :
    ∃ e', runUntilHalt notify e cap = e'.done e'.snapshot ∧
      advanceN d d.table m.toNat e.snapshot.settled = some e'.snapshot ∧ e'.input = e.input ∧ Attended K n d e' := by
  obtain ⟨e₁, hpause, hsnap, hinput₁, h₁⟩ := h.pause hw
  have hr : e₁.snapshot.status ≠ .running := by
    rw [hsnap]
    exact Snapshot.settled_not_running _
  have hsteps₁ : 0 ≤ e₁.snapshot.steps := by
    rw [hsnap, Snapshot.settled_steps]
    exact hsteps
  obtain ⟨e', hloop, hadv, hinput, h'⟩ := h₁.stepWhile hw hr e₁.snapshot.steps m (by rw [sub_self, sub_zero])
    (le_stepBound hsteps₁)
  refine ⟨e', ?_, ?_, hinput.trans hinput₁, h'⟩
  · rw [Engine.runUntilHalt, hcap, hpause]
    exact hloop
  · rw [← hsnap, hadv]

theorem Attended.batch (h : Attended K n d e) (hw : Watches K notify) (hsteps : 0 ≤ e.snapshot.steps) (k : ℕ) :
    ∃ e', Engine.runUntilHalt notify e (some (.ok k)) = e'.done e'.snapshot ∧
      advanceN d d.table k e.snapshot.settled = some e'.snapshot ∧ Attended K n d e' := by
  have hcap : (some (.ok k) : Option Cap).or e.cap = some (.ok k) := rfl
  obtain ⟨e', hrun, hadv, -, h'⟩ := h.runUntilHalt hw hsteps hcap
  rw [Int.toNat_natCast] at hadv
  exact ⟨e', hrun, hadv, h'⟩

/-! ### The timer -/

theorem Attended.run (h : Attended K n d e) (hw : Watches K notify) (hp : Prepared n e)
    (hh : e.snapshot.halted = false) (hr : e.snapshot.status ≠ .running) (interval : Seconds) :
    ∃ e', run notify e interval = e'.done e'.snapshot ∧ e'.snapshot = e.withStatus .running ∧
      e'.ticker.active = true ∧ e'.input = e.input ∧ Attended K n d e' := by
  have hgo : (e.definition.isNone || e.snapshot.halted) = false := by
    rw [h.definition, hh]
    rfl
  have hsome : e.definition.isSome = true := by
    rw [h.definition]
    rfl
  obtain ⟨t, ht⟩ := hp.starts interval
  obtain ⟨e', heq, hsnap, htick, hinput, -, h'⟩ := (run_handsOn notify h.sound hgo ht hr).attended hw h.sound
    h.definition h.audience fun _ hrec => .start t _ hsome hh ht hr hrec
  refine ⟨e', heq, hsnap, ?_, hinput, h'⟩
  rw [htick]
  exact (h.sound.owned.start ht).2

theorem Attended.fire (h : Attended K n d e) (hw : Watches K notify) (ha : e.ticker.active = true) :
    ∃ e', fire notify e = e'.done true ∧ advance d d.table e.snapshot = some e'.snapshot ∧
      (e'.snapshot.status = .running → e'.ticker.active = true) ∧ e'.input = e.input ∧ Attended K n d e' := by
  obtain ⟨t, ht⟩ := h.sound.owned.due_of_active ha
  obtain ⟨q, o, hs, hq, htick, ho⟩ := tick_handsOn notify h.sound ht
  obtain ⟨q', hq', hadv⟩ := h.next (Snapshot.not_halted_of_running hs)
  obtain rfl : q' = q := Option.some.inj (hq'.symm.trans hq)
  obtain ⟨e', rfl, hsnap, hticker, hinput, -, h'⟩ := ho.attended hw h.sound h.definition h.audience
    fun _ hrec => .tick t q' ht hs hq hrec
  have hsnap' : e'.snapshot = q' := hsnap
  refine ⟨e', ?_, by rw [hadv, hsnap'], ?_, hinput, h'⟩
  · rw [Engine.fire, ht]
    simp only [htick]
    rfl
  · intro hrun
    rw [hsnap'] at hrun
    rw [hticker, placed, if_pos hrun]
    exact (h.sound.owned.due ht).2.2

/-- the pending tick, fired over and over, makes one step each time until the machine halts -/
theorem Attended.fireUpTo (h : Attended K n d e) (hw : Watches K notify)
    (ha : e.snapshot.status = .running → e.ticker.active = true)
    (hs : e.snapshot.status = .running ∨ e.snapshot.halted = true) (k : ℕ) :
    ∃ e', (fireUpTo notify k e).2 = e'.done () ∧ advanceN d d.table k e.snapshot = some e'.snapshot ∧
      Attended K n d e' := by
  induction k generalizing e with
  | zero => exact ⟨e, rfl, rfl, h⟩
  | succ k ih =>
    rcases hs with hrun | hh
    · obtain ⟨e₁, hfire, hadv, ha₁, -, h₁⟩ := h.fire hw (ha hrun)
      obtain ⟨e', hrest, hadvN, h'⟩ := ih h₁ ha₁ (advance_of_running hadv hrun)
      refine ⟨e', ?_, ?_, h'⟩
      · simp only [Engine.fireUpTo, hfire, done]
        exact hrest
      · rw [advanceN, hadv, Option.bind_some, hadvN]
    · have hr : e.snapshot.status ≠ .running := by
        intro hr
        rw [Snapshot.not_halted_of_running hr] at hh
        cases hh
      refine ⟨e, ?_, advanceN_of_halted _ hh _, h⟩
      simp only [Engine.fireUpTo, (h.sound.still hr).fire notify, done]

/-! ## Agreement -/

section Agreement

/-- the operation comes to its end, and leaves the snapshot -/
def Leaves {α : Type} (o : Outcome α) (q : Snapshot) : Prop := o.Succeeds ∧ o.engine.snapshot = q

variable (notify : Engine → Snapshot → Outcome Unit) (e : Engine)

/-- a pause, and then steps by hand -/
def pauseAndStep (k : ℕ) : Outcome Unit := (pause notify e).andThen fun e _ => (times (step notify) none k e).2

/-- a batch, and then another one -/
def batchTwice (m k : ℕ) : Outcome Snapshot :=
  (runUntilHalt notify e (some (.ok m))).andThen fun e _ => runUntilHalt notify e (some (.ok k))

/-- a run at an interval that is paused after so many ticks, or earlier if the machine halts -/
def runAndPause (interval : Seconds) (k : ℕ) : Outcome Snapshot :=
  (run notify e interval).andThen fun e _ => (fireUpTo notify k e).2.andThen fun e _ => pause notify e

/-- the three ways to drive the machine agree -/
structure DriversAgree : Prop where
  batch : ∀ k : ℕ, ∃ q, (runUntilHalt notify e (some (.ok k))).result = .ok q ∧
    Leaves (runUntilHalt notify e (some (.ok k))) q ∧ Leaves (pauseAndStep notify e k) q
  batches : ∀ m k : ℕ, ∃ q, Leaves (batchTwice notify e m k) q ∧
    Leaves (runUntilHalt notify e (some (.ok (m + k : ℕ)))) q
  /-- a run that is paused before its first tick leaves an idle machine paused -/
  timer : e.snapshot.status ≠ .running → ∀ interval (k : ℕ), ∃ q, Leaves (times (step notify) none k e).2 q ∧
    Leaves (runAndPause notify e interval k) (if k = 0 then q.woken else q)

end Agreement

theorem leaves_done {α : Type} (e : Engine) (a : α) : Leaves (e.done a) e.snapshot := ⟨done_succeeds e a, rfl⟩

theorem Attended.pauseAndStep (h : Attended K n d e) (hw : Watches K notify) (k : ℕ) :
    ∃ e' : Engine, pauseAndStep notify e k = e'.done () ∧
      advanceN d d.table k e.snapshot.settled = some e'.snapshot := by
  obtain ⟨e₁, hpause, hsnap, -, h₁⟩ := h.pause hw
  have hr : e₁.snapshot.status ≠ .running := by
    rw [hsnap]
    exact Snapshot.settled_not_running _
  obtain ⟨e', htimes, hadv, -⟩ := h₁.steps hw hr k none
  refine ⟨e', ?_, by rw [← hsnap, hadv]⟩
  rw [Engine.pauseAndStep, hpause, Outcome.andThen_of_ok (a := e₁.snapshot) rfl]
  exact htimes

theorem Attended.batchTwice (h : Attended K n d e) (hw : Watches K notify) (hsteps : 0 ≤ e.snapshot.steps) (m k : ℕ) :
    ∃ e' : Engine, batchTwice notify e m k = e'.done e'.snapshot ∧
      advanceN d d.table (m + k) e.snapshot.settled = some e'.snapshot := by
  obtain ⟨e₁, hfirst, hadv, h₁⟩ := h.batch hw hsteps m
  have hr : e₁.snapshot.status ≠ .running := advanceN_not_running hadv (Snapshot.settled_not_running _)
  have hsteps₁ : 0 ≤ e₁.snapshot.steps := by
    calc 0 ≤ e.snapshot.steps := hsteps
      _ = e.snapshot.settled.steps := (Snapshot.settled_steps _).symm
      _ ≤ e₁.snapshot.steps := advanceN_steps_le hadv
  obtain ⟨e', hsecond, hadv', -⟩ := h₁.batch hw hsteps₁ k
  refine ⟨e', ?_, ?_⟩
  · rw [Engine.batchTwice, hfirst, Outcome.andThen_of_ok (a := e₁.snapshot) rfl]
    exact hsecond
  · rw [advanceN_add, hadv, Option.bind_some, ← hadv', Snapshot.settled_of_not_running hr]

/-- a run starts from where a pause would leave the machine; a machine that has halted does not start -/
theorem Attended.run_settled (h : Attended K n d e) (hw : Watches K notify) (hp : Prepared n e)
    (hr : e.snapshot.status ≠ .running) (interval : Seconds) :
    ∃ e' : Engine, Engine.run notify e interval = e'.done e'.snapshot ∧ e'.snapshot.settled = e.snapshot.woken ∧
      (e'.snapshot.status = .running → e'.ticker.active = true) ∧
      (e'.snapshot.status = .running ∨ e'.snapshot.halted = true) ∧ e'.input = e.input ∧ Attended K n d e' := by
  cases hh : e.snapshot.halted with
  | true =>
    have hgo : (e.definition.isNone || e.snapshot.halted) = true := by rw [hh, Bool.or_true]
    have hrec := records_note e.stopTicker (.runCalled false)
    have hsnap : (e.stopTicker.note (.runCalled false)).snapshot = e.snapshot := hrec.snapshot
    refine ⟨_, ?_, ?_, ?_, ?_, ?_, hrec.sound h.sound.stopTicker, ?_, ?_⟩
    · rw [run_of_idle hgo, hsnap]
    · rw [hsnap, Snapshot.settled_of_not_running hr, Snapshot.woken_of_halted hh]
    · rw [hsnap]
      exact fun hrun => absurd hrun hr
    · rw [hsnap]
      exact Or.inr hh
    · rw [note_eq]
      rfl
    · exact hrec.definition.trans h.definition
    · rw [note_eq]
      exact h.audience
  | false =>
    obtain ⟨e', hrun, hsnap, ha, hinput, h'⟩ := h.run hw hp hh hr interval
    refine ⟨e', hrun, ?_, fun _ => ha, Or.inl ?_, hinput, h'⟩
    · rw [hsnap, Snapshot.woken_of_not_running hh hr]
      rfl
    · rw [hsnap]
      rfl

/-- a run that is paused makes its steps as a paused machine makes them -/
theorem Attended.runAndPause (h : Attended K n d e) (hw : Watches K notify) (hp : Prepared n e)
    (hr : e.snapshot.status ≠ .running) (interval : Seconds) (k : ℕ) :
    ∃ e' : Engine, runAndPause notify e interval k = e'.done e'.snapshot ∧
      advanceN d d.table k e.snapshot.woken = some e'.snapshot := by
  obtain ⟨e₁, hrun, hstart, ha₁, hs₁, -, h₁⟩ := h.run_settled hw hp hr interval
  obtain ⟨e₂, hfire, hadv, h₂⟩ := h₁.fireUpTo hw ha₁ hs₁ k
  obtain ⟨e', hpause, hsnap, -, -⟩ := h₂.pause hw
  refine ⟨e', ?_, ?_⟩
  · rw [Engine.runAndPause, hrun, Outcome.andThen_of_ok (a := e₁.snapshot) rfl, done_engine, hfire,
      Outcome.andThen_of_ok (a := ()) rfl]
    exact hpause
  · rw [← hstart, advanceN_settled, hadv, hsnap]
    rfl

theorem Attended.driversAgree (h : Attended K n d e) (hw : Watches K notify) (hp : Prepared n e)
    (hsteps : 0 ≤ e.snapshot.steps) : DriversAgree notify e where
  batch := by
    intro k
    obtain ⟨e₁, hbatch, hadv₁, -⟩ := h.batch hw hsteps k
    obtain ⟨e₂, hpause, hadv₂⟩ := h.pauseAndStep hw k
    rw [hadv₂] at hadv₁
    refine ⟨e₁.snapshot, ?_, ?_, ?_⟩
    · rw [hbatch]
      rfl
    · rw [hbatch]
      exact leaves_done e₁ _
    · rw [hpause, ← Option.some.inj hadv₁]
      exact leaves_done e₂ _
  batches := by
    intro i k
    obtain ⟨e₁, hbatch, hadv₁, -⟩ := h.batch hw hsteps (i + k)
    obtain ⟨e₂, htwice, hadv₂⟩ := h.batchTwice hw hsteps i k
    rw [hadv₂] at hadv₁
    refine ⟨e₂.snapshot, ?_, ?_⟩
    · rw [htwice]
      exact leaves_done e₂ _
    · rw [hbatch, Option.some.inj hadv₁]
      exact leaves_done e₁ _
  timer := by
    intro hr interval k
    obtain ⟨e₁, hby_hand, hadv₁, -⟩ := h.steps hw hr k none
    obtain ⟨e₂, htimer, hadv₂⟩ := h.runAndPause hw hp hr interval k
    refine ⟨e₁.snapshot, ?_, ?_⟩
    · rw [hby_hand]
      exact leaves_done e₁ _
    · rw [htimer, Option.some.inj ((advanceN_woken hadv₁).symm.trans hadv₂)]
      exact leaves_done e₂ _

/-- **The three ways to drive a machine agree**, from every engine that can be reached: the settings are accepted, there
is a loop and room for the padding, the log takes every entry, and the listeners only look on from there. -/
theorem reaches_driversAgree {c : Config} {disk : Disk} {clock : Clock} {journal : Option Journal}
    {refused : List String} {room : Option ℕ} {tracing : Bool} {e' : Engine} (hc : c.validate = .ok ())
    (hm : make c true disk clock = .ok e) (hn : e.padding.count room = .ok n)
    (hl : { e with room, journal, refused, tracing }.LogsAll)
    (h : Reaches { e with room, journal, refused, tracing } e') (hd : e'.definition.isSome = true)
    (hw : Watches K notify) (hk : K e'.subscribers e'.scripts) : DriversAgree notify e' := by
  obtain ⟨d, hd⟩ := Option.isSome_iff_exists.1 hd
  have hc' := c.validate_eq_ok_iff.1 hc
  obtain rfl := count_of_make hc' hm hn
  have hnew := prepared_of_make hc' hm hn hl
  have hempty : Follows (c.intAt "tape_buffer") { e with room, journal, refused, tracing } := by
    obtain ⟨padding, least, v, -, -, rfl⟩ := make_eq hm
    intro d hd
    cases hd
  have hchanges := reaches_changes h hnew.sound
  have hp := hnew.changes hchanges
  have hfollows := Changes.follows hnew.sound hempty hchanges
  exact Attended.driversAgree ⟨hp.sound, hd, hk⟩ hw hp (hfollows d hd).2.nonneg

/-- a machine after its first step, with a listener that waits for the fifth one and then does nothing -/
def watched : Engine :=
  applyAll { ofSettings Config.defaults true {} bench.clock with scripts := [("watcher", [⟨some 5, none, []⟩])] }
    [.subscribe "watcher", .load (.definition Preset.busyBeaver) none, .step]

theorem watched_driversAgree :
    let e := ofSettings Config.defaults true {} bench.clock
    Config.defaults.validate = .ok () ∧ make Config.defaults true {} bench.clock = .ok e ∧ e.LogsAll ∧
      Reaches e watched ∧ watched.definition.isSome = true ∧ watched.snapshot.status = .paused ∧
      watched.subscribers = ["watcher"] ∧ watched.scripts.length = 1 ∧ Watches Mute Engine.notify ∧
      Mute watched.subscribers watched.scripts ∧ DriversAgree Engine.notify watched := by
  have hm := make_defaults true {} bench.clock
  have hl : (ofSettings Config.defaults true {} bench.clock).LogsAll := logsAll_of_no_journal rfl
  have hr : Reaches (ofSettings Config.defaults true {} bench.clock) watched :=
    (Reaches.script _ (.refl _)).trans (applyAll_reaches _ _)
  have hd : watched.definition.isSome = true := by decide +kernel
  have hk : Mute watched.subscribers watched.scripts := by
    unfold Mute
    decide +kernel
  exact ⟨validate_defaults, hm, hl, hr, hd, by decide +kernel, by decide +kernel, by decide +kernel, notify_watches, hk,
    reaches_driversAgree validate_defaults hm rfl hl hr hd notify_watches hk⟩

end Engine
end TapeMachine
