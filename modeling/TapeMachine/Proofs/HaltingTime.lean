/-
How long the textbook machine runs.

`haltingTime` is the number of transitions that a machine makes before it stops, and infinite when it never stops.
`made d n c` counts the transitions among the first `n` steps; it can be computed, and it is the lesser of `n` and the
halting time (`made_eq_min`). A machine that has stopped stays as it is, so that `n` steps lead where that many
transitions lead (`run_made`).

`Makes d k c c'` says that `k` transitions lead from `c` to `c'`, and is put together phase by phase: one transition
(`makes_one`), a head that scans cells (`makes_scan`), one phase after another (`Makes.trans`).
-/
import Mathlib.Data.ENat.Basic
import Mathlib.Tactic
import TapeMachine.Machine.Textbook

namespace TapeMachine.Textbook

variable {d : Definition} {c c' c'' : Textbook} {r : Rule}

instance (d : Definition) (c : Textbook) : Decidable (Stopped d c) := inferInstanceAs (Decidable (c.rule? d = none))

/-! ## One step -/

theorem step_of_rule (h : c.rule? d = some r) : c.step d = apply r c := by
  simp only [step, h]

theorem step_of_stopped (h : Stopped d c) : c.step d = c := by
  have h' : c.rule? d = none := h
  simp only [step, h']

theorem stopped_of_accept (h : c.state = d.accept) : Stopped d c := by
  simp only [Stopped, rule?, h, if_true]

theorem not_stopped_of_rule (h : c.rule? d = some r) : ¬ Stopped d c := by
  intro hs
  rw [Stopped, h] at hs
  cases hs

theorem run_of_stopped (h : Stopped d c) (n : ℕ) : run d n c = c := by
  induction n with
  | zero => rfl
  | succ n ih => rw [run, step_of_stopped h, ih]

/-! ## The halting time -/

open Classical in
/-- the number of transitions before the machine stops -/
noncomputable def haltingTime (d : Definition) (c : Textbook) : ℕ∞ :=
  if h : ∃ t, Stopped d (run d t c) then (Nat.find h : ℕ∞) else ⊤

/-- the number of transitions among the first `n` steps -/
def made (d : Definition) : ℕ → Textbook → ℕ
  | 0, _ => 0
  | n + 1, c =>
    match c.rule? d with
    | some r => made d n (apply r c) + 1
    | none => 0

theorem made_of_stopped (h : Stopped d c) (n : ℕ) : made d n c = 0 := by
  have h' : c.rule? d = none := h
  cases n with
  | zero => rfl
  | succ n => simp only [made, h']

theorem made_succ_of_rule (h : c.rule? d = some r) (n : ℕ) : made d (n + 1) c = made d n (apply r c) + 1 := by
  simp only [made, h]

theorem run_succ_of_rule (h : c.rule? d = some r) (n : ℕ) : run d (n + 1) c = run d n (apply r c) := by
  rw [run, step_of_rule h]

theorem made_le (d : Definition) (n : ℕ) (c : Textbook) : made d n c ≤ n := by
  induction n generalizing c with
  | zero => exact le_rfl
  | succ n ih =>
    cases h : c.rule? d with
    | none => rw [made_of_stopped h]; exact Nat.zero_le _
    | some r => rw [made_succ_of_rule h]; exact Nat.succ_le_succ (ih _)

/-- the machine makes `n` steps or it makes all its transitions: either way it is where they lead -/
theorem run_made (d : Definition) (n : ℕ) (c : Textbook) : run d (made d n c) c = run d n c := by
  induction n generalizing c with
  | zero => rfl
  | succ n ih =>
    cases h : c.rule? d with
    | none => rw [made_of_stopped h, run_of_stopped h, run_of_stopped h]
    | some r => rw [made_succ_of_rule h, run_succ_of_rule h, run_succ_of_rule h, ih]

/-- before the transitions are made the machine has not stopped -/
theorem not_stopped_of_lt_made {n k : ℕ} (h : k < made d n c) : ¬ Stopped d (run d k c) := by
  induction n generalizing c k with
  | zero => exact absurd h (Nat.not_lt_zero _)
  | succ n ih =>
    cases hr : c.rule? d with
    | none => rw [made_of_stopped hr] at h; exact absurd h (Nat.not_lt_zero _)
    | some r =>
      rw [made_succ_of_rule hr] at h
      cases k with
      | zero => exact not_stopped_of_rule hr
      | succ k =>
        rw [run_succ_of_rule hr]
        exact ih (by omega)

/-- a machine that has not made every step has stopped -/
theorem stopped_of_made_lt {n : ℕ} (h : made d n c < n) : Stopped d (run d n c) := by
  induction n generalizing c with
  | zero => exact absurd h (Nat.not_lt_zero _)
  | succ n ih =>
    cases hr : c.rule? d with
    | none => rw [run_of_stopped hr]; exact hr
    | some r =>
      rw [made_succ_of_rule hr] at h
      rw [run_succ_of_rule hr]
      exact ih (by omega)

theorem le_haltingTime {n : ℕ} (h : ∀ k < n, ¬ Stopped d (run d k c)) : (n : ℕ∞) ≤ haltingTime d c := by
  classical
  unfold haltingTime
  split_ifs with hex
  · rw [Nat.cast_le, Nat.le_find_iff]
    exact h
  · exact le_top

theorem haltingTime_le {t : ℕ} (h : Stopped d (run d t c)) : haltingTime d c ≤ t := by
  classical
  unfold haltingTime
  rw [dif_pos ⟨t, h⟩, Nat.cast_le]
  exact Nat.find_le h

theorem le_haltingTime_iff {n : ℕ} : (n : ℕ∞) ≤ haltingTime d c ↔ ∀ k < n, ¬ Stopped d (run d k c) := by
  refine ⟨?_, le_haltingTime⟩
  intro h k hk hs
  have hle : (n : ℕ∞) ≤ k := h.trans (haltingTime_le hs)
  exact absurd (Nat.cast_le.1 hle) (not_le.2 hk)

theorem made_eq_min (d : Definition) (n : ℕ) (c : Textbook) : (made d n c : ℕ∞) = min (n : ℕ∞) (haltingTime d c) := by
  have hle : (made d n c : ℕ∞) ≤ haltingTime d c := le_haltingTime fun k hk => not_stopped_of_lt_made hk
  rcases Nat.lt_or_ge (made d n c) n with h | h
  · have hs : Stopped d (run d (made d n c) c) := by
      rw [run_made]
      exact stopped_of_made_lt h
    have heq : haltingTime d c = made d n c := le_antisymm (haltingTime_le hs) hle
    rw [heq, min_eq_right (Nat.cast_le.2 (made_le d n c))]
  · have heq : made d n c = n := le_antisymm (made_le d n c) h
    rw [heq] at hle ⊢
    rw [min_eq_left hle]

theorem haltingTime_lt_iff (d : Definition) (n : ℕ) (c : Textbook) : haltingTime d c < n ↔ made d n c < n := by
  have h := made_eq_min d n c
  constructor
  · intro hlt
    rw [min_eq_right hlt.le] at h
    rw [← h] at hlt
    exact Nat.cast_lt.1 hlt
  · intro hlt
    by_contra hge
    rw [min_eq_left (not_lt.1 hge)] at h
    exact absurd (Nat.cast_inj.1 h) hlt.ne

/-! ## From one machine to another -/

section Makes

variable {j k : ℕ}

/-- `k` transitions lead from one machine to another -/
structure Makes (d : Definition) (k : ℕ) (c c' : Textbook) : Prop where
  run : run d k c = c'
  made : made d k c = k

theorem Makes.refl (d : Definition) (c : Textbook) : Makes d 0 c c := ⟨rfl, rfl⟩

theorem Makes.cons (hr : c.rule? d = some r) (h : Makes d k (apply r c) c') : Makes d (k + 1) c c' := by
  refine ⟨?_, ?_⟩
  · rw [run_succ_of_rule hr, h.run]
  · rw [made_succ_of_rule hr, h.made]

theorem Makes.single (hr : c.rule? d = some r) : Makes d 1 c (apply r c) := .cons hr (.refl d _)

theorem Makes.trans (h : Makes d j c c') (h' : Makes d k c' c'') : Makes d (j + k) c c'' := by
  induction j generalizing c with
  | zero =>
    obtain rfl : c = c' := h.run
    rw [Nat.zero_add]
    exact h'
  | succ j ih =>
    have hmade := h.made
    have hrun := h.run
    cases hr : c.rule? d with
    | none =>
      rw [made_of_stopped hr] at hmade
      cases hmade
    | some r =>
      rw [made_succ_of_rule hr] at hmade
      rw [run_succ_of_rule hr] at hrun
      rw [Nat.succ_add]
      exact .cons hr (ih ⟨hrun, Nat.succ.inj hmade⟩)

/-- a machine that stops after `k` transitions has made them all -/
theorem Makes.haltingTime_eq (h : Makes d k c c') (hs : Stopped d c') : haltingTime d c = k := by
  apply le_antisymm
  · apply haltingTime_le
    rw [h.run]
    exact hs
  · apply le_haltingTime
    intro i hi
    apply not_stopped_of_lt_made
    rw [h.made]
    exact hi

/-- the transition that a rule makes, with the tape and the head after it -/
theorem makes_one {tape tape' : ℤ → Text} {i i' : ℤ} {q : Text} (hq : q ≠ d.accept)
    (hr : d.table.find? q (tape i) = some r) (htape : ∀ j, tape' j = if j = i then r.write else tape j)
    (hi : i' = i + r.move.shift) : Makes d 1 ⟨tape, i, q⟩ ⟨tape', i', r.next⟩ := by
  have hrule : (⟨tape, i, q⟩ : Textbook).rule? d = some r := by rw [rule?, if_neg hq, hr]
  have hnext : apply r ⟨tape, i, q⟩ = ⟨tape', i', r.next⟩ := by
    rw [apply, hi, funext htape]
  rw [← hnext]
  exact .single hrule

/-- a transition that leaves the cell as it is -/
theorem makes_keep {tape : ℤ → Text} {i i' : ℤ} {q q' : Text} {m : Move} (hq : q ≠ d.accept)
    (hr : d.table.find? q (tape i) = some ⟨q, tape i, q', tape i, m⟩) (hi : i' = i + m.shift) :
    Makes d 1 ⟨tape, i, q⟩ ⟨tape, i', q'⟩ := by
  refine makes_one hq hr ?_ hi
  intro j
  split_ifs with hj
  · rw [hj]
  · rfl

/-- a head that goes to the right over cells that it leaves as they are, in one state -/
theorem makes_scan {tape : ℤ → Text} {q : Text} (hq : q ≠ d.accept) (i : ℤ)
    (hr : ∀ j, i ≤ j → j < i + k → d.table.find? q (tape j) = some ⟨q, tape j, q, tape j, .right⟩) :
    Makes d k ⟨tape, i, q⟩ ⟨tape, i + k, q⟩ := by
  induction k generalizing i with
  | zero =>
    rw [Nat.cast_zero, add_zero]
    exact .refl d _
  | succ k ih =>
    have hone : Makes d 1 ⟨tape, i, q⟩ ⟨tape, i + 1, q⟩ := makes_keep hq (hr i le_rfl (by omega)) rfl
    have hrest : Makes d k ⟨tape, i + 1, q⟩ ⟨tape, i + 1 + k, q⟩ := by
      apply ih
      intro j hj hlt
      exact hr j (by omega) (by omega)
    rw [Nat.add_comm k 1, Nat.cast_add, Nat.cast_one, ← add_assoc]
    exact hone.trans hrest

end Makes

/-! ## Machines with the same rules -/

section Same

variable {d' : Definition}

theorem run_congr (h : rule? d' = rule? d) : run d' = run d := by
  funext n c
  induction n generalizing c with
  | zero => rfl
  | succ n ih => rw [run, run, step, step, h, ih]

theorem haltingTime_congr (h : rule? d' = rule? d) : haltingTime d' = haltingTime d := by
  have hstopped : Stopped d' = Stopped d := by
    funext c
    rw [Stopped, Stopped, h]
  funext c
  refine ENat.eq_of_forall_natCast_le_iff ?_
  intro n
  rw [le_haltingTime_iff, le_haltingTime_iff, hstopped, run_congr h]

end Same

end TapeMachine.Textbook
