/-
Snapshots simulate the textbook machine.

A snapshot shows a window of the integer tape: its first cell is the cell `-off`, where `off` counts the cells that the
tape has grown on the left, and every cell outside the window is blank (`Shows`). One step of a snapshot is one step of
the textbook machine (`step_shows`), and so `n` steps lead to the textbook machine after as many transitions as it can
make (`run_shows`). Along the way the window covers the cells that were there at the start and those that the head has
visited, and no others; the status tells how the machine has ended (`endStatus`).

`advanceN_simulates` puts this together for every snapshot that can step.
-/
import TapeMachine.Machine.Advance
import TapeMachine.Machine.Preset
import TapeMachine.Proofs.HaltingTime

namespace TapeMachine

open Textbook

/-- the textbook machine that a snapshot shows, with the first cell of the tape at position 0 -/
def Snapshot.textbook (d : Definition) (s : Snapshot) : Textbook := ⟨tapeOf d.blank s.tape, s.head, s.state⟩

/-- from one snapshot to the next the tape has grown on the left: it is longer, and the head is on its first cell -/
def GrewLeft (s q : Snapshot) : Prop := s.tape.length < q.tape.length ∧ q.head = 0

instance (s q : Snapshot) : Decidable (GrewLeft s q) := inferInstanceAs (Decidable (_ ∧ _))

/-- how often the tape grows on the left in `n` steps -/
def leftGrowths (d : Definition) : ℕ → Snapshot → ℕ
  | 0, _ => 0
  | n + 1, s =>
    match advance d d.table s with
    | some q => (if GrewLeft s q then 1 else 0) + leftGrowths d n q
    | none => 0

/-! ## Tapes as functions -/

section Tape

variable {blank : Text} {cells : List Text}

theorem tapeOf_getElem (i : ℕ) (h : i < cells.length) : tapeOf blank cells i = cells[i] := by
  simp [tapeOf, h]

theorem tapeOf_outside {i : ℤ} (h : i < 0 ∨ cells.length ≤ i) : tapeOf blank cells i = blank := by
  unfold tapeOf
  split_ifs with h0
  · have hlen : cells.length ≤ i.toNat := by omega
    rw [List.getElem?_eq_none hlen]
    rfl
  · rfl

theorem tapeOf_set {k : ℕ} (hk : k < cells.length) (w : Text) (i : ℤ) :
    tapeOf blank (cells.set k w) i = if i = k then w else tapeOf blank cells i := by
  unfold tapeOf
  rcases lt_or_ge i 0 with h0 | h0
  · rw [if_neg (not_le.2 h0), if_neg (not_le.2 h0), if_neg (by omega)]
  · rw [if_pos h0, if_pos h0]
    by_cases h : i = k
    · rw [if_pos h, h, Int.toNat_natCast, List.getElem?_set_self hk]
      rfl
    · have hne : k ≠ i.toNat := by omega
      rw [if_neg h, List.getElem?_set_ne hne]

theorem tapeOf_cons (i : ℤ) : tapeOf blank (blank :: cells) i = tapeOf blank cells (i - 1) := by
  rcases lt_trichotomy i 0 with h | h | h
  · rw [tapeOf_outside (Or.inl h), tapeOf_outside (Or.inl (by omega))]
  · subst h
    rfl
  · have hi : i.toNat = (i - 1).toNat + 1 := by omega
    simp only [tapeOf, if_pos h.le, if_pos (show 0 ≤ i - 1 by omega), hi, List.getElem?_cons_succ]

theorem tapeOf_append (i : ℤ) : tapeOf blank (cells ++ [blank]) i = tapeOf blank cells i := by
  rcases lt_or_ge i 0 with h0 | h0
  · rw [tapeOf_outside (Or.inl h0), tapeOf_outside (Or.inl h0)]
  · simp only [tapeOf, if_pos h0]
    rcases lt_trichotomy i.toNat cells.length with h | h | h
    · rw [List.getElem?_append_left h]
    · rw [h, List.getElem?_concat_length, List.getElem?_eq_none le_rfl]
      rfl
    · rw [List.getElem?_eq_none (by simpa using h), List.getElem?_eq_none h.le]

end Tape

/-! ## The relation -/

/-- a snapshot shows a window of a textbook machine, `off` cells of which lie to the left of position 0 -/
structure Shows (d : Definition) (off : ℕ) (s : Snapshot) (c : Textbook) : Prop where
  inRange : s.InRange
  cell : ∀ j, c.tape j = tapeOf d.blank s.tape (j + off)
  head : c.head = s.head - off
  state : c.state = s.state

/-- the position is in the window -/
def Covers (off : ℕ) (s : Snapshot) (j : ℤ) : Prop := -off ≤ j ∧ j < s.tape.length - off

theorem Snapshot.shows_textbook {d : Definition} {s : Snapshot} (h : s.InRange) : Shows d 0 s (s.textbook d) :=
  ⟨h, fun j => by simp [textbook], by simp [textbook], rfl⟩

/-- a fresh tape with a cell of padding has one for the head -/
theorem Snapshot.fresh_inRange (d : Definition) (input : Text) {n : ℤ} (hn : 1 ≤ n) (truth : Bool) :
    { Snapshot.fresh d input n with truthHead := truth }.InRange := by
  simp only [InRange, fresh, paddedTape, List.length_append, List.length_replicate]
  omega

theorem Snapshot.InRange.tape_ne_nil {s : Snapshot} (h : s.InRange) : s.tape ≠ [] := by
  intro hnil
  obtain ⟨h0, hlt⟩ := h
  rw [hnil, List.length_nil] at hlt
  omega

theorem Snapshot.read_eq_tapeOf (s : Snapshot) (blank : Text) : s.read blank = tapeOf blank s.tape s.head := by
  unfold read cell? tapeOf
  split_ifs <;> rfl

section Shows

variable {d : Definition} {off : ℕ} {s : Snapshot} {c : Textbook}

theorem Shows.read (h : Shows d off s c) : s.read d.blank = c.tape c.head := by
  rw [s.read_eq_tapeOf, h.cell, h.head, sub_add_cancel]

theorem Shows.covers_head (h : Shows d off s c) : Covers off s c.head := by
  have := h.inRange
  unfold Snapshot.InRange at this
  rw [Covers, h.head]
  omega

theorem Shows.rule? (h : Shows d off s c) :
    c.rule? d = if s.state = d.accept then none else d.table.find? s.state (s.read d.blank) := by
  rw [Textbook.rule?, h.state, h.read]

end Shows

/-! ## One step -/

/-- the status after a transition that does not lead to the accept state -/
def Status.afterMove (q : Status) : Status := if q = .idle then .paused else q

theorem Status.afterMove_afterMove (q : Status) : q.afterMove.afterMove = q.afterMove := by
  cases q <;> rfl

theorem Status.halted_afterMove {q : Status} (h : q.halted = false) : q.afterMove.halted = false := by
  cases q <;> first | rfl | cases h

section Step

variable {d : Definition} {off : ℕ} {s : Snapshot} {c : Textbook}

theorem advance_of_halted (t : Table) (h : s.halted = true) : advance d t s = some s := by
  rw [advance, if_pos h]

theorem advanceN_of_halted (t : Table) (h : s.halted = true) (n : ℕ) : advanceN d t n s = some s := by
  induction n with
  | zero => rfl
  | succ n ih => rw [advanceN, advance_of_halted t h, Option.bind_some, ih]

theorem writeCell_of_inRange (h : s.InRange) (w : Text) :
    writeCell s.tape s.head w = some (s.tape.set s.head.toNat w) := by
  rw [writeCell, if_pos h.1, if_pos h.2]

/-- where no rule is applied only the status changes -/
theorem advance_of_stopped (h : Shows d off s c) (hs : s.halted = false) (hc : Stopped d c) :
    advance d d.table s = some { s with status := if c.state = d.accept then .accepted else .error } := by
  have hr : c.rule? d = none := hc
  rw [h.rule?] at hr
  rw [advance, if_neg (by rw [hs]; exact Bool.false_ne_true), h.state]
  split_ifs at hr ⊢ with ha
  · rfl
  · rw [hr]

/-- growing gives the head a cell: `g` tells whether the new cell is on the left, where it shifts all others -/
structure Grown (blank : Text) (tape : List Text) (pos : ℤ) (tape' : List Text) (head' : ℤ) (g : ℕ) : Prop where
  side : g = if tape.length < tape'.length ∧ head' = 0 then 1 else 0
  inRange : 0 ≤ head' ∧ head' < tape'.length
  head : head' - g = pos
  cell : ∀ i, tapeOf blank tape' (i + g) = tapeOf blank tape i
  covers : ∀ i : ℤ, (-g ≤ i ∧ i < tape'.length - g) ↔ (0 ≤ i ∧ i < tape.length) ∨ pos = i

theorem growTape_grown (blank : Text) (tape : List Text) (head : ℤ) (ht : tape ≠ []) (h1 : -1 ≤ head)
    (h2 : head ≤ tape.length) :
    ∃ g, Grown blank tape head (growTape blank tape head).1 (growTape blank tape head).2 g := by
  have hpos : 0 < tape.length := List.length_pos_of_ne_nil ht
  unfold growTape
  split_ifs with hl hr
  · refine ⟨1, ?_, ?_, ?_, ?_, ?_⟩
    · simp
    · simp
    · simp only [Nat.cast_one]; omega
    · intro i
      rw [tapeOf_cons, Nat.cast_one, add_sub_cancel_right]
    · intro i
      simp only [List.length_cons, Nat.cast_add, Nat.cast_one]
      omega
  · refine ⟨0, ?_, ?_, ?_, ?_, ?_⟩
    · rw [if_neg]
      rintro ⟨-, h0⟩
      omega
    · simp only [List.length_append, List.length_singleton, Nat.cast_add, Nat.cast_one]
      omega
    · simp
    · intro i
      rw [tapeOf_append, Nat.cast_zero, add_zero]
    · intro i
      simp only [List.length_append, List.length_singleton, Nat.cast_add, Nat.cast_one, Nat.cast_zero]
      omega
  · refine ⟨0, ?_, ?_, ?_, ?_, ?_⟩
    · simp
    · exact ⟨not_lt.1 hl, not_le.1 hr⟩
    · simp
    · intro i
      rw [Nat.cast_zero, add_zero]
    · intro i
      simp only [Nat.cast_zero]
      omega

theorem Move.shift_cases (m : Move) : m.shift = -1 ∨ m.shift = 0 ∨ m.shift = 1 := by
  cases m <;> simp [shift]

/-- the next snapshot `q` after the rule `r` was applied -/
structure Applied (d : Definition) (off : ℕ) (s : Snapshot) (c : Textbook) (r : Rule) (q : Snapshot) : Prop where
  shows : Shows d (off + if GrewLeft s q then 1 else 0) q (apply r c)
  covers : ∀ j, Covers (off + if GrewLeft s q then 1 else 0) q j ↔ Covers off s j ∨ (apply r c).head = j
  steps : q.steps = s.steps + 1
  status : q.status = if r.next = d.accept then .accepted else s.status.afterMove

variable {r : Rule}

theorem advance_of_find {t : Table} (hs : s.halted = false) (ha : s.state ≠ d.accept)
    (hr : t.find? s.state (s.read d.blank) = some r) : advance d t s = applyRule d r s := by
  rw [advance, if_neg (by rw [hs]; exact Bool.false_ne_true), if_neg ha, hr]

theorem advance_of_rule (h : Shows d off s c) (hs : s.halted = false) (hr : c.rule? d = some r) :
    advance d d.table s = applyRule d r s := by
  rw [h.rule?] at hr
  split_ifs at hr with ha
  exact advance_of_find hs ha hr

/-- writing shows in the window as it does on the integer tape -/
theorem Shows.apply_tape (h : Shows d off s c) (r : Rule) (j : ℤ) :
    (apply r c).tape j = tapeOf d.blank (s.tape.set s.head.toNat r.write) (j + off) := by
  obtain ⟨h0, hlt⟩ := h.inRange
  have hk : s.head.toNat < s.tape.length := by omega
  have hj : j = c.head ↔ j + off = s.head.toNat := by
    rw [h.head]
    omega
  rw [tapeOf_set hk, ← h.cell]
  simp only [apply, hj]

theorem advance_applies (h : Shows d off s c) (hs : s.halted = false) (hr : c.rule? d = some r) :
    ∃ q, advance d d.table s = some q ∧ Applied d off s c r q := by
  obtain ⟨h0, hlt⟩ := h.inRange
  have hshift := r.move.shift_cases
  have hlen : (s.tape.set s.head.toNat r.write).length = s.tape.length := List.length_set
  obtain ⟨g, hg⟩ := growTape_grown d.blank (s.tape.set s.head.toNat r.write) (s.head + r.move.shift)
    (List.ne_nil_of_length_pos (by omega)) (by omega) (by omega)
  have hside := hg.side
  rw [hlen] at hside
  have hhead : (apply r c).head = s.head + r.move.shift - off := by
    rw [apply, h.head]
    ring
  rw [advance_of_rule h hs hr, applyRule, writeCell_of_inRange h.inRange, Option.map_some]
  generalize growTape d.blank _ _ = grown at hg hside ⊢
  obtain ⟨tape, head⟩ := grown
  let q : Snapshot := ⟨tape, head, r.next, s.steps + 1, statusAfter d r.next s.status, s.truthHead && r.move == .stay⟩
  have hgrew : (if GrewLeft s q then 1 else 0) = g := hside.symm
  refine ⟨q, rfl, ?_, ?_, rfl, rfl⟩
  · rw [hgrew]
    refine ⟨hg.inRange, ?_, ?_, rfl⟩
    · intro j
      rw [h.apply_tape, Nat.cast_add, ← add_assoc, hg.cell]
    · rw [hhead, Nat.cast_add, ← hg.head]
      ring
  · rw [hgrew]
    intro j
    have hc := hg.covers (j + off)
    rw [hlen] at hc
    have hw : Covers (off + g) q j ↔ -(g : ℤ) ≤ j + off ∧ j + off < tape.length - g := by
      simp only [Covers, Nat.cast_add, q]
      omega
    rw [hw, hc, Covers, hhead]
    omega

end Step

/-! ## Runs -/

section Run

variable {d : Definition} {off : ℕ} {s : Snapshot} {c : Textbook}

/-- the status that `n` steps end with, for a machine that starts with a status in which it can step -/
def endStatus (d : Definition) (n : ℕ) (c : Textbook) (before : Status) : Status :=
  if n = 0 then before
  else if (run d n c).state = d.accept then .accepted
  else if made d n c < n then .error
  else before.afterMove

/-- what `n` steps from `s` lead to -/
structure RunShows (d : Definition) (off n : ℕ) (s : Snapshot) (c : Textbook) (q : Snapshot) : Prop where
  shows : Shows d (off + leftGrowths d n s) q (run d n c)
  covers : ∀ j, Covers (off + leftGrowths d n s) q j ↔ Covers off s j ∨ ∃ m ≤ made d n c, (run d m c).head = j
  steps : q.steps = s.steps + made d n c
  status : q.status = endStatus d n c s.status

theorem leftGrowths_of_halted (h : s.halted = true) (n : ℕ) : leftGrowths d n s = 0 := by
  induction n with
  | zero => rfl
  | succ n ih => simp only [leftGrowths, advance_of_halted _ h, GrewLeft, lt_irrefl, false_and, if_false, ih]

/-- a run of a machine that has stopped leaves all but the status as it was -/
theorem runShows_of_stopped {q : Snapshot} (h : Shows d off q c) (hc : Stopped d c) {n : ℕ}
    (hgrown : leftGrowths d n s = 0) (htape : q.tape = s.tape) (hsteps : q.steps = s.steps)
    (hstatus : q.status = endStatus d n c s.status) : RunShows d off n s c q := by
  refine ⟨?_, ?_, ?_, hstatus⟩
  · rw [hgrown, add_zero, run_of_stopped hc]
    exact h
  · intro j
    have hcov : ∀ k, Covers off q k ↔ Covers off s k := by
      intro k
      rw [Covers, Covers, htape]
    rw [hgrown, add_zero, made_of_stopped hc, hcov]
    constructor
    · exact Or.inl
    · rintro (hj | ⟨m, -, rfl⟩)
      · exact hj
      · rw [run_of_stopped hc, ← hcov]
        exact h.covers_head
  · rw [made_of_stopped hc, Nat.cast_zero, add_zero, hsteps]

theorem endStatus_of_stopped (hc : Stopped d c) (n : ℕ) (before : Status) :
    endStatus d (n + 1) c before = if c.state = d.accept then .accepted else .error := by
  simp only [endStatus, run_of_stopped hc, made_of_stopped hc, Nat.succ_ne_zero, if_false, Nat.succ_pos, if_true]

theorem endStatus_of_rule {r : Rule} (hr : c.rule? d = some r) (n : ℕ) (before : Status) :
    endStatus d (n + 1) c before =
      endStatus d n (apply r c) (if r.next = d.accept then .accepted else before.afterMove) := by
  simp only [endStatus, run_succ_of_rule hr, made_succ_of_rule hr, Nat.succ_ne_zero, if_false, Nat.add_lt_add_iff_right]
  cases n with
  | zero => simp only [run, made, lt_irrefl, if_false, if_true, apply]
  | succ n =>
    rw [if_neg (Nat.succ_ne_zero n)]
    by_cases ha : r.next = d.accept
    · have hacc : (apply r c).state = d.accept := ha
      rw [run_of_stopped (stopped_of_accept hacc), if_pos hacc, if_pos hacc]
    · rw [if_neg ha, Status.afterMove_afterMove]

/-- a first transition, and then a run -/
theorem Applied.run {r : Rule} {q₁ q : Snapshot} {n : ℕ} (ha : Applied d off s c r q₁) (h : Shows d off s c)
    (hr : c.rule? d = some r) (hadv : advance d d.table s = some q₁)
    (hq : RunShows d (off + if GrewLeft s q₁ then 1 else 0) n q₁ (apply r c) q) : RunShows d off (n + 1) s c q := by
  have hoff : off + leftGrowths d (n + 1) s = off + (if GrewLeft s q₁ then 1 else 0) + leftGrowths d n q₁ := by
    simp only [leftGrowths, hadv, add_assoc]
  refine ⟨?_, ?_, ?_, ?_⟩
  · rw [hoff, run_succ_of_rule hr]
    exact hq.shows
  · intro j
    rw [hoff, hq.covers, ha.covers, made_succ_of_rule hr]
    constructor
    · rintro ((hj | rfl) | ⟨m, hm, rfl⟩)
      · exact Or.inl hj
      · exact Or.inr ⟨1, by omega, by rw [run_succ_of_rule hr]; rfl⟩
      · exact Or.inr ⟨m + 1, by omega, by rw [run_succ_of_rule hr]⟩
    · rintro (hj | ⟨m, hm, rfl⟩)
      · exact Or.inl (Or.inl hj)
      · cases m with
        | zero => exact Or.inl (Or.inl h.covers_head)
        | succ m =>
          rw [run_succ_of_rule hr]
          exact Or.inr ⟨m, by omega, rfl⟩
  · rw [hq.steps, ha.steps, made_succ_of_rule hr]
    push_cast
    ring
  · rw [hq.status, ha.status, endStatus_of_rule hr]

/-- where the machine stops, the next snapshot has halted, and nothing but its status is new -/
theorem advanceN_of_stopped (h : Shows d off s c) (hs : s.halted = false) (hc : Stopped d c) (n : ℕ) :
    ∃ q, advanceN d d.table (n + 1) s = some q ∧ RunShows d off (n + 1) s c q := by
  have hadv := advance_of_stopped h hs hc
  set q : Snapshot := { s with status := if c.state = d.accept then .accepted else .error } with hqdef
  have hq : q.halted = true := by
    rw [hqdef]
    unfold Snapshot.halted
    split_ifs <;> rfl
  have hgrown : leftGrowths d (n + 1) s = 0 := by
    have hgrew : ¬ GrewLeft s q := fun hg => lt_irrefl _ hg.1
    simp only [leftGrowths, hadv, if_neg hgrew, leftGrowths_of_halted hq]
  have hshows : Shows d off q c := ⟨h.inRange, h.cell, h.head, h.state⟩
  refine ⟨q, ?_, runShows_of_stopped hshows hc hgrown rfl rfl ?_⟩
  · rw [advanceN, hadv, Option.bind_some, advanceN_of_halted _ hq]
  · rw [endStatus_of_stopped hc]

/-- a snapshot that was accepted stays as it is -/
theorem advanceN_of_accepted (h : Shows d off s c) (hs : s.status = .accepted) (hc : c.state = d.accept) (n : ℕ) :
    advanceN d d.table n s = some s ∧ RunShows d off n s c s := by
  have hh : s.halted = true := by rw [Snapshot.halted, hs]; rfl
  have hstop : Stopped d c := stopped_of_accept hc
  refine ⟨advanceN_of_halted _ hh n, runShows_of_stopped h hstop (leftGrowths_of_halted hh n) rfl rfl ?_⟩
  rw [endStatus, run_of_stopped hstop, if_pos hc, hs, ite_self]

/-- **`n` steps of a snapshot are `n` steps of the textbook machine that it shows.** -/
theorem run_shows (n : ℕ) (h : Shows d off s c) (hs : s.halted = false) :
    ∃ q, advanceN d d.table n s = some q ∧ RunShows d off n s c q := by
  induction n generalizing off s c with
  | zero =>
    refine ⟨s, rfl, h, ?_, ?_, rfl⟩
    · intro j
      constructor
      · exact Or.inl
      · rintro (hj | ⟨m, hm, rfl⟩)
        · exact hj
        · obtain rfl : m = 0 := Nat.le_zero.1 hm
          exact h.covers_head
    · simp [made]
  | succ n ih =>
    cases hr : c.rule? d with
    | none => exact advanceN_of_stopped h hs hr n
    | some r =>
      obtain ⟨q₁, hadv, ha⟩ := advance_applies h hs hr
      have hrun : ∃ q, advanceN d d.table n q₁ = some q ∧
          RunShows d (off + if GrewLeft s q₁ then 1 else 0) n q₁ (apply r c) q := by
        by_cases hacc : r.next = d.accept
        · have hst : q₁.status = .accepted := by rw [ha.status, if_pos hacc]
          exact ⟨q₁, advanceN_of_accepted ha.shows hst hacc n⟩
        · refine ih ha.shows ?_
          rw [Snapshot.halted, ha.status, if_neg hacc]
          exact Status.halted_afterMove hs
      obtain ⟨q, hq, hrs⟩ := hrun
      exact ⟨q, by rw [advanceN, hadv, Option.bind_some, hq], ha.run h hr hadv hrs⟩

theorem endStatus_eq_accepted {n : ℕ} {before : Status} (hb : before.halted = false) :
    endStatus d n c before = .accepted ↔ 0 < n ∧ (run d n c).state = d.accept := by
  unfold endStatus
  split_ifs with h0 ha hm
  · simp only [h0, lt_irrefl, false_and, iff_false]
    rintro rfl
    cases hb
  · simp only [ha, and_true, true_iff]
    omega
  · simp only [ha, and_false]
  · simp only [ha, and_false, iff_false]
    intro h
    have := Status.halted_afterMove hb
    rw [h] at this
    cases this

theorem endStatus_eq_error {n : ℕ} {before : Status} (hb : before.halted = false) :
    endStatus d n c before = .error ↔ haltingTime d c < n ∧ (run d n c).state ≠ d.accept := by
  rw [haltingTime_lt_iff]
  unfold endStatus
  split_ifs with h0 ha hm
  · simp only [h0, Nat.not_lt_zero, false_and, iff_false]
    rintro rfl
    cases hb
  · simp only [ha, ne_eq, not_true_eq_false, and_false]
  · simp only [ha, hm, ne_eq, not_false_eq_true, and_self]
  · simp only [hm, false_and, iff_false]
    intro h
    have := Status.halted_afterMove hb
    rw [h] at this
    cases this

/-- `q` is what `n` steps from `s` lead to: the textbook machine after `k` transitions, with every position moved up by
the number of cells that the tape has grown on the left -/
structure Translated (d : Definition) (n k : ℕ) (s q : Snapshot) : Prop where
  cell : ∀ (i : ℕ) (h : i < q.tape.length), q.tape[i] = (run d k (s.textbook d)).tape (i - leftGrowths d n s)
  blank : ∀ j, ¬ Covers (leftGrowths d n s) q j → (run d k (s.textbook d)).tape j = d.blank
  head : q.head - leftGrowths d n s = (run d k (s.textbook d)).head
  state : q.state = (run d k (s.textbook d)).state
  steps : q.steps = s.steps + k
  /-- the tape spans the cells of `s` and those that the head has visited -/
  window : ∀ j, Covers (leftGrowths d n s) q j ↔
    (0 ≤ j ∧ j < s.tape.length) ∨ ∃ m ≤ k, (run d m (s.textbook d)).head = j
  accepted : q.status = .accepted ↔ 0 < n ∧ (run d k (s.textbook d)).state = d.accept
  error : q.status = .error ↔ haltingTime d (s.textbook d) < n ∧ (run d k (s.textbook d)).state ≠ d.accept
  otherwise : q.halted = false → q.status = if n = 0 then s.status else s.status.afterMove

theorem RunShows.translated {q : Snapshot} {n : ℕ} (h : RunShows d 0 n s (s.textbook d) q) (hs : s.halted = false) :
    Translated d n (made d n (s.textbook d)) s q := by
  have hsh := h.shows
  rw [zero_add] at hsh
  refine ⟨?_, ?_, ?_, ?_, h.steps, ?_, ?_, ?_, ?_⟩
  · intro i hi
    rw [run_made, hsh.cell, sub_add_cancel, tapeOf_getElem i hi]
  · intro j hj
    rw [run_made, hsh.cell]
    refine tapeOf_outside ?_
    unfold Covers at hj
    omega
  · rw [run_made, hsh.head]
  · rw [run_made, hsh.state]
  · intro j
    have hc := h.covers j
    rw [zero_add] at hc
    rw [hc, Covers]
    simp
  · rw [h.status, endStatus_eq_accepted hs, run_made]
  · rw [h.status, endStatus_eq_error hs, run_made]
  · intro hq
    have hst := h.status
    rw [Snapshot.halted, hst] at hq
    rw [hst]
    unfold endStatus at hq ⊢
    split_ifs at hq ⊢
    · rfl
    · cases hq
    · cases hq
    · rfl

/-- **Stepping simulates the textbook machine, for runs of any length.** From a snapshot that can step, `n` steps lead
to the textbook machine after `min n T` transitions, where `T` is its halting time. -/
theorem advanceN_simulates (d : Definition) (s : Snapshot) (hs : s.halted = false) (hr : s.InRange) (n : ℕ) :
    ∃ (q : Snapshot) (k : ℕ), advanceN d d.table n s = some q ∧
      (k : ℕ∞) = min (n : ℕ∞) (haltingTime d (s.textbook d)) ∧ Translated d n k s q := by
  obtain ⟨q, hq, hrun⟩ := run_shows n (Snapshot.shows_textbook hr) hs
  exact ⟨q, made d n (s.textbook d), hq, made_eq_min d n _, hrun.translated hs⟩

/-- the busy beaver, with a single blank cell on either side, grows its tape on the left twice before it halts -/
theorem advanceN_busyBeaver :
    let d := Preset.busyBeaver
    let s := Snapshot.fresh d "" 1
    s.halted = false ∧ s.InRange ∧ leftGrowths d 13 s = 2 ∧
      ∃ (q : Snapshot) (k : ℕ), advanceN d d.table 13 s = some q ∧
        (k : ℕ∞) = min (13 : ℕ∞) (haltingTime d (s.textbook d)) ∧ Translated d 13 k s q :=
  ⟨rfl, by decide, by decide +kernel, advanceN_simulates _ _ rfl (by decide) 13⟩

end Run

end TapeMachine
