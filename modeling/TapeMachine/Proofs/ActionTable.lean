/-
The table that is shown of a definition, and the machine.

There is a column for each symbol of the alphabet, and behind them one for each symbol that only rules read, in the
order in which they come up (`Joins`). A cell is a dash if and only if the machine is stuck there, and otherwise tells
of the rule that the machine applies (`Tells`), whatever rules share a state and a symbol (`rows_agree`).

So the rule of a step of a run is shown if and only if its state is listed (`displays_iff`). The initial state of a
valid definition is; another state may be none of those that are listed, if a rule leads to it (`run_displayed`), and
the rules for it are hidden from whoever looks at the table (`unlisted_hidden`).
-/
import TapeMachine.Proofs.LastRule
import TapeMachine.View.Inspector

namespace TapeMachine
namespace Inspector

variable {d : Definition} {s p q : Snapshot} {r : Rule} {state symbol : Text}

/-! ## Columns -/

/-- the symbols that join the known ones, each of them once, in the order in which they are read first -/
structure Joins (known reads extra : List Text) : Prop where
  mem_iff : ∀ a, a ∈ extra ↔ a ∈ reads ∧ a ∉ known
  inOrder : extra.Pairwise fun a b => reads.idxOf a < reads.idxOf b

theorem Joins.nodup {known reads extra : List Text} (h : Joins known reads extra) : extra.Nodup := by
  refine h.inOrder.imp ?_
  rintro a _ hlt rfl
  exact hlt.false

/-- what is read later changes nothing about the order -/
theorem Joins.inOrder_append {known reads extra : List Text} (h : Joins known reads extra) (more : List Text) :
    extra.Pairwise fun a b => (reads ++ more).idxOf a < (reads ++ more).idxOf b := by
  refine h.inOrder.imp_of_mem ?_
  intro a b ha hb hlt
  rwa [List.idxOf_append_of_mem ((h.mem_iff a).1 ha).1, List.idxOf_append_of_mem ((h.mem_iff b).1 hb).1]

/-- a symbol that is known, or has joined already, does not join again -/
theorem Joins.skip {known reads extra : List Text} (h : Joins known reads extra) {a : Text} (ha : a ∈ known ++ extra) :
    Joins known (reads ++ [a]) extra where
  mem_iff := by
    intro b
    rw [h.mem_iff, List.mem_append, List.mem_singleton]
    constructor
    · rintro ⟨hread, hknown⟩
      exact ⟨Or.inl hread, hknown⟩
    · rintro ⟨hread | rfl, hknown⟩
      · exact ⟨hread, hknown⟩
      · rcases List.mem_append.1 ha with ha | ha
        · exact absurd ha hknown
        · exact (h.mem_iff b).1 ha
  inOrder := h.inOrder_append [a]

/-- a new symbol joins at the end -/
theorem Joins.join {known reads extra : List Text} (h : Joins known reads extra) {a : Text}
    (ha : a ∉ known ++ extra) : Joins known (reads ++ [a]) (extra ++ [a]) := by
  rw [List.mem_append, not_or] at ha
  obtain ⟨hknown, hextra⟩ := ha
  have hread : a ∉ reads := fun hr => hextra ((h.mem_iff a).2 ⟨hr, hknown⟩)
  constructor
  · intro b
    rw [List.mem_append, List.mem_append, List.mem_singleton, h.mem_iff]
    constructor
    · rintro (⟨hr, hk⟩ | rfl)
      · exact ⟨Or.inl hr, hk⟩
      · exact ⟨Or.inr rfl, hknown⟩
    · rintro ⟨hr | rfl, hk⟩
      · exact Or.inl ⟨hr, hk⟩
      · exact Or.inr rfl
  · have hidx : (reads ++ [a]).idxOf a = reads.length := by
      rw [List.idxOf_append_of_notMem hread]
      simp
    have hlt : ∀ b ∈ extra, (reads ++ [a]).idxOf b < reads.length := by
      intro b hb
      have hmem := ((h.mem_iff b).1 hb).1
      rw [List.idxOf_append_of_mem hmem]
      exact List.idxOf_lt_length_iff.2 hmem
    rw [List.pairwise_append]
    refine ⟨h.inOrder_append [a], List.pairwise_singleton _ _, ?_⟩
    intro b hb c hc
    rw [List.mem_singleton.1 hc, hidx]
    exact hlt b hb

theorem foldl_addSymbol (known reads : List Text) :
    ∃ extra, reads.foldl addSymbol known = known ++ extra ∧ Joins known reads extra := by
  induction reads using List.reverseRecOn with
  | nil => exact ⟨[], (List.append_nil known).symm, by simp, List.Pairwise.nil⟩
  | append_singleton reads a ih =>
    obtain ⟨extra, hfold, hjoins⟩ := ih
    rw [List.foldl_append, List.foldl_cons, List.foldl_nil, hfold, addSymbol]
    split_ifs with ha
    · exact ⟨extra, rfl, hjoins.skip ha⟩
    · exact ⟨extra ++ [a], List.append_assoc .., hjoins.join ha⟩

theorem mem_columns (d : Definition) (a : Text) : a ∈ columns d ↔ a ∈ d.alphabet ∨ ∃ r ∈ d.rules, r.read = a := by
  obtain ⟨extra, hcolumns, hjoins⟩ := foldl_addSymbol d.alphabet (d.rules.map Rule.read)
  rw [columns, hcolumns, List.mem_append, hjoins.mem_iff, List.mem_map]
  tauto

/-! ## Cells -/

/-- what a rule does never looks like a dash: there is a blank in it -/
theorem action_ne_dash (r : Rule) : action r ≠ dash := by
  intro h
  have hmem : CodePoint.ofChar ' ' ∈ (action r).points := by
    rw [action, Text.points_append, Text.points_append]
    exact List.mem_append_left _ (List.mem_append_right _ (List.mem_singleton_self _))
  rw [h] at hmem
  exact absurd hmem (by decide)

theorem cell_of_find {t : Table} (h : t.find? state symbol = some r) : cell t state symbol = action r := by
  rw [cell, h]

theorem cell_of_none {t : Table} (h : t.find? state symbol = none) : cell t state symbol = dash := by
  rw [cell, h]

/-- a rule that is found is one of the definition, for this state and this symbol -/
theorem mem_rules_of_find (h : d.table.find? state symbol = some r) :
    r ∈ d.rules ∧ r.state = state ∧ r.read = symbol := by
  rw [find?_table, lastRule?] at h
  obtain ⟨hmem, happlies⟩ := List.mem_filter.1 (List.mem_of_getLast? h)
  exact ⟨hmem, Rule.applies_iff.1 happlies⟩

/-- the row of a state, cell by cell -/
theorem getElem?_rows (d : Definition) (i : ℕ) : (rows d)[i]? = (d.states[i]?).map fun q => q :: cells d q := by
  simp [rows]

theorem getElem?_row {a : Text} {j : ℕ} (state : Text) (h : (columns d)[j]? = some a) :
    (state :: cells d state)[j + 1]? = some (cell d.table state a) := by
  simp [cells, h]

/-! ## Steps -/

/-- what the text of a cell says about a step from a snapshot: that the machine is stuck, or which rule it applies -/
def Tells (d : Definition) (text : Text) (s : Snapshot) : Prop :=
  ∃ q, advance d d.table s = some q ∧ (text = dash ↔ q.status = .error) ∧
    (text ≠ dash → ∃ r ∈ d.rules, lastRule? d.rules s.state (s.read d.blank) = some r ∧ applyRule d r s = some q ∧
      text = r.write ++ r.move.letter ++ " " ++ r.next)

theorem applyRule_of_inRange (h : s.InRange) (hs : s.halted = false) (r : Rule) :
    ∃ q, applyRule d r s = some q ∧ q.status ≠ .error := by
  rw [applyRule, writeCell_of_inRange h, Option.map_some]
  exact ⟨_, rfl, statusAfter_ne_error hs r.next⟩

/-- **A cell tells what the machine does there.** -/
theorem tells_cell (h : s.InRange) (hs : s.halted = false) (ha : s.state ≠ d.accept) :
    Tells d (cell d.table s.state (s.read d.blank)) s := by
  rcases hr : d.table.find? s.state (s.read d.blank) with _ | r
  · have hstuck : advance d d.table s = some { s with status := .error } := by
      rw [advance, if_neg (by simp [hs]), if_neg ha, hr]
    rw [cell_of_none hr]
    exact ⟨_, hstuck, iff_of_true rfl rfl, fun hne => absurd rfl hne⟩
  · obtain ⟨q, hq, hstatus⟩ := applyRule_of_inRange (d := d) h hs r
    rw [cell_of_find hr]
    refine ⟨q, (advance_of_find hs ha hr).trans hq, iff_of_false (action_ne_dash r) hstatus, ?_⟩
    intro _
    refine ⟨r, (mem_rules_of_find hr).1, ?_, hq, rfl⟩
    rw [← find?_table]
    exact hr

theorem inRange_of_cell? {a : Text} (h : s.cell? = some a) : s.InRange ∧ s.read d.blank = a := by
  refine ⟨?_, by rw [Snapshot.read, h, Option.getD_some]⟩
  rw [Snapshot.cell?] at h
  split_ifs at h with h0
  obtain ⟨hlt, -⟩ := List.getElem?_eq_some_iff.1 h
  exact ⟨h0, by omega⟩

/-- the table that is shown agrees with the machine -/
structure Agrees (d : Definition) : Prop where
  /-- the alphabet, and then every symbol that only rules read -/
  header : ∃ extra, columns d = d.alphabet ++ extra ∧ Joins d.alphabet (d.rules.map Rule.read) extra
  header_iff : ∀ a, a ∈ columns d ↔ a ∈ d.alphabet ∨ ∃ r ∈ d.rules, r.read = a
  /-- a row for each listed state, in order, that starts with the state and has a cell for each column -/
  heads : (rows d).map List.head? = d.states.map some
  widths : ∀ row ∈ rows d, row.length = (columns d).length + 1
  /-- in the row of a state, in the column of a symbol -/
  tells : ∀ (i j : ℕ) (q a text : Text) (row : List Text), d.states[i]? = some q → (columns d)[j]? = some a →
    (rows d)[i]? = some row → row[j + 1]? = some text → q ≠ d.accept →
    ∀ s : Snapshot, s.halted = false → s.state = q → s.cell? = some a → Tells d text s

/-- **The table that is shown agrees with the machine**, for every definition. -/
theorem rows_agree (d : Definition) : Agrees d where
  header := foldl_addSymbol d.alphabet (d.rules.map Rule.read)
  header_iff := mem_columns d
  heads := by simp [rows, Function.comp_def]
  widths := by
    intro row hrow
    obtain ⟨q, -, rfl⟩ := List.mem_map.1 hrow
    simp [cells]
  tells := by
    rintro i j q a text row hi hj hrow htext hq s hs rfl ha
    obtain ⟨hr, hread⟩ := inRange_of_cell? (d := d) ha
    rw [getElem?_rows, hi, Option.map_some, Option.some.injEq] at hrow
    rw [← hrow, getElem?_row _ hj, Option.some.injEq] at htext
    rw [← htext, ← hread]
    exact tells_cell hr hs hq

/-! ## Runs -/

/-- the step from a snapshot applies the rule -/
structure Applies (d : Definition) (s : Snapshot) (r : Rule) : Prop where
  going : s.halted = false
  running : s.state ≠ d.accept
  found : d.table.find? s.state (s.read d.blank) = some r

/-- the table has a row and a column for the rule, and shows it where they meet -/
structure Displays (d : Definition) (r : Rule) : Prop where
  row : ∃ row ∈ rows d, row.head? = some r.state
  column : r.read ∈ columns d
  cell : ∀ row ∈ rows d, row.head? = some r.state → ∀ j, (columns d)[j]? = some r.read →
    row[j + 1]? = some (r.write ++ r.move.letter ++ " " ++ r.next)

theorem Applies.advance_eq (h : Applies d s r) : advance d d.table s = applyRule d r s :=
  advance_of_find h.going h.running h.found

theorem Applies.mem (h : Applies d s r) : r ∈ d.rules ∧ r.state = s.state ∧ r.read = s.read d.blank :=
  mem_rules_of_find h.found

/-- a rule that the machine applies is shown if and only if its state is listed -/
theorem displays_iff (h : Applies d s r) : Displays d r ↔ r.state ∈ d.states := by
  obtain ⟨hmem, hstate, hread⟩ := h.mem
  constructor
  · rintro ⟨⟨row, hrow, hhead⟩, -, -⟩
    obtain ⟨q, hq, rfl⟩ := List.mem_map.1 hrow
    rw [List.head?_cons, Option.some.injEq] at hhead
    exact hhead ▸ hq
  · intro hlisted
    refine ⟨⟨_, List.mem_map_of_mem hlisted, rfl⟩, (mem_columns d _).2 (Or.inr ⟨r, hmem, rfl⟩), ?_⟩
    intro row hrow hhead j hj
    obtain ⟨q, -, rfl⟩ := List.mem_map.1 hrow
    rw [List.head?_cons, Option.some.injEq] at hhead
    have hfound : d.table.find? r.state r.read = some r := by
      rw [hstate, hread]
      exact h.found
    rw [hhead, getElem?_row _ hj, cell_of_find hfound]
    rfl

/-- a step stays in its state, or goes where its rule leads -/
theorem state_of_advance (h : advance d d.table p = some q) :
    q.state = p.state ∨ ∃ r, Applies d p r ∧ r.next = q.state := by
  by_cases hs : p.halted = true
  · rw [advance_of_halted _ hs, Option.some.injEq] at h
    exact Or.inl (by rw [h])
  · rw [Bool.not_eq_true] at hs
    by_cases ha : p.state = d.accept
    · rw [advance, if_neg (by simp [hs]), if_pos ha, Option.some.injEq] at h
      exact Or.inl (by rw [← h])
    · rcases hr : d.table.find? p.state (p.read d.blank) with _ | r
      · rw [advance, if_neg (by simp [hs]), if_neg ha, hr, Option.some.injEq] at h
        exact Or.inl (by rw [← h])
      · rw [advance_of_find hs ha hr, applyRule, Option.map_eq_some_iff] at h
        obtain ⟨tape, -, rfl⟩ := h
        exact Or.inr ⟨r, ⟨hs, ha, hr⟩, rfl⟩

/-- a run is in its first state, or where a rule of an earlier step leads -/
theorem state_of_run {k : ℕ} (h : advanceN d d.table k p = some s) :
    s.state = p.state ∨ ∃ j < k, ∃ q r, advanceN d d.table j p = some q ∧ Applies d q r ∧ r.next = s.state := by
  induction k generalizing s with
  | zero =>
    rw [advanceN, Option.some.injEq] at h
    exact Or.inl (by rw [h])
  | succ k ih =>
    rw [advanceN_succ, Option.bind_eq_some_iff] at h
    obtain ⟨q, hq, hstep⟩ := h
    rcases state_of_advance hstep with hstate | ⟨r, hr, hnext⟩
    · rw [hstate]
      rcases ih hq with hfirst | ⟨j, hj, hrest⟩
      · exact Or.inl hfirst
      · exact Or.inr ⟨j, hj.trans k.lt_succ_self, hrest⟩
    · exact Or.inr ⟨k, k.lt_succ_self, q, r, hq, hr, hnext⟩

/-- what the table shows of the rule of a step -/
structure DisplayedIfListed (d : Definition) (start : Snapshot) (k : ℕ) (r : Rule) : Prop where
  displays_iff : Displays d r ↔ r.state ∈ d.states
  /-- a rule that is hidden comes after one that leads to a state that is not listed -/
  after : r.state ∉ d.states →
    ∃ j < k, ∃ q r', advanceN d d.table j start = some q ∧ Applies d q r' ∧ r'.next = r.state
  /-- if every rule leads to a listed state then every rule of a run is shown -/
  closed : (∀ r ∈ d.rules, r.next ∈ d.states) → Displays d r

/-- **The rule of a step of a run is shown if and only if its state is listed.** -/
theorem run_displayed (hd : d.Valid) (input : Text) (n : ℤ) (k : ℕ)
    (hs : advanceN d d.table k (Snapshot.fresh d input n) = some s) (hr : Applies d s r) :
    DisplayedIfListed d (Snapshot.fresh d input n) k r := by
  have hafter : r.state ∉ d.states → ∃ j < k, ∃ q r', advanceN d d.table j (Snapshot.fresh d input n) = some q ∧
      Applies d q r' ∧ r'.next = r.state := by
    intro hlisted
    rw [hr.mem.2.1] at hlisted ⊢
    rcases state_of_run hs with hfirst | hrest
    · rw [hfirst] at hlisted
      exact absurd hd.initial_listed hlisted
    · exact hrest
  refine ⟨displays_iff hr, hafter, ?_⟩
  intro hclosed
  rw [displays_iff hr]
  by_contra hlisted
  obtain ⟨j, -, q, r', -, hr', hnext⟩ := hafter hlisted
  exact hlisted (hnext ▸ hclosed r' hr'.mem.1)

/-- the second step of the busy beaver on a blank tape -/
theorem run_displayed_busyBeaver :
    let d := Preset.busyBeaver
    let r : Rule := ⟨"b", "_", "a", "1", .left⟩
    ∃ s, d.Valid ∧ advanceN d d.table 1 (Snapshot.fresh d "" 1) = some s ∧ Applies d s r ∧
      DisplayedIfListed d (Snapshot.fresh d "" 1) 1 r := by
  have hd : Preset.busyBeaver.Valid := (Definition.validate_ok_iff _).1 (by decide)
  have hs : advanceN Preset.busyBeaver Preset.busyBeaver.table 1 (Snapshot.fresh Preset.busyBeaver "" 1) =
      some ⟨["_", "1", "_"], 2, "b", 1, .paused, false⟩ := by decide +kernel
  have hr : Applies Preset.busyBeaver ⟨["_", "1", "_"], 2, "b", 1, .paused, false⟩ ⟨"b", "_", "a", "1", .left⟩ :=
    ⟨by decide, by decide, by decide +kernel⟩
  exact ⟨_, hd, hs, hr, run_displayed hd "" 1 1 hs hr⟩

/-- a machine that goes to a state that is not listed, and on from there -/
def astray : Definition where
  states := ["a", "halt"]
  alphabet := ["_"]
  blank := "_"
  initial := "a"
  accept := "halt"
  rules := [⟨"a", "_", "b", "_", .right⟩, ⟨"b", "_", "halt", "_", .right⟩]

/-- **The table may hide a rule that the machine applies**: there is no row for its state. -/
theorem unlisted_hidden :
    ∃ s r, astray.Valid ∧ advanceN astray astray.table 1 (Snapshot.fresh astray "" 1) = some s ∧ Applies astray s r ∧
      ¬ Displays astray r := by
  have hd : astray.Valid := (Definition.validate_ok_iff _).1 (by decide)
  have hs : advanceN astray astray.table 1 (Snapshot.fresh astray "" 1) =
      some ⟨["_", "_", "_"], 2, "b", 1, .paused, false⟩ := by decide +kernel
  have hr : Applies astray ⟨["_", "_", "_"], 2, "b", 1, .paused, false⟩ ⟨"b", "_", "halt", "_", .right⟩ :=
    ⟨by decide, by decide, by decide +kernel⟩
  refine ⟨_, _, hd, hs, hr, ?_⟩
  rw [displays_iff hr]
  decide

end Inspector
end TapeMachine
