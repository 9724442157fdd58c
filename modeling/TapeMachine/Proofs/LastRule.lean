/-
Only the last rule for a state and a symbol counts.

The table of a definition answers with the rule that is listed last among those for the state and the symbol
(`find?_table`). So two definitions that differ in their rules alone, and have the same last rule for every state and
symbol (`SameLast`), cannot be told apart by any run (`SameLast.advanceN`) or evaluation (`SameLast.evaluate`). A rule
that a later one shadows may go, and rules for different states or symbols may change places (`Tidies`).
-/
import TapeMachine.Proofs.Evaluation

namespace TapeMachine

/-! ## The last rule -/

/-- among some rules the one listed last that is for this state and symbol -/
def lastRule? (rules : List Rule) (state symbol : Text) : Option Rule :=
  (rules.filter fun r => r.applies state symbol).getLast?

/-- for every state and symbol the last rule is the same, or there is none in either list -/
def SameLast (rules rules' : List Rule) : Prop :=
  ∀ state symbol, lastRule? rules' state symbol = lastRule? rules state symbol

/-- one change to a list of rules that leaves the last rules as they are -/
inductive Tidies : List Rule → List Rule → Prop where
  /-- a rule goes that a later one for the same state and symbol shadows -/
  | shadowed (before after : List Rule) (r s : Rule) (hs : s ∈ after) (h : s.state = r.state ∧ s.read = r.read) :
      Tidies (before ++ r :: after) (before ++ after)
  /-- the rules come in another order, in which those for one state and symbol follow each other as before -/
  | reordered (rules rules' : List Rule) (hp : rules.Perm rules')
      (h : ∀ state symbol, (rules'.filter fun r => r.applies state symbol) =
        rules.filter fun r => r.applies state symbol) : Tidies rules rules'

section Rules

variable {rules rules' : List Rule} {state symbol : Text}

theorem Rule.applies_iff {r : Rule} : r.applies state symbol = true ↔ r.state = state ∧ r.read = symbol := by
  rw [Rule.applies, Bool.and_eq_true, beq_iff_eq, beq_iff_eq]

theorem lastRule?_cons (r : Rule) (rules : List Rule) (state symbol : Text) :
    lastRule? (r :: rules) state symbol =
      (lastRule? rules state symbol).or (if r.applies state symbol then some r else none) := by
  unfold lastRule?
  cases h : r.applies state symbol with
  | false =>
    rw [List.filter_cons_of_neg (by rw [h]; exact Bool.false_ne_true), if_neg Bool.false_ne_true, Option.or_none]
  | true =>
    have hcons : ((r :: rules).filter fun r => r.applies state symbol) =
        r :: rules.filter fun r => r.applies state symbol := List.filter_cons_of_pos h
    rw [hcons, List.getLast?_cons, if_pos rfl]
    cases (rules.filter fun r => r.applies state symbol).getLast? <;> rfl

theorem lastRule?_append (before after : List Rule) (state symbol : Text) :
    lastRule? (before ++ after) state symbol = (lastRule? after state symbol).or (lastRule? before state symbol) := by
  rw [lastRule?, List.filter_append, List.getLast?_append]
  rfl

theorem lastRule?_isSome {s : Rule} (hs : s ∈ rules) (h : s.applies state symbol = true) :
    (lastRule? rules state symbol).isSome = true := by
  rw [lastRule?, List.getLast?_isSome]
  exact List.ne_nil_of_mem (List.mem_filter.2 ⟨hs, h⟩)

/-- **The table answers with the rule that is listed last.** -/
theorem find?_table (d : Definition) (state symbol : Text) :
    d.table.find? state symbol = lastRule? d.rules state symbol := by
  have hfold : ∀ (rules : List Rule) (t : Table), (rules.foldl Table.insert t).find? state symbol =
      (lastRule? rules state symbol).or (t.find? state symbol) := by
    intro rules
    induction rules with
    | nil => exact fun t => rfl
    | cons r rules ih =>
      intro t
      rw [List.foldl_cons, ih, Table.find?_insert, lastRule?_cons, Option.or_assoc]
      split_ifs <;> rfl
  rw [Definition.table, hfold]
  exact Option.or_none

/-! ## Lists with the same last rules -/

theorem SameLast.refl (rules : List Rule) : SameLast rules rules := fun _ _ => rfl

theorem SameLast.trans {rules'' : List Rule} (h : SameLast rules rules') (h' : SameLast rules' rules'') :
    SameLast rules rules'' := fun state symbol => (h' state symbol).trans (h state symbol)

theorem Tidies.sameLast (h : Tidies rules rules') : SameLast rules rules' := by
  intro state symbol
  cases h with
  | shadowed before after r s hs h =>
    rw [lastRule?_append, lastRule?_append, lastRule?_cons]
    cases hr : r.applies state symbol with
    | false => rw [if_neg Bool.false_ne_true, Option.or_none]
    | true =>
      -- the later rule is for this state and symbol as well
      have happlies : s.applies state symbol = true := by
        rw [Rule.applies_iff] at hr ⊢
        exact ⟨h.1.trans hr.1, h.2.trans hr.2⟩
      rw [Option.or_assoc, Option.or_of_isSome (lastRule?_isSome hs happlies),
        Option.or_of_isSome (lastRule?_isSome hs happlies)]
  | reordered _ _ hp h => rw [lastRule?, lastRule?, h]

theorem sameLast_of_tidies (h : Relation.ReflTransGen Tidies rules rules') : SameLast rules rules' := by
  induction h with
  | refl => exact .refl rules
  | tail _ h ih => exact ih.trans h.sameLast

end Rules

/-! ## Definitions with the same last rules -/

section Same

variable {d : Definition} {rules : List Rule}

theorem SameLast.find? (h : SameLast d.rules rules) (state symbol : Text) :
    ({ d with rules } : Definition).table.find? state symbol = d.table.find? state symbol := by
  rw [find?_table, find?_table]
  exact h state symbol

theorem SameLast.advance (h : SameLast d.rules rules) (s : Snapshot) :
    advance { d with rules } ({ d with rules } : Definition).table s = advance d d.table s := by
  simp only [TapeMachine.advance, h.find?]
  rfl

theorem SameLast.advanceN (h : SameLast d.rules rules) (n : ℕ) (s : Snapshot) :
    advanceN { d with rules } ({ d with rules } : Definition).table n s = advanceN d d.table n s := by
  induction n generalizing s with
  | zero => rfl
  | succ n ih =>
    rw [TapeMachine.advanceN, TapeMachine.advanceN, h.advance]
    congr 1
    funext q
    exact ih q

end Same

/-! ## Evaluations that end in a fault -/

section Faults

open Engine

variable {c : Config} {cap : Option Cap} {room : Option ℕ} {e : Engine} {n : ℤ}

theorem evaluate_of_invalid {d : Definition} {f : DefinitionFault} (hd : d.validate = .error f)
    (hm : make c false {} Clock.origin = .ok e) (input : Option Text) :
    evaluate c d input cap room = .error (.definition f) := by
  simp only [evaluate, hm, Except.mapError, bind, Except.bind, loadDefinition, hd, fault]

theorem evaluate_of_no_room {d : Definition} {f : OperandFault} (hd : d.Valid)
    (hm : make c false {} Clock.origin = .ok e) (hn : e.padding.count room = .error f) (input : Option Text) :
    evaluate c d input cap room = .error (.operand f) := by
  have hv : d.validate = .ok () := d.validate_ok_iff.2 hd
  have hn' : ({ e with room }.equip d (input.getD "")).padding.count ({ e with room }.equip d (input.getD "")).room =
      .error f := hn
  simp only [evaluate, hm, Except.mapError, bind, Except.bind, loadDefinition, hv, hn', fault]

/-- an evaluation without a cap that is a number fails, and does so for every definition alike -/
theorem exists_fault_of_no_cap (hm : make c false {} Clock.origin = .ok e) (hn : e.padding.count room = .ok n)
    (hpos : 1 ≤ n) (hcap : ∀ m, cap.or e.cap ≠ some (.ok m)) :
    ∃ f, ∀ (d : Definition) (input : Option Text), d.Valid → evaluate c d input cap room = .error f := by
  cases hwanted : cap.or e.cap with
  | none =>
    refine ⟨.operand (.missing "max_steps"), ?_⟩
    intro d input hd
    obtain ⟨e₁, hload, -, hcap₁, -⟩ := loads_freshly hd hm hn hpos (input.getD "")
    rw [← hcap₁] at hwanted
    simp only [evaluate, hm, Except.mapError, bind, Except.bind, hload, done, runUntilHalt, hwanted, fault]
  | some x =>
    cases x with
    | ok m => exact absurd hwanted (hcap m)
    | error got =>
      refine ⟨.operand (.unordered .less .whole got), ?_⟩
      intro d input hd
      obtain ⟨e₁, hload, hsnap, hcap₁, -⟩ := loads_freshly hd hm hn hpos (input.getD "")
      rw [← hcap₁] at hwanted
      have hidle : e₁.snapshot.status = .idle := by
        rw [hsnap]
        rfl
      have hpause : pause Engine.notify e₁ = e₁.done e₁.snapshot := by
        refine pause_of_not_running ?_
        rw [hidle]
        decide
      have hhalted : e₁.snapshot.halted = false := by
        rw [Snapshot.halted, hidle]
        rfl
      simp only [evaluate, hm, Except.mapError, bind, Except.bind, hload, done, runUntilHalt, hwanted, hpause,
        Outcome.andThen, hhalted, fault, Bool.false_eq_true, if_false]

end Faults

/-! ## Evaluations -/

section Evaluate

open Engine

variable {c : Config} {d : Definition} {rules : List Rule} {cap : Option Cap} {room : Option ℕ}

/-- at least one cell of padding is asked for, if there is room for what is asked for -/
def Padded (c : Config) (room : Option ℕ) : Prop :=
  ∀ e n, make c false {} Clock.origin = .ok e → e.padding.count room = .ok n → 1 ≤ n

theorem SameLast.evaluate (h : SameLast d.rules rules) (hc : Padded c room) (input : Option Text) (cap : Option Cap) :
    evaluate c { d with rules } input cap room = evaluate c d input cap room := by
  cases hm : make c false {} Clock.origin with
  | error f => simp only [TapeMachine.evaluate, hm, Except.mapError, bind, Except.bind]
  | ok e =>
    have hvalidate : ({ d with rules } : Definition).validate = d.validate := rfl
    cases hv : d.validate with
    | error f => rw [evaluate_of_invalid hv hm, evaluate_of_invalid (hvalidate.trans hv) hm]
    | ok u =>
      have hd : d.Valid := d.validate_ok_iff.1 hv
      have hd' : ({ d with rules } : Definition).Valid := ⟨hd.1, hd.2, hd.3, hd.4⟩
      cases hn : e.padding.count room with
      | error f => rw [evaluate_of_no_room hd hm hn, evaluate_of_no_room hd' hm hn]
      | ok n =>
        have hpos := hc e n hm hn
        by_cases hcap : ∃ m, cap.or e.cap = some (.ok m)
        · obtain ⟨m, hcap⟩ := hcap
          obtain ⟨q, hq, heval⟩ := evaluate_freshly hd input hm hn hpos hcap
          obtain ⟨q', hq', heval'⟩ := evaluate_freshly hd' input hm hn hpos hcap
          have hfresh : e.freshly { d with rules } (input.getD "") n = e.freshly d (input.getD "") n := rfl
          rw [hfresh, h.advanceN, hq] at hq'
          rw [heval, heval', ← Option.some.inj hq']
          rfl
        · have hnone : ∀ m, cap.or e.cap ≠ some (.ok m) := fun m hm => hcap ⟨m, hm⟩
          obtain ⟨f, hf⟩ := exists_fault_of_no_cap hm hn hpos hnone
          rw [hf d input hd, hf { d with rules } input hd']

/-- the definition with other rules is told apart by no look-up, by no run from whatever snapshot, and by no evaluation
-/
structure Indistinguishable (d : Definition) (rules : List Rule) : Prop where
  lookup : ∀ state symbol, ({ d with rules } : Definition).table.find? state symbol = d.table.find? state symbol
  run : ∀ n s, advanceN { d with rules } ({ d with rules } : Definition).table n s = advanceN d d.table n s
  evaluate : ∀ c room, Padded c room → ∀ input cap,
    evaluate c { d with rules } input cap room = evaluate c d input cap room

/-- **Only the last rule for a state and a symbol counts.** Rules that have the same last ones may take the place of the
rules of a definition; they have if they come of them by any number of changes that tidy them up. -/
theorem lastRule_decides (d : Definition) (rules : List Rule) :
    (Relation.ReflTransGen Tidies d.rules rules → SameLast d.rules rules) ∧
      (SameLast d.rules rules → Indistinguishable d rules) :=
  ⟨sameLast_of_tidies, fun h => ⟨h.find?, h.advanceN, fun _ _ hc input cap => h.evaluate hc input cap⟩⟩

/-- the rules of the busy beaver behind a rule for its first state and the blank that goes nowhere -/
def misled : List Rule := ⟨"a", "_", "a", "_", .stay⟩ :: Preset.busyBeaver.rules

/-- the rule in front is shadowed: with it the busy beaver still halts -/
theorem misled_decides :
    let d : Definition := { Preset.busyBeaver with rules := misled }
    let rules := Preset.busyBeaver.rules
    Relation.ReflTransGen Tidies d.rules rules ∧ SameLast d.rules rules ∧ Indistinguishable d rules ∧
      evaluate benchSettings d none (some (.ok 20)) none = .ok ⟨none, "111111", "halt", 13, .accepted⟩ := by
  have ht : Relation.ReflTransGen Tidies misled Preset.busyBeaver.rules :=
    .single (.shadowed [] Preset.busyBeaver.rules _ ⟨"a", "_", "b", "1", .right⟩ (by decide) ⟨rfl, rfl⟩)
  obtain ⟨hsame, hind⟩ := lastRule_decides { Preset.busyBeaver with rules := misled } Preset.busyBeaver.rules
  refine ⟨ht, hsame ht, hind (hsame ht), ?_⟩
  have hpadded : Padded benchSettings none := by
    intro e n hm hn
    have hbench := Except.ok.inj (hm.symm.trans make_bare)
    rw [hbench] at hn
    exact (Except.ok.inj hn).le
  rw [← (hind (hsame ht)).evaluate benchSettings none hpadded]
  decide +kernel

end Evaluate

end TapeMachine
