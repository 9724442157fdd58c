/-
Intervals that are not negative.

The timer refuses a negative interval, and a run never asks for less than the least interval of the settings. Where that
one is zero or more, no run is refused for its interval, whatever number it was asked for with (`isNegative_max`): a
thousandth keeps its sign when it is rounded, and an undefined number is below nothing.
-/
import Mathlib.Tactic
import TapeMachine.Number.Seconds

namespace TapeMachine

namespace Number

/-- the number is zero or greater, possibly infinite -/
def NonNegative (n : Number) : Prop := n.lt (.whole 0) = false ∧ n ≠ .real .undefined

instance (n : Number) : Decidable n.NonNegative := inferInstanceAs (Decidable (_ ∧ _))

theorem lt_of_toRat {a b : Number} {p q : ℚ} (ha : a.toRat? = some p) (hb : b.toRat? = some q) :
    a.lt b = decide (p < q) := by
  cases a with
  | whole m =>
    cases b with
    | whole k =>
      obtain rfl := Option.some.inj ha
      obtain rfl := Option.some.inj hb
      simp only [lt, Int.cast_lt]
    | real y => simp only [lt, ha, hb]
  | real x => simp only [lt, ha, hb]

theorem nonNegative_iff {n : Number} :
    n.NonNegative ↔ (∃ q, n.toRat? = some q ∧ 0 ≤ q) ∨ n = .real (.infinite false) := by
  have hzero : (whole 0).toRat? = some 0 := rfl
  cases h : n.toRat? with
  | some q =>
    have hn : ∀ x, n = .real x → x.toRat? = some q := by
      intro x hx
      rw [hx] at h
      exact h
    rw [NonNegative, lt_of_toRat h hzero]
    constructor
    · rintro ⟨hlt, -⟩
      exact Or.inl ⟨q, rfl, by simpa using hlt⟩
    · rintro (⟨p, hp, h0⟩ | hinf)
      · obtain rfl := Option.some.inj hp
        refine ⟨by simpa using h0, ?_⟩
        intro hu
        cases hn _ hu
      · cases hn _ hinf
  | none =>
    cases n with
    | whole k => cases h
    | real x =>
      cases x with
      | finite s c e => cases h
      | infinite s => cases s <;> simp [NonNegative, lt, toRat?, Binary64.toRat?, side, Binary64.lt]
      | undefined => simp [NonNegative]

/-- what is not below a number that is zero or greater is not below zero -/
theorem not_lt_zero {a b : Number} (hb : b.NonNegative) (h : a.lt b = false) : a.lt (.whole 0) = false := by
  have hzero : (whole 0).toRat? = some 0 := rfl
  cases ha : a.toRat? with
  | some p =>
    rw [lt_of_toRat ha hzero]
    rcases nonNegative_iff.1 hb with ⟨q, hq, h0⟩ | rfl
    · rw [lt_of_toRat ha hq] at h
      simp only [decide_eq_false_iff_not, not_lt] at h ⊢
      exact h0.trans h
    · exfalso
      cases a with
      | whole k => cases h
      | real x =>
        cases x with
        | finite s c e => cases h
        | infinite s => cases ha
        | undefined => cases ha
  | none =>
    cases a with
    | whole k => cases ha
    | real x =>
      cases x with
      | finite s c e => cases ha
      | undefined => rfl
      | infinite s =>
        cases s with
        | false => rfl
        | true =>
          exfalso
          rcases nonNegative_iff.1 hb with ⟨q, hq, h0⟩ | rfl
          · cases b with
            | whole k => cases h
            | real y =>
              cases y with
              | finite s c e => cases h
              | infinite s => cases hq
              | undefined => cases hq
          · cases h

end Number

theorem Binary64.ofRatio_cases (s : Bool) (num den : ℕ) :
    (∃ c e, Binary64.ofRatio s num den = .finite s c e) ∨ Binary64.ofRatio s num den = .infinite s := by
  unfold Binary64.ofRatio
  by_cases h0 : num = 0
  · rw [if_pos h0]
    exact Or.inl ⟨_, _, rfl⟩
  · rw [if_neg h0]
    simp only
    split <;> split_ifs
    all_goals first | exact Or.inr rfl | exact Or.inl ⟨_, _, rfl⟩

/-- a number without a minus sign -/
theorem Binary64.nonNegative_ofRatio (num den : ℕ) : (Number.real (.ofRatio false num den)).NonNegative := by
  rw [Number.nonNegative_iff]
  rcases ofRatio_cases false num den with ⟨c, e, h⟩ | h
  · refine Or.inl ⟨_, by rw [h]; rfl, ?_⟩
    simp only [Bool.false_eq_true, if_false]
    positivity
  · rw [h]
    exact Or.inr rfl

/-- only the zero with a minus sign is not below zero -/
theorem Binary64.eq_zero_of_nonNegative {c : ℕ} {e : ℤ} (h : (Number.real (.finite true c e)).NonNegative) :
    c * Nat.pow 2 e.toNat = 0 := by
  rcases Number.nonNegative_iff.1 h with ⟨q, hq, h0⟩ | hinf
  · by_contra hne
    have hnum : 0 < c * Nat.pow 2 e.toNat := Nat.pos_of_ne_zero hne
    have hden : 0 < Nat.pow 2 (-e).toNat := Nat.pow_pos two_pos
    have hquot : (0 : ℚ) < ((c * Nat.pow 2 e.toNat : ℕ) : ℚ) / (Nat.pow 2 (-e).toNat : ℕ) :=
      div_pos (Nat.cast_pos.2 hnum) (Nat.cast_pos.2 hden)
    have hneg : q = -(((c * Nat.pow 2 e.toNat : ℕ) : ℚ) / (Nat.pow 2 (-e).toNat : ℕ)) := (Option.some.inj hq).symm
    linarith
  · cases hinf

theorem Number.nonNegative_thousandth {n : Number} (h : n.NonNegative) : (Number.real n.thousandth).NonNegative := by
  cases n with
  | whole k =>
    have hk : ¬ k < 0 := by simpa [Number.NonNegative] using h
    have hq : ¬ ((k : ℚ) / 1000 < 0) := by
      have : (0 : ℚ) ≤ k := by exact_mod_cast not_lt.1 hk
      rw [not_lt]
      positivity
    rw [Number.thousandth, Binary64.ofRat, decide_eq_false hq]
    exact Binary64.nonNegative_ofRatio _ _
  | real x =>
    cases x with
    | undefined => exact absurd rfl h.2
    | infinite s => exact h
    | finite s c e =>
      cases s with
      | false => exact Binary64.nonNegative_ofRatio _ _
      | true =>
        rw [thousandth, Binary64.divide, Binary64.eq_zero_of_nonNegative h, Binary64.ofRatio, if_pos rfl]
        decide +kernel

/-- an interval that is not below a least one of zero or more is not negative -/
theorem Seconds.isNegative_max {m : Number} (hm : m.NonNegative) (i : Seconds) :
    (i.max (.ofMillis m)).isNegative = false := by
  have hfloor : (ofMillis m).isNegative = false := (Number.nonNegative_thousandth hm).1
  unfold Seconds.max
  split_ifs with hlt
  · exact hfloor
  rw [Bool.not_eq_true] at hlt
  have hgeneral : i.number.lt (ofMillis m).number = false → i.isNegative = false :=
    Number.not_lt_zero (Number.nonNegative_thousandth hm)
  cases i with
  | given x => exact hgeneral hlt
  | ofMillis x =>
    cases x with
    | real y => exact hgeneral hlt
    | whole a =>
      cases m with
      | real y => exact hgeneral hlt
      | whole k =>
        have hk : ¬ k < 0 := of_decide_eq_false hm.1
        have ha : ¬ a < k := of_decide_eq_false hlt
        have hnonneg : (Number.whole a).NonNegative := by
          refine ⟨decide_eq_false (by omega), ?_⟩
          intro hu
          cases hu
        exact (Number.nonNegative_thousandth hnonneg).1

end TapeMachine
