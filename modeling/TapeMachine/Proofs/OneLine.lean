/-
What is written on one line stays on it.

A value written by `Json.write` holds no newline, whatever texts are in it: a newline in a text is written by its code.
-/
import Mathlib.Tactic
import TapeMachine.Json.Writer

namespace TapeMachine

/-- there is no newline in the string -/
def OneLine (s : String) : Prop := '\n' ∉ s.toList

instance (s : String) : Decidable (OneLine s) := inferInstanceAs (Decidable (_ ∉ _))

namespace OneLine

variable {s t : String}

theorem append (hs : OneLine s) (ht : OneLine t) : OneLine (s ++ t) := by
  rw [OneLine, String.toList_append, List.mem_append]
  exact not_or.2 ⟨hs, ht⟩

theorem ofList {cs : List Char} (h : '\n' ∉ cs) : OneLine (String.ofList cs) := by
  rw [OneLine, String.toList_ofList]
  exact h

theorem intercalate {ss : List String} (hs : OneLine s) (h : ∀ t ∈ ss, OneLine t) : OneLine (s.intercalate ss) := by
  induction ss with
  | nil => exact List.not_mem_nil
  | cons t ss ih =>
    obtain ⟨ht, hss⟩ := List.forall_mem_cons.1 h
    cases ss with
    | nil => rwa [String.intercalate_singleton]
    | cons u ss =>
      rw [String.intercalate_cons_cons]
      exact (ht.append hs).append (ih hss)

end OneLine

/-! ## Numbers -/

theorem newline_notMem_toDigits (n : ℕ) : '\n' ∉ Nat.toDigits 10 n := by
  intro h
  have hdigit := Nat.isDigit_of_mem_toDigits (by decide) (by decide) h
  exact absurd hdigit (by decide)

theorem oneLine_repr (n : ℕ) : OneLine n.repr := by
  rw [OneLine, Nat.toList_repr]
  exact newline_notMem_toDigits n

theorem oneLine_int : ∀ n : ℤ, OneLine (toString n)
  | .ofNat n => oneLine_repr n
  | .negSucc n => OneLine.append (s := "-") (by decide) (oneLine_repr (n + 1))

namespace Binary64

/-- digits with a point behind the first one, if there are more of them -/
theorem newline_notMem_lead {ds : List Char} (h : '\n' ∉ ds) :
    '\n' ∉ (match ds with
      | [d] => [d]
      | d :: rest => d :: '.' :: rest
      | [] => []) := by
  split
  · exact h
  · rw [List.mem_cons, List.mem_cons]
    rw [List.mem_cons] at h
    exact not_or.2 ⟨fun hd => h (Or.inl hd), not_or.2 ⟨by decide, fun hrest => h (Or.inr hrest)⟩⟩
  · exact h

theorem oneLine_layout (l : Layout) (c : ℕ) (g : ℤ) : OneLine (l.text c g) := by
  have hdigits := newline_notMem_toDigits c
  have hzeros : ∀ n, '\n' ∉ List.replicate n '0' := fun n h => absurd (List.eq_of_mem_replicate h) (by decide)
  have htake : ∀ n, '\n' ∉ (Nat.toDigits 10 c).take n := fun n h => hdigits (List.mem_of_mem_take h)
  have hdrop : ∀ n, '\n' ∉ (Nat.toDigits 10 c).drop n := fun n h => hdigits (List.mem_of_mem_drop h)
  simp only [Layout.text]
  by_cases hpositional : l.least ≤ (Nat.toDigits 10 c).length + g - 1 ∧ (Nat.toDigits 10 c).length + g - 1 < l.bound
  · rw [if_pos hpositional]
    split_ifs
    all_goals
      refine OneLine.ofList ?_
      simp [hdigits, hzeros, htake, hdrop]
  · rw [if_neg hpositional]
    refine OneLine.ofList ?_
    rw [List.mem_append]
    refine not_or.2 ⟨newline_notMem_lead hdigits, ?_⟩
    split_ifs
    all_goals simp [newline_notMem_toDigits]

theorem oneLine_text (x : Binary64) : OneLine x.text := by
  unfold text
  split
  · decide
  · split_ifs <;> decide
  · split_ifs <;> decide
  · split_ifs
    · exact OneLine.append (s := "-") (by decide) (oneLine_layout _ _ _)
    · exact OneLine.append (s := "") (by decide) (oneLine_layout _ _ _)

end Binary64

namespace Json

/-! ## Texts -/

theorem newline_notMem_hex (w n : ℕ) : '\n' ∉ Text.hex w n := by
  induction w generalizing n with
  | zero => exact List.not_mem_nil
  | succ w ih =>
    have hdigit : ∀ k < 16, '\n' ≠ Text.hexDigit k := by decide
    rw [Text.hex, List.mem_append, List.mem_singleton]
    exact not_or.2 ⟨ih (n / 16), hdigit (n % 16) (Nat.mod_lt n (by decide))⟩

theorem newline_notMem_unitCode (n : ℕ) : '\n' ∉ unitCode n := by
  rw [unitCode, List.mem_cons, List.mem_cons]
  exact not_or.2 ⟨by decide, not_or.2 ⟨by decide, newline_notMem_hex 4 n⟩⟩

theorem newline_notMem_escapedPoint (p : CodePoint) : '\n' ∉ escapedPoint p := by
  unfold escapedPoint
  split_ifs with _ _ _ _ _ _ _ hshown
  any_goals decide
  · rw [List.mem_singleton]
    intro hp
    have hvalid : p.code.isValidChar := Or.inl (by omega)
    have hcode : (Char.ofNat p.code).toNat = p.code := by
      rw [Char.ofNat, dif_pos hvalid]
      rfl
    rw [← hp] at hcode
    have hten : p.code = 10 := hcode.symm
    omega
  · exact newline_notMem_unitCode _
  · rw [List.mem_append]
    exact not_or.2 ⟨newline_notMem_unitCode _, newline_notMem_unitCode _⟩

theorem oneLine_writeText (t : Text) : OneLine (writeText t) := by
  refine OneLine.ofList ?_
  rw [List.cons_append, List.mem_cons, List.mem_append, List.mem_flatMap, List.mem_singleton]
  rintro (h | ⟨p, -, h⟩ | h)
  · exact absurd h (by decide)
  · exact newline_notMem_escapedPoint p h
  · exact absurd h (by decide)

/-! ## Values -/

theorem oneLine_writeNumber (n : Number) : OneLine (writeNumber n) := by
  unfold writeNumber
  split
  · decide
  · split_ifs <;> decide
  · cases n with
    | whole n => exact oneLine_int n
    | real x => exact x.oneLine_text

mutual

theorem oneLine_write : ∀ v : Json, OneLine (write v)
  | .null => by decide
  | .bool true => by decide
  | .bool false => by decide
  | .number n => oneLine_writeNumber n
  | .string s => oneLine_writeText s
  | .list items =>
    (OneLine.append (s := "[") (by decide) (.intercalate (by decide) (oneLine_writeItems items))).append (by decide)
  | .object fields =>
    (OneLine.append (s := "\x7b") (by decide) (.intercalate (by decide) (oneLine_writeFields fields))).append
      (by decide)

theorem oneLine_writeItems : ∀ vs : List Json, ∀ s ∈ writeItems vs, OneLine s
  | [] => nofun
  | v :: vs => List.forall_mem_cons.2 ⟨oneLine_write v, oneLine_writeItems vs⟩

theorem oneLine_writeFields : ∀ fs : List (Text × Json), ∀ s ∈ writeFields fs, OneLine s
  | [] => nofun
  | (k, v) :: fs =>
    List.forall_mem_cons.2
      ⟨((oneLine_writeText k).append (by decide)).append (oneLine_write v), oneLine_writeFields fs⟩

end

end Json
end TapeMachine
