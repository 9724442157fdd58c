/-
What is written on a tape.

The written part of an integer tape goes from its first cell that is not blank to its last one (`Written`); there is at
most one such text (`Written.unique`). A snapshot finds it by dropping the blank cells at both ends of its window, and
it is the one of the machine that the snapshot shows, wherever the window lies and however wide it is (`Shows.written`).
-/
import Mathlib.Data.List.DropRight
import Mathlib.Data.List.TakeWhile
import TapeMachine.Proofs.Simulation

namespace TapeMachine

open Textbook

/-! ## The written part -/

/-- the texts of so many cells from a position on -/
def cellsFrom (tape : ℤ → Text) (first : ℤ) (count : ℕ) : List Text :=
  (List.range count).map fun i : ℕ => tape (first + i)

/-- `out` is what stands from the first cell that is not blank to the last one -/
inductive Written (blank : Text) (tape : ℤ → Text) (out : Text) : Prop where
  | none (h : ∀ i, tape i = blank) (hout : out = "")
  | cells (first last : ℤ) (hf : tape first ≠ blank) (hl : tape last ≠ blank)
      (h : ∀ i, i < first ∨ last < i → tape i = blank)
      (hout : out = Text.join (cellsFrom tape first (last - first + 1).toNat))

section Written

variable {blank : Text} {tape : ℤ → Text} {out out' : Text}

/-- **There is one written part.** -/
theorem Written.unique (h : Written blank tape out) (h' : Written blank tape out') : out = out' := by
  cases h with
  | none h hout =>
    cases h' with
    | none _ hout' => rw [hout, hout']
    | cells first _ hf _ _ _ => exact absurd (h first) hf
  | cells first last hf hl h hout =>
    cases h' with
    | none h' _ => exact absurd (h' first) hf
    | cells first' last' hf' hl' h' hout' =>
      have hfirst : first = first' := by
        have h1 : ¬ first < first' := fun hlt => hf (h' first (Or.inl hlt))
        have h2 : ¬ first' < first := fun hlt => hf' (h first' (Or.inl hlt))
        omega
      have hlast : last = last' := by
        have h1 : ¬ last' < last := fun hlt => hl (h' last (Or.inr hlt))
        have h2 : ¬ last < last' := fun hlt => hl' (h last' (Or.inr hlt))
        omega
      rw [hout, hout', hfirst, hlast]

end Written

/-! ## Texts of single code points -/

theorem singletons_append (a b : Text) : (a ++ b).singletons = a.singletons ++ b.singletons := by
  simp [Text.singletons]

/-- texts of one code point each come apart again -/
theorem singletons_join {ts : List Text} (h : ∀ t ∈ ts, t.singletons = [t]) : (Text.join ts).singletons = ts := by
  induction ts with
  | nil => rfl
  | cons t ts ih =>
    obtain ⟨ht, hts⟩ := List.forall_mem_cons.1 h
    have hcons : Text.join (t :: ts) = t ++ Text.join ts := rfl
    rw [hcons, singletons_append, ht, ih hts]
    rfl

/-! ## Trimming -/

section Trim

variable {p : Text → Bool} {cells : List Text}

/-- what is trimmed off is blank -/
theorem trimCells_append (p : Text → Bool) (cells : List Text) :
    ∃ before after, cells = before ++ trimCells p cells ++ after ∧ (∀ x ∈ before, p x = true) ∧
      ∀ x ∈ after, p x = true := by
  have hleft : cells.takeWhile p ++ cells.dropWhile p = cells := List.takeWhile_append_dropWhile
  have hright : trimCells p cells ++ (cells.dropWhile p).rtakeWhile p = cells.dropWhile p :=
    List.rdropWhile_append_rtakeWhile
  refine ⟨cells.takeWhile p, (cells.dropWhile p).rtakeWhile p, ?_, fun x hx => List.mem_takeWhile_imp hx,
    fun x hx => List.mem_rtakeWhile_imp hx⟩
  rw [List.append_assoc, hright, hleft]

/-- what is left has no blank at its ends -/
theorem trimCells_ends (h : trimCells p cells ≠ []) :
    p ((trimCells p cells).head h) = false ∧ p ((trimCells p cells).getLast h) = false := by
  constructor
  · obtain ⟨after, hafter⟩ : trimCells p cells <+: cells.dropWhile p := List.rdropWhile_prefix p _
    have hhead := List.head?_dropWhile_not p cells
    rw [← hafter, List.head?_append_of_ne_nil _ h, List.head?_eq_some_head h] at hhead
    exact hhead
  · exact Bool.not_eq_true _ ▸ List.rdropWhile_last_not p (cells.dropWhile p) h

end Trim

/-! ## Windows -/

section Window

variable {blank : Text} {cells : List Text}

theorem tapeOf_blanks_append (n : ℕ) (i : ℤ) :
    tapeOf blank (List.replicate n blank ++ cells) (i + n) = tapeOf blank cells i := by
  induction n with
  | zero => rw [List.replicate_zero, List.nil_append, Nat.cast_zero, add_zero]
  | succ n ih =>
    rw [List.replicate_succ, List.cons_append, tapeOf_cons, Nat.cast_succ, ← add_assoc, add_sub_cancel_right, ih]

theorem tapeOf_append_blanks (n : ℕ) (i : ℤ) :
    tapeOf blank (cells ++ List.replicate n blank) i = tapeOf blank cells i := by
  induction n with
  | zero => rw [List.replicate_zero, List.append_nil]
  | succ n ih => rw [List.replicate_succ', ← List.append_assoc, tapeOf_append, ih]

/-- blank cells on both sides of a tape do not show -/
theorem tapeOf_between {before after : List Text} (hb : ∀ x ∈ before, x = blank) (ha : ∀ x ∈ after, x = blank) (i : ℤ) :
    tapeOf blank (before ++ cells ++ after) i = tapeOf blank cells (i - before.length) := by
  obtain ⟨m, rfl⟩ : ∃ m, before = List.replicate m blank := ⟨_, List.eq_replicate_of_mem hb⟩
  obtain ⟨k, rfl⟩ : ∃ k, after = List.replicate k blank := ⟨_, List.eq_replicate_of_mem ha⟩
  rw [tapeOf_append_blanks, List.length_replicate, ← tapeOf_blanks_append m (i - m), sub_add_cancel]

theorem cellsFrom_of_tapeOf {tape : ℤ → Text} {first : ℤ} (h : ∀ j, tape j = tapeOf blank cells (j - first)) :
    cellsFrom tape first cells.length = cells := by
  refine List.ext_getElem (by simp [cellsFrom]) ?_
  intro i hi hi'
  have hcell : tape (first + i) = cells[i] := by
    rw [h, add_sub_cancel_left, tapeOf_getElem i hi']
  simpa [cellsFrom] using hcell

/-- cells without a blank at their ends are the written part of a tape that has no others -/
theorem written_of_tapeOf {tape : ℤ → Text} {first : ℤ} (h : ∀ j, tape j = tapeOf blank cells (j - first))
    (hne : cells ≠ []) (hhead : cells.head hne ≠ blank) (hlast : cells.getLast hne ≠ blank) :
    Written blank tape (Text.join cells) := by
  have hpos : 0 < cells.length := List.length_pos_of_ne_nil hne
  refine .cells first (first + (cells.length - 1 : ℕ)) ?_ ?_ ?_ ?_
  · rw [h, sub_self, show (0 : ℤ) = (0 : ℕ) from rfl, tapeOf_getElem 0 hpos, ← List.head_eq_getElem hne]
    exact hhead
  · rw [h, add_sub_cancel_left, tapeOf_getElem _ (by omega), ← List.getLast_eq_getElem hne]
    exact hlast
  · intro i hi
    rw [h]
    exact tapeOf_outside (by omega)
  · have hcount : (first + (cells.length - 1 : ℕ) - first + 1).toNat = cells.length := by omega
    rw [hcount, cellsFrom_of_tapeOf h]

end Window

/-- **A snapshot's output is what is written on the tape that it shows.** -/
theorem Shows.written {d : Definition} {off : ℕ} {s : Snapshot} {c : Textbook} (h : Shows d off s c) :
    Written d.blank c.tape (s.output (some d.blank)) := by
  have hblank : ∀ x, (some x == some d.blank) = true ↔ x = d.blank := by simp
  obtain ⟨before, after, hcells, hbefore, hafter⟩ := trimCells_append (fun x => some x == some d.blank) s.tape
  have hb : ∀ x ∈ before, x = d.blank := fun x hx => (hblank x).1 (hbefore x hx)
  have ha : ∀ x ∈ after, x = d.blank := fun x hx => (hblank x).1 (hafter x hx)
  have htape : ∀ j, c.tape j =
      tapeOf d.blank (trimCells (fun x => some x == some d.blank) s.tape) (j - (before.length - off)) := by
    intro j
    have hcell := h.cell j
    rw [hcells, tapeOf_between hb ha] at hcell
    rw [hcell, sub_sub_eq_add_sub]
  rw [Snapshot.output]
  by_cases hne : trimCells (fun x => some x == some d.blank) s.tape = []
  · rw [hne] at htape ⊢
    refine .none ?_ rfl
    intro j
    rw [htape]
    refine tapeOf_outside ?_
    rw [List.length_nil]
    omega
  · obtain ⟨hhead, hlast⟩ := trimCells_ends hne
    refine written_of_tapeOf htape hne ?_ ?_
    · intro heq
      rw [(hblank _).2 heq] at hhead
      cases hhead
    · intro heq
      rw [(hblank _).2 heq] at hlast
      cases hlast

end TapeMachine
