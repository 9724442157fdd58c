/-
The preset for unary addition.

Two unary numbers stand on the tape with a blank between them. The head goes over the first one, writes a one in the
place of the blank, goes over the second one, turns back at the end and takes the last one away. Each of these phases
is a lemma about the textbook machine (`makes_first`, `makes_join`, `makes_second`, `makes_erase`), and
`makes_addition` is their sum.

Where both numbers are zero, the one that is taken away is the one that was just written, and nothing is left on the
tape (`written_ones`). So an evaluation adds all numbers (`evaluate_adds`).
-/
import TapeMachine.Proofs.Evaluation

namespace TapeMachine

open Textbook

/-! ## Unary numbers -/

/-- a number as so many ones -/
def unary (n : ℕ) : Text := Text.join (List.replicate n (Text.ofString "1"))

/-- two numbers with a blank between them -/
def unaryPair (j k : ℕ) : Text := unary j ++ "_" ++ unary k

theorem singletons_unary (n : ℕ) : (unary n).singletons = List.replicate n (Text.ofString "1") := by
  apply singletons_join
  intro t ht
  rw [List.eq_of_mem_replicate ht]
  rfl

theorem singletons_unaryPair (j k : ℕ) :
    (unaryPair j k).singletons =
      List.replicate j (Text.ofString "1") ++ Text.ofString "_" :: List.replicate k (Text.ofString "1") := by
  rw [unaryPair, singletons_append, singletons_append, singletons_unary, singletons_unary, List.append_assoc]
  rfl

/-! ## Tapes -/

/-- a tape with so many ones from position 0 on -/
def onesTape (n : ℕ) : ℤ → Text := tapeOf "_" (List.replicate n (Text.ofString "1"))

/-- a tape with two numbers and a blank between them -/
def pairTape (j k : ℕ) : ℤ → Text :=
  tapeOf "_" (List.replicate j (Text.ofString "1") ++ Text.ofString "_" :: List.replicate k (Text.ofString "1"))

theorem onesTape_inside {n : ℕ} {i : ℤ} (h : 0 ≤ i) (hlt : i < n) : onesTape n i = "1" := by
  obtain ⟨m, rfl⟩ : ∃ m : ℕ, i = m := ⟨i.toNat, by omega⟩
  have hm : m < (List.replicate n (Text.ofString "1")).length := by
    rw [List.length_replicate]
    omega
  rw [onesTape, tapeOf_getElem m hm, List.getElem_replicate]

theorem onesTape_outside {n : ℕ} {i : ℤ} (h : i < 0 ∨ n ≤ i) : onesTape n i = "_" := by
  apply tapeOf_outside
  rw [List.length_replicate]
  exact h

theorem pairTape_first {j k : ℕ} {i : ℤ} (h : 0 ≤ i) (hlt : i < j) : pairTape j k i = "1" := by
  obtain ⟨m, rfl⟩ : ∃ m : ℕ, i = m := ⟨i.toNat, by omega⟩
  have hm : m < j := by omega
  rw [pairTape, tapeOf_getElem m (by simp; omega), List.getElem_append_left (by simpa using hm),
    List.getElem_replicate]

theorem pairTape_between (j k : ℕ) : pairTape j k j = "_" := by
  rw [pairTape, tapeOf_getElem j (by simp)]
  simp

/-- a one in the place of the blank joins the two numbers -/
theorem onesTape_join (j k : ℕ) (i : ℤ) :
    onesTape (j + 1 + k) i = if i = j then Text.ofString "1" else pairTape j k i := by
  have hlen : j < (List.replicate j (Text.ofString "1") ++
      Text.ofString "_" :: List.replicate k (Text.ofString "1")).length := by simp
  have hset : (List.replicate j (Text.ofString "1") ++
      Text.ofString "_" :: List.replicate k (Text.ofString "1")).set j (Text.ofString "1") =
      List.replicate (j + 1 + k) (Text.ofString "1") := by
    rw [List.set_append_right _ _ (by simp), List.length_replicate, Nat.sub_self, List.set_cons_zero,
      List.replicate_add, List.replicate_succ']
    simp
  rw [pairTape, ← tapeOf_set hlen, hset]
  rfl

/-- without the last one there is one less -/
theorem onesTape_erase (n : ℕ) (i : ℤ) : onesTape n i = if i = n then Text.ofString "_" else onesTape (n + 1) i := by
  have hlen : n < (List.replicate (n + 1) (Text.ofString "1")).length := by simp
  have hset : (List.replicate (n + 1) (Text.ofString "1")).set n (Text.ofString "_") =
      List.replicate n (Text.ofString "1") ++ [Text.ofString "_"] := by
    rw [List.replicate_succ', List.set_append_right _ _ (by simp), List.length_replicate, Nat.sub_self,
      List.set_cons_zero]
  rw [onesTape, onesTape, ← tapeOf_set hlen, hset, tapeOf_append]

/-- the ones are what is written on their tape -/
theorem written_ones (n : ℕ) : Written "_" (onesTape n) (unary n) := by
  have hone : Text.ofString "1" ≠ Text.ofString "_" := by decide
  cases n with
  | zero => exact .none (fun i => onesTape_outside (by omega)) rfl
  | succ n =>
    have htape : ∀ i, onesTape (n + 1) i = tapeOf "_" (List.replicate (n + 1) (Text.ofString "1")) (i - 0) := by
      intro i
      rw [sub_zero]
      rfl
    refine written_of_tapeOf htape (List.cons_ne_nil _ _) hone ?_
    rw [List.getLast_replicate]
    exact hone

/-! ## Runs -/

namespace Preset

/-- the head goes over the first number -/
theorem makes_first (j k : ℕ) :
    Makes unaryAddition j ⟨pairTape j k, 0, "q_move_right"⟩ ⟨pairTape j k, j, "q_move_right"⟩ := by
  have h : Makes unaryAddition j ⟨pairTape j k, 0, "q_move_right"⟩ ⟨pairTape j k, 0 + j, "q_move_right"⟩ := by
    refine makes_scan (by decide) 0 ?_
    intro i h0 hlt
    rw [pairTape_first h0 (by omega)]
    decide
  rw [zero_add] at h
  exact h

/-- the blank between the numbers becomes a one -/
theorem makes_join (j k : ℕ) :
    Makes unaryAddition 1 ⟨pairTape j k, j, "q_move_right"⟩ ⟨onesTape (j + 1 + k), j + 1, "q_go_end"⟩ := by
  have hfind : unaryAddition.table.find? "q_move_right" (pairTape j k j) =
      some ⟨"q_move_right", "_", "q_go_end", "1", .right⟩ := by
    rw [pairTape_between]
    decide
  exact makes_one (by decide) hfind (onesTape_join j k) rfl

/-- the head goes over the second number -/
theorem makes_second (j k : ℕ) :
    Makes unaryAddition k ⟨onesTape (j + 1 + k), j + 1, "q_go_end"⟩ ⟨onesTape (j + 1 + k), j + 1 + k, "q_go_end"⟩ := by
  refine makes_scan (by decide) (j + 1) ?_
  intro i h0 hlt
  rw [onesTape_inside (by omega) (by omega)]
  decide

/-- at the end the head turns back, and takes the last one away -/
theorem makes_erase (n : ℕ) :
    Makes unaryAddition 2 ⟨onesTape (n + 1), n + 1, "q_go_end"⟩ ⟨onesTape n, n, "q_halt"⟩ := by
  have hturn : unaryAddition.table.find? "q_go_end" (onesTape (n + 1) (n + 1)) =
      some ⟨"q_go_end", onesTape (n + 1) (n + 1), "q_erase_one", onesTape (n + 1) (n + 1), .left⟩ := by
    rw [onesTape_outside (Or.inr (by omega))]
    decide
  have hlast : unaryAddition.table.find? "q_erase_one" (onesTape (n + 1) n) =
      some ⟨"q_erase_one", "1", "q_halt", "_", .stay⟩ := by
    rw [onesTape_inside (by omega) (by omega)]
    decide
  have hback : (n : ℤ) = n + 1 + Move.left.shift := (add_neg_cancel_right _ _).symm
  exact (makes_keep (by decide) hturn hback).trans
    (makes_one (by decide) hlast (onesTape_erase n) (add_zero _).symm)

/-- the whole run -/
theorem makes_addition (j k : ℕ) :
    Makes unaryAddition (j + k + 3) (start unaryAddition (unaryPair j k))
      ⟨onesTape (j + k), (j + k : ℕ), "q_halt"⟩ := by
  have hstart : start unaryAddition (unaryPair j k) = ⟨pairTape j k, 0, "q_move_right"⟩ := by
    rw [start, singletons_unaryPair]
    rfl
  have hcount : j + k + 3 = j + (1 + (k + 2)) := by omega
  have hend : Makes unaryAddition 2 ⟨onesTape (j + 1 + k), j + 1 + k, "q_go_end"⟩
      ⟨onesTape (j + k), (j + k : ℕ), "q_halt"⟩ := by
    have h := makes_erase (j + k)
    have hlen : j + k + 1 = j + 1 + k := by omega
    have hhead : ((j + k : ℕ) : ℤ) + 1 = j + 1 + k := by omega
    rw [hlen, hhead] at h
    exact h
  rw [hstart, hcount]
  exact (makes_first j k).trans ((makes_join j k).trans ((makes_second j k).trans hend))

end Preset

/-- **The preset for unary addition adds all pairs of unary numbers**, zero included, whatever the padding: it accepts
after as many steps as there are ones, and three, and their sum is what it leaves. -/
theorem evaluate_adds (j k : ℕ) {c : Config} {cap : Option Cap} {room : Option ℕ} {e : Engine} {n m : ℤ}
    (hm : Engine.make c false {} Clock.origin = .ok e) (hn : e.padding.count room = .ok n) (hpos : 1 ≤ n)
    (hcap : cap.or e.cap = some (.ok m)) (hbound : (j + k + 3 : ℕ) ≤ m) :
    ∃ s, evaluate c Preset.unaryAddition (some (unaryPair j k)) cap room = .ok s ∧ s.accepted = true ∧
      s.state = "q_halt" ∧ s.steps = (j + k + 3 : ℕ) ∧ s.output = unary (j + k) := by
  have hd : Preset.unaryAddition.Valid := (Definition.validate_ok_iff _).1 (by decide)
  obtain ⟨s, t, heval, hreports⟩ := exists_reports hd (some (unaryPair j k)) hm hn hpos hcap
  obtain ⟨hsteps, hstate, hstatus, hwritten⟩ :=
    hreports.of_makes (Preset.makes_addition j k) rfl (by omega) (by omega)
  exact ⟨s, heval, hreports.accepted.2 hstatus, hstate, hsteps, hwritten.unique (written_ones (j + k))⟩

/-- with the cap at the last step, and nothing to add: the one that is written is taken away again -/
theorem evaluate_adds_zero :
    Engine.make Engine.benchSettings false {} Clock.origin = .ok Engine.bare ∧
      Engine.bare.padding.count none = .ok 1 ∧ unaryPair 0 0 = "_" ∧ (0 + 0 + 3 : ℕ) ≤ (3 : ℤ) ∧
      ∃ s, evaluate Engine.benchSettings Preset.unaryAddition (some (unaryPair 0 0)) (some (.ok 3)) none = .ok s ∧
        s.accepted = true ∧ s.state = "q_halt" ∧ s.steps = 3 ∧ s.output = "" := by
  have hn : Engine.bare.padding.count none = .ok 1 := rfl
  have hcap : (some (.ok 3) : Option Cap).or Engine.bare.cap = some (.ok 3) := rfl
  obtain ⟨s, heval, hacc, hstate, hsteps, hout⟩ :=
    evaluate_adds 0 0 Engine.make_bare hn le_rfl hcap (by decide)
  exact ⟨Engine.make_bare, hn, by decide, by decide, s, heval, hacc, hstate, hsteps, hout⟩

end TapeMachine
