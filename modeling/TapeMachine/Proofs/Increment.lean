/-
The preset for binary increment.

A word of binary digits is read to its end, and on the way back the carry turns the ones at the end into zeros, up to
the last zero, or up to the blank before the word when there is none. Each of these phases is a lemma about the
textbook machine (`makes_right`, `makes_turn`, `makes_flip`, `makes_carry`), and `makes_increment` is their sum: as many
transitions as the word has digits, as many again as it ends with ones, and two.

What is then written stands for one more than the word did (`Increments`), so that an evaluation increments every word
(`evaluate_increments`).
-/
import TapeMachine.Proofs.Evaluation

namespace TapeMachine

open Textbook

/-! ## Numerals -/

/-- the symbol of a binary digit -/
def digit (b : Bool) : Text := if b then "1" else "0"

/-- digits as a text, the highest first -/
def numeral (bits : List Bool) : Text := Text.join (bits.map digit)

/-- the number that digits stand for -/
def numeralValue (bits : List Bool) : ℕ := bits.foldl (fun n b => 2 * n + b.toNat) 0

/-- how many ones the digits end with -/
def trailingOnes (bits : List Bool) : ℕ := (bits.rtakeWhile id).length

theorem singletons_numeral (bits : List Bool) : (numeral bits).singletons = bits.map digit := by
  apply singletons_join
  intro t ht
  obtain ⟨b, -, rfl⟩ := List.mem_map.1 ht
  cases b <;> rfl

theorem digit_ne_blank (b : Bool) : digit b ≠ "_" := by
  cases b <;> decide

/-- a carry runs through the ones at the end -/
theorem foldl_ones_succ (n t : ℕ) :
    (List.replicate t true).foldl (fun n b => 2 * n + b.toNat) n + 1 =
      (List.replicate t false).foldl (fun n b => 2 * n + b.toNat) (n + 1) := by
  induction t generalizing n with
  | zero => rfl
  | succ t ih =>
    simp only [List.replicate_succ, List.foldl_cons, Bool.toNat_true, Bool.toNat_false]
    rw [ih]
    congr 1

/-- digits are ones at the end, behind nothing or behind a zero -/
theorem carry_split (bits : List Bool) :
    bits = List.replicate (trailingOnes bits) true ∨
      ∃ high, bits = high ++ false :: List.replicate (trailingOnes bits) true := by
  have hones : bits.rtakeWhile id = List.replicate (trailingOnes bits) true := by
    apply List.eq_replicate_of_mem
    intro b hb
    exact List.mem_rtakeWhile_imp hb
  have hsplit := List.rdropWhile_append_rtakeWhile (p := id) (l := bits)
  rw [hones] at hsplit
  by_cases hne : bits.rdropWhile id = []
  · rw [hne, List.nil_append] at hsplit
    exact Or.inl hsplit.symm
  · have hlast := List.rdropWhile_last_not id bits hne
    have hzero : (bits.rdropWhile id).getLast hne = false := by simpa using hlast
    refine Or.inr ⟨(bits.rdropWhile id).dropLast, ?_⟩
    conv_lhs => rw [← hsplit, ← List.dropLast_append_getLast hne, hzero]
    simp

/-! ## Runs -/

/-- a tape that holds digits from a position on -/
def digitsFrom (first : ℤ) (bits : List Bool) (i : ℤ) : Text := tapeOf "_" (bits.map digit) (i - first)

theorem digitsFrom_inside {bits : List Bool} {i : ℤ} (h : 0 ≤ i) (hlt : i < bits.length) :
    ∃ b, digitsFrom 0 bits i = digit b := by
  obtain ⟨m, rfl⟩ : ∃ m : ℕ, i = m := ⟨i.toNat, by omega⟩
  have hm : m < (bits.map digit).length := by
    rw [List.length_map]
    omega
  refine ⟨bits[m], ?_⟩
  rw [digitsFrom, sub_zero, tapeOf_getElem m hm, List.getElem_map]

theorem digitsFrom_outside {first : ℤ} {bits : List Bool} {i : ℤ} (h : i < first ∨ first + bits.length ≤ i) :
    digitsFrom first bits i = "_" := by
  apply tapeOf_outside
  rw [List.length_map]
  omega

/-- the digit behind the high ones is replaced -/
theorem digitsFrom_replace (high low : List Bool) (b b' : Bool) (i : ℤ) :
    (if i = high.length then digit b' else digitsFrom 0 (high ++ b :: low) i) = digitsFrom 0 (high ++ b' :: low) i := by
  have hlen : high.length < ((high ++ b :: low).map digit).length := by simp
  rw [digitsFrom, digitsFrom, sub_zero, ← tapeOf_set hlen]
  simp

theorem digitsFrom_at (high low : List Bool) (b : Bool) : digitsFrom 0 (high ++ b :: low) high.length = digit b := by
  have h := digitsFrom_replace high low b b high.length
  rw [if_pos rfl] at h
  exact h.symm

namespace Preset

theorem find?_right (b : Bool) :
    binaryIncrement.table.find? "q_right" (digit b) = some ⟨"q_right", digit b, "q_right", digit b, .right⟩ := by
  cases b <;> decide

theorem makes_right (bits : List Bool) :
    Makes binaryIncrement bits.length ⟨digitsFrom 0 bits, 0, "q_right"⟩
      ⟨digitsFrom 0 bits, bits.length, "q_right"⟩ := by
  have hfind : ∀ i : ℤ, 0 ≤ i → i < 0 + bits.length →
      binaryIncrement.table.find? "q_right" (digitsFrom 0 bits i) =
        some ⟨"q_right", digitsFrom 0 bits i, "q_right", digitsFrom 0 bits i, .right⟩ := by
    intro i h0 hlt
    rw [zero_add] at hlt
    obtain ⟨b, hb⟩ := digitsFrom_inside h0 hlt
    rw [hb]
    exact find?_right b
  have h := makes_scan (by decide) 0 hfind
  rw [zero_add] at h
  exact h

/-- at the end of the input the head turns back -/
theorem makes_turn (bits : List Bool) :
    Makes binaryIncrement 1 ⟨digitsFrom 0 bits, bits.length, "q_right"⟩
      ⟨digitsFrom 0 bits, bits.length - 1, "q_flip"⟩ := by
  have hblank : digitsFrom 0 bits bits.length = "_" := digitsFrom_outside (Or.inr (by omega))
  have hfind : binaryIncrement.table.find? "q_right" (digitsFrom 0 bits bits.length) =
      some ⟨"q_right", digitsFrom 0 bits bits.length, "q_flip", digitsFrom 0 bits bits.length, .left⟩ := by
    rw [hblank]
    decide
  exact makes_keep (by decide) hfind rfl

/-- on its way back the head turns the ones at the end into zeros -/
theorem makes_flip (high low : List Bool) (t : ℕ) :
    Makes binaryIncrement t ⟨digitsFrom 0 (high ++ List.replicate t true ++ low), high.length + t - 1, "q_flip"⟩
      ⟨digitsFrom 0 (high ++ List.replicate t false ++ low), high.length - 1, "q_flip"⟩ := by
  induction t generalizing low with
  | zero =>
    simp only [List.replicate_zero, Nat.cast_zero, add_zero]
    exact .refl _ _
  | succ t ih =>
    have hcells : ∀ b, high ++ List.replicate (t + 1) b ++ low = (high ++ List.replicate t b) ++ b :: low := by
      intro b
      simp [List.replicate_succ']
    have hhead : (high.length : ℤ) + (t + 1 : ℕ) - 1 = (high ++ List.replicate t true).length := by
      rw [List.length_append, List.length_replicate]
      omega
    have hfind : binaryIncrement.table.find? "q_flip"
        (digitsFrom 0 ((high ++ List.replicate t true) ++ true :: low) (high ++ List.replicate t true).length) =
        some ⟨"q_flip", "1", "q_flip", "0", .left⟩ := by
      rw [digitsFrom_at]
      decide
    have hone : Makes binaryIncrement 1
        ⟨digitsFrom 0 ((high ++ List.replicate t true) ++ true :: low), (high ++ List.replicate t true).length,
          "q_flip"⟩
        ⟨digitsFrom 0 ((high ++ List.replicate t true) ++ false :: low), high.length + t - 1, "q_flip"⟩ := by
      refine makes_one (by decide) hfind ?_ ?_
      · intro j
        exact (digitsFrom_replace _ low true false j).symm
      · rw [List.length_append, List.length_replicate, Nat.cast_add]
        rfl
    rw [hcells, hcells, hhead, Nat.add_comm t 1]
    exact hone.trans (ih (false :: low))

/-- before a zero, or a blank, the carry ends -/
theorem makes_carry {tape tape' : ℤ → Text} {i : ℤ} (h : tape i = "0" ∨ tape i = "_")
    (htape : ∀ j, tape' j = if j = i then Text.ofString "1" else tape j) :
    Makes binaryIncrement 1 ⟨tape, i, "q_flip"⟩ ⟨tape', i, "q_halt"⟩ := by
  have hfind : binaryIncrement.table.find? "q_flip" (tape i) = some ⟨"q_flip", tape i, "q_halt", "1", .stay⟩ := by
    rcases h with h | h
    · rw [h]
      decide
    · rw [h]
      decide
  exact makes_one (by decide) hfind htape (add_zero i).symm

end Preset

/-! ## Results -/

/-- a digit in the cell before the others -/
theorem digitsFrom_cons (bits : List Bool) (i : ℤ) :
    digitsFrom (-1) (true :: bits) i = if i = -1 then Text.ofString "1" else digitsFrom 0 bits i := by
  have hpos : 0 < (Text.ofString "_" :: bits.map digit).length := Nat.succ_pos _
  have hi : i + 1 = 0 ↔ i = -1 := by omega
  calc digitsFrom (-1) (true :: bits) i
      = tapeOf "_" ((Text.ofString "_" :: bits.map digit).set 0 (Text.ofString "1")) (i + 1) := by
        rw [digitsFrom, sub_neg_eq_add]
        rfl
    _ = if i + 1 = (0 : ℕ) then Text.ofString "1" else tapeOf "_" (Text.ofString "_" :: bits.map digit) (i + 1) :=
        tapeOf_set hpos _ _
    _ = if i = -1 then Text.ofString "1" else digitsFrom 0 bits i := by
      rw [tapeOf_cons, add_sub_cancel_right, digitsFrom, sub_zero]
      simp only [Nat.cast_zero, hi]

/-- digits are what is written on their tape -/
theorem written_digitsFrom (first : ℤ) {bits : List Bool} (hne : bits ≠ []) :
    Written "_" (digitsFrom first bits) (numeral bits) := by
  have hcells : bits.map digit ≠ [] := by simpa using hne
  apply written_of_tapeOf (fun _ => rfl) hcells
  · rw [List.head_map]
    exact digit_ne_blank _
  · rw [List.getLast_map]
    exact digit_ne_blank _

/-- `out` stands for one more than `bits`, and is longer only when there is no zero in them -/
structure Increments (bits out : List Bool) : Prop where
  value : numeralValue out = numeralValue bits + 1
  length : out.length = if false ∈ bits then bits.length else bits.length + 1

theorem increments_ones (t : ℕ) : Increments (List.replicate t true) (true :: List.replicate t false) := by
  refine ⟨?_, ?_⟩
  · exact (foldl_ones_succ 0 t).symm
  · simp

theorem increments_zero (high : List Bool) (t : ℕ) :
    Increments (high ++ false :: List.replicate t true) (high ++ true :: List.replicate t false) := by
  refine ⟨?_, ?_⟩
  · simp only [numeralValue, List.foldl_append, List.foldl_cons, Bool.toNat_true, Bool.toNat_false, add_zero]
    exact (foldl_ones_succ _ t).symm
  · simp

namespace Preset

/-- the carry stops at the last zero, or at the blank before the first digit -/
theorem makes_back (bits : List Bool) :
    ∃ first i out, out ≠ [] ∧ Increments bits out ∧
      Makes binaryIncrement (trailingOnes bits + 1) ⟨digitsFrom 0 bits, bits.length - 1, "q_flip"⟩
        ⟨digitsFrom first out, i, "q_halt"⟩ := by
  have hsplit := carry_split bits
  generalize trailingOnes bits = t at hsplit ⊢
  rcases hsplit with rfl | ⟨high, rfl⟩
  · have hflip := makes_flip [] [] t
    have hblank : digitsFrom 0 (List.replicate t false) (-1) = "_" := digitsFrom_outside (Or.inl (by omega))
    have hcarry := makes_carry (Or.inr hblank) (digitsFrom_cons (List.replicate t false))
    refine ⟨-1, -1, true :: List.replicate t false, List.cons_ne_nil _ _, increments_ones t, ?_⟩
    simp only [List.nil_append, List.append_nil, List.length_nil, Nat.cast_zero, zero_add, zero_sub] at hflip
    rw [List.length_replicate]
    exact hflip.trans hcarry
  · have hflip := makes_flip (high ++ [false]) [] t
    have hzero : digitsFrom 0 (high ++ false :: List.replicate t false) high.length = "0" := digitsFrom_at _ _ _
    have hcarry := makes_carry (Or.inl hzero) fun j => (digitsFrom_replace high _ false true j).symm
    refine ⟨0, high.length, high ++ true :: List.replicate t false, by simp, increments_zero high t, ?_⟩
    simp only [List.append_nil, List.append_assoc, List.singleton_append, List.length_append, List.length_singleton,
      Nat.cast_add, Nat.cast_one, add_sub_cancel_right] at hflip
    have hhead : ((high ++ false :: List.replicate t true).length : ℤ) - 1 = high.length + 1 + t - 1 := by
      simp
      ring
    rw [hhead]
    exact hflip.trans hcarry

/-- the whole run: to the end of the input, and back as far as the carry goes -/
theorem makes_increment (bits : List Bool) :
    ∃ first i out, out ≠ [] ∧ Increments bits out ∧
      Makes binaryIncrement (bits.length + trailingOnes bits + 2) (start binaryIncrement (numeral bits))
        ⟨digitsFrom first out, i, "q_halt"⟩ := by
  have hstart : start binaryIncrement (numeral bits) = ⟨digitsFrom 0 bits, 0, "q_right"⟩ := by
    rw [start, singletons_numeral, Textbook.mk.injEq]
    refine ⟨?_, rfl, rfl⟩
    funext i
    rw [digitsFrom, sub_zero]
    rfl
  obtain ⟨first, i, out, hne, hout, hback⟩ := makes_back bits
  have hcount : bits.length + trailingOnes bits + 2 = bits.length + (1 + (trailingOnes bits + 1)) := by omega
  refine ⟨first, i, out, hne, hout, ?_⟩
  rw [hstart, hcount]
  exact (makes_right bits).trans ((makes_turn bits).trans hback)

end Preset

/-- **The preset for binary increment increments every binary word**, the empty one included, whatever the padding: it
is accepted after as many steps as the word has digits, as many again as it ends with ones, and two. -/
theorem evaluate_increments (bits : List Bool) {c : Config} {cap : Option Cap} {room : Option ℕ} {e : Engine} {n m : ℤ}
    (hm : Engine.make c false {} Clock.origin = .ok e) (hn : e.padding.count room = .ok n) (hpos : 1 ≤ n)
    (hcap : cap.or e.cap = some (.ok m)) (hbound : (bits.length + trailingOnes bits + 2 : ℕ) ≤ m) :
    ∃ s out, evaluate c Preset.binaryIncrement (some (numeral bits)) cap room = .ok s ∧ s.accepted = true ∧
      s.state = "q_halt" ∧ s.steps = (bits.length + trailingOnes bits + 2 : ℕ) ∧ s.output = numeral out ∧
      numeralValue out = numeralValue bits + 1 ∧
      out.length = if false ∈ bits then bits.length else bits.length + 1 := by
  have hd : Preset.binaryIncrement.Valid := (Definition.validate_ok_iff _).1 (by decide)
  obtain ⟨s, k, heval, hreports⟩ := exists_reports hd (some (numeral bits)) hm hn hpos hcap
  obtain ⟨first, i, out, hne, hout, hmakes⟩ := Preset.makes_increment bits
  obtain ⟨hsteps, hstate, hstatus, hwritten⟩ := hreports.of_makes hmakes rfl (by omega) (by omega)
  refine ⟨s, out, heval, hreports.accepted.2 hstatus, hstate, hsteps, ?_, hout.value, hout.length⟩
  exact hwritten.unique (written_digitsFrom first hne)

/-- a word of ones gets longer: the carry grows the tape on the left -/
theorem evaluate_increments_ones :
    let bits := [true, true, true]
    Engine.make Engine.benchSettings false {} Clock.origin = .ok Engine.bare ∧ numeral bits = "111" ∧
      (bits.length + trailingOnes bits + 2 : ℕ) ≤ (8 : ℤ) ∧
      ∃ s out, evaluate Engine.benchSettings Preset.binaryIncrement (some (numeral bits)) (some (.ok 8)) none = .ok s ∧
        s.accepted = true ∧ s.state = "q_halt" ∧ s.steps = 8 ∧ s.output = numeral out ∧ numeralValue out = 8 ∧
        out.length = 4 := by
  have hn : Engine.bare.padding.count none = .ok 1 := rfl
  have hcap : (some (.ok 8) : Option Cap).or Engine.bare.cap = some (.ok 8) := rfl
  obtain ⟨s, out, heval, hacc, hstate, hsteps, hout, hvalue, hlength⟩ :=
    evaluate_increments [true, true, true] Engine.make_bare hn le_rfl hcap (by decide)
  exact ⟨Engine.make_bare, by decide, by decide, s, out, heval, hacc, hstate, hsteps, hout, hvalue, hlength⟩

end TapeMachine
