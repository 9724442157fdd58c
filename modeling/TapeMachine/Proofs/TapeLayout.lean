/-
The layout of a tape view.

The first line of a view is a row of fields: each cell of the window has as many columns as its symbol, at least one,
and a blank behind them. So the field of a cell starts behind the columns of the cells before it (`column`). The second
line is as long and holds nothing but one caret, in a column of the head's field, and the two styles of the view are on
the head's field and on the same columns of the second line (`Aligned`, `tapeView_aligned`).

Both lines are run together from pieces, one for each cell. What is said of a cell comes of the window with the cells
before it, the cell, and those behind it (`cells_split`).
-/
import Mathlib.Tactic
import TapeMachine.View.Tape

namespace TapeMachine
namespace TapeView

/-! ## Pieces -/

/-- a symbol that can be shown as it is: without line breaks and without characters that are left out -/
def IsPlain (symbol : Text) : Prop := ∀ p ∈ symbol.points, p ≠ '\n' ∧ isUnshown p = false

instance (symbol : Text) : Decidable (IsPlain symbol) := inferInstanceAs (Decidable (∀ _ ∈ _, _))

/-- the columns that symbols take side by side, with the blanks behind their fields -/
def columns (symbols : List Text) : ℕ := (symbols.map fun c => width c + 1).sum

/-- blank columns -/
def gap (n : ℕ) : List CodePoint := List.replicate n ' '

section Pieces

variable {symbol : Text} {head : ℤ} {cell : ℕ × Text} {before after cs : List (ℕ × Text)}

theorem length_gap (n : ℕ) : (gap n).length = n := List.length_replicate

theorem gap_add (m n : ℕ) : gap (m + n) = gap m ++ gap n := List.replicate_add m n _

theorem mem_gap {p : CodePoint} {n : ℕ} (h : p ∈ gap n) : p = ' ' := List.eq_of_mem_replicate h

theorem width_pos (symbol : Text) : 0 < width symbol := by simp [width]

theorem length_le_width (symbol : Text) : symbol.length ≤ width symbol := by simp [width]

@[simp] theorem columns_cons (symbol : Text) (symbols : List Text) :
    columns (symbol :: symbols) = width symbol + 1 + columns symbols := by simp [columns]

@[simp] theorem columns_append (symbols symbols' : List Text) :
    columns (symbols ++ symbols') = columns symbols + columns symbols' := by simp [columns]

/-- a field holds its symbol, and a blank if the symbol is empty -/
theorem points_upper (h : IsPlain symbol) :
    (upper symbol).points = symbol.points ++ gap (width symbol - symbol.length) ++ gap 1 := by
  rcases symbol with ⟨_ | ⟨p, ps⟩⟩
  · rfl
  · have hshown : (p :: ps).filter (fun p => !isUnshown p) = p :: ps := by
      rw [List.filter_eq_self]
      intro q hq
      simp [(h q hq).2]
    have hwidth : width ⟨p :: ps⟩ - Text.length ⟨p :: ps⟩ = 0 := by simp [width, Text.length]
    have hgap : gap 0 ++ gap 1 = (Text.ofString " ").points := rfl
    rw [hwidth, List.append_assoc, hgap]
    simp only [upper, field, shown, Text.isEmpty, List.isEmpty_cons, Bool.false_eq_true, if_false, Text.points_append,
      hshown]

theorem length_upper (h : IsPlain symbol) : (upper symbol).points.length = width symbol + 1 := by
  have hle := length_le_width symbol
  rw [points_upper h]
  simp only [List.length_append, length_gap]
  unfold Text.length at hle ⊢
  omega

theorem newline_notMem_upper (h : IsPlain symbol) : CodePoint.ofChar '\n' ∉ (upper symbol).points := by
  rw [points_upper h]
  simp only [List.mem_append, not_or]
  refine ⟨⟨fun hn => (h _ hn).1 rfl, ?_⟩, ?_⟩ <;>
    exact fun hn => absurd (mem_gap hn) (by decide)

theorem leftPadding_lt {w : ℕ} (h : 0 < w) : leftPadding w < w := by
  unfold leftPadding
  split_ifs with hodd
  · omega
  · omega

theorem points_lower_of_ne (h : (cell.1 : ℤ) ≠ head) : (lower head cell).points = gap (width cell.2 + 1) := by
  rw [lower, if_neg h, gap_add]
  rfl

/-- the caret is in one of the columns of the field -/
theorem points_lower_of_eq (h : (cell.1 : ℤ) = head) :
    (lower head cell).points =
      gap (leftPadding (width cell.2)) ++ CodePoint.ofChar '^' ::
        gap (width cell.2 - leftPadding (width cell.2)) := by
  have hlt := leftPadding_lt (width_pos cell.2)
  have hsplit : width cell.2 - leftPadding (width cell.2) = width cell.2 - 1 - leftPadding (width cell.2) + 1 := by
    omega
  rw [lower, if_pos h, hsplit, gap_add]
  simp only [caret, blanks, Text.points_append, List.append_assoc]
  rfl

/-! ### Lines -/

theorem points_upperLine_append (before after : List (ℕ × Text)) :
    (upperLine (before ++ after)).points = (upperLine before).points ++ (upperLine after).points := by
  simp [upperLine, Text.join]

theorem points_upperLine_cons (cell : ℕ × Text) (after : List (ℕ × Text)) :
    (upperLine (cell :: after)).points = (upper cell.2).points ++ (upperLine after).points := by
  simp [upperLine, Text.join]

theorem points_lowerLine_append (head : ℤ) (before after : List (ℕ × Text)) :
    (lowerLine head (before ++ after)).points = (lowerLine head before).points ++ (lowerLine head after).points := by
  simp [lowerLine, Text.join]

theorem points_lowerLine_cons (head : ℤ) (cell : ℕ × Text) (after : List (ℕ × Text)) :
    (lowerLine head (cell :: after)).points = (lower head cell).points ++ (lowerLine head after).points := by
  simp [lowerLine, Text.join]

theorem length_upperLine (h : ∀ cell ∈ cs, IsPlain cell.2) :
    (upperLine cs).points.length = columns (cs.map Prod.snd) := by
  induction cs with
  | nil => rfl
  | cons cell cs ih =>
    obtain ⟨hcell, hcs⟩ := List.forall_mem_cons.1 h
    rw [points_upperLine_cons, List.length_append, length_upper hcell, ih hcs, List.map_cons, columns_cons]

theorem newline_notMem_upperLine (h : ∀ cell ∈ cs, IsPlain cell.2) :
    CodePoint.ofChar '\n' ∉ (upperLine cs).points := by
  simp only [upperLine, Text.join, List.mem_flatMap, List.mem_map, not_exists, not_and]
  rintro _ ⟨cell, hcell, rfl⟩
  exact newline_notMem_upper (h cell hcell)

/-- away from the head the second line is blank -/
theorem points_lowerLine_of_ne (h : ∀ cell ∈ cs, (cell.1 : ℤ) ≠ head) :
    (lowerLine head cs).points = gap (columns (cs.map Prod.snd)) := by
  induction cs with
  | nil => rfl
  | cons cell cs ih =>
    obtain ⟨hcell, hcs⟩ := List.forall_mem_cons.1 h
    rw [points_lowerLine_cons, points_lower_of_ne hcell, ih hcs, ← gap_add, List.map_cons, columns_cons]

end Pieces

/-! ## The window -/

/-- the first cell that is shown -/
def first (s : Snapshot) (window : ℤ) : ℕ := (max 0 (s.head - window)).toNat

/-- the first cell behind it that is not shown -/
def stop (s : Snapshot) (window : ℤ) : ℕ := (min (s.tape.length : ℤ) (s.head + window + 1)).toNat

/-- the symbols of the cells from one place to another -/
def between (tape : List Text) (i j : ℕ) : List Text := (tape.take j).drop i

/-- the columns of the cells that are shown before a place -/
def column (s : Snapshot) (window : ℤ) (i : ℕ) : ℕ := columns (between s.tape (first s window) i)

/-- symbols with their places, the first of which is given -/
def placed (i : ℕ) (symbols : List Text) : List (ℕ × Text) := (symbols.zipIdx i).map fun c => (c.2, c.1)

section Window

variable {tape symbols : List Text} {s : Snapshot} {window : ℤ} {i j k : ℕ}

theorem placed_append (i : ℕ) (symbols symbols' : List Text) :
    placed i (symbols ++ symbols') = placed i symbols ++ placed (i + symbols.length) symbols' := by
  simp [placed, List.zipIdx_append]

theorem placed_cons (i : ℕ) (symbol : Text) (symbols : List Text) :
    placed i (symbol :: symbols) = (i, symbol) :: placed (i + 1) symbols := by
  simp [placed, List.zipIdx_cons]

theorem map_snd_placed (i : ℕ) (symbols : List Text) : (placed i symbols).map Prod.snd = symbols := by
  simp [placed, Function.comp_def]

theorem length_placed (i : ℕ) (symbols : List Text) : (placed i symbols).length = symbols.length := by simp [placed]

theorem place_of_mem {cell : ℕ × Text} (h : cell ∈ placed i symbols) :
    i ≤ cell.1 ∧ cell.1 < i + symbols.length ∧ cell.2 ∈ symbols := by
  obtain ⟨c, hc, rfl⟩ := List.mem_map.1 h
  exact ⟨List.le_snd_of_mem_zipIdx hc, List.snd_lt_add_of_mem_zipIdx hc, List.fst_mem_of_mem_zipIdx hc⟩

theorem length_between (hj : j ≤ tape.length) : (between tape i j).length = j - i := by
  simp [between, hj]

theorem between_split (hik : i ≤ k) (hkj : k < j) (hj : j ≤ tape.length) :
    between tape i j = between tape i k ++ tape[k] :: between tape (k + 1) j := by
  have hk : k < (tape.take j).length := by
    rw [List.length_take]
    omega
  have hget : (tape.take j)[k] = tape[k] := List.getElem_take
  have htake : (tape.take j).take k = tape.take k := by
    rw [List.take_take, Nat.min_eq_left hkj.le]
  have hsplit : tape.take j = tape.take k ++ tape[k] :: (tape.take j).drop (k + 1) := by
    rw [← hget, ← List.drop_eq_getElem_cons hk, ← htake, List.take_append_drop]
  have hlen : i ≤ (tape.take k).length := by
    rw [List.length_take]
    omega
  rw [between, hsplit, List.drop_append_of_le_length hlen]
  rfl

theorem first_le_head (h : s.InRange) (hw : 0 ≤ window) : first s window ≤ s.head.toNat := by
  have h0 := h.1
  unfold first
  omega

theorem head_lt_stop (h : s.InRange) (hw : 0 ≤ window) : s.head.toNat < stop s window := by
  obtain ⟨h0, h1⟩ := h
  unfold stop
  omega

theorem stop_le (s : Snapshot) (window : ℤ) : stop s window ≤ s.tape.length := by
  unfold stop
  omega

/-- what is shown is the tape from the first cell of the window on -/
theorem cells_eq (h : s.InRange) (hw : 0 ≤ window) :
    cells s window = placed (first s window) (between s.tape (first s window) (stop s window)) := by
  have hfirst := first_le_head h hw
  have hstop := head_lt_stop h hw
  have hle := stop_le s window
  have hcount : (min (s.tape.length : ℤ) (s.head + window + 1) - max 0 (s.head - window)).toNat =
      stop s window - first s window := by
    unfold stop first
    omega
  have htape : s.tape = s.tape.take (first s window) ++
      (between s.tape (first s window) (stop s window) ++ s.tape.drop (stop s window)) := by
    have htake : s.tape.take (first s window) = (s.tape.take (stop s window)).take (first s window) := by
      rw [List.take_take, Nat.min_eq_left (by omega)]
    rw [htake, between, ← List.append_assoc, List.take_append_drop, List.take_append_drop]
  have hlen : (s.tape.take (first s window)).length = first s window := by
    rw [List.length_take]
    omega
  have hall : (s.tape.zipIdx.map fun c => (c.2, c.1)) = placed 0 s.tape := rfl
  simp only [cells, range]
  rw [hall, hcount]
  conv_lhs => rw [htape]
  rw [placed_append, placed_append, hlen, Nat.zero_add, List.drop_left' (by rw [length_placed, hlen]; rfl),
    List.take_left' (by rw [length_placed, length_between hle])]

/-- the cells before a place of the window, the cell there, and those behind it -/
theorem cells_split {symbol : Text} (h : s.InRange) (hw : 0 ≤ window) (hi : first s window ≤ i)
    (hi' : i < stop s window) (hc : s.tape[i]? = some symbol) :
    cells s window = placed (first s window) (between s.tape (first s window) i) ++
      (i, symbol) :: placed (i + 1) (between s.tape (i + 1) (stop s window)) := by
  obtain ⟨-, rfl⟩ := List.getElem?_eq_some_iff.1 hc
  have hle := stop_le s window
  have hlen : first s window + (between s.tape (first s window) i).length = i := by
    rw [length_between (by omega)]
    omega
  rw [cells_eq h hw, between_split hi hi' hle, placed_append, hlen, placed_cons]

end Window

/-! ## The view -/

/-- the lines of a view and its styles are where they should be -/
structure Aligned (s : Snapshot) (window : ℤ) (v : StyledText) (upper lower : Text) : Prop where
  /-- two lines, of the same length -/
  text : v.text = upper ++ "\n" ++ lower
  upper_unbroken : CodePoint.ofChar '\n' ∉ upper.points
  lower_unbroken : CodePoint.ofChar '\n' ∉ lower.points
  length_eq : lower.length = upper.length
  /-- each cell of the window has its symbol in its columns, or a blank if the symbol is empty, and one blank behind -/
  field : ∀ i symbol, first s window ≤ i → i < stop s window → s.tape[i]? = some symbol →
    (upper.points.drop (column s window i)).take (max symbol.length 1 + 1) =
      symbol.points ++ gap (max symbol.length 1 - symbol.length) ++ gap 1
  /-- behind the last cell of the window the line ends -/
  whole : upper.length = column s window (stop s window)
  /-- one caret in the columns of the head's symbol, and blanks otherwise -/
  caret : ∃ symbol k, s.cell? = some symbol ∧ column s window s.head.toNat ≤ k ∧
    k < column s window s.head.toNat + max symbol.length 1 ∧ k < lower.length ∧
    lower.points = gap k ++ CodePoint.ofChar '^' :: gap (lower.length - k - 1)
  /-- the head's symbol has a style, and so have the columns under it -/
  styles : ∃ symbol, s.cell? = some symbol ∧ v.style = "" ∧
    v.spans =
      let a := column s window s.head.toNat
      let w := max symbol.length 1
      [⟨a, a + w, "bold black on yellow"⟩, ⟨upper.length + 1 + a, upper.length + 1 + a + w, "bold yellow"⟩]

section View

variable {s : Snapshot} {window : ℤ} {i : ℕ} {symbol : Text} {cs : List (ℕ × Text)}

theorem isPlain_of_mem_placed (hp : ∀ c ∈ s.tape, IsPlain c) {j : ℕ} :
    ∀ cell ∈ placed i (between s.tape i j), IsPlain cell.2 := by
  intro cell hcell
  have hmem := (place_of_mem hcell).2.2
  exact hp _ (List.mem_of_mem_take (List.mem_of_mem_drop hmem))

/-- what is before the field of a cell takes the columns of the cells before it -/
theorem points_upperLine_split (h : s.InRange) (hp : ∀ c ∈ s.tape, IsPlain c) (hw : 0 ≤ window)
    (hi : first s window ≤ i) (hi' : i < stop s window) (hc : s.tape[i]? = some symbol) :
    ∃ before after, (upperLine (cells s window)).points = before ++ ((upper symbol).points ++ after) ∧
      before.length = column s window i := by
  have hsplit := cells_split h hw hi hi' hc
  refine ⟨(upperLine (placed (first s window) (between s.tape (first s window) i))).points,
    (upperLine (placed (i + 1) (between s.tape (i + 1) (stop s window)))).points, ?_, ?_⟩
  · rw [hsplit, points_upperLine_append, points_upperLine_cons]
  · rw [length_upperLine (isPlain_of_mem_placed hp), map_snd_placed]
    rfl

theorem upperLine_field (h : s.InRange) (hp : ∀ c ∈ s.tape, IsPlain c) (hw : 0 ≤ window)
    (hi : first s window ≤ i) (hi' : i < stop s window) (hc : s.tape[i]? = some symbol) :
    ((upperLine (cells s window)).points.drop (column s window i)).take (width symbol + 1) =
      symbol.points ++ gap (width symbol - symbol.length) ++ gap 1 := by
  have hsymbol : IsPlain symbol := hp symbol (List.mem_of_getElem? hc)
  obtain ⟨before, after, hline, hbefore⟩ := points_upperLine_split h hp hw hi hi' hc
  rw [hline, List.drop_left' hbefore, List.take_left' (length_upper hsymbol), points_upper hsymbol]

theorem isPlain_of_mem_cells (h : s.InRange) (hp : ∀ c ∈ s.tape, IsPlain c) (hw : 0 ≤ window) :
    ∀ cell ∈ cells s window, IsPlain cell.2 := by
  rw [cells_eq h hw]
  exact isPlain_of_mem_placed hp

theorem columns_cells (h : s.InRange) (hw : 0 ≤ window) :
    columns ((cells s window).map Prod.snd) = column s window (stop s window) := by
  rw [cells_eq h hw, map_snd_placed]
  rfl

/-- the window has the head's cell once -/
theorem cells_at_head (h : s.InRange) (hw : 0 ≤ window) :
    ∃ symbol before after, s.cell? = some symbol ∧ cells s window = before ++ (s.head.toNat, symbol) :: after ∧
      (∀ cell ∈ before, (cell.1 : ℤ) ≠ s.head) ∧ (∀ cell ∈ after, (cell.1 : ℤ) ≠ s.head) ∧
      columns (before.map Prod.snd) = column s window s.head.toNat := by
  have hfirst := first_le_head h hw
  have hstop := head_lt_stop h hw
  have hlt : s.head.toNat < s.tape.length := hstop.trans_le (stop_le s window)
  have hhead : (s.head.toNat : ℤ) = s.head := Int.toNat_of_nonneg h.1
  refine ⟨s.tape[s.head.toNat], _, _, ?_, cells_split h hw hfirst hstop (List.getElem?_eq_getElem hlt), ?_, ?_, ?_⟩
  · rw [Snapshot.cell?, if_pos h.1, List.getElem?_eq_getElem hlt]
  · intro cell hcell
    obtain ⟨-, hplace, -⟩ := place_of_mem hcell
    rw [length_between hlt.le] at hplace
    omega
  · intro cell hcell
    obtain ⟨hplace, -⟩ := place_of_mem hcell
    omega
  · rw [map_snd_placed]
    rfl

/-- the second line is blank but for the caret -/
theorem points_lowerLine_at (head : ℤ) {before after : List (ℕ × Text)} {cell : ℕ × Text}
    (hcell : (cell.1 : ℤ) = head) (hb : ∀ c ∈ before, (c.1 : ℤ) ≠ head) (ha : ∀ c ∈ after, (c.1 : ℤ) ≠ head) :
    let w := width cell.2
    (lowerLine head (before ++ cell :: after)).points =
      gap (columns (before.map Prod.snd) + leftPadding w) ++ CodePoint.ofChar '^' ::
        gap (w - leftPadding w + columns (after.map Prod.snd)) := by
  intro w
  rw [points_lowerLine_append, points_lowerLine_cons, points_lowerLine_of_ne hb, points_lowerLine_of_ne ha,
    points_lower_of_eq hcell, gap_add, gap_add]
  simp only [List.append_assoc, List.cons_append]
  rfl

/-- the styles are on the columns of the cell at the head -/
theorem spans_at (head : ℤ) {before after : List (ℕ × Text)} {cell : ℕ × Text} (hcell : (cell.1 : ℤ) = head)
    (hb : ∀ c ∈ before, (c.1 : ℤ) ≠ head) (hp : ∀ c ∈ before ++ cell :: after, IsPlain c.2) :
    spans head (before ++ cell :: after) =
      let a := columns (before.map Prod.snd)
      let b := (upperLine (before ++ cell :: after)).length + 1 + a
      [⟨a, a + width cell.2, "bold black on yellow"⟩, ⟨b, b + width cell.2, "bold yellow"⟩] := by
  obtain ⟨hpb, hpc⟩ := List.forall_mem_append.1 hp
  have hplain : IsPlain cell.2 := hpc cell List.mem_cons_self
  have hbefore : ∀ c ∈ before, decide ((c.1 : ℤ) ≠ head) = true := by
    intro c hc
    exact decide_eq_true (hb c hc)
  have htake : (before ++ cell :: after).takeWhile (fun c => decide ((c.1 : ℤ) ≠ head)) = before := by
    rw [List.takeWhile_append_of_pos hbefore, List.takeWhile_cons_of_neg (by simp [hcell]), List.append_nil]
  have hdrop : (before ++ cell :: after).dropWhile (fun c => decide ((c.1 : ℤ) ≠ head)) = cell :: after := by
    rw [List.dropWhile_append_of_pos hbefore, List.dropWhile_cons_of_neg (by simp [hcell])]
  have hupper : (upperLine before).length = columns (before.map Prod.snd) := length_upperLine hpb
  have hlower : (lowerLine head before).length = columns (before.map Prod.snd) := by
    rw [Text.length, points_lowerLine_of_ne hb, length_gap]
  have hfield : (shown (field cell.2)).length = width cell.2 := by
    have hlen := length_upper hplain
    rw [upper, Text.points_append, List.length_append] at hlen
    exact Nat.add_right_cancel hlen
  simp only [spans, htake, hdrop, hupper, hlower, hfield]

theorem length_upperLine_cells (h : s.InRange) (hp : ∀ c ∈ s.tape, IsPlain c) (hw : 0 ≤ window) :
    (upperLine (cells s window)).length = column s window (stop s window) := by
  calc (upperLine (cells s window)).length
      = columns ((cells s window).map Prod.snd) := length_upperLine (isPlain_of_mem_cells h hp hw)
    _ = column s window (stop s window) := columns_cells h hw

/-- the caret in the window -/
theorem points_lowerLine_cells (h : s.InRange) (hw : 0 ≤ window) :
    ∃ symbol k, s.cell? = some symbol ∧ column s window s.head.toNat ≤ k ∧
      k < column s window s.head.toNat + width symbol ∧ k < column s window (stop s window) ∧
      (lowerLine s.head (cells s window)).points =
        gap k ++ CodePoint.ofChar '^' :: gap (column s window (stop s window) - k - 1) := by
  obtain ⟨symbol, before, after, hcell, hcells, hb, ha, hcolumn⟩ := cells_at_head h hw
  have hhead : ((s.head.toNat : ℕ) : ℤ) = s.head := Int.toNat_of_nonneg h.1
  have hpad := leftPadding_lt (width_pos symbol)
  have htotal : column s window (stop s window) =
      column s window s.head.toNat + (width symbol + 1 + columns (after.map Prod.snd)) := by
    rw [← columns_cells h hw, hcells, List.map_append, columns_append, List.map_cons, columns_cons, hcolumn]
  have hline := @points_lowerLine_at s.head before after (s.head.toNat, symbol) hhead hb ha
  refine ⟨symbol, column s window s.head.toNat + leftPadding (width symbol), hcell, by omega, by omega, by omega, ?_⟩
  have hrest : column s window (stop s window) - (column s window s.head.toNat + leftPadding (width symbol)) - 1 =
      width symbol - leftPadding (width symbol) + columns (after.map Prod.snd) := by
    omega
  rw [hrest, hcells, hline, hcolumn]

/-- the styles in the window -/
theorem spans_cells (h : s.InRange) (hp : ∀ c ∈ s.tape, IsPlain c) (hw : 0 ≤ window) :
    ∃ symbol, s.cell? = some symbol ∧
      spans s.head (cells s window) =
        let a := column s window s.head.toNat
        let b := (upperLine (cells s window)).length + 1 + a
        [⟨a, a + width symbol, "bold black on yellow"⟩, ⟨b, b + width symbol, "bold yellow"⟩] := by
  obtain ⟨symbol, before, after, hcell, hcells, hb, -, hcolumn⟩ := cells_at_head h hw
  have hhead : ((s.head.toNat : ℕ) : ℤ) = s.head := Int.toNat_of_nonneg h.1
  have hplain := isPlain_of_mem_cells h hp hw
  rw [hcells] at hplain
  have hspans := @spans_at s.head before after (s.head.toNat, symbol) hhead hb hplain
  refine ⟨symbol, hcell, ?_⟩
  rw [hcells, hspans, hcolumn]

theorem tapeView_of_inRange (h : s.InRange) (window : ℤ) :
    tapeView s window =
      { text := upperLine (cells s window) ++ "\n" ++ lowerLine s.head (cells s window)
        spans := spans s.head (cells s window) } := by
  have htape : s.tape.isEmpty = false := by
    obtain ⟨h0, h1⟩ := h
    rw [List.isEmpty_eq_false_iff, ← List.length_pos_iff]
    omega
  rw [tapeView, htape]
  rfl

/-- **The caret is under the head's symbol.** The symbols may be of any length, the head anywhere on the tape, and the
window as wide as you like. -/
theorem tapeView_aligned (h : s.InRange) (hp : ∀ c ∈ s.tape, IsPlain c) (hw : 0 ≤ window) :
    ∃ upper lower, Aligned s window (tapeView s window) upper lower := by
  have hupper := length_upperLine_cells h hp hw
  obtain ⟨symbol, k, hcell, hk, hkw, hkt, hline⟩ := points_lowerLine_cells h hw
  obtain ⟨symbol', hcell', hspans⟩ := spans_cells h hp hw
  have hlower : (lowerLine s.head (cells s window)).length = column s window (stop s window) := by
    rw [Text.length, hline]
    simp only [List.length_append, List.length_cons, length_gap]
    omega
  refine ⟨upperLine (cells s window), lowerLine s.head (cells s window), ?_⟩
  rw [tapeView_of_inRange h]
  constructor
  · rfl
  · exact newline_notMem_upperLine (isPlain_of_mem_cells h hp hw)
  · rw [hline]
    simp only [List.mem_append, List.mem_cons, not_or]
    exact ⟨fun hn => absurd (mem_gap hn) (by decide), by decide, fun hn => absurd (mem_gap hn) (by decide)⟩
  · rw [hlower, hupper]
  · intro i symbol hi hi' hc
    exact upperLine_field h hp hw hi hi' hc
  · exact hupper
  · rw [hlower]
    exact ⟨symbol, k, hcell, hk, hkw, hkt, hline⟩
  · exact ⟨symbol', hcell', rfl, hspans⟩

/-- a tape with an empty symbol and one of three code points, which is under the head -/
def ragged : Snapshot := { tape := ["1", "", "abc", "01"], head := 2, state := "q" }

/-- the caret is under the middle of the long symbol -/
theorem ragged_aligned :
    ragged.InRange ∧ (∀ c ∈ ragged.tape, IsPlain c) ∧ (0 : ℤ) ≤ 1 ∧
      (tapeView ragged 1).text = "  abc 01 \n   ^     " ∧
      ∃ upper lower, Aligned ragged 1 (tapeView ragged 1) upper lower := by
  have hr : ragged.InRange := by decide
  have hp : ∀ c ∈ ragged.tape, IsPlain c := by decide
  exact ⟨hr, hp, by decide, by decide, tapeView_aligned hr hp (by decide)⟩

end View

end TapeView
end TapeMachine
