/-
A definition as a LaTeX array.

When no state and no symbol holds a code point that means something to LaTeX, other than the underscore, the text is
one array (`latex_tabular`): an opening line with a `c` for each column, a header, a line for each state that starts
with it, and a closing line. The header and the lines of the states have a separator for each column.

LaTeX reads a backslash together with the code point behind it, so an underscore is escaped if it is the second of such
a pair (`escaped`). A text that ends outside of a pair is escaped on its own, whatever follows (`Whole`), and so a text
that is put together from such pieces is escaped if and only if each of them is (`Whole.intercalate`). Cells are escaped
on their way into a line; the symbols of the header are not, and so the text is escaped if and only if no column is for
a symbol with an underscore. The blank symbol of most machines is one (`header_unescaped`).
-/
import TapeMachine.Proofs.ActionTable
import TapeMachine.Proofs.NormalForm

namespace TapeMachine
namespace Inspector

variable {d : Definition} {t : Text} {a b c sep : List CodePoint} {ls : List (List CodePoint)}

/-! ## Escapes -/

/-- whether every underscore is escaped -/
def escaped : List CodePoint → Bool
  | [] => true
  | p :: rest =>
    if p = '\\' then
      match rest with
      | [] => false
      | _ :: rest => escaped rest
    else p ≠ '_' && escaped rest

@[simp] theorem escaped_nil : escaped [] = true := rfl

theorem escaped_backslash (p : CodePoint) (rest : List CodePoint) :
    escaped (CodePoint.ofChar '\\' :: p :: rest) = escaped rest := by
  simp [escaped]

theorem escaped_cons {p : CodePoint} (h : p ≠ '\\') (rest : List CodePoint) :
    escaped (p :: rest) = (p ≠ '_' && escaped rest) := by
  rw [escaped.eq_def]
  exact if_neg h

/-- An underscore that is escaped is never the first code point, and comes behind a backslash. -/
theorem escaped_behind (h : escaped a = true) {i : ℕ} (hi : a[i]? = some (CodePoint.ofChar '_')) :
    ∃ j, i = j + 1 ∧ a[j]? = some (CodePoint.ofChar '\\') := by
  fun_induction escaped a generalizing i with
  | case1 => simp at hi
  | case2 => simp at h
  | case3 p rest ih =>
    -- the pair of a backslash and `p`
    match i with
    | 0 => exact absurd hi (by simp; decide)
    | 1 => exact ⟨0, rfl, rfl⟩
    | i + 2 =>
      obtain ⟨j, rfl, hj⟩ := ih h hi
      exact ⟨j + 2, rfl, hj⟩
  | case4 p rest hp ih =>
    rw [Bool.and_eq_true, decide_eq_true_iff] at h
    match i with
    | 0 => exact absurd (Option.some.inj hi) h.1
    | i + 1 =>
      obtain ⟨j, rfl, hj⟩ := ih h.2 hi
      exact ⟨j + 1, rfl, hj⟩

/-- no backslash at the end waits for another code point -/
def Whole (a : List CodePoint) : Prop := ∀ b, escaped (a ++ b) = (escaped a && escaped b)

theorem Whole.append (ha : Whole a) (hb : Whole b) : Whole (a ++ b) := by
  intro c
  rw [List.append_assoc, ha, hb, ha, Bool.and_assoc]

theorem whole_of_escaped (h : escaped a = true) : Whole a := by
  intro b
  fun_induction escaped a with
  | case1 => rfl
  | case2 => simp at h
  | case3 p rest ih => rw [List.cons_append, List.cons_append, escaped_backslash, ih h]
  | case4 p rest hp ih =>
    rw [Bool.and_eq_true] at h
    rw [List.cons_append, escaped_cons hp, ih h.2, Bool.and_assoc]

/-- what is escaped around a piece changes nothing about it -/
theorem Whole.between (ha : escaped a = true) (hb : Whole b) (hc : escaped c = true) :
    Whole (a ++ b ++ c) ∧ escaped (a ++ b ++ c) = escaped b := by
  have hfront : Whole (a ++ b) := (whole_of_escaped ha).append hb
  refine ⟨hfront.append (whole_of_escaped hc), ?_⟩
  rw [hfront, whole_of_escaped ha, ha, hc, Bool.true_and, Bool.and_true]

theorem escaped_append_of_notMem (h : CodePoint.ofChar '\\' ∉ a) (b : List CodePoint) :
    escaped (a ++ b) = true ↔ CodePoint.ofChar '_' ∉ a ∧ escaped b = true := by
  induction a with
  | nil => simp
  | cons p rest ih =>
    rw [List.mem_cons, not_or] at h
    rw [List.cons_append, escaped_cons (Ne.symm h.1), Bool.and_eq_true, decide_eq_true_iff, ih h.2, List.mem_cons,
      not_or, and_assoc, ne_comm]

/-- without a backslash there is nothing to escape an underscore -/
theorem escaped_iff_of_notMem (h : CodePoint.ofChar '\\' ∉ a) : escaped a = true ↔ CodePoint.ofChar '_' ∉ a := by
  simpa using escaped_append_of_notMem h []

theorem whole_of_notMem (h : CodePoint.ofChar '\\' ∉ a) : Whole a := by
  intro b
  rw [Bool.eq_iff_iff, Bool.and_eq_true, escaped_append_of_notMem h, escaped_iff_of_notMem h]

/-- pieces that are escaped each, with an escaped separator, are escaped together -/
theorem Whole.intercalate (hsep : escaped sep = true) (h : ∀ l ∈ ls, Whole l) :
    Whole (sep.intercalate ls) ∧ escaped (sep.intercalate ls) = ls.all escaped := by
  induction ls with
  | nil => exact ⟨whole_of_escaped rfl, rfl⟩
  | cons l ls ih =>
    obtain ⟨hwhole, hescaped⟩ := ih fun l' hl' => h l' (List.mem_cons_of_mem _ hl')
    have hl : Whole l := h l List.mem_cons_self
    cases ls with
    | nil => simpa [List.intercalate_singleton] using hl
    | cons l' ls =>
      have hs : Whole sep := whole_of_escaped hsep
      rw [List.intercalate_cons_cons, List.all_cons, ← hescaped, (hl.append hs), hl, hsep, Bool.and_true]
      exact ⟨(hl.append hs).append hwhole, rfl⟩

/-! ## Separators -/

/-- between pieces without it, a code point comes up as often as it does between two of them -/
theorem count_intercalate {p : CodePoint} (h : ∀ l ∈ ls, p ∉ l) :
    (sep.intercalate ls).count p = (ls.length - 1) * sep.count p := by
  induction ls with
  | nil => simp
  | cons l ls ih =>
    have hl : l.count p = 0 := List.count_eq_zero.2 (h l List.mem_cons_self)
    have hls := ih fun l' hl' => h l' (List.mem_cons_of_mem _ hl')
    cases ls with
    | nil => simpa [List.intercalate_singleton] using hl
    | cons l' ls =>
      rw [List.intercalate_cons_cons, List.count_append, List.count_append, hl, hls, List.length_cons,
        List.length_cons]
      simp [Nat.add_mul, Nat.add_comm]

theorem notMem_intercalate {p : CodePoint} (hsep : p ∉ sep) (h : ∀ l ∈ ls, p ∉ l) : p ∉ sep.intercalate ls := by
  rw [← List.count_eq_zero, count_intercalate h, List.count_eq_zero.2 hsep, Nat.mul_zero]

/-! ## Labels -/

/-- what means something to LaTeX, but for the underscore -/
def specials : List CodePoint := "#$%&~^\\\x7b\x7d".toList.map .ofChar

/-- a text without special code points and without a line break; there may be underscores in it -/
def Plain (t : Text) : Prop := ∀ p ∈ t.points, p ∉ specials ∧ p ≠ '\n'

instance (t : Text) : Decidable (Plain t) :=
  inferInstanceAs (Decidable (∀ p ∈ t.points, p ∉ specials ∧ p ≠ CodePoint.ofChar '\n'))

/-- the states and the symbols of a definition are plain -/
structure PlainLabels (d : Definition) : Prop where
  states : ∀ q ∈ d.states, Plain q
  alphabet : ∀ a ∈ d.alphabet, Plain a
  rules : ∀ r ∈ d.rules, Plain r.read ∧ Plain r.write ∧ Plain r.next

theorem Plain.append {s : Text} (hs : Plain s) (ht : Plain t) : Plain (s ++ t) := by
  intro p hp
  rcases List.mem_append.1 hp with hp | hp
  · exact hs p hp
  · exact ht p hp

theorem Plain.notMem (h : Plain t) {p : CodePoint} (hp : p ∈ specials ∨ p = '\n') : p ∉ t.points := by
  intro hmem
  rcases hp with hp | rfl
  · exact (h p hmem).1 hp
  · exact (h _ hmem).2 rfl

theorem plain_letter (m : Move) : Plain m.letter := by
  cases m <;> decide

theorem PlainLabels.plain_action (h : PlainLabels d) {r : Rule} (hr : r ∈ d.rules) : Plain (action r) := by
  obtain ⟨-, hwrite, hnext⟩ := h.rules r hr
  exact ((hwrite.append (plain_letter r.move)).append (by decide)).append hnext

theorem PlainLabels.plain_column (h : PlainLabels d) {a : Text} (ha : a ∈ columns d) : Plain a := by
  rcases (mem_columns d a).1 ha with ha | ⟨r, hr, rfl⟩
  · exact h.alphabet a ha
  · exact (h.rules r hr).1

theorem PlainLabels.plain_cell (h : PlainLabels d) (state symbol : Text) : Plain (cell d.table state symbol) := by
  rcases hr : d.table.find? state symbol with _ | r
  · rw [cell_of_none hr]
    decide
  · rw [cell_of_find hr]
    exact h.plain_action (mem_rules_of_find hr).1

/-- the state and the cells of a row are plain -/
theorem PlainLabels.plain_row (h : PlainLabels d) {row : List Text} (hrow : row ∈ rows d) : ∀ c ∈ row, Plain c := by
  obtain ⟨q, hq, rfl⟩ := List.mem_map.1 hrow
  intro c hc
  rcases List.mem_cons.1 hc with rfl | hc
  · exact h.states c hq
  · obtain ⟨a, -, rfl⟩ := List.mem_map.1 hc
    exact h.plain_cell q a

/-! ## Pieces of a line -/

theorem points_latexText (t : Text) :
    (latexText t).points = (Text.ofString "\\text\x7b").points ++ t.points ++ (Text.ofString "\x7d").points := rfl

theorem mem_escapeUnderscores {p : CodePoint} (hp : p ≠ '\\') : p ∈ (escapeUnderscores t).points ↔ p ∈ t.points := by
  have hpiece : ∀ q : CodePoint, p ∈ (if q = '_' then [CodePoint.ofChar '\\', q] else [q]) ↔ p = q := by
    intro q
    split_ifs <;> simp [hp]
  simp [escapeUnderscores, hpiece]

theorem escaped_escapeUnderscores (h : CodePoint.ofChar '\\' ∉ t.points) :
    escaped (escapeUnderscores t).points = true := by
  obtain ⟨points⟩ := t
  rw [escapeUnderscores]
  induction points with
  | nil => rfl
  | cons p rest ih =>
    rw [List.mem_cons, not_or] at h
    have hrest := ih h.2
    rw [List.flatMap_cons]
    split_ifs with hp
    · rwa [List.cons_append, List.cons_append, List.nil_append, escaped_backslash]
    · rw [List.cons_append, List.nil_append, escaped_cons (Ne.symm h.1), hrest, Bool.and_true, decide_eq_true_iff]
      exact hp

/-- a label as text in a formula is escaped if it was before -/
theorem whole_latexText (h : Whole t.points) :
    Whole (latexText t).points ∧ escaped (latexText t).points = escaped t.points := by
  rw [points_latexText]
  exact Whole.between (by decide +kernel) h (by decide)

/-- nothing but a brace, a backslash and a letter of the command comes with the label -/
theorem notMem_latexText {p : CodePoint} (hp : p = '&' ∨ p = '\n') (h : p ∉ t.points) : p ∉ (latexText t).points := by
  have hopen : p ∉ (Text.ofString "\\text\x7b").points := by
    rcases hp with rfl | rfl <;> decide
  have hclose : p ∉ (Text.ofString "\x7d").points := by
    rcases hp with rfl | rfl <;> decide
  rw [points_latexText, List.mem_append, List.mem_append]
  tauto

/-! ## Lines -/

/-- the line that opens an array with a column for the states and so many more -/
def opening (n : ℕ) : Text := "\\begin\x7barray\x7d\x7bc|" ++ String.ofList (List.replicate n 'c') ++ "\x7d"

def closing : Text := "\\end\x7barray\x7d"

theorem points_opening (n : ℕ) : (opening n).points = (Text.ofString "\\begin\x7barray\x7d\x7bc|").points ++
    List.replicate n (CodePoint.ofChar 'c') ++ (Text.ofString "\x7d").points := by
  have hplaces : (Text.ofString (String.ofList (List.replicate n 'c'))).points =
      List.replicate n (CodePoint.ofChar 'c') := by
    simp [Text.ofString]
  rw [← hplaces]
  rfl

theorem latexLines_eq (d : Definition) :
    latexLines d = opening (columns d).length :: latexHeader d :: (rows d).map latexRow ++ [closing] := by
  simp only [latexLines, opening, closing, List.map_const']

theorem points_header (d : Definition) : (latexHeader d).points = (Text.ofString "State/Symbol & ").points ++
    (Text.ofString " & ").points.intercalate ((columns d).map fun a => (latexText a).points) ++
      (Text.ofString " \\\\ \\hline").points := by
  simp [latexHeader, Text.intercalate, Function.comp_def]

theorem points_row (row : List Text) : (latexRow row).points =
    (Text.ofString " & ").points.intercalate (row.map fun c => (latexText (escapeUnderscores c)).points) ++
      (Text.ofString " \\\\").points := by
  simp [latexRow, Text.intercalate, Function.comp_def]

theorem escaped_opening (n : ℕ) : escaped (opening n).points = true := by
  have hplaces : escaped (List.replicate n (CodePoint.ofChar 'c')) = true := by
    have hother : ∀ p : CodePoint, p ≠ 'c' → p ∉ List.replicate n (CodePoint.ofChar 'c') :=
      fun p hp hmem => hp (List.eq_of_mem_replicate hmem)
    exact (escaped_iff_of_notMem (hother _ (by decide))).2 (hother _ (by decide))
  rw [points_opening]
  exact (Whole.between (by decide +kernel) (whole_of_escaped hplaces) (by decide)).2.trans hplaces

theorem newline_notMem_opening (n : ℕ) : CodePoint.ofChar '\n' ∉ (opening n).points := by
  rw [points_opening, List.mem_append, List.mem_append, List.mem_replicate, not_or, not_or, not_and_or]
  exact ⟨⟨by decide, Or.inr (by decide)⟩, by decide⟩

theorem escaped_separator : escaped (Text.ofString " & ").points = true := by decide

/-- the symbols of the header are as they are -/
theorem whole_header (h : ∀ a ∈ columns d, CodePoint.ofChar '\\' ∉ a.points) : Whole (latexHeader d).points ∧
    (escaped (latexHeader d).points = true ↔ ∀ a ∈ columns d, CodePoint.ofChar '_' ∉ a.points) := by
  have hlabels : ∀ l ∈ (columns d).map fun a => (latexText a).points, Whole l := by
    intro l hl
    obtain ⟨a, ha, rfl⟩ := List.mem_map.1 hl
    exact (whole_latexText (whole_of_notMem (h a ha))).1
  obtain ⟨hwhole, hall⟩ := Whole.intercalate escaped_separator hlabels
  obtain ⟨hline, hescaped⟩ := hwhole.between (a := (Text.ofString "State/Symbol & ").points)
    (c := (Text.ofString " \\\\ \\hline").points) (by decide +kernel) (by decide +kernel)
  rw [points_header]
  refine ⟨hline, ?_⟩
  rw [hescaped, hall, List.all_map, List.all_eq_true]
  refine forall₂_congr fun a ha => ?_
  rw [Function.comp_apply, (whole_latexText (whole_of_notMem (h a ha))).2]
  exact escaped_iff_of_notMem (h a ha)

/-- the cells of a row are escaped -/
theorem escaped_row {row : List Text} (h : ∀ c ∈ row, CodePoint.ofChar '\\' ∉ c.points) :
    escaped (latexRow row).points = true := by
  have hcells : ∀ l ∈ row.map fun c => (latexText (escapeUnderscores c)).points, escaped l = true := by
    intro l hl
    obtain ⟨c, hc, rfl⟩ := List.mem_map.1 hl
    have hcell := escaped_escapeUnderscores (h c hc)
    exact (whole_latexText (whole_of_escaped hcell)).2.trans hcell
  obtain ⟨hwhole, hall⟩ := Whole.intercalate escaped_separator fun l hl => whole_of_escaped (hcells l hl)
  rw [points_row, hwhole, hall, List.all_eq_true.2 hcells]
  decide

/-- as many separators as columns, one of them behind the first heading -/
theorem count_header (hne : columns d ≠ []) (h : ∀ a ∈ columns d, CodePoint.ofChar '&' ∉ a.points) :
    (latexHeader d).points.count (CodePoint.ofChar '&') = (columns d).length := by
  have hlabels : ∀ l ∈ (columns d).map fun a => (latexText a).points, CodePoint.ofChar '&' ∉ l := by
    intro l hl
    obtain ⟨a, ha, rfl⟩ := List.mem_map.1 hl
    exact notMem_latexText (Or.inl rfl) (h a ha)
  have hfront : (Text.ofString "State/Symbol & ").points.count (CodePoint.ofChar '&') = 1 := by decide
  have hsep : (Text.ofString " & ").points.count (CodePoint.ofChar '&') = 1 := by decide
  have hback : (Text.ofString " \\\\ \\hline").points.count (CodePoint.ofChar '&') = 0 := by decide
  have hpos := List.length_pos_iff.2 hne
  rw [points_header, List.count_append, List.count_append, count_intercalate hlabels, hfront, hsep, hback,
    List.length_map]
  omega

/-- a separator between any two cells -/
theorem count_row {row : List Text} (h : ∀ c ∈ row, CodePoint.ofChar '&' ∉ c.points) :
    (latexRow row).points.count (CodePoint.ofChar '&') = row.length - 1 := by
  have hcells : ∀ l ∈ row.map fun c => (latexText (escapeUnderscores c)).points, CodePoint.ofChar '&' ∉ l := by
    intro l hl
    obtain ⟨c, hc, rfl⟩ := List.mem_map.1 hl
    exact notMem_latexText (Or.inl rfl) (mt (mem_escapeUnderscores (by decide)).1 (h c hc))
  have hsep : (Text.ofString " & ").points.count (CodePoint.ofChar '&') = 1 := by decide
  have hback : (Text.ofString " \\\\").points.count (CodePoint.ofChar '&') = 0 := by decide
  rw [points_row, List.count_append, count_intercalate hcells, hsep, hback, List.length_map, Nat.mul_one, Nat.add_zero]

theorem newline_notMem_header (h : ∀ a ∈ columns d, CodePoint.ofChar '\n' ∉ a.points) :
    CodePoint.ofChar '\n' ∉ (latexHeader d).points := by
  have hlabels : CodePoint.ofChar '\n' ∉
      (Text.ofString " & ").points.intercalate ((columns d).map fun a => (latexText a).points) := by
    refine notMem_intercalate (by decide) fun l hl => ?_
    obtain ⟨a, ha, rfl⟩ := List.mem_map.1 hl
    exact notMem_latexText (Or.inr rfl) (h a ha)
  rw [points_header, List.mem_append, List.mem_append, not_or, not_or]
  exact ⟨⟨by decide, hlabels⟩, by decide⟩

theorem newline_notMem_row {row : List Text} (h : ∀ c ∈ row, CodePoint.ofChar '\n' ∉ c.points) :
    CodePoint.ofChar '\n' ∉ (latexRow row).points := by
  have hcells : CodePoint.ofChar '\n' ∉ (Text.ofString " & ").points.intercalate
      (row.map fun c => (latexText (escapeUnderscores c)).points) := by
    refine notMem_intercalate (by decide) fun l hl => ?_
    obtain ⟨c, hc, rfl⟩ := List.mem_map.1 hl
    exact notMem_latexText (Or.inr rfl) (mt (mem_escapeUnderscores (by decide)).1 (h c hc))
  rw [points_row, List.mem_append, not_or]
  exact ⟨hcells, by decide⟩

/-- the line of a state starts with the state, and goes on behind a separator -/
theorem prefix_row (q : Text) {cells : List Text} (h : cells ≠ []) :
    (latexText (escapeUnderscores q) ++ " & ").points <+: (latexRow (q :: cells)).points := by
  obtain ⟨c, cells, rfl⟩ := List.exists_cons_of_ne_nil h
  rw [points_row, List.map_cons, List.map_cons, List.intercalate_cons_cons, List.append_assoc]
  exact List.prefix_append _ _

/-! ## The table -/

theorem columns_ne_nil (h : d.Normal) : columns d ≠ [] :=
  List.ne_nil_of_mem ((mem_columns d d.blank).2 (Or.inl h))

/-- the lines of the table, one by one -/
theorem splitOn_latex (h : PlainLabels d) : (latex d).points.splitOn (CodePoint.ofChar '\n') =
    (latexLines d).map Text.points := by
  have hpoints : (latex d).points = [CodePoint.ofChar '\n'].intercalate ((latexLines d).map Text.points) := rfl
  have hlines : ∀ l ∈ (latexLines d).map Text.points, CodePoint.ofChar '\n' ∉ l := by
    intro l hl
    obtain ⟨line, hline, rfl⟩ := List.mem_map.1 hl
    rw [latexLines_eq, List.cons_append, List.mem_cons, List.cons_append, List.mem_cons, List.mem_append,
      List.mem_singleton] at hline
    rcases hline with rfl | rfl | hrow | rfl
    · exact newline_notMem_opening _
    · exact newline_notMem_header fun a ha => (h.plain_column ha).notMem (Or.inr rfl)
    · obtain ⟨row, hmem, rfl⟩ := List.mem_map.1 hrow
      exact newline_notMem_row fun c hc => (h.plain_row hmem c hc).notMem (Or.inr rfl)
    · decide
  rw [hpoints]
  exact List.splitOn_intercalate _ hlines (by simp [latexLines])

/-- only the header may be in want of a backslash -/
theorem escaped_latex (h : PlainLabels d) : escaped (latex d).points = true ↔
    ∀ a ∈ columns d, CodePoint.ofChar '_' ∉ a.points := by
  have hpoints : (latex d).points = [CodePoint.ofChar '\n'].intercalate ((latexLines d).map Text.points) := rfl
  obtain ⟨hheader, hiff⟩ := whole_header fun a ha => (h.plain_column ha).notMem (Or.inl (by decide))
  have hrows : ∀ row ∈ rows d, escaped (latexRow row).points = true := by
    intro row hrow
    exact escaped_row fun c hc => (h.plain_row hrow c hc).notMem (Or.inl (by decide))
  have hclosing : escaped closing.points = true := by decide +kernel
  have hlines : ∀ l ∈ (latexLines d).map Text.points, Whole l := by
    simp only [latexLines_eq, List.map_cons, List.map_append, List.map_map, List.cons_append, List.mem_cons,
      List.mem_append, List.mem_map, List.map_nil, List.not_mem_nil, or_false, Function.comp_apply]
    rintro l (rfl | rfl | ⟨row, hrow, rfl⟩ | rfl)
    · exact whole_of_escaped (escaped_opening _)
    · exact hheader
    · exact whole_of_escaped (hrows row hrow)
    · exact whole_of_escaped hclosing
  rw [hpoints, (Whole.intercalate (by decide) hlines).2, ← hiff, latexLines_eq]
  simpa [escaped_opening, hclosing] using fun _ => hrows

/-- a text is the array of a definition, with such a header and such lines in its body -/
structure Tabular (d : Definition) (text : Text) (header : List CodePoint) (body : List (List CodePoint)) : Prop where
  lines : text.points.splitOn (CodePoint.ofChar '\n') =
    (opening (columns d).length).points :: header :: body ++ [closing.points]
  /-- a line for each state, in order, that starts with it -/
  states : List.Forall₂ (fun q line => (latexText (escapeUnderscores q) ++ " & ").points <+: line) d.states body
  /-- a separator for each column -/
  separators : ∀ line ∈ header :: body, line.count (CodePoint.ofChar '&') = (columns d).length
  body_escaped : ∀ line ∈ body, escaped line = true
  /-- the symbols of the header have to be without underscores -/
  escaped_iff : escaped text.points = true ↔ ∀ a ∈ columns d, CodePoint.ofChar '_' ∉ a.points
  /-- and then every underscore of the text comes behind a backslash -/
  behind : (∀ a ∈ columns d, CodePoint.ofChar '_' ∉ a.points) → ∀ i, text.points[i]? = some (CodePoint.ofChar '_') →
    ∃ j, i = j + 1 ∧ text.points[j]? = some (CodePoint.ofChar '\\')

/-- **The LaTeX text of a definition is one array**, with a separator for each column on every line, and with every
underscore escaped that is not in a symbol of the header. -/
theorem latex_tabular {v : Json} {room : ℕ} (hv : Definition.ofJson v room = .ok d) (hd : PlainLabels d) :
    ∃ header body, Tabular d (latex d) header body := by
  have hne := columns_ne_nil (Definition.normal_of_ofJson hv)
  refine ⟨(latexHeader d).points, (rows d).map fun row => (latexRow row).points, ?_, ?_, ?_, ?_, escaped_latex hd, ?_⟩
  · rw [splitOn_latex hd, latexLines_eq]
    simp
  · rw [rows, List.map_map, List.forall₂_map_right_iff, List.forall₂_same]
    intro q _
    exact prefix_row q (by simpa [cells] using hne)
  · intro line hline
    rcases List.mem_cons.1 hline with rfl | hline
    · exact count_header hne fun a ha => (hd.plain_column ha).notMem (Or.inl (by decide))
    · obtain ⟨row, hrow, rfl⟩ := List.mem_map.1 hline
      rw [count_row fun c hc => (hd.plain_row hrow c hc).notMem (Or.inl (by decide)), (rows_agree d).widths row hrow,
        Nat.add_sub_cancel]
  · intro line hline
    obtain ⟨row, hrow, rfl⟩ := List.mem_map.1 hline
    exact escaped_row fun c hc => (hd.plain_row hrow c hc).notMem (Or.inl (by decide))
  · intro hsymbols i hi
    exact escaped_behind ((escaped_latex hd).2 hsymbols) hi

/-- the states of this definition have underscores, and its symbols have none -/
def carry : Definition where
  states := ["q_right", "q_halt"]
  alphabet := ["1"]
  blank := "."
  initial := "q_right"
  accept := "q_halt"
  rules := [⟨"q_right", "1", "q_right", "1", .right⟩, ⟨"q_right", ".", "q_halt", "1", .stay⟩]

theorem latex_tabular_carry :
    let d := carry.normalised
    Definition.ofJson carry.toJson = .ok d ∧ PlainLabels d ∧ ∃ header body, Tabular d (latex d) header body := by
  have hv : Definition.ofJson carry.toJson = .ok carry.normalised := Definition.ofJson_toJson carry _
  have hd : PlainLabels carry.normalised := ⟨by decide, by decide, by decide⟩
  exact ⟨hv, hd, latex_tabular hv hd⟩

/-- **An underscore of a symbol is not escaped in the header**: the blank symbol of the increment is one. -/
theorem header_unescaped :
    ∃ v d, Definition.ofJson v = .ok d ∧ PlainLabels d ∧ escaped (latex d).points = false ∧
      (Text.ofString "\\text\x7b_\x7d").points <:+: (latexHeader d).points := by
  have hd : PlainLabels Preset.binaryIncrement := ⟨by decide, by decide, by decide⟩
  have hnormal : Preset.binaryIncrement.Normal := by
    rw [Definition.Normal]
    decide
  refine ⟨_, _, hnormal.ofJson_toJson _, hd, ?_, ?_⟩
  · rw [Bool.eq_false_iff, Ne, escaped_latex hd]
    decide
  · decide +kernel

end Inspector
end TapeMachine
