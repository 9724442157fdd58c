/-
Limits of the reader.

A reader leaves over an end of the characters that it was given, and what keeps it from a value has its cause in them
(`Consumes`). So a text is refused for the limits of the reader only if it goes beyond them: for too many digits if so
many stand in a row in it, for too much depth if it has more opening brackets than may be open at once
(`readFile_error`).

The other way round, a text that starts with more opening brackets than may be open at once is refused whatever comes
after them (`readFile_deep`).
-/
import TapeMachine.Json.Reader
import Mathlib.Data.List.Infix
import Mathlib.Data.List.TakeWhile

namespace TapeMachine.Json

/-! ## Causes of trouble -/

/-- whether a character opens a list or an object -/
def opens (c : Char) : Bool := c == '[' || c == '{'

/-- so many digits in a row -/
def HasRun (n : Nat) (cs : List Char) : Prop :=
  ∃ ds, ds <:+: cs ∧ ds.length = n ∧ ∀ c ∈ ds, c.isDigit = true

/-- a trouble that characters are a cause of, where `room` lists and objects may be open inside one another -/
def Trouble.In (room : Nat) (cs : List Char) : Trouble → Prop
  | .complaint _ _ => True
  | .digits n => Text.mostDigits < n ∧ HasRun n cs
  | .depth _ => room < cs.countP opens

/-- what is read of the characters leaves an end of them, or they are the cause of the trouble -/
def Consumes {α : Type} (room : Nat) (cs : List Char) : Reading α → Prop
  | .ok p => p.2 <:+ cs
  | .error t => t.In room cs

section Consumes

variable {α β : Type} {room : Nat} {cs cs' : List Char} {r : Reading α}

theorem HasRun.mono {n : Nat} (h : HasRun n cs) (hs : cs <:+: cs') : HasRun n cs' := by
  obtain ⟨ds, hds, hlength, hdigits⟩ := h
  exact ⟨ds, hds.trans hs, hlength, hdigits⟩

theorem Trouble.In.mono {t : Trouble} (h : t.In room cs) (hs : cs <:+ cs') : t.In room cs' := by
  cases t with
  | complaint c rest => trivial
  | digits n => exact ⟨h.1, h.2.mono hs.isInfix⟩
  | depth k => exact lt_of_lt_of_le h (hs.sublist.countP_le)

/-- behind characters that are passed over -/
theorem Consumes.mono (h : Consumes room cs r) (hs : cs <:+ cs') : Consumes room cs' r := by
  cases r with
  | ok p => exact List.IsSuffix.trans h hs
  | error t => exact Trouble.In.mono h hs

theorem Consumes.map (h : Consumes room cs r) (f : α → β) :
    Consumes room cs (r.map fun p => (f p.1, p.2)) := by
  cases r with
  | ok p => exact h
  | error t => exact h

theorem Consumes.cases (h : Consumes room cs r) :
    (∃ t, r = .error t ∧ t.In room cs) ∨ ∃ a rest, r = .ok (a, rest) ∧ rest <:+ cs := by
  cases r with
  | ok p => exact Or.inr ⟨p.1, p.2, rfl, h⟩
  | error t => exact Or.inl ⟨t, rfl, h⟩

/-- inside one more list or object -/
theorem Consumes.enter (h : Consumes room cs r) {c : Char} (hc : opens c = true) :
    Consumes (room + 1) (c :: cs) r := by
  cases r with
  | ok p => exact List.IsSuffix.trans h (List.suffix_cons c cs)
  | error t =>
    cases t with
    | complaint c rest => trivial
    | digits n => exact ⟨h.1, h.2.mono (List.suffix_cons c cs).isInfix⟩
    | depth k =>
      have hcount : (c :: cs).countP opens = cs.countP opens + 1 := List.countP_cons_of_pos hc
      have hroom : room < cs.countP opens := h
      show room + 1 < (c :: cs).countP opens
      omega

end Consumes

/-! ## Leaves of the grammar -/

theorem skipBlanks_suffix (cs : List Char) : skipBlanks cs <:+ cs := by
  induction cs with
  | nil => exact List.suffix_refl _
  | cons c cs ih =>
    rw [skipBlanks]
    split_ifs
    · exact ih.trans (List.suffix_cons c cs)
    · exact List.suffix_refl _

theorem pair?_suffix {n p : Nat} {cs rest : List Char} (h : pair? n cs = some (p, rest)) : rest <:+ cs := by
  unfold pair? at h
  split at h
  · split at h
    · split_ifs at h
      obtain ⟨-, rfl⟩ := Prod.mk.inj (Option.some.inj h)
      exact ⟨['\\', 'u', _, _, _, _], rfl⟩
    · cases h
  · cases h

theorem readChars_consumes (room : Nat) (start : List Char) (acc : List CodePoint) (cs : List Char) :
    Consumes room cs (readChars start acc cs) := by
  fun_induction readChars start acc cs with
  | case1 => trivial
  | case2 => trivial
  | case3 => exact List.suffix_cons _ _
  | case4 => trivial
  | case5 acc a b c d x cs n hn p rest hp hlength ih =>
    exact ih.mono ((pair?_suffix hp).trans ⟨['\\', 'u', a, b, c, d], rfl⟩)
  | case6 acc a b c d x cs n hn hp ih => exact ih.mono ⟨['\\', 'u', a, b, c, d], rfl⟩
  | case7 => trivial
  | case8 acc c cs hlong hshort x hx ih => exact ih.mono ⟨['\\', c], rfl⟩
  | case9 => trivial
  | case10 => trivial
  | case11 acc c cs _ _ _ _ _ hc ih => exact ih.mono (List.suffix_cons c cs)

theorem readText_consumes (room : Nat) (cs : List Char) : Consumes room cs (readText cs) :=
  readChars_consumes room _ _ cs

theorem after?_suffix {word : String} {cs rest : List Char} (h : after? word cs = some rest) : rest <:+ cs := by
  unfold after? at h
  split_ifs at h
  rw [← Option.some.inj h]
  exact List.drop_suffix _ _

theorem readWord_suffix {cs rest : List Char} {v : Json} (h : readWord cs = some (v, rest)) : rest <:+ cs := by
  obtain ⟨w, -, hw⟩ := List.exists_of_findSome?_eq_some h
  obtain ⟨r, hr, heq⟩ := Option.map_eq_some_iff.1 hw
  obtain ⟨-, rfl⟩ := Prod.mk.inj heq
  exact after?_suffix hr

theorem readFraction_suffix {cs ds rest : List Char} (h : readFraction cs = some (ds, rest)) : rest <:+ cs := by
  unfold readFraction at h
  split at h
  · simp only at h
    split_ifs at h
    obtain ⟨-, rfl⟩ := Prod.mk.inj (Option.some.inj h)
    exact (List.dropWhile_suffix _).trans (List.suffix_cons _ _)
  · cases h

theorem readExponent_suffix {cs rest : List Char} {k : Int} (h : readExponent cs = some (k, rest)) : rest <:+ cs := by
  unfold readExponent at h
  split at h
  · split_ifs at h
    simp only at h
    -- the three ways to write a sign
    split at h
    all_goals
      rw [Option.ite_none_left_eq_some] at h
      obtain ⟨-, rfl⟩ := Prod.mk.inj (Option.some.inj h.2)
    · exact (List.dropWhile_suffix _).trans ⟨[_, '-'], rfl⟩
    · exact (List.dropWhile_suffix _).trans ⟨[_, '+'], rfl⟩
    · exact (List.dropWhile_suffix _).trans (List.suffix_cons _ _)
  · cases h

theorem leadingDigits_isPrefix (cs : List Char) : leadingDigits cs <+: cs := by
  unfold leadingDigits
  split
  · exact ⟨_, rfl⟩
  · exact List.takeWhile_prefix _

theorem isDigit_of_mem_leadingDigits {cs : List Char} {c : Char} (hc : c ∈ leadingDigits cs) : c.isDigit = true := by
  unfold leadingDigits at hc
  split at hc
  · rw [List.mem_singleton.1 hc]
    rfl
  · exact List.mem_takeWhile_imp hc

theorem behind_suffix {α : Type} {part : Option (α × List Char)} {cs : List Char}
    (h : ∀ a rest, part = some (a, rest) → rest <:+ cs) : behind part cs <:+ cs := by
  cases part with
  | none => exact List.suffix_refl _
  | some p => exact h p.1 p.2 rfl

theorem readUnsigned_consumes {negative : Bool} {cs : List Char} {r : Reading Number}
    (h : readUnsigned negative cs = some r) (room : Nat) : Consumes room cs r := by
  unfold readUnsigned at h
  rw [Option.ite_none_left_eq_some] at h
  obtain ⟨-, h⟩ := h
  have hdigits : cs.drop (leadingDigits cs).length <:+ cs := List.drop_suffix _ _
  have hfraction := (behind_suffix fun _ _ => readFraction_suffix).trans hdigits
  have hexponent := (behind_suffix fun _ _ => readExponent_suffix).trans hfraction
  simp only at h
  split at h
  · split at h
    · obtain rfl := Option.some.inj h
      exact ⟨‹_›, _, (leadingDigits_isPrefix cs).isInfix, rfl, fun c hc => isDigit_of_mem_leadingDigits hc⟩
    · obtain rfl := Option.some.inj h
      exact hexponent
  · obtain rfl := Option.some.inj h
    exact hexponent

theorem readNumber_consumes {cs : List Char} {r : Reading Json} (h : readNumber cs = some r) (room : Nat) :
    Consumes room cs r := by
  obtain ⟨found, hfound, rfl⟩ := Option.map_eq_some_iff.1 h
  refine Consumes.map ?_ Json.number
  split at hfound
  · split at hfound
    · obtain rfl := Option.some.inj hfound
      exact (after?_suffix ‹_›).trans (List.suffix_cons _ _)
    · exact (readUnsigned_consumes hfound room).mono (List.suffix_cons _ _)
  · exact readUnsigned_consumes hfound room

theorem readPlain_consumes (room : Nat) (cs : List Char) : Consumes room cs (readPlain cs) := by
  unfold readPlain
  cases hw : readWord cs with
  | some p => exact readWord_suffix hw
  | none =>
    cases hn : readNumber cs with
    | some r => exact readNumber_consumes hn room
    | none => trivial

/-! ## Values -/

/-- what the readers do with so much fuel -/
structure AllConsume (n : Nat) : Prop where
  value : ∀ room cs, Consumes room cs (readValue n room cs)
  items : ∀ room acc cs, Consumes room cs (readItems n room acc cs)
  members : ∀ room acc cs, Consumes room cs (readMembers n room acc cs)

variable {n : Nat}

theorem AllConsume.next_value (h : AllConsume n) (room : Nat) (cs : List Char) :
    Consumes room cs (readValue (n + 1) room cs) := by
  unfold readValue
  split
  · exact ((readText_consumes room _).map _).mono (List.suffix_cons _ _)
  · cases room with
    | zero => exact Nat.zero_lt_of_ne_zero (by simp [opens])
    | succ room =>
      refine Consumes.enter (Consumes.mono ?_ (skipBlanks_suffix _)) rfl
      simp only
      split
      · rename_i hr
        rw [hr]
        exact List.suffix_cons _ _
      · exact h.items room [] _
  · cases room with
    | zero => exact Nat.zero_lt_of_ne_zero (by simp [opens])
    | succ room =>
      refine Consumes.enter (Consumes.mono ?_ (skipBlanks_suffix _)) rfl
      simp only
      split
      · rename_i hr
        rw [hr]
        exact List.suffix_cons _ _
      · exact (h.members room [] _).map fun ms => Json.object (Fields.ofPairs ms)
  · exact readPlain_consumes room cs

theorem AllConsume.next_items (h : AllConsume n) (room : Nat) (acc : List Json) (cs : List Char) :
    Consumes room cs (readItems (n + 1) room acc cs) := by
  unfold readItems
  obtain ⟨t, hr, ht⟩ | ⟨v, rest, hr, hrest⟩ := (h.value room cs).cases
  · rw [hr]
    exact ht
  · rw [hr]
    refine Consumes.mono ?_ ((skipBlanks_suffix rest).trans hrest)
    simp only
    split
    · rename_i heq
      rw [heq]
      exact (h.items room _ _).mono ((skipBlanks_suffix _).trans (List.suffix_cons _ _))
    · rename_i heq
      rw [heq]
      exact List.suffix_cons _ _
    · trivial

/-- a member behind its colon -/
theorem AllConsume.next_member (h : AllConsume n) (room : Nat) (acc : List (Text × Json)) (key : Text)
    (cs : List Char) :
    Consumes room cs (match readValue n room (skipBlanks cs) with
      | .error t => .error t
      | .ok (v, rest) =>
        match skipBlanks rest with
        | ',' :: r => readMembers n room ((key, v) :: acc) (skipBlanks r)
        | '}' :: r => .ok (((key, v) :: acc).reverse, r)
        | r => complain .noComma r) := by
  refine Consumes.mono ?_ (skipBlanks_suffix cs)
  obtain ⟨t, hr, ht⟩ | ⟨v, rest, hr, hrest⟩ := (h.value room (skipBlanks cs)).cases
  · rw [hr]
    exact ht
  · rw [hr]
    refine Consumes.mono ?_ ((skipBlanks_suffix rest).trans hrest)
    simp only
    split
    · rename_i heq
      rw [heq]
      exact (h.members room _ _).mono ((skipBlanks_suffix _).trans (List.suffix_cons _ _))
    · rename_i heq
      rw [heq]
      exact List.suffix_cons _ _
    · trivial

theorem AllConsume.next_members (h : AllConsume n) (room : Nat) (acc : List (Text × Json)) (cs : List Char) :
    Consumes room cs (readMembers (n + 1) room acc cs) := by
  unfold readMembers
  split
  · refine Consumes.mono ?_ (List.suffix_cons _ _)
    obtain ⟨t, hr, ht⟩ | ⟨key, rest, hr, hrest⟩ := (readText_consumes room _).cases
    · rw [hr]
      exact ht
    · rw [hr]
      refine Consumes.mono ?_ ((skipBlanks_suffix rest).trans hrest)
      simp only
      split
      · rename_i heq
        rw [heq]
        exact (h.next_member room acc key _).mono (List.suffix_cons _ _)
      · trivial
  · trivial

/-- **A reader leaves an end of its characters, or they are the cause of the trouble**, with any fuel. -/
theorem allConsume (n : Nat) : AllConsume n := by
  induction n with
  | zero => exact ⟨fun _ _ => trivial, fun _ _ _ => trivial, fun _ _ _ => trivial⟩
  | succ n ih => exact ⟨ih.next_value, ih.next_items, ih.next_members⟩

/-! ## Whole texts -/

theorem readWhole_error {cs : List Char} {t : Trouble} (h : readWhole cs = .error t) : t.In mostDepth cs := by
  unfold readWhole at h
  split_ifs at h
  · obtain rfl := Except.error.inj h
    trivial
  · have hv := ((allConsume (2 * cs.length + 1)).value mostDepth (skipBlanks cs)).mono (skipBlanks_suffix cs)
    obtain ⟨t', hr, ht⟩ | ⟨v, rest, hr, -⟩ := hv.cases
    · rw [hr] at h
      obtain rfl := Except.error.inj h
      exact ht
    · rw [hr] at h
      simp only at h
      split at h
      · cases h
      · obtain rfl := Except.error.inj h
        trivial

/-- a fault of a text that goes beyond a limit of the reader, and does so -/
def ReadFault.Beyond (s : String) : ReadFault → Prop
  | .malformed _ _ => False
  | .tooManyDigits n => Text.mostDigits < n ∧ HasRun n s.toList
  | .tooDeep _ => mostDepth < s.toList.countP opens

/-! ### Line ends -/

theorem countP_unifyLineEnds (cs : List Char) : (unifyLineEnds cs).countP opens = cs.countP opens := by
  fun_induction unifyLineEnds cs with
  | case1 cs ih => simp [opens, ih]
  | case2 cs h ih => simp [opens, ih]
  | case3 c cs h h' ih => simp [List.countP_cons, ih]
  | case4 => rfl

section Digits

variable {ds cs : List Char} (hd : ∀ c ∈ ds, c.isDigit = true)
include hd

theorem eq_nil_of_prefix_newline (h : ds <+: '\n' :: cs) : ds = [] := by
  obtain rfl | ⟨ds', rfl, -⟩ := List.prefix_cons_iff.1 h
  · rfl
  · exact absurd (hd '\n' List.mem_cons_self) (by decide)

theorem prefix_of_prefix_unifyLineEnds (h : ds <+: unifyLineEnds cs) : ds <+: cs := by
  fun_induction unifyLineEnds cs generalizing ds with
  | case1 cs ih =>
    obtain rfl := eq_nil_of_prefix_newline hd h
    exact List.nil_prefix
  | case2 cs _ ih =>
    obtain rfl := eq_nil_of_prefix_newline hd h
    exact List.nil_prefix
  | case3 c cs _ _ ih =>
    obtain rfl | ⟨ds', rfl, h'⟩ := List.prefix_cons_iff.1 h
    · exact List.nil_prefix
    · exact List.cons_prefix_cons.2 ⟨rfl, ih (fun c hc => hd c (List.mem_cons_of_mem _ hc)) h'⟩
  | case4 => exact h

/-- no digits come together when line ends are unified -/
theorem infix_of_infix_unifyLineEnds (h : ds <:+: unifyLineEnds cs) : ds <:+: cs := by
  fun_induction unifyLineEnds cs with
  | case1 cs ih =>
    obtain h | h := List.infix_cons_iff.1 h
    · obtain rfl := eq_nil_of_prefix_newline hd h
      exact List.nil_infix
    · exact (ih h).trans ⟨['\r', '\n'], [], by simp⟩
  | case2 cs _ ih =>
    obtain h | h := List.infix_cons_iff.1 h
    · obtain rfl := eq_nil_of_prefix_newline hd h
      exact List.nil_infix
    · exact (ih h).trans (List.suffix_cons _ _).isInfix
  | case3 c cs h₁ h₂ ih =>
    obtain h | h := List.infix_cons_iff.1 h
    · have hcons : unifyLineEnds (c :: cs) = c :: unifyLineEnds cs := unifyLineEnds.eq_3 c cs h₁ h₂
      rw [← hcons] at h
      exact (prefix_of_prefix_unifyLineEnds hd h).isInfix
    · exact (ih h).trans (List.suffix_cons _ _).isInfix
  | case4 => exact h

end Digits

theorem hasRun_of_unifyLineEnds {n : Nat} {cs : List Char} (h : HasRun n (unifyLineEnds cs)) : HasRun n cs := by
  obtain ⟨ds, hds, hlength, hdigits⟩ := h
  exact ⟨ds, infix_of_infix_unifyLineEnds hdigits hds, hlength, hdigits⟩

/-- **A text that is not malformed is refused only for going beyond a limit of the reader.** -/
theorem readFile_error {s : String} {f : ReadFault} (h : readFile s = .error f) :
    (∃ c p, f = .malformed c p) ∨ f.Beyond s := by
  unfold readFile read at h
  rw [String.toList_ofList] at h
  cases hr : readWhole (unifyLineEnds s.toList) with
  | ok v =>
    rw [hr] at h
    cases h
  | error t =>
    rw [hr] at h
    obtain rfl := Except.error.inj h
    have ht := readWhole_error hr
    cases t with
    | complaint c rest => exact Or.inl ⟨c, _, rfl⟩
    | digits n => exact Or.inr ⟨ht.1, hasRun_of_unifyLineEnds ht.2⟩
    | depth k =>
      refine Or.inr ?_
      rw [Trouble.In, countP_unifyLineEnds] at ht
      exact ht

/-! ## Texts that are too deep -/

theorem skipBlanks_bracket (cs : List Char) : skipBlanks ('[' :: cs) = '[' :: cs := by
  rw [skipBlanks, if_neg (by decide)]

/-- as many lists as may be open, and one more: whatever comes then is not read -/
theorem readValue_deep (n room : Nat) (rest : List Char) :
    readValue (2 * room + n + 1) room (List.replicate (room + 1) '[' ++ rest) = .error (.depth .list) := by
  induction room with
  | zero => rw [List.replicate_succ, List.cons_append, readValue]
  | succ room ih =>
    have hfuel : 2 * (room + 1) + n + 1 = 2 * room + n + 1 + 1 + 1 := by omega
    rw [List.replicate_succ, List.cons_append] at ih
    rw [hfuel, List.replicate_succ, List.cons_append, readValue, List.replicate_succ, List.cons_append,
      skipBlanks_bracket]
    show readItems (2 * room + n + 1 + 1) room [] _ = _
    rw [readItems, ih]

theorem unifyLineEnds_replicate (k : Nat) (rest : List Char) :
    unifyLineEnds (List.replicate k '[' ++ rest) = List.replicate k '[' ++ unifyLineEnds rest := by
  induction k with
  | zero => rfl
  | succ k ih =>
    rw [List.replicate_succ, List.cons_append, List.cons_append, unifyLineEnds, ih]
    · intro cs hc
      exact absurd hc (by decide)
    · intro hc
      exact absurd hc (by decide)

/-- **A text that opens more lists than may be open is refused for it.** -/
theorem readFile_deep {s : String} {k : Nat} {rest : List Char} (hk : mostDepth < k)
    (h : s.toList = List.replicate k '[' ++ rest) : readFile s = .error (.tooDeep .list) := by
  obtain ⟨j, rfl⟩ := Nat.exists_eq_add_of_lt hk
  -- what comes behind the first list too many
  obtain ⟨more, hmore⟩ : ∃ more, unifyLineEnds s.toList = List.replicate (mostDepth + 1) '[' ++ more := by
    refine ⟨List.replicate j '[' ++ unifyLineEnds rest, ?_⟩
    rw [h, unifyLineEnds_replicate, ← List.append_assoc, List.replicate_append_replicate, Nat.add_right_comm]
  obtain ⟨n, hn⟩ : ∃ n, 2 * (List.replicate (mostDepth + 1) '[' ++ more).length = 2 * mostDepth + n := by
    refine ⟨2 + 2 * more.length, ?_⟩
    rw [List.length_append, List.length_replicate]
    omega
  have hwhole : readWhole (List.replicate (mostDepth + 1) '[' ++ more) = .error (.depth .list) := by
    have hdeep := readValue_deep n mostDepth more
    rw [readWhole, hn]
    rw [List.replicate_succ, List.cons_append] at hdeep ⊢
    rw [if_neg (by simp), skipBlanks_bracket, hdeep]
  rw [readFile, read, String.toList_ofList, hmore, hwhole]
  rfl

end TapeMachine.Json
