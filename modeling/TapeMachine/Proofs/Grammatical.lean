/-
What describes a definition, and what does not.

`Definition.Described` says which values describe which definition, `Definition.Flaw` which fault is to be found in a
value. Each value has one or the other, or something in it names a state, a symbol or a move and cannot be shown
(`ofJson_cases`). One that has the shape of a definition (`Definition.Grammatical`) has no flaw, so the shape decides
whether a value is taken of which all names can be shown. Nothing but the values picked counts: `Definition.Alike`
values are read alike, and spelling a field in its other way (`Definition.Respelled`), in the definition or in one of
its rules, leaves the values alike. `ofJson_readByGrammar` has it all.

The shape alone does not do (`unshown_unread`): a whole number with too many digits, or a value inside too many lists,
ends the reading with a fault that is no refusal.
-/
import Mathlib.Algebra.Ring.Nat
import Mathlib.Data.List.Forall2
import Mathlib.Logic.Equiv.Basic
import Mathlib.Logic.Relation
import TapeMachine.Machine.Grammar

namespace TapeMachine

/-! ## Readers -/

/-- the reader gives a value with the first property, or a fault with the second one -/
def Yields {ε α : Type} (x : Except ε α) (P : α → Prop) (Q : ε → Prop) : Prop :=
  match x with
  | .ok a => P a
  | .error f => Q f

namespace Yields

variable {ε α β : Type} {x : Except ε α} {P : α → Prop} {Q Q' : ε → Prop}

theorem bind {k : α → Except ε β} {R : β → Prop} (hx : Yields x P Q) (hk : ∀ a, P a → Yields (k a) R Q) :
    Yields (x >>= k) R Q := by
  cases x with
  | ok a => exact hk a hx
  | error f => exact hx

theorem fault (h : Yields x P Q) (hQ : ∀ f, Q f → Q' f) : Yields x P Q' := by
  cases x with
  | ok a => exact h
  | error f => exact hQ f h

theorem mapError {ε' : Type} {g : ε → ε'} {Q' : ε' → Prop} (h : Yields x P Q) (hQ : ∀ f, Q f → Q' (g f)) :
    Yields (x.mapError g) P Q' := by
  cases x with
  | ok a => exact h
  | error f => exact hQ f h

theorem mapM {k : α → Except ε β} {R : α → β → Prop} {l : List α} (h : ∀ a ∈ l, Yields (k a) (R a) Q) :
    Yields (l.mapM k) (List.Forall₂ R l) Q := by
  induction l with
  | nil => exact List.Forall₂.nil
  | cons a l ih =>
    rw [List.mapM_cons]
    refine (h a List.mem_cons_self).bind fun b hb => ?_
    refine (ih fun a' ha' => h a' (List.mem_cons_of_mem a ha')).bind fun bs hbs => ?_
    exact List.Forall₂.cons hb hbs

end Yields

/-! ## Fields -/

namespace FieldName

variable {n : FieldName} {fs : Fields} {v w : Json}

/-- the field is there, in one of its spellings -/
def Present (n : FieldName) (fs : Fields) : Prop := (n.spelling : Text) ∈ fs.keys ∨ (n.other : Text) ∈ fs.keys

/-- the value under the first spelling, or under the other one when the first is not there -/
def Picks (n : FieldName) (fs : Fields) (v : Json) : Prop :=
  fs.get? n.spelling = some v ∨ ((n.spelling : Text) ∉ fs.keys ∧ fs.get? n.other = some v)

theorem picks_iff : n.Picks fs v ↔ n.pick? fs = some v := by
  rw [Picks, pick?, ← Fields.get?_eq_none_iff]
  cases fs.get? n.spelling with
  | some w => simp
  | none => simp

theorem present_iff : n.Present fs ↔ ∃ v, n.Picks fs v := by
  have hnone : n.pick? fs = none ↔ ¬ n.Present fs := by
    rw [pick?, Option.or_eq_none_iff, Fields.get?_eq_none_iff, Fields.get?_eq_none_iff, Present, not_or]
  simp only [picks_iff, ← Option.isSome_iff_exists]
  rw [← not_iff_not, ← hnone, Option.not_isSome_iff_eq_none]

theorem Picks.unique (h : n.Picks fs v) (h' : n.Picks fs w) : v = w :=
  Option.some.inj ((picks_iff.1 h).symm.trans (picks_iff.1 h'))

theorem Picks.pick_eq (h : n.Picks fs v) (owner : String) : n.pick owner fs = .ok v := by
  rw [pick, picks_iff.1 h]

theorem pick_yields (n : FieldName) (owner : String) (fs : Fields) :
    Yields (n.pick owner fs) (n.Picks fs) fun f => ¬ n.Present fs ∧ f = .missingField owner n.spelling := by
  rw [present_iff, pick]
  cases h : n.pick? fs with
  | some v => exact picks_iff.2 h
  | none =>
    refine ⟨?_, rfl⟩
    rintro ⟨v, hv⟩
    exact absurd ((picks_iff.1 hv).symm.trans h) nofun

end FieldName

/-! ## Labels -/

section Labels

variable {room : ℕ} {named : Json → Prop} {w : Json}

/-- all values that name something can be shown -/
def AllShown (named : Json → Prop) (room : ℕ) : Prop := ∀ w, named w → w.trouble? room = none

/-- the fault of a value that names something and cannot be shown -/
def Unshown (named : Json → Prop) (room : ℕ) (f : DefinitionFault) : Prop :=
  ∃ w g, named w ∧ w.trouble? room = some g ∧ f = .textless g

theorem AllShown.not_unshown (h : AllShown named room) {f : DefinitionFault} : ¬ Unshown named room f := by
  rintro ⟨w, g, hw, hg, -⟩
  exact absurd ((h w hw).symm.trans hg) nofun

theorem Unshown.mono {named' : Json → Prop} {f : DefinitionFault} (h : Unshown named room f)
    (hn : ∀ w, named w → named' w) : Unshown named' room f := by
  obtain ⟨w, g, hw, hg, hf⟩ := h
  exact ⟨w, g, hn w hw, hg, hf⟩

/-- the text is the label of the value, which can be shown -/
def Labels (room : ℕ) (w : Json) (t : Text) : Prop := w.trouble? room = none ∧ w.label = t

theorem labelOf_yields (room : ℕ) (hw : named w) : Yields (labelOf room w) (Labels room w) (Unshown named room) := by
  unfold labelOf Json.shown
  cases h : w.trouble? room with
  | none => exact ⟨h, rfl⟩
  | some g => exact ⟨w, g, hw, h, rfl⟩

theorem labels_yields {items : List Json} (hi : ∀ w ∈ items, named w) :
    Yields (items.mapM (labelOf room))
      (fun ts => (∀ w ∈ items, w.trouble? room = none) ∧ items.map Json.label = ts) (Unshown named room) := by
  have hall := Yields.mapM (R := Labels room) fun w hw => labelOf_yields room (hi w hw)
  cases hm : items.mapM (labelOf room) with
  | error f =>
    rw [hm] at hall
    exact hall
  | ok ts =>
    rw [hm] at hall
    obtain ⟨hshown, hlabels⟩ := (List.forall₂_and_left _ _).1 hall
    rw [← List.forall₂_map_left_iff (f := Json.label) (R := Eq), List.forall₂_eq_eq_eq] at hlabels
    exact ⟨hshown, hlabels⟩

end Labels

/-! ## Moves -/

namespace CodePoint

variable {p q : CodePoint}

theorem eq_of_code (h : p.code = q.code) : p = q := by
  cases p
  cases q
  cases h
  rfl

theorem toUpper_eq (hq : 65 ≤ q.code ∧ q.code ≤ 90) (h : p.toUpper = q) :
    p.code = q.code ∨ p.code = q.code + 32 := by
  unfold toUpper at h
  split_ifs at h with hp
  · have hlt : p.code - 32 < 0x110000 := Nat.lt_of_le_of_lt (Nat.sub_le _ _) p.code_lt
    rw [ofCode, dif_pos hlt] at h
    have hcode : p.code - 32 = q.code := congrArg code h
    omega
  · exact Or.inl (congrArg code h)

end CodePoint

namespace Move

variable {m : Move} {t : Text}

/-- the letter of a move, in either case -/
def spellings : Move → List String
  | .left => ["L", "l"]
  | .right => ["R", "r"]
  | .stay => ["N", "n"]

def Names (m : Move) (t : Text) : Prop := ∃ s ∈ m.spellings, t = s

theorem names_of_upper (h : Text.ofString m.letter = ⟨t.points.map CodePoint.toUpper⟩) : m.Names t := by
  obtain ⟨ps⟩ := t
  have hpoints : ps.map CodePoint.toUpper = (Text.ofString m.letter).points := (congrArg Text.points h).symm
  cases m
  all_goals
    obtain ⟨p, rfl, hp⟩ := List.map_eq_singleton_iff.1 hpoints
    rcases CodePoint.toUpper_eq (by decide) hp with hcode | hcode
    · exact ⟨_, List.mem_cons_self, congrArg (fun q => Text.mk [q]) (CodePoint.eq_of_code hcode)⟩
    · exact ⟨_, List.mem_cons_of_mem _ List.mem_cons_self, congrArg (fun q => Text.mk [q]) (CodePoint.eq_of_code hcode)⟩

theorem ofText?_of_names (h : m.Names t) : ofText? t = some m := by
  obtain ⟨s, hs, rfl⟩ := h
  cases m
  all_goals
    simp only [spellings, List.mem_cons, List.not_mem_nil, or_false] at hs
    rcases hs with rfl | rfl <;> rfl

theorem ofLabel_yields (t : Text) :
    Yields (ofLabel t) (fun m => m.Names t) fun f => (∀ m, ¬ Names m t) ∧ f = .unknownMove t := by
  unfold ofLabel
  cases h : ofText? t with
  | some m =>
    have hletter := List.find?_some (p := fun m : Move => Text.ofString m.letter = ⟨t.points.map CodePoint.toUpper⟩) h
    exact names_of_upper (of_decide_eq_true hletter)
  | none =>
    refine ⟨?_, rfl⟩
    intro m hm
    exact absurd ((ofText?_of_names hm).symm.trans h) nofun

theorem Names.unique {m' : Move} (h : m.Names t) (h' : m'.Names t) : m = m' :=
  Option.some.inj ((ofText?_of_names h).symm.trans (ofText?_of_names h'))

end Move

/-! ## Rules -/

namespace Rule

def fieldNames : List FieldName := [stateField, readField, nextField, writeField, moveField]

/-- the value describes the rule -/
inductive Described : Json → Rule → Prop where
  | intro {fs : Fields} {state read next write move : Json} {m : Move} (hstate : stateField.Picks fs state)
      (hread : readField.Picks fs read) (hnext : nextField.Picks fs next) (hwrite : writeField.Picks fs write)
      (hmove : moveField.Picks fs move) (hm : m.Names move.label) :
      Described (.object fs) ⟨state.label, read.label, next.label, write.label, m⟩

/-- the value is an object with the five fields, of which one names a move -/
def Grammatical (v : Json) : Prop :=
  ∃ fs, v = .object fs ∧ (∀ n ∈ fieldNames, n.Present fs) ∧
    ∃ (move : Json) (m : Move), moveField.Picks fs move ∧ m.Names move.label

/-- the second value stands in the first one for a state, a symbol or a move -/
inductive Named : Json → Json → Prop where
  | field {fs : Fields} {n : FieldName} {w : Json} (hn : n ∈ fieldNames) (h : n.Picks fs w) : Named (.object fs) w

/-- the fault is to be found in the value -/
inductive Flaw : Json → DefinitionFault → Prop where
  | notMapping {v : Json} (h : ∀ fs, v ≠ .object fs) : Flaw v (.ruleNotMapping v.kind.name)
  | missing {fs : Fields} {n : FieldName} (hn : n ∈ fieldNames) (h : ¬ n.Present fs) :
      Flaw (.object fs) (.missingField "Transition" n.spelling)
  | badMove {fs : Fields} {move : Json} (h : moveField.Picks fs move) (hm : ∀ m, ¬ Move.Names m move.label) :
      Flaw (.object fs) (.unknownMove move.label)

/-- a value that is not taken has the flaw, or something in it cannot be shown -/
def Fails (room : ℕ) (v : Json) (f : DefinitionFault) : Prop := Flaw v f ∨ Unshown (Named v) room f

variable {fs : Fields} {v : Json} {r r' : Rule} {f : DefinitionFault} {room : ℕ}

theorem pickLabel_yields {n : FieldName} (hn : n ∈ fieldNames) :
    Yields (n.pickLabel "Transition" fs room) (fun t => ∃ w, n.Picks fs w ∧ Labels room w t)
      (Fails room (.object fs)) := by
  have hpick : Yields (n.pick "Transition" fs) (n.Picks fs) (Fails room (.object fs)) := by
    refine (n.pick_yields "Transition" fs).fault ?_
    rintro f ⟨hno, rfl⟩
    exact Or.inl (.missing hn hno)
  refine hpick.bind fun w hw => ?_
  have hlabel := labelOf_yields room (Named.field hn hw)
  cases hl : labelOf room w with
  | ok t =>
    rw [hl] at hlabel
    exact ⟨w, hw, hlabel⟩
  | error f =>
    rw [hl] at hlabel
    exact Or.inr hlabel

theorem ofJson_yields (v : Json) (room : ℕ) :
    Yields (ofJson v room) (fun r => AllShown (Named v) room ∧ Described v r) (Fails room v) := by
  cases v with
  | object fs =>
    refine (pickLabel_yields (n := stateField) (by decide)).bind ?_
    rintro _ ⟨state, hstate, hshown₁, rfl⟩
    refine (pickLabel_yields (n := readField) (by decide)).bind ?_
    rintro _ ⟨read, hread, hshown₂, rfl⟩
    refine (pickLabel_yields (n := nextField) (by decide)).bind ?_
    rintro _ ⟨next, hnext, hshown₃, rfl⟩
    refine (pickLabel_yields (n := writeField) (by decide)).bind ?_
    rintro _ ⟨write, hwrite, hshown₄, rfl⟩
    refine (pickLabel_yields (n := moveField) (by decide)).bind ?_
    rintro _ ⟨move, hmove, hshown₅, rfl⟩
    have hnamed : Yields (Move.ofLabel move.label) (fun m => m.Names move.label) (Fails room (.object fs)) := by
      refine (Move.ofLabel_yields move.label).fault ?_
      rintro f ⟨hm, rfl⟩
      exact Or.inl (.badMove hmove hm)
    refine hnamed.bind fun m hm => ⟨?_, .intro hstate hread hnext hwrite hmove hm⟩
    rintro w ⟨hn, hw⟩
    simp only [fieldNames, List.mem_cons, List.not_mem_nil, or_false] at hn
    rcases hn with rfl | rfl | rfl | rfl | rfl
    · rwa [hw.unique hstate]
    · rwa [hw.unique hread]
    · rwa [hw.unique hnext]
    · rwa [hw.unique hwrite]
    · rwa [hw.unique hmove]
  | _ => exact Or.inl (.notMapping nofun)

theorem Described.unique (h : Described v r) (h' : Described v r') : r = r' := by
  cases h with
  | intro hstate hread hnext hwrite hmove hm =>
    cases h' with
    | intro hstate' hread' hnext' hwrite' hmove' hm' =>
      obtain rfl := hstate.unique hstate'
      obtain rfl := hread.unique hread'
      obtain rfl := hnext.unique hnext'
      obtain rfl := hwrite.unique hwrite'
      obtain rfl := hmove.unique hmove'
      obtain rfl := hm.unique hm'
      rfl

theorem Described.grammatical (h : Described v r) : Grammatical v := by
  cases h with
  | @intro fs state read next write move m hstate hread hnext hwrite hmove hm =>
    refine ⟨fs, rfl, ?_, move, m, hmove, hm⟩
    simp only [fieldNames, List.forall_mem_cons, FieldName.present_iff]
    exact ⟨⟨_, hstate⟩, ⟨_, hread⟩, ⟨_, hnext⟩, ⟨_, hwrite⟩, ⟨_, hmove⟩, nofun⟩

theorem Flaw.isRefusal (h : Flaw v f) : f.isRefusal = true := by
  cases h <;> rfl

theorem Flaw.not_grammatical (h : Flaw v f) : ¬ Grammatical v := by
  rintro ⟨fs, rfl, hpresent, move, m, hmove, hm⟩
  cases h with
  | notMapping hno => exact hno fs rfl
  | missing hn hno => exact hno (hpresent _ hn)
  | badMove hmove' hno =>
    obtain rfl := hmove.unique hmove'
    exact hno m hm

end Rule

/-! ## Definitions -/

namespace Definition

/-- the fields other than the rules -/
def otherFields : List FieldName := [statesField, alphabetField, blankField, initialField, acceptField]

def fieldNames : List FieldName := otherFields ++ [rulesField]

/-- the value describes the definition; the blank symbol is put at the end of an alphabet that it is not in -/
inductive Described : Json → Definition → Prop where
  | intro {fs : Fields} {states alphabet entries : List Json} {blank initial accept : Json} {symbols : List Text}
      {rules : List Rule} (hstates : statesField.Picks fs (.list states))
      (halphabet : alphabetField.Picks fs (.list alphabet)) (hblank : blankField.Picks fs blank)
      (hinitial : initialField.Picks fs initial) (haccept : acceptField.Picks fs accept)
      (hentries : rulesField.Picks fs (.list entries)) (hrules : List.Forall₂ Rule.Described entries rules)
      (hin : blank.label ∈ alphabet.map Json.label → symbols = alphabet.map Json.label)
      (hout : blank.label ∉ alphabet.map Json.label → symbols = alphabet.map Json.label ++ [blank.label]) :
      Described (.object fs) ⟨states.map Json.label, symbols, blank.label, initial.label, accept.label, rules⟩

/-- the value is an object with the six fields, of which three hold lists, one of them of rules -/
def Grammatical (v : Json) : Prop :=
  ∃ fs, v = .object fs ∧ (∀ n ∈ fieldNames, n.Present fs) ∧ (∃ states, statesField.Picks fs (.list states)) ∧
    (∃ alphabet, alphabetField.Picks fs (.list alphabet)) ∧
    ∃ entries, rulesField.Picks fs (.list entries) ∧ ∀ entry ∈ entries, Rule.Grammatical entry

/-- the second value stands in the first one for a state, a symbol or a move -/
inductive Named : Json → Json → Prop where
  | item {fs : Fields} {n : FieldName} {items : List Json} {w : Json} (hn : n ∈ [statesField, alphabetField])
      (h : n.Picks fs (.list items)) (hw : w ∈ items) : Named (.object fs) w
  | field {fs : Fields} {n : FieldName} {w : Json} (hn : n ∈ [blankField, initialField, acceptField])
      (h : n.Picks fs w) : Named (.object fs) w
  | rule {fs : Fields} {entries : List Json} {entry w : Json} (h : rulesField.Picks fs (.list entries))
      (he : entry ∈ entries) (hw : Rule.Named entry w) : Named (.object fs) w

/-- the fault is to be found in the value -/
inductive Flaw : Json → DefinitionFault → Prop where
  | notMapping {v : Json} (h : ∀ fs, v ≠ .object fs) : Flaw v (.notMapping v.kind.name)
  | missing {fs : Fields} {n : FieldName} (hn : n ∈ fieldNames) (h : ¬ n.Present fs) :
      Flaw (.object fs) (.missingField "Definition" n.spelling)
  | notList {fs : Fields} {n : FieldName} {v : Json} (hn : n ∈ [statesField, alphabetField, rulesField])
      (h : n.Picks fs v) (hv : ∀ items, v ≠ .list items) : Flaw (.object fs) (.fieldNotList n.spelling v.kind.name)
  | badRule {fs : Fields} {entries : List Json} {entry : Json} {f : DefinitionFault}
      (h : rulesField.Picks fs (.list entries)) (he : entry ∈ entries) (hf : Rule.Flaw entry f) : Flaw (.object fs) f

/-- a value that is not taken has the flaw, or something in it cannot be shown -/
def Fails (room : ℕ) (v : Json) (f : DefinitionFault) : Prop := Flaw v f ∨ Unshown (Named v) room f

variable {fs : Fields} {v v' : Json} {d d' : Definition} {f : DefinitionFault} {room : ℕ}

theorem pick_yields {n : FieldName} (hn : n ∈ fieldNames) :
    Yields (n.pick "Definition" fs) (n.Picks fs) (Fails room (.object fs)) := by
  refine (n.pick_yields "Definition" fs).fault ?_
  rintro f ⟨hno, rfl⟩
  exact Or.inl (.missing hn hno)

theorem itemsOf_yields {n : FieldName} (hn : n ∈ [statesField, alphabetField, rulesField]) (h : n.Picks fs v) :
    Yields (itemsOf n.spelling v) (fun items => v = .list items) (Fails room (.object fs)) := by
  cases v with
  | list items => exact rfl
  | _ => exact Or.inl (.notList hn h nofun)

theorem ofJson_yields (v : Json) (room : ℕ) :
    Yields (ofJson v room) (fun d => AllShown (Named v) room ∧ Described v d) (Fails room v) := by
  cases v with
  | object fs =>
    refine (pick_yields (n := statesField) (by decide)).bind fun statesValue hstates => ?_
    refine (pick_yields (n := alphabetField) (by decide)).bind fun alphabetValue halphabet => ?_
    refine (pick_yields (n := blankField) (by decide)).bind fun blank hblank => ?_
    refine (pick_yields (n := initialField) (by decide)).bind fun initial hinitial => ?_
    refine (pick_yields (n := acceptField) (by decide)).bind fun accept haccept => ?_
    refine (pick_yields (n := rulesField) (by decide)).bind fun entriesValue hentries => ?_
    have hitems : ∀ {n : FieldName} {items : List Json}, n ∈ [statesField, alphabetField] →
        n.Picks fs (.list items) →
        Yields (items.mapM (labelOf room))
          (fun ts => (∀ w ∈ items, w.trouble? room = none) ∧ items.map Json.label = ts) (Fails room (.object fs)) :=
      fun hn h => (labels_yields fun w hw => Named.item hn h hw).fault fun _ => Or.inr
    have hlabel : ∀ {n : FieldName} {w : Json}, n ∈ [blankField, initialField, acceptField] → n.Picks fs w →
        Yields (labelOf room w) (Labels room w) (Fails room (.object fs)) :=
      fun hn h => (labelOf_yields room (Named.field hn h)).fault fun _ => Or.inr
    refine (itemsOf_yields (n := statesField) (by decide) hstates).bind fun states hlist => ?_
    subst hlist
    refine (hitems (by decide) hstates).bind fun _ ⟨hshown₁, hlabels⟩ => ?_
    subst hlabels
    refine (hlabel (by decide) hblank).bind fun _ ⟨hshown₂, hl⟩ => ?_
    subst hl
    refine (hlabel (by decide) hinitial).bind fun _ ⟨hshown₃, hl⟩ => ?_
    subst hl
    refine (hlabel (by decide) haccept).bind fun _ ⟨hshown₄, hl⟩ => ?_
    subst hl
    refine (itemsOf_yields (n := rulesField) (by decide) hentries).bind fun entries hlist => ?_
    subst hlist
    have hrules : Yields (entries.mapM fun r => Rule.ofJson r room)
        (List.Forall₂ (fun entry r => AllShown (Rule.Named entry) room ∧ Rule.Described entry r) entries)
        (Fails room (.object fs)) := by
      refine Yields.mapM fun entry he => (Rule.ofJson_yields entry room).fault ?_
      rintro f (hf | hf)
      · exact Or.inl (.badRule hentries he hf)
      · exact Or.inr (hf.mono fun w hw => .rule hentries he hw)
    refine hrules.bind fun rules hrules => ?_
    obtain ⟨hshown₅, hrules⟩ := (List.forall₂_and_left _ _).1 hrules
    refine (itemsOf_yields (n := alphabetField) (by decide) halphabet).bind fun alphabet hlist => ?_
    subst hlist
    refine (hitems (by decide) halphabet).bind fun _ ⟨hshown₆, hlabels⟩ => ?_
    subst hlabels
    refine ⟨?_, .intro hstates halphabet hblank hinitial haccept hentries hrules (fun h => if_pos h) fun h => if_neg h⟩
    intro w hw
    cases hw with
    | item hn h hw =>
      simp only [List.mem_cons, List.not_mem_nil, or_false] at hn
      rcases hn with rfl | rfl
      · exact hshown₁ w (Json.list.inj (h.unique hstates) ▸ hw)
      · exact hshown₆ w (Json.list.inj (h.unique halphabet) ▸ hw)
    | field hn h =>
      simp only [List.mem_cons, List.not_mem_nil, or_false] at hn
      rcases hn with rfl | rfl | rfl
      · rwa [h.unique hblank]
      · rwa [h.unique hinitial]
      · rwa [h.unique haccept]
    | rule h he hw => exact hshown₅ _ (Json.list.inj (h.unique hentries) ▸ he) w hw
  | _ => exact Or.inl (.notMapping nofun)

theorem Described.unique (h : Described v d) (h' : Described v d') : d = d' := by
  cases h with
  | @intro fs states alphabet entries blank initial accept symbols rules hstates halphabet hblank hinitial haccept
      hentries hrules hin hout =>
    cases h' with
    | @intro _ _ _ _ _ _ _ symbols' _ hstates' halphabet' hblank' hinitial' haccept' hentries' hrules' hin' hout' =>
      obtain rfl := Json.list.inj (hstates.unique hstates')
      obtain rfl := Json.list.inj (halphabet.unique halphabet')
      obtain rfl := hblank.unique hblank'
      obtain rfl := hinitial.unique hinitial'
      obtain rfl := haccept.unique haccept'
      obtain rfl := Json.list.inj (hentries.unique hentries')
      obtain rfl := List.right_unique_forall₂' (fun _ _ _ h h' => h.unique h') hrules hrules'
      have hsymbols : symbols = symbols' := by
        by_cases hmem : blank.label ∈ alphabet.map Json.label
        · rw [hin hmem, hin' hmem]
        · rw [hout hmem, hout' hmem]
      rw [hsymbols]

theorem Described.grammatical (h : Described v d) : Grammatical v := by
  cases h with
  | @intro fs states alphabet entries blank initial accept symbols rules hstates halphabet hblank hinitial haccept
      hentries hrules hin hout =>
    refine ⟨fs, rfl, ?_, ⟨states, hstates⟩, ⟨alphabet, halphabet⟩, entries, hentries, ?_⟩
    · simp only [fieldNames, otherFields, List.cons_append, List.nil_append, List.forall_mem_cons,
        FieldName.present_iff]
      exact ⟨⟨_, hstates⟩, ⟨_, halphabet⟩, ⟨_, hblank⟩, ⟨_, hinitial⟩, ⟨_, haccept⟩, ⟨_, hentries⟩, nofun⟩
    · have hboth := hrules.imp fun _ _ h => And.intro h.grammatical h
      exact ((List.forall₂_and_left _ _).1 hboth).1

theorem Flaw.isRefusal (h : Flaw v f) : f.isRefusal = true := by
  cases h with
  | badRule _ _ hf => exact hf.isRefusal
  | _ => rfl

theorem Flaw.not_grammatical (h : Flaw v f) : ¬ Grammatical v := by
  rintro ⟨fs, rfl, hpresent, ⟨states, hstates⟩, ⟨alphabet, halphabet⟩, entries, hentries, hrules⟩
  cases h with
  | notMapping hno => exact hno fs rfl
  | missing hn hno => exact hno (hpresent _ hn)
  | notList hn hpick hv =>
    simp only [List.mem_cons, List.not_mem_nil, or_false] at hn
    rcases hn with rfl | rfl | rfl
    · exact hv states (hpick.unique hstates)
    · exact hv alphabet (hpick.unique halphabet)
    · exact hv entries (hpick.unique hentries)
  | badRule hpick he hf =>
    obtain rfl := Json.list.inj (hpick.unique hentries)
    exact hf.not_grammatical (hrules _ he)

/-- a value describes a definition, it has a flaw, or something in it cannot be shown -/
theorem ofJson_cases (v : Json) (room : ℕ) :
    (∃ d, ofJson v room = .ok d ∧ AllShown (Named v) room ∧ Described v d ∧ Grammatical v) ∨
      (∃ f, ofJson v room = .error f ∧ Flaw v f ∧ ¬ Grammatical v) ∨
      ∃ f, ofJson v room = .error f ∧ Unshown (Named v) room f := by
  have hv := ofJson_yields v room
  cases h : ofJson v room with
  | ok d =>
    rw [h] at hv
    exact Or.inl ⟨d, rfl, hv.1, hv.2, hv.2.grammatical⟩
  | error f =>
    rw [h] at hv
    rcases hv with hf | hf
    · exact Or.inr (Or.inl ⟨f, rfl, hf, hf.not_grammatical⟩)
    · exact Or.inr (Or.inr ⟨f, rfl, hf⟩)

end Definition

/-! ## Values that are read alike -/

/-- two objects have the same values for these fields -/
def SamePicks (names : List FieldName) (fs fs' : Fields) : Prop := ∀ n ∈ names, ∀ v, n.Picks fs v ↔ n.Picks fs' v

section SamePicks

variable {names : List FieldName} {n : FieldName} {fs fs' : Fields}

theorem samePicks_iff : SamePicks names fs fs' ↔ ∀ n ∈ names, n.pick? fs = n.pick? fs' := by
  simp only [SamePicks, FieldName.picks_iff, ← Option.ext_iff]

theorem SamePicks.pick (h : SamePicks names fs fs') (hn : n ∈ names) (owner : String) :
    n.pick owner fs = n.pick owner fs' := by
  rw [FieldName.pick, FieldName.pick, samePicks_iff.1 h n hn]

theorem SamePicks.pickLabel (h : SamePicks names fs fs') (hn : n ∈ names) (owner : String) (room : ℕ) :
    n.pickLabel owner fs room = n.pickLabel owner fs' room := by
  rw [FieldName.pickLabel, FieldName.pickLabel, h.pick hn]

end SamePicks

/-- a value and itself, or two objects with the same values for the fields of a rule -/
inductive Rule.Alike : Json → Json → Prop where
  | refl (v : Json) : Alike v v
  | fields {fs fs' : Fields} (h : SamePicks fieldNames fs fs') : Alike (.object fs) (.object fs')

theorem Rule.Alike.ofJson {v v' : Json} (h : Rule.Alike v v') (room : ℕ) :
    Rule.ofJson v room = Rule.ofJson v' room := by
  cases h with
  | refl => rfl
  | fields h =>
    simp only [Rule.ofJson, ofFields]
    rw [h.pickLabel (n := stateField) (by decide), h.pickLabel (n := readField) (by decide),
      h.pickLabel (n := nextField) (by decide), h.pickLabel (n := writeField) (by decide),
      h.pickLabel (n := moveField) (by decide)]

theorem Rule.mapM_ofJson_congr {entries entries' : List Json} (h : List.Forall₂ Rule.Alike entries entries')
    (room : ℕ) : (entries.mapM fun r => Rule.ofJson r room) = entries'.mapM fun r => Rule.ofJson r room := by
  induction h with
  | nil => rfl
  | cons hr _ ih => rw [List.mapM_cons, List.mapM_cons, hr.ofJson, ih]

namespace Definition

/-- a value and itself, or two objects with the same values for the fields of a definition, up to rules that are read
alike -/
inductive Alike : Json → Json → Prop where
  | refl (v : Json) : Alike v v
  | fields {fs fs' : Fields} (h : SamePicks fieldNames fs fs') : Alike (.object fs) (.object fs')
  | rules {fs fs' : Fields} {entries entries' : List Json}
      (h : SamePicks otherFields fs fs')
      (hpick : rulesField.Picks fs (.list entries)) (hpick' : rulesField.Picks fs' (.list entries'))
      (hrules : List.Forall₂ Rule.Alike entries entries') : Alike (.object fs) (.object fs')

theorem Alike.ofJson {v v' : Json} (h : Alike v v') (room : ℕ) : ofJson v room = ofJson v' room := by
  cases h with
  | refl => rfl
  | fields h =>
    simp only [Definition.ofJson, ofFields]
    rw [h.pick (n := statesField) (by decide), h.pick (n := alphabetField) (by decide),
      h.pick (n := blankField) (by decide), h.pick (n := initialField) (by decide),
      h.pick (n := acceptField) (by decide), h.pick (n := rulesField) (by decide)]
  | rules h hpick hpick' hrules =>
    simp only [Definition.ofJson, ofFields]
    rw [h.pick (n := statesField) (by decide), h.pick (n := alphabetField) (by decide),
      h.pick (n := blankField) (by decide), h.pick (n := initialField) (by decide),
      h.pick (n := acceptField) (by decide), hpick.pick_eq, hpick'.pick_eq]
    have hmap := Rule.mapM_ofJson_congr hrules room
    simp only [itemsOf, bind, Except.bind, hmap]

end Definition

/-! ## Spellings -/

namespace FieldName

variable {m n : FieldName} {fs : Fields}

/-- the field in its other spelling, where it is -/
def respell (n : FieldName) (fs : Fields) : Fields :=
  fs.map fun f => (Equiv.swap (n.spelling : Text) n.other f.1, f.2)

/-- the field is not there in both spellings -/
def Single (n : FieldName) (fs : Fields) : Prop := ¬ ((n.spelling : Text) ∈ fs.keys ∧ (n.other : Text) ∈ fs.keys)

/-- no spelling of one field is one of the other -/
def Apart (m n : FieldName) : Prop :=
  (m.spelling ≠ n.spelling ∧ m.spelling ≠ n.other) ∧ m.other ≠ n.spelling ∧ m.other ≠ n.other

instance : Decidable (Apart m n) := inferInstanceAs (Decidable (_ ∧ _))

theorem get?_respell (n : FieldName) (fs : Fields) (key : Text) :
    (n.respell fs).get? key = fs.get? (Equiv.swap (n.spelling : Text) n.other key) := by
  have hkey : (fun f : Text × Json => Equiv.swap (n.spelling : Text) n.other f.1 == key) =
      fun f => f.1 == Equiv.swap (n.spelling : Text) n.other key := by
    funext f
    rw [Bool.eq_iff_iff, beq_iff_eq, beq_iff_eq, Equiv.swap_apply_eq_iff]
  rw [Fields.get?, respell, List.find?_map, Option.map_map, Fields.get?, ← hkey]
  rfl

theorem pick?_respell_self (h : n.Single fs) : n.pick? (n.respell fs) = n.pick? fs := by
  rw [pick?, get?_respell, get?_respell, Equiv.swap_apply_left, Equiv.swap_apply_right, pick?]
  rcases not_and_or.1 h with h | h
  · rw [(Fields.get?_eq_none_iff fs n.spelling).2 h, Option.none_or, Option.or_none]
  · rw [(Fields.get?_eq_none_iff fs n.other).2 h, Option.none_or, Option.or_none]

theorem pick?_respell_apart (h : m.Apart n) : m.pick? (n.respell fs) = m.pick? fs := by
  obtain ⟨⟨h₁, h₂⟩, h₃, h₄⟩ := h
  rw [pick?, get?_respell, get?_respell, Equiv.swap_apply_of_ne_of_ne (by simpa using h₁) (by simpa using h₂),
    Equiv.swap_apply_of_ne_of_ne (by simpa using h₃) (by simpa using h₄), pick?]

/-- spelling one field in its other way changes no value, if the fields of the object do not get into each other's
way -/
theorem samePicks_respell {names : List FieldName} (hn : n ∈ names)
    (hnames : ∀ m ∈ names, ∀ n ∈ names, m = n ∨ m.Apart n) (h : n.Single fs) :
    SamePicks names fs (n.respell fs) := by
  rw [samePicks_iff]
  intro m hm
  rcases hnames m hm n hn with rfl | hapart
  · exact (pick?_respell_self h).symm
  · exact (pick?_respell_apart hapart).symm

/-- the value of another key does not touch a field -/
theorem pick?_replaced {k : Text} (hs : k ≠ n.spelling) (ho : k ≠ n.other) (before after : Fields) (v v' : Json) :
    n.pick? (before ++ (k, v) :: after) = n.pick? (before ++ (k, v') :: after) := by
  rw [pick?, pick?]
  simp only [Fields.get?_append]
  rw [Fields.get?_cons_of_ne hs, Fields.get?_cons_of_ne ho, Fields.get?_cons_of_ne hs, Fields.get?_cons_of_ne ho]

end FieldName

namespace Definition

theorem fieldNames_apart : ∀ m ∈ fieldNames, ∀ n ∈ fieldNames, m = n ∨ m.Apart n := by decide

theorem ruleFieldNames_apart : ∀ m ∈ Rule.fieldNames, ∀ n ∈ Rule.fieldNames, m = n ∨ m.Apart n := by decide

/-- an object with these rules under the name of the field, in its place -/
def withEntries (before after : Fields) (entries : List Json) : Json :=
  .object (before ++ (Text.ofString rulesField.spelling, .list entries) :: after)

/-- one field is spelled in its other way: one of the definition, or one of a rule in it -/
inductive Respelling : Json → Json → Prop where
  | field {n : FieldName} {fs : Fields} (hn : n ∈ fieldNames) (h : n.Single fs) :
      Respelling (.object fs) (.object (n.respell fs))
  | rule {n : FieldName} {fs : Fields} (before after : Fields) (ahead behind : List Json) (hn : n ∈ Rule.fieldNames)
      (h : n.Single fs) :
      Respelling (withEntries before after (ahead ++ .object fs :: behind))
        (withEntries before after (ahead ++ .object (n.respell fs) :: behind))

/-- any number of fields are spelled in their other way -/
abbrev Respelled : Json → Json → Prop := Relation.ReflTransGen Respelling

theorem withEntries_alike (before after : Fields) {entries entries' : List Json}
    (h : List.Forall₂ Rule.Alike entries entries') :
    Alike (withEntries before after entries) (withEntries before after entries') := by
  have hother : SamePicks otherFields (before ++ (Text.ofString rulesField.spelling, .list entries) :: after)
      (before ++ (Text.ofString rulesField.spelling, .list entries') :: after) := by
    rw [samePicks_iff]
    intro n hn
    have hne : ∀ n ∈ otherFields, rulesField.spelling ≠ n.spelling ∧ rulesField.spelling ≠ n.other := by decide
    obtain ⟨hs, ho⟩ := hne n hn
    exact FieldName.pick?_replaced (by simpa using hs) (by simpa using ho) before after _ _
  cases hb : before.get? rulesField.spelling with
  | some v =>
    -- the object has the field once more before, and that one counts
    refine .fields ?_
    rw [samePicks_iff, fieldNames, List.forall_mem_append, List.forall_mem_singleton]
    refine ⟨samePicks_iff.1 hother, ?_⟩
    simp only [FieldName.pick?, Fields.get?_append, hb, Option.some_or]
  | none =>
    have hpick : ∀ l : List Json,
        rulesField.Picks (before ++ (Text.ofString rulesField.spelling, .list l) :: after) (.list l) := by
      intro l
      refine Or.inl ?_
      rw [Fields.get?_append, hb, Option.none_or, Fields.get?_cons_self]
    exact .rules hother (hpick entries) (hpick entries') h

theorem Respelling.alike {v v' : Json} (h : Respelling v v') : Alike v v' := by
  cases h with
  | field hn h => exact .fields (FieldName.samePicks_respell hn fieldNames_apart h)
  | rule before after ahead behind hn h =>
    have hsame : ∀ l : List Json, List.Forall₂ Rule.Alike l l := fun l => List.forall₂_same.2 fun e _ => .refl e
    exact withEntries_alike before after (List.rel_append (hsame ahead)
      (List.Forall₂.cons (.fields (FieldName.samePicks_respell hn ruleFieldNames_apart h)) (hsame behind)))

theorem Respelled.ofJson {v v' : Json} (h : Respelled v v') (room : ℕ) : ofJson v' room = ofJson v room := by
  induction h with
  | refl => rfl
  | @tail w v' _ hstep ih =>
    calc
      Definition.ofJson v' room = Definition.ofJson w room := (hstep.alike.ofJson room).symm
      _ = Definition.ofJson v room := ih

/-! ## The grammar -/

/-- what a value is read as, where there is room for values `room` levels inside those that name something -/
structure ReadByGrammar (room : ℕ) (v : Json) : Prop where
  taken : (∃ d, ofJson v room = .ok d) ↔ Grammatical v ∧ AllShown (Named v) room
  described : ∀ d, ofJson v room = .ok d ↔ Described v d ∧ AllShown (Named v) room
  /-- a value that does not have the shape is refused for a flaw, as long as its names can be shown -/
  refused : AllShown (Named v) room → ¬ Grammatical v →
    ∃ f, ofJson v room = .error f ∧ f.isRefusal = true ∧ Flaw v f
  /-- nothing else comes of a value than a refusal, for a flaw, or the fault of a name that cannot be shown -/
  faults : ∀ f, ofJson v room = .error f → (f.isRefusal = true ∧ Flaw v f) ∨ Unshown (Named v) room f
  alike : ∀ v', Alike v v' → ofJson v' room = ofJson v room
  respelled : ∀ v', Respelled v v' → ofJson v' room = ofJson v room

/-- **A value is read as a definition when it has the shape of one and its names can be shown, and what it is read as
depends on the values picked alone.** -/
theorem ofJson_readByGrammar (room : ℕ) (v : Json) : ReadByGrammar room v where
  taken := by
    rcases ofJson_cases v room with ⟨d, hd, hshown, -, hv⟩ | ⟨f, hf, -, hno⟩ | ⟨f, hf, hun⟩
    · exact iff_of_true ⟨d, hd⟩ ⟨hv, hshown⟩
    · refine iff_of_false ?_ fun h => hno h.1
      rintro ⟨d, hd⟩
      exact absurd (hd.symm.trans hf) nofun
    · refine iff_of_false ?_ fun h => h.2.not_unshown hun
      rintro ⟨d, hd⟩
      exact absurd (hd.symm.trans hf) nofun
  described := by
    intro d
    rcases ofJson_cases v room with ⟨d', hd', hshown, hv, -⟩ | ⟨f, hf, -, hno⟩ | ⟨f, hf, hun⟩
    · constructor
      · intro hd
        obtain rfl := Except.ok.inj (hd.symm.trans hd')
        exact ⟨hv, hshown⟩
      · rintro ⟨hd, -⟩
        rw [hd', hd.unique hv]
    · refine iff_of_false ?_ fun h => hno h.1.grammatical
      rw [hf]
      exact nofun
    · refine iff_of_false ?_ fun h => h.2.not_unshown hun
      rw [hf]
      exact nofun
  refused := by
    intro hshown hno
    rcases ofJson_cases v room with ⟨-, -, -, -, hv⟩ | ⟨f, hf, hflaw, -⟩ | ⟨f, -, hun⟩
    · exact absurd hv hno
    · exact ⟨f, hf, hflaw.isRefusal, hflaw⟩
    · exact absurd hun hshown.not_unshown
  faults := by
    intro f hf
    rcases ofJson_cases v room with ⟨d, hd, -⟩ | ⟨f', hf', hflaw, -⟩ | ⟨f', hf', hun⟩
    · exact absurd (hd.symm.trans hf) nofun
    · obtain rfl := Except.error.inj (hf.symm.trans hf')
      exact Or.inl ⟨hflaw.isRefusal, hflaw⟩
    · obtain rfl := Except.error.inj (hf.symm.trans hf')
      exact Or.inr hun
  alike := fun _ h => (h.ofJson room).symm
  respelled := fun _ h => h.ofJson room

/-! ## Names that cannot be shown -/

/-- the value inside so many lists -/
def boxed (v : Json) : ℕ → Json
  | 0 => v
  | k + 1 => .list [boxed v k]

theorem trouble?_boxed {v : Json} {room k : ℕ} (h : room < k) : (boxed v k).trouble? room = some .tooDeep := by
  induction k generalizing room with
  | zero => cases h
  | succ k ih =>
    cases room with
    | zero => rfl
    | succ room =>
      have hinner := ih (Nat.lt_of_succ_lt_succ h)
      simp only [boxed, Json.trouble?, Json.itemsTrouble?, hinner]

/-- a power of ten has one digit more than its exponent says -/
theorem lt_digits_power {k : ℕ} (hk : 0 < k) : k < (Nat.toDigits 10 (10 ^ k)).length := by
  by_contra hle
  have hlt : 10 ^ k < 10 ^ k := (Nat.length_toDigits_le_iff (by decide) hk).1 (Nat.not_lt.1 hle)
  exact absurd hlt (Nat.lt_irrefl _)

theorem trouble?_whole {n : ℤ} (room : ℕ) (h : Text.mostDigits < (Nat.toDigits 10 n.natAbs).length) :
    (Json.ofInt n).trouble? room = some .tooManyDigits := by
  rw [Json.ofInt, Json.trouble?]
  exact if_pos h

/-- an object that has the shape of a definition, with this value for its only state -/
def withState (state : Json) : Fields :=
  [("states", .list [state]), ("alphabet", .list []), ("blankSymbol", .null), ("initialState", .null),
    ("acceptState", .null), ("transitions", .list [])]

theorem withState_grammatical (state : Json) : Grammatical (.object (withState state)) := by
  refine ⟨_, rfl, ?_, ⟨[state], Or.inl rfl⟩, ⟨[], Or.inl rfl⟩, [], Or.inl rfl, List.forall_mem_nil _⟩
  intro n hn
  have hkeys : ∀ n ∈ fieldNames, (n.spelling : Text) ∈
      (["states", "alphabet", "blankSymbol", "initialState", "acceptState", "transitions"] : List Text) := by decide
  exact Or.inl (hkeys n hn)

theorem ofFields_withState {state : Json} {room : ℕ} {g : Json.TextFault} (h : state.trouble? room = some g) :
    ofFields (withState state) room = .error (.textless g) := by
  have hlabel : labelOf room state = .error (.textless g) := by
    rw [labelOf, Json.shown, h]
    rfl
  have hmap : [state].mapM (labelOf room) = .error (.textless g) := by
    rw [List.mapM_cons, hlabel]
    rfl
  have hread : ofFields (withState state) room = ([state].mapM (labelOf room)).bind fun states =>
      .ok ⟨states, [""], "", "", "", []⟩ := rfl
  rw [hread, hmap]
  rfl

/-- **A value that has the shape of a definition may be neither taken nor refused**: its only state is a whole number
with one digit too many, or stands inside a thousand lists. -/
theorem unshown_unread :
    let long := withState (.ofInt ((10 ^ Text.mostDigits : ℕ) : ℤ))
    let deep := withState (boxed .null 1000)
    (Grammatical (.object long) ∧ ofJson (.object long) = .error (.textless .tooManyDigits)) ∧
      (Grammatical (.object deep) ∧ ofJson (.object deep) = .error (.textless .tooDeep)) ∧
      ∀ g, (DefinitionFault.textless g).isRefusal = false :=
  ⟨⟨withState_grammatical _, ofFields_withState (trouble?_whole _ (lt_digits_power (by decide)))⟩,
    ⟨withState_grammatical _, ofFields_withState (trouble?_boxed (by decide))⟩, fun _ => rfl⟩

end Definition
end TapeMachine
