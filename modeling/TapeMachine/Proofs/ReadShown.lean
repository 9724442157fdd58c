/-
What was read can be shown.

A whole number is read of no more digits than are shown, and a value that was read lies inside no more others than may
be open (`allShow`). So each value that names something in what a file holds has a label, and a file that is read holds
a definition or is refused for what it holds (`allShown_of_readFile`).
-/
import TapeMachine.Proofs.Grammatical
import TapeMachine.Proofs.ReadLimits

namespace TapeMachine
namespace Json

/-! ## Values inside others -/

section Trouble

variable {room : ℕ} {items : List Json} {fs : Fields}

theorem itemsTrouble?_eq_none_iff : itemsTrouble? (room + 1) items = none ↔ ∀ v ∈ items, v.trouble? room = none := by
  induction items with
  | nil => exact iff_of_true rfl (List.forall_mem_nil _)
  | cons v vs ih =>
    rw [List.forall_mem_cons, ← ih, itemsTrouble?]
    cases v.trouble? room <;> simp

theorem fieldsTrouble?_eq_none_iff : fieldsTrouble? (room + 1) fs = none ↔ ∀ f ∈ fs, f.2.trouble? room = none := by
  induction fs with
  | nil => exact iff_of_true rfl (List.forall_mem_nil _)
  | cons f fs ih =>
    rw [List.forall_mem_cons, ← ih, fieldsTrouble?]
    cases f.2.trouble? room <;> simp

end Trouble

/-- the value can be shown wherever there is room for values `room` levels inside it -/
def Shows (room : ℕ) (v : Json) : Prop := ∀ more, v.trouble? (room + more) = none

section Shows

variable {room : ℕ} {v w : Json} {items : List Json} {fs : Fields} {n : FieldName}

theorem shows_list (h : ∀ v ∈ items, Shows room v) : Shows (room + 1) (.list items) := by
  intro more
  rw [Nat.add_right_comm]
  exact itemsTrouble?_eq_none_iff.2 fun v hv => h v hv more

theorem shows_object (h : ∀ f ∈ fs, Shows room f.2) : Shows (room + 1) (.object fs) := by
  intro more
  rw [Nat.add_right_comm]
  exact fieldsTrouble?_eq_none_iff.2 fun f hf => h f hf more

theorem Shows.item (h : Shows room (.list items)) (hv : v ∈ items) : Shows room v :=
  fun more => itemsTrouble?_eq_none_iff.1 (h (more + 1)) v hv

theorem Shows.picked (h : Shows room (.object fs)) (hw : n.Picks fs w) : Shows room w := by
  have hmem : ∀ {key : Text}, fs.get? key = some w → ∃ f ∈ fs, f.2 = w := by
    intro key hget
    obtain ⟨f, hf, rfl⟩ := Option.map_eq_some_iff.1 hget
    exact ⟨f, List.mem_of_find?_eq_some hf, rfl⟩
  obtain ⟨f, hf, rfl⟩ := hw.elim hmem fun h => hmem h.2
  exact fun more => fieldsTrouble?_eq_none_iff.1 (h (more + 1)) f hf

/-- so can all that names something in it -/
theorem Shows.allShown (h : Shows room v) : AllShown (Definition.Named v) room := by
  intro w hw
  refine (show Shows room w from ?_) 0
  cases hw with
  | item _ hpick hw => exact (h.picked hpick).item hw
  | field _ hpick => exact h.picked hpick
  | rule hpick he hw =>
    cases hw with
    | field _ hpick' => exact ((h.picked hpick).item he).picked hpick'

end Shows

/-! ## Numbers -/

theorem natOf_lt {ds : List Char} (hd : ∀ c ∈ ds, c.isDigit = true) : natOf ds < 10 ^ ds.length := by
  have hfold : ∀ n : ℕ, ds.foldl (fun n c => 10 * n + (c.toNat - 48)) n < (n + 1) * 10 ^ ds.length := by
    induction ds with
    | nil => simp
    | cons c ds ih =>
      rw [List.forall_mem_cons] at hd
      intro n
      have hc : c.toNat ≤ 57 := by
        have hdigit := hd.1
        simp only [Char.isDigit, Bool.and_eq_true, decide_eq_true_eq] at hdigit
        exact hdigit.2
      have hfirst : 10 * n + (c.toNat - 48) + 1 ≤ (n + 1) * 10 := by omega
      calc
        (c :: ds).foldl (fun n c => 10 * n + (c.toNat - 48)) n < (10 * n + (c.toNat - 48) + 1) * 10 ^ ds.length :=
          ih hd.2 _
        _ ≤ (n + 1) * 10 * 10 ^ ds.length := Nat.mul_le_mul_right _ hfirst
        _ = (n + 1) * 10 ^ (c :: ds).length := by rw [List.length_cons, Nat.pow_succ', Nat.mul_assoc]
  simpa [natOf] using hfold 0

/-- digits within the limit make a number that can be shown -/
theorem shows_whole {ds : List Char} (room : ℕ) (hd : ∀ c ∈ ds, c.isDigit = true) {k : ℕ} (hk : 0 < k)
    (hds : ds.length ≤ k) (hmost : k = Text.mostDigits) (negative : Bool) :
    Shows room (.number (.whole (if negative then -(natOf ds : ℤ) else natOf ds))) := by
  have hlt : natOf ds < 10 ^ k := (natOf_lt hd).trans_le (Nat.pow_le_pow_right (by decide) hds)
  have hlength := (Nat.length_toDigits_le_iff (by decide) hk).2 hlt
  have habs : (if negative then -(natOf ds : ℤ) else natOf ds).natAbs = natOf ds := by
    cases negative <;> simp
  intro more
  rw [trouble?, habs, ← hmost]
  exact if_neg (Nat.not_lt.2 hlength)

/-! ## Readers -/

/-- what is read has the property, if anything is -/
def Brings {α : Type} (P : α → Prop) (r : Reading α) : Prop := Yields r (fun p => P p.1) fun _ => True

theorem Brings.map {α β : Type} {P : α → Prop} {Q : β → Prop} {r : Reading α} (h : Brings P r) {f : α → β}
    (hf : ∀ a, P a → Q (f a)) : Brings Q (r.map fun p => (f p.1, p.2)) := by
  cases r with
  | ok p => exact hf _ h
  | error t => trivial

theorem readUnsigned_brings {negative : Bool} {cs : List Char} {r : Reading Number}
    (h : readUnsigned negative cs = some r) (room : ℕ) : Brings (fun x => Shows room (.number x)) r := by
  unfold readUnsigned at h
  rw [Option.ite_none_left_eq_some] at h
  obtain ⟨-, h⟩ := h
  simp only at h
  split at h
  · split at h
    · obtain rfl := Option.some.inj h
      trivial
    · rename_i hlength
      obtain rfl := Option.some.inj h
      exact shows_whole room (fun c hc => isDigit_of_mem_leadingDigits hc) (by decide) (Nat.not_lt.1 hlength) rfl
        negative
  · obtain rfl := Option.some.inj h
    exact fun _ => rfl

theorem readNumber_brings {cs : List Char} {r : Reading Json} (h : readNumber cs = some r) (room : ℕ) :
    Brings (Shows room) r := by
  obtain ⟨found, hfound, rfl⟩ := Option.map_eq_some_iff.1 h
  have hbrings : Brings (fun x => Shows room (.number x)) found := by
    split at hfound
    · split at hfound
      · obtain rfl := Option.some.inj hfound
        exact fun _ => rfl
      · exact readUnsigned_brings hfound room
    · exact readUnsigned_brings hfound room
  exact hbrings.map fun _ => id

theorem readPlain_brings (cs : List Char) (room : ℕ) : Brings (Shows room) (readPlain cs) := by
  unfold readPlain
  cases hw : readWord cs with
  | some p =>
    obtain ⟨w, hmem, hfound⟩ := List.exists_of_findSome?_eq_some hw
    obtain ⟨rest, -, rfl⟩ := Option.map_eq_some_iff.1 hfound
    have hwords : ∀ w ∈ words, Shows room w.2 := by
      simp only [words, List.forall_mem_cons]
      exact ⟨fun _ => rfl, fun _ => rfl, fun _ => rfl, fun _ => rfl, fun _ => rfl, List.forall_mem_nil _⟩
    exact hwords w hmem
  | none =>
    cases hn : readNumber cs with
    | some r => exact readNumber_brings hn room
    | none => trivial

/-- the values of an object come from its members -/
theorem forall_ofPairs {P : Json → Prop} {ms : List (Text × Json)} (h : ∀ m ∈ ms, P m.2) :
    ∀ f ∈ Fields.ofPairs ms, P f.2 := by
  have hput : ∀ (fs : Fields) (k : Text) (v : Json), (∀ f ∈ fs, P f.2) → P v → ∀ f ∈ fs.put k v, P f.2 := by
    intro fs k v hfs hv
    induction fs with
    | nil => simpa [Fields.put] using hv
    | cons f fs ih =>
      rw [List.forall_mem_cons] at hfs
      rw [Fields.put]
      split_ifs
      · exact List.forall_mem_cons.2 ⟨hv, hfs.2⟩
      · exact List.forall_mem_cons.2 ⟨hfs.1, ih hfs.2⟩
  have hmerge : ∀ fs : Fields, (∀ f ∈ fs, P f.2) → ∀ f ∈ Fields.merge fs ms, P f.2 := by
    induction ms with
    | nil => exact fun fs hfs => hfs
    | cons m ms ih =>
      rw [List.forall_mem_cons] at h
      exact fun fs hfs => ih h.2 (fs.put m.1 m.2) (hput fs m.1 m.2 hfs h.1)
  exact hmerge [] (List.forall_mem_nil _)

/-- what the readers bring with so much fuel -/
structure AllShow (n : ℕ) : Prop where
  value : ∀ room cs, Brings (Shows room) (readValue n room cs)
  items : ∀ room acc cs, (∀ v ∈ acc, Shows room v) → Brings (Shows (room + 1)) (readItems n room acc cs)
  members : ∀ room acc cs, (∀ m ∈ acc, Shows room m.2) →
    Brings (fun ms => ∀ m ∈ ms, Shows room m.2) (readMembers n room acc cs)

variable {n : ℕ}

theorem AllShow.next_value (h : AllShow n) (room : ℕ) (cs : List Char) :
    Brings (Shows room) (readValue (n + 1) room cs) := by
  unfold readValue
  split
  · cases readText _ with
    | ok p => exact fun _ => rfl
    | error t => trivial
  · cases room with
    | zero => trivial
    | succ room =>
      simp only
      split
      · exact shows_list (List.forall_mem_nil _)
      · exact h.items room [] _ (List.forall_mem_nil _)
  · cases room with
    | zero => trivial
    | succ room =>
      simp only
      split
      · exact shows_object (List.forall_mem_nil _)
      · exact (h.members room [] _ (List.forall_mem_nil _)).map fun ms hms => shows_object (forall_ofPairs hms)
  · exact readPlain_brings cs room

theorem AllShow.next_items (h : AllShow n) (room : ℕ) (acc : List Json) (cs : List Char)
    (hacc : ∀ v ∈ acc, Shows room v) : Brings (Shows (room + 1)) (readItems (n + 1) room acc cs) := by
  unfold readItems
  have hv := h.value room cs
  cases hr : readValue n room cs with
  | error t => trivial
  | ok p =>
    rw [hr] at hv
    have hmore : ∀ v ∈ p.1 :: acc, Shows room v := List.forall_mem_cons.2 ⟨hv, hacc⟩
    simp only
    split
    · exact h.items room _ _ hmore
    · exact shows_list fun v hv => hmore v (List.mem_reverse.1 hv)
    · trivial

theorem AllShow.next_members (h : AllShow n) (room : ℕ) (acc : List (Text × Json)) (cs : List Char)
    (hacc : ∀ m ∈ acc, Shows room m.2) :
    Brings (fun ms => ∀ m ∈ ms, Shows room m.2) (readMembers (n + 1) room acc cs) := by
  unfold readMembers
  split
  · cases readText _ with
    | error t => trivial
    | ok key =>
      simp only
      split
      · rename_i rest _
        have hv := h.value room (skipBlanks rest)
        cases hr : readValue n room (skipBlanks rest) with
        | error t => trivial
        | ok p =>
          rw [hr] at hv
          have hmore : ∀ m ∈ (key.1, p.1) :: acc, Shows room m.2 := List.forall_mem_cons.2 ⟨hv, hacc⟩
          simp only
          split
          · exact h.members room _ _ hmore
          · exact fun m hm => hmore m (List.mem_reverse.1 hm)
          · trivial
      · trivial
  · trivial

/-- **The readers bring values that can be shown**, with any fuel. -/
theorem allShow (n : ℕ) : AllShow n := by
  induction n with
  | zero => exact ⟨fun _ _ => trivial, fun _ _ _ _ => trivial, fun _ _ _ _ => trivial⟩
  | succ n ih => exact ⟨ih.next_value, ih.next_items, ih.next_members⟩

/-! ## Whole texts -/

theorem readWhole_shows {cs : List Char} {v : Json} (h : readWhole cs = .ok v) : Shows mostDepth v := by
  unfold readWhole at h
  split_ifs at h
  have hv := (allShow (2 * cs.length + 1)).value mostDepth (skipBlanks cs)
  cases hr : readValue (2 * cs.length + 1) mostDepth (skipBlanks cs) with
  | error t =>
    rw [hr] at h
    cases h
  | ok p =>
    rw [hr] at h hv
    simp only at h
    split at h
    · obtain rfl := Except.ok.inj h
      exact hv
    · cases h

/-- **All that names something in what a file holds can be shown.** -/
theorem allShown_of_readFile {s : String} {v : Json} (h : readFile s = .ok v) :
    AllShown (Definition.Named v) mostDepth := by
  unfold readFile read at h
  rw [String.toList_ofList] at h
  cases hr : readWhole (unifyLineEnds s.toList) with
  | error t =>
    rw [hr] at h
    cases h
  | ok w =>
    rw [hr] at h
    obtain rfl := Except.ok.inj h
    exact (readWhole_shows hr).allShown

end Json

/-- so what a file holds is refused as a definition for what it holds, or taken -/
theorem Definition.isRefusal_of_readFile {s : String} {v : Json} {f : DefinitionFault} (hr : Json.readFile s = .ok v)
    (hf : Definition.ofJson v = .error f) : f.isRefusal = true := by
  obtain ⟨d, hd, -⟩ | ⟨f', hf', hflaw, -⟩ | ⟨f', -, hun⟩ := Definition.ofJson_cases v Json.mostDepth
  · exact absurd (hd.symm.trans hf) nofun
  · obtain rfl := Except.error.inj (hf.symm.trans hf')
    exact hflaw.isRefusal
  · exact absurd hun (Json.allShown_of_readFile hr).not_unshown

end TapeMachine
