/-
Configurations that are changed in their places.

A program keeps its configurations in places and changes them there, the defaults at the first one. A load takes a copy
of the defaults and binds in the copy what it reads, one pair after the other, so that some pairs are bound already when
an item of a list turns out to be no pair. Only the copy is touched, whatever it comes to, and what is returned is the
copy (`Store.loads`).
-/
import TapeMachine.Config.File
import Mathlib.Data.List.Basic

namespace TapeMachine

/-- configurations by their places -/
abbrev Store := List Config

namespace Store

/-! ## Places -/

def read (σ : Store) (i : ℕ) : Config := σ[i]?.getD []

/-- copies a configuration to a new place, which is given with it -/
def copy (σ : Store) (i : ℕ) : Store × ℕ := (σ ++ [σ.read i], σ.length)

/-- binds a key in place -/
def put (σ : Store) (i : ℕ) (key : Text) (v : Json) : Store := σ.modify i fun c => Fields.put c key v

/-! ## Loads -/

/-- binds the pairs of the items of a list, the first of which has the given index, up to one that is no pair -/
def updateItems (i : ℕ) : ℕ → List Json → Store → Store × Except ConfigFault Unit
  | _, [], σ => (σ, .ok ())
  | index, v :: vs, σ =>
    match Config.itemPair index v with
    | .error f => (σ, .error f)
    | .ok p => updateItems i (index + 1) vs (p.elim σ fun p => put σ i p.1 p.2)

/-- binds in place what a value brings -/
def update (σ : Store) (i : ℕ) : Json → Store × Except ConfigFault Unit
  | .object fs => (fs.foldl (fun σ f => put σ i f.1 f.2) σ, .ok ())
  | .list items => updateItems i 0 items σ
  | v => (σ, (Config.bindings v).map fun _ => ())

/-- checks the configuration at a place, and gives the place -/
def check (σ : Store) (i : ℕ) : Except ConfigFault ℕ := (Config.checked (read σ i)).map fun _ => i

/-- loads a configuration from the value of a file, if one is named, and gives its place -/
def load (σ : Store) (value : Option (Except ConfigFault Json)) : Store × Except ConfigFault ℕ :=
  let (σ, i) := copy σ 0
  match value with
  | none => (σ, check σ i)
  | some (.error f) => (σ, .error f)
  | some (.ok v) =>
    match update σ i v with
    | (σ, .error f) => (σ, .error f)
    | (σ, .ok ()) => (σ, check σ i)

/-! ## Only the copy is touched -/

variable {σ : Store} {i j : ℕ}

theorem read_copy_of_lt (h : j < σ.length) : read (copy σ i).1 j = read σ j := by
  rw [read, copy, List.getElem?_append_left h, read]

theorem read_copy (σ : Store) (i : ℕ) : read (copy σ i).1 (copy σ i).2 = read σ i := by
  rw [read, copy, List.getElem?_concat_length, Option.getD_some]

theorem length_put (σ : Store) (i : ℕ) (key : Text) (v : Json) : (put σ i key v).length = σ.length :=
  List.length_modify _ _ _

theorem read_put_of_ne (h : j ≠ i) (key : Text) (v : Json) : read (put σ i key v) j = read σ j := by
  rw [read, put, List.getElem?_modify_ne _ _ h.symm, read]

theorem read_put (h : i < σ.length) (key : Text) (v : Json) :
    read (put σ i key v) i = Fields.put (read σ i) key v := by
  rw [read, put, List.getElem?_modify_eq, read, List.getElem?_eq_getElem h]
  rfl

/-- what an update does: it binds the pairs that there are, or fails as the pairs do, and touches one place only -/
structure Updates (i : ℕ) (σ : Store) (ps : Except ConfigFault (List (Text × Json)))
    (o : Store × Except ConfigFault Unit) : Prop where
  length : o.1.length = σ.length
  others : ∀ j, j ≠ i → read o.1 j = read σ j
  result : o.2 = ps.map fun _ => ()
  bound : ∀ ps', ps = .ok ps' → read o.1 i = Fields.merge (read σ i) ps'

theorem updates_fold (h : i < σ.length) (ps : List (Text × Json)) :
    Updates i σ (.ok ps) (ps.foldl (fun σ f => put σ i f.1 f.2) σ, .ok ()) := by
  induction ps generalizing σ with
  | nil =>
    refine ⟨rfl, fun _ _ => rfl, rfl, ?_⟩
    intro ps' hps
    obtain rfl := Except.ok.inj hps
    rfl
  | cons p ps ih =>
    have hlt : i < (put σ i p.1 p.2).length := by
      rw [length_put]
      exact h
    have hnext := ih hlt
    refine ⟨hnext.length.trans (length_put _ _ _ _), fun j hj => ?_, rfl, ?_⟩
    · exact (hnext.others j hj).trans (read_put_of_ne hj _ _)
    · intro ps' hps
      obtain rfl := Except.ok.inj hps
      have hbound := hnext.bound ps rfl
      rw [read_put h] at hbound
      exact hbound

end Store

theorem Config.itemPairs_cons (i : ℕ) (v : Json) (vs : List Json) :
    itemPairs i (v :: vs) =
      (itemPair i v).bind fun p => (itemPairs (i + 1) vs).map fun ps => p.toList ++ ps := by
  rw [itemPairs]
  cases itemPair i v with
  | error f => rfl
  | ok p =>
    cases itemPairs (i + 1) vs with
    | error f => rfl
    | ok ps => rfl

namespace Store

variable {σ : Store} {i : ℕ}

/-- item by item -/
theorem updates_items (h : i < σ.length) (index : ℕ) (vs : List Json) :
    Updates i σ (Config.itemPairs index vs) (updateItems i index vs σ) := by
  induction vs generalizing index σ with
  | nil => exact updates_fold h []
  | cons v vs ih =>
    rw [Config.itemPairs_cons, updateItems]
    cases hp : Config.itemPair index v with
    | error f =>
      refine ⟨rfl, fun _ _ => rfl, rfl, ?_⟩
      intro ps' hps
      cases hps
    | ok p =>
      have hfold := updates_fold h p.toList
      have hput : (p.toList.foldl (fun σ f => put σ i f.1 f.2) σ) = p.elim σ fun p => put σ i p.1 p.2 := by
        cases p with
        | none => rfl
        | some p => rfl
      rw [hput] at hfold
      have hlt : i < (p.elim σ fun p => put σ i p.1 p.2).length := by
        rw [hfold.length]
        exact h
      have hnext := ih hlt (index + 1)
      simp only
      refine ⟨hnext.length.trans hfold.length, fun j hj => (hnext.others j hj).trans (hfold.others j hj), ?_, ?_⟩
      · rw [hnext.result]
        cases Config.itemPairs (index + 1) vs with
        | error f => rfl
        | ok ps => rfl
      · intro ps' hps
        cases hrest : Config.itemPairs (index + 1) vs with
        | error f =>
          rw [hrest] at hps
          cases hps
        | ok ps =>
          rw [hrest] at hps
          obtain rfl := Except.ok.inj hps
          rw [hnext.bound ps hrest, hfold.bound _ rfl]
          exact (List.foldl_append ..).symm

theorem updates_update (h : i < σ.length) (v : Json) : Updates i σ (Config.bindings v) (update σ i v) := by
  cases v with
  | object fs => exact updates_fold h fs
  | list items => exact updates_items h 0 items
  | string s =>
    refine ⟨rfl, fun _ _ => rfl, rfl, ?_⟩
    intro ps' hps
    simp only [Config.bindings] at hps
    split_ifs at hps
    obtain rfl := Except.ok.inj hps
    rfl
  | _ =>
    refine ⟨rfl, fun _ _ => rfl, rfl, ?_⟩
    intro ps' hps
    cases hps

theorem map_check (σ : Store) (i : ℕ) : (check σ i).map (read σ) = Config.checked (read σ i) := by
  unfold check Config.checked
  split
  · rfl
  · rfl

theorem place_of_check {i' : ℕ} (h : check σ i = .ok i') : i' = i := by
  unfold check at h
  cases hc : Config.checked (read σ i) with
  | error f =>
    rw [hc] at h
    cases h
  | ok c =>
    rw [hc] at h
    exact (Except.ok.inj h).symm

/-- what a load of a value does, from a store in which the defaults are at the first place -/
structure Loads (σ : Store) (result : Except ConfigFault Config) (o : Store × Except ConfigFault ℕ) : Prop where
  /-- what was there stays as it is -/
  kept : ∀ j < σ.length, read o.1 j = read σ j
  /-- what is returned is at a new place -/
  place : ∀ i, o.2 = .ok i → i = σ.length
  result : o.2.map (read o.1) = result

/-- a value is loaded into a copy -/
theorem loads_value (hd : read σ 0 = Config.defaults) (v : Json) :
    Loads σ (Config.ofJson v) (load σ (some (.ok v))) := by
  have hlt : (copy σ 0).2 < (copy σ 0).1.length := by
    rw [copy, List.length_append]
    exact Nat.lt_succ_self _
  have hu := updates_update hlt v
  have hothers : ∀ j < σ.length, read (update (copy σ 0).1 (copy σ 0).2 v).1 j = read σ j := fun j hj =>
    (hu.others j (Nat.ne_of_lt hj)).trans (read_copy_of_lt hj)
  have hjson : Config.ofJson v = (Config.bindings v).bind fun ps => Config.checked (Config.defaults.merge ps) := rfl
  rw [hjson]
  unfold load
  simp only
  generalize update (copy σ 0).1 (copy σ 0).2 v = o at hu hothers ⊢
  obtain ⟨σ', r⟩ := o
  cases hps : Config.bindings v with
  | error f =>
    rw [hps] at hu
    obtain rfl : r = .error f := hu.result
    refine ⟨hothers, ?_, rfl⟩
    intro i hi
    cases hi
  | ok ps =>
    rw [hps] at hu
    obtain rfl : r = .ok () := hu.result
    have hbound : read σ' (copy σ 0).2 = Config.defaults.merge ps := by
      rw [hu.bound ps rfl, read_copy, hd]
    refine ⟨hothers, fun i hi => place_of_check hi, ?_⟩
    simp only [map_check, hbound]
    rfl

/-- **A load touches a new place only**, and what it returns is what the value makes over the defaults. -/
theorem loads (hd : read σ 0 = Config.defaults) (value : Option (Except ConfigFault Json)) :
    Loads σ (value.elim (Config.checked Config.defaults) fun r => r.bind Config.ofJson) (load σ value) := by
  cases value with
  | none =>
    refine ⟨fun j hj => read_copy_of_lt hj, fun i hi => place_of_check hi, ?_⟩
    have hcheck := map_check (copy σ 0).1 (copy σ 0).2
    rw [read_copy, hd] at hcheck
    exact hcheck
  | some r =>
    cases r with
    | error f =>
      refine ⟨fun j hj => read_copy_of_lt hj, ?_, rfl⟩
      intro i hi
      cases hi
    | ok v => exact loads_value hd v

end Store
end TapeMachine
