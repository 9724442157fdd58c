/-
Configuration files with any bytes in them.

What a file binds goes over the defaults, the last binding of a key before the others, and the load returns what comes
of it if and only if it is accepted (`Config.load_eq_ok_iff`). Otherwise the fault is one of a value or of a kind, of
which a program tells before it exits with one; only text with more opening brackets than lists and objects may be open
at once brings another one (`Config.load_error`), and that one is caught by nobody (`Config.deep_uncaught`).

All of this for any bytes in `loadsSoundly`, and with it that the defaults stay as they are.
-/
import TapeMachine.Console.Simulator
import TapeMachine.Proofs.ConfigStore
import TapeMachine.Proofs.ReadLimits
import TapeMachine.Proofs.Settings

namespace TapeMachine

/-! ## Last bindings -/

namespace Fields

variable {fs ms : Fields} {key : Text}

theorem merge_cons_eq (fs : Fields) (p : Text × Json) (ps : List (Text × Json)) :
    fs.merge (p :: ps) = (fs.put p.1 p.2).merge ps := rfl

/-- the last of the pairs with a key counts, and before them what was there -/
theorem get?_merge (fs : Fields) (ps : List (Text × Json)) (key : Text) :
    (fs.merge ps).get? key = (get? ps.reverse key).or (fs.get? key) := by
  induction ps generalizing fs with
  | nil => rfl
  | cons p ps ih =>
    rw [merge_cons_eq, ih, List.reverse_cons, get?_append, Option.or_assoc, get?_put]
    congr 1
    obtain ⟨k, v⟩ := p
    by_cases hk : k = key
    · subst hk
      rw [if_pos rfl, get?_cons_self]
      rfl
    · rw [if_neg hk, get?_cons_of_ne hk]
      rfl

theorem nodup_keys_merge (h : fs.keys.Nodup) (ps : List (Text × Json)) : (fs.merge ps).keys.Nodup := by
  induction ps generalizing fs with
  | nil => exact h
  | cons p ps ih =>
    rw [merge_cons_eq]
    apply ih
    rw [keys_put]
    split_ifs with hmem
    · exact h
    · exact List.nodup_append.2 ⟨h, List.nodup_singleton _, by
        intro a ha b hb
        rw [List.mem_singleton.1 hb]
        rintro rfl
        exact hmem ha⟩

theorem get?_reverse (h : fs.keys.Nodup) (key : Text) : get? fs.reverse key = fs.get? key := by
  induction fs with
  | nil => rfl
  | cons f fs ih =>
    obtain ⟨k, v⟩ := f
    obtain ⟨hk, hfs⟩ := List.nodup_cons.1 h
    rw [List.reverse_cons, get?_append, ih hfs]
    by_cases heq : k = key
    · subst heq
      rw [get?_cons_self, get?_cons_self, (get?_eq_none_iff fs k).2 hk]
      rfl
    · rw [get?_cons_of_ne heq, get?_cons_of_ne heq]
      exact Option.or_none

/-- an object binds a key as the last of its members with that key does -/
theorem get?_reverse_ofPairs (ms : List (Text × Json)) (key : Text) :
    get? (ofPairs ms).reverse key = get? ms.reverse key := by
  have hempty : keys [] = [] := rfl
  have hnodup : (ofPairs ms).keys.Nodup := nodup_keys_merge (hempty ▸ List.nodup_nil) ms
  rw [get?_reverse hnodup, ofPairs, get?_merge]
  exact Option.or_none

end Fields

/-! ## The members of an object as they are written -/

namespace Json

/-- the members of the object that a text is, in order and each as often as it is there -/
def members? (cs : List Char) : Option (List (Text × Json)) :=
  match skipBlanks cs with
  | '{' :: rest =>
    match skipBlanks rest with
    | '}' :: _ => some []
    | r => (readMembers (2 * cs.length) (mostDepth - 1) [] r).toOption.map Prod.fst
  | _ => none

theorem kind_of_readItems {n room : Nat} {acc : List Json} {cs rest : List Char} {v : Json}
    (h : readItems n room acc cs = .ok (v, rest)) : v.kind = .list := by
  induction n generalizing acc cs with
  | zero =>
    rw [readItems] at h
    cases h
  | succ n ih =>
    unfold readItems at h
    cases hv : readValue n room cs with
    | error t =>
      rw [hv] at h
      cases h
    | ok p =>
      rw [hv] at h
      simp only at h
      split at h
      · exact ih h
      · obtain ⟨rfl, -⟩ := Prod.mk.inj (Except.ok.inj h)
        rfl
      · cases h

/-- a word or a number is no object -/
theorem kind_of_readPlain {cs rest : List Char} {v : Json} (h : readPlain cs = .ok (v, rest)) : v.kind ≠ .object := by
  unfold readPlain at h
  cases hw : readWord cs with
  | some p =>
    rw [hw] at h
    obtain rfl := Except.ok.inj h
    obtain ⟨w, hmem, hw'⟩ := List.exists_of_findSome?_eq_some hw
    obtain ⟨r, -, heq⟩ := Option.map_eq_some_iff.1 hw'
    obtain ⟨rfl, -⟩ := Prod.mk.inj heq
    have hwords : ∀ w ∈ words, w.2.kind ≠ .object := by
      simp only [words, List.forall_mem_cons]
      decide
    exact hwords w hmem
  | none =>
    rw [hw] at h
    cases hn : readNumber cs with
    | none =>
      rw [hn] at h
      cases h
    | some r =>
      rw [hn] at h
      obtain ⟨found, -, rfl⟩ := Option.map_eq_some_iff.1 hn
      cases found with
      | error t => cases h
      | ok p =>
        obtain ⟨rfl, -⟩ := Prod.mk.inj (Except.ok.inj h)
        obtain ⟨x, rest'⟩ := p
        cases x with
        | whole k => simp [kind]
        | real y => simp [kind]

theorem members?_of_empty {cs inner rest : List Char} (hc : skipBlanks cs = '{' :: inner)
    (hr : skipBlanks inner = '}' :: rest) : members? cs = some [] := by
  unfold members?
  simp only [hc, hr]

theorem members?_of_readMembers {cs inner rest : List Char} {ms : List (Text × Json)}
    (hc : skipBlanks cs = '{' :: inner) (hr : ∀ r, skipBlanks inner ≠ '}' :: r)
    (hm : readMembers (2 * cs.length) (mostDepth - 1) [] (skipBlanks inner) = .ok (ms, rest)) :
    members? cs = some ms := by
  unfold members?
  -- `hr` rules the closing brace out
  simp only [hc]
  rw [hm]
  rfl

/-- an object that is read at the front of the characters -/
theorem readValue_object {cs rest : List Char} {fs : Fields}
    (h : readValue (2 * cs.length + 1) mostDepth (skipBlanks cs) = .ok (.object fs, rest)) :
    ∃ ms, members? cs = some ms ∧ fs = Fields.ofPairs ms := by
  obtain ⟨room, hroom⟩ : ∃ room, mostDepth = room + 1 := ⟨987, rfl⟩
  rw [hroom] at h
  unfold readValue at h
  generalize hc : skipBlanks cs = ds at h
  split at h
  · rename_i r
    cases ht : readText r with
    | error t =>
      rw [ht] at h
      cases h
    | ok p =>
      rw [ht] at h
      cases h
  · simp only at h
    split at h
    · cases h
    · cases kind_of_readItems h
  · rename_i inner
    simp only at h
    split at h
    · obtain ⟨heq, -⟩ := Prod.mk.inj (Except.ok.inj h)
      exact ⟨[], members?_of_empty hc ‹_›, (Json.object.inj heq).symm⟩
    · rename_i hr
      cases hm : readMembers (2 * cs.length) room [] (skipBlanks inner) with
      | error t =>
        rw [hm] at h
        cases h
      | ok p =>
        rw [hm] at h
        obtain ⟨heq, -⟩ := Prod.mk.inj (Except.ok.inj h)
        have hroom' : mostDepth - 1 = room := by omega
        rw [← hroom'] at hm
        exact ⟨p.1, members?_of_readMembers hc hr hm, (Json.object.inj heq).symm⟩
  · exact absurd rfl (kind_of_readPlain h)

/-- an object holds what its members bind -/
theorem readWhole_object {cs : List Char} {fs : Fields} (h : readWhole cs = .ok (.object fs)) :
    ∃ ms, members? cs = some ms ∧ fs = Fields.ofPairs ms := by
  unfold readWhole at h
  split_ifs at h
  cases hv : readValue (2 * cs.length + 1) mostDepth (skipBlanks cs) with
  | error t =>
    rw [hv] at h
    cases h
  | ok p =>
    obtain ⟨v, rest⟩ := p
    rw [hv] at h
    simp only at h
    split at h
    · obtain rfl := Except.ok.inj h
      exact readValue_object hv
    · cases h

/-- the members of the object in the text of a file -/
def membersOfFile (s : String) : List (Text × Json) := (members? (unifyLineEnds s.toList)).getD []

theorem readFile_object {s : String} {fs : Fields} (h : readFile s = .ok (.object fs)) :
    fs = Fields.ofPairs (membersOfFile s) := by
  unfold readFile read at h
  rw [String.toList_ofList] at h
  cases hr : readWhole (unifyLineEnds s.toList) with
  | error t =>
    rw [hr] at h
    cases h
  | ok v =>
    rw [hr] at h
    obtain rfl := Except.ok.inj h
    obtain ⟨ms, hms, rfl⟩ := readWhole_object hr
    rw [membersOfFile, hms, Option.getD_some]

end Json

/-! ## Faults -/

/-- what a fault is about: a value that will not do, a value of another kind, or neither -/
inductive FaultSort where
  | value
  | kind
  | other
deriving DecidableEq, Repr

def ConfigFault.sort : ConfigFault → FaultSort
  | .setting (.wrongKind _ _ _) => .kind
  | .setting _ => .value
  | .undecodable => .value
  | .unread (.malformed _ _) => .value
  | .unread (.tooManyDigits _) => .value
  | .badLength _ _ => .value
  | .noPath _ => .kind
  | .notIterable _ => .kind
  | .notSequence _ => .kind
  | .unhashable _ => .kind
  | .notFound _ => .other
  | .disk _ => .other
  | .unread (.tooDeep _) => .other

/-- a fault of a value or of a kind is told -/
theorem ConfigFault.isTold_of_sort {f : ConfigFault} (h : f.sort ≠ .other) : f.isTold = true := by
  cases f with
  | unread f =>
    cases f with
    | tooDeep k => exact absurd rfl h
    | _ => rfl
  | disk f => exact absurd rfl h
  | _ => rfl

namespace Config

variable {c : Config} {d : Disk} {path : Text} {s : String} {v : Json}

/-! ### The bindings of a file -/

theorem keyOf_sort {f : ConfigFault} (h : keyOf v = .error f) : f.sort ≠ .other := by
  unfold keyOf at h
  split at h
  · cases h
  · obtain rfl := Except.error.inj h
    decide
  · obtain rfl := Except.error.inj h
    decide
  · cases h

theorem pairOf_sort {i : Nat} {members : List Json} {f : ConfigFault} (h : pairOf i members = .error f) :
    f.sort ≠ .other := by
  unfold pairOf at h
  split at h
  · rename_i k v
    cases hk : keyOf k with
    | ok x =>
      rw [hk] at h
      cases h
    | error f' =>
      rw [hk] at h
      obtain rfl := Except.error.inj h
      exact keyOf_sort hk
  · obtain rfl := Except.error.inj h
    exact FaultSort.noConfusion

theorem itemPair_sort {i : Nat} {f : ConfigFault} (h : itemPair i v = .error f) : f.sort ≠ .other := by
  unfold itemPair at h
  split at h
  · exact pairOf_sort h
  · exact pairOf_sort h
  · exact pairOf_sort h
  · obtain rfl := Except.error.inj h
    exact FaultSort.noConfusion

theorem itemPairs_sort {i : Nat} {vs : List Json} {f : ConfigFault} (h : itemPairs i vs = .error f) :
    f.sort ≠ .other := by
  induction vs generalizing i with
  | nil => cases h
  | cons v vs ih =>
    rw [itemPairs_cons] at h
    cases hp : itemPair i v with
    | error f' =>
      rw [hp] at h
      obtain rfl := Except.error.inj h
      exact itemPair_sort hp
    | ok p =>
      rw [hp] at h
      cases hps : itemPairs (i + 1) vs with
      | ok ps =>
        simp only [Except.bind, hps] at h
        cases h
      | error f' =>
        simp only [Except.bind, hps] at h
        obtain rfl := Except.error.inj h
        exact ih hps

/-- a value that brings no bindings is of a wrong shape, or something in it is -/
theorem bindings_sort {f : ConfigFault} (h : bindings v = .error f) : f.sort ≠ .other := by
  unfold bindings at h
  split at h
  · cases h
  · exact itemPairs_sort h
  · split_ifs at h
    obtain rfl := Except.error.inj h
    exact FaultSort.noConfusion
  · obtain rfl := Except.error.inj h
    exact FaultSort.noConfusion

/-- a list of pairs with texts for keys brings these pairs -/
theorem bindings_pairs (ps : List (Text × Json)) :
    bindings (.list (ps.map fun p => .list [.string p.1, p.2])) = .ok ps := by
  have hall : ∀ i, itemPairs i (ps.map fun p => .list [.string p.1, p.2]) = .ok ps := by
    induction ps with
    | nil => exact fun _ => rfl
    | cons p ps ih =>
      intro i
      rw [List.map_cons, itemPairs_cons, ih]
      rfl
  exact hall 0

theorem checked_eq_ok_iff (c c' : Config) : checked c = .ok c' ↔ c = c' ∧ c'.Accepted := by
  unfold checked
  cases hv : c.validate with
  | ok u =>
    have hc := c.validate_eq_ok_iff.1 hv
    constructor
    · intro h
      obtain rfl := Except.ok.inj h
      exact ⟨rfl, hc⟩
    · rintro ⟨rfl, -⟩
      rfl
  | error f =>
    constructor
    · intro h
      cases h
    · rintro ⟨rfl, hc⟩
      rw [c.validate_eq_ok_iff.2 hc] at hv
      cases hv

theorem checked_sort {f : ConfigFault} (h : checked c = .error f) : f.sort ≠ .other := by
  unfold checked at h
  split at h
  · cases h
  · obtain rfl := Except.error.inj h
    rename_i f' _
    cases f' <;> exact FaultSort.noConfusion

/-! ### What bytes hold -/

variable {b : ByteArray}

/-- the bindings in bytes, as they are written -/
def written (b : ByteArray) : List (Text × Json) :=
  match String.fromUTF8? b with
  | none => []
  | some s =>
    match Json.readFile s with
    | .ok (.object _) => Json.membersOfFile s
    | .ok v => (bindings v).toOption.getD []
    | .error _ => []

/-- the configuration in bytes: their text is read, and what it binds makes the defaults one that is accepted -/
def Holds (b : ByteArray) (c : Config) : Prop :=
  ∃ s v ps, String.fromUTF8? b = some s ∧ Json.readFile s = .ok v ∧ bindings v = .ok ps ∧ c = defaults.merge ps ∧
    c.Accepted

/-- a fault of text that has more opening brackets than lists and objects may be open at once -/
def TooDeep (b : ByteArray) (f : ConfigFault) : Prop :=
  ∃ s k, String.fromUTF8? b = some s ∧ f = .unread (.tooDeep k) ∧ Json.mostDepth < s.toList.countP Json.opens

theorem ofText_of_unread {f : Json.ReadFault} (hr : Json.readFile s = .error f) : ofText s = .error (.unread f) := by
  simp only [ofText, hr]

theorem ofText_of_read (hr : Json.readFile s = .ok v) :
    ofText s = (bindings v).bind fun ps => checked (defaults.merge ps) := by
  unfold ofText
  rw [hr]
  rfl

theorem ofText_eq_ok_iff (s : String) (c : Config) :
    ofText s = .ok c ↔
      ∃ v ps, Json.readFile s = .ok v ∧ bindings v = .ok ps ∧ c = defaults.merge ps ∧ c.Accepted := by
  constructor
  · intro h
    cases hr : Json.readFile s with
    | error f =>
      rw [ofText_of_unread hr] at h
      cases h
    | ok v =>
      rw [ofText_of_read hr] at h
      cases hps : bindings v with
      | error f =>
        rw [hps] at h
        cases h
      | ok ps =>
        rw [hps] at h
        obtain ⟨rfl, hc⟩ := (checked_eq_ok_iff _ _).1 h
        exact ⟨v, ps, rfl, hps, rfl, hc⟩
  · rintro ⟨v, ps, hr, hps, rfl, hc⟩
    rw [ofText_of_read hr, hps]
    exact (checked_eq_ok_iff _ _).2 ⟨rfl, hc⟩

theorem ofText_error {f : ConfigFault} (h : ofText s = .error f) :
    f.sort ≠ .other ∨ ∃ k, f = .unread (.tooDeep k) ∧ Json.mostDepth < s.toList.countP Json.opens := by
  cases hr : Json.readFile s with
  | error f' =>
    rw [ofText_of_unread hr] at h
    obtain rfl := Except.error.inj h
    cases f' with
    | malformed c p => exact Or.inl FaultSort.noConfusion
    | tooManyDigits n => exact Or.inl FaultSort.noConfusion
    | tooDeep k =>
      obtain ⟨c, p, heq⟩ | hdeep := Json.readFile_error hr
      · cases heq
      · exact Or.inr ⟨k, rfl, hdeep⟩
  | ok v =>
    rw [ofText_of_read hr] at h
    refine Or.inl ?_
    cases hps : bindings v with
    | error f' =>
      rw [hps] at h
      obtain rfl := Except.error.inj h
      exact bindings_sort hps
    | ok ps =>
      rw [hps] at h
      exact checked_sort h

theorem load_of_file (h : d.entry path = .ok (.file (.text s))) : load d path = ofText s := by
  simp only [load, h]

theorem load_of_text (h : d.entry path = .ok (.file (.ofBytes b))) (hb : String.fromUTF8? b = some s) :
    load d path = ofText s := by
  rw [Contents.ofBytes, hb] at h
  exact load_of_file h

theorem load_of_undecodable (h : d.entry path = .ok (.file (.ofBytes b))) (hb : String.fromUTF8? b = none) :
    load d path = .error .undecodable := by
  simp only [load, h, Contents.ofBytes, hb]

theorem load_eq_ok_iff (h : d.entry path = .ok (.file (.ofBytes b))) (c : Config) :
    load d path = .ok c ↔ Holds b c := by
  constructor
  · intro hl
    cases hb : String.fromUTF8? b with
    | none =>
      rw [load_of_undecodable h hb] at hl
      cases hl
    | some s =>
      rw [load_of_text h hb] at hl
      obtain ⟨v, ps, hread⟩ := (ofText_eq_ok_iff s c).1 hl
      exact ⟨s, v, ps, hb, hread⟩
  · rintro ⟨s, v, ps, hb, hread⟩
    rw [load_of_text h hb]
    exact (ofText_eq_ok_iff s c).2 ⟨v, ps, hread⟩

theorem load_error (h : d.entry path = .ok (.file (.ofBytes b))) {f : ConfigFault} (hf : load d path = .error f) :
    f.sort ≠ .other ∨ TooDeep b f := by
  cases hb : String.fromUTF8? b with
  | none =>
    rw [load_of_undecodable h hb] at hf
    obtain rfl := Except.error.inj hf
    exact Or.inl FaultSort.noConfusion
  | some s =>
    rw [load_of_text h hb] at hf
    obtain hsort | ⟨k, heq, hdeep⟩ := ofText_error hf
    · exact Or.inl hsort
    · exact Or.inr ⟨s, k, hb, heq, hdeep⟩

/-- the last of the bindings that are written counts, and else the default -/
theorem Holds.get? (h : Holds b c) (key : Text) :
    Fields.get? c key = (Fields.get? (written b).reverse key).or (Fields.get? defaults key) := by
  obtain ⟨s, v, ps, hb, hr, hps, rfl, -⟩ := h
  rw [Fields.get?_merge]
  congr 1
  cases v with
  | object fs =>
    obtain rfl := Except.ok.inj hps
    simp only [written, hb, hr]
    rw [Json.readFile_object hr, Fields.get?_reverse_ofPairs]
  | _ => simp only [written, hb, hr, hps, Except.toOption, Option.getD_some]

/-- every key is written, or one of the defaults -/
theorem Holds.keys (h : Holds b c) {key : Text} (hk : key ∈ Fields.keys c) :
    key ∈ Fields.keys (written b) ∨ key ∈ Fields.keys defaults := by
  by_contra hno
  obtain ⟨hw, hd⟩ := not_or.1 hno
  have hw' : key ∉ Fields.keys (written b).reverse := by
    rw [Fields.keys, List.map_reverse, List.mem_reverse]
    exact hw
  have hnone := h.get? key
  rw [(Fields.get?_eq_none_iff _ _).2 hw', (Fields.get?_eq_none_iff _ _).2 hd, Option.or_none] at hnone
  exact (Fields.get?_eq_none_iff c key).1 hnone hk

/-! ### In a store -/

/-- the value in a file -/
def valueIn (d : Disk) (path : Text) : Except ConfigFault Json :=
  match d.entry path with
  | .error _ => .error (.notFound path)
  | .ok .directory => .error (.disk (.isDirectory path))
  | .ok (.file .undecodable) => .error .undecodable
  | .ok (.file (.text s)) => (Json.readFile s).mapError .unread

theorem load_eq_bind (d : Disk) (path : Text) : load d path = (valueIn d path).bind ofJson := by
  unfold load valueIn
  rcases d.entry path with f | ((s | _) | _)
  · rfl
  · cases hr : Json.readFile s with
    | error f =>
      simp only [ofText_of_unread hr, hr]
      rfl
    | ok v =>
      simp only [ofText_of_read hr, hr]
      rfl
  · rfl
  · rfl

end Config

/-! ## The program -/

namespace Simulator

variable {g : Given} {d : Disk} {path : Text}

/-- the configuration file that a program uses: the one that is named, or else the usual one if it is there -/
inductive Uses (g : Given) (d : Disk) : Text → Prop
  | named (path : String) (h : Arguments.last? g "config" = some (.text path)) : Uses g d path
  | usual (h : Arguments.last? g "config" = none) (he : d.exists? usualConfig = true) : Uses g d usualConfig

theorem Uses.configuration (h : Uses g d path) : configuration g d = Config.load d path := by
  cases h with
  | named path h => simp only [Simulator.configuration, h]
  | usual h he => simp only [Simulator.configuration, h, he, if_true, Config.loadOrDefault]

/-- what a program does with a fault of its configuration -/
theorem start_of_fault {arguments : List String} {h : Host} {f : ConfigFault}
    (ha : Arguments.read options arguments = .run g) (hf : configuration g h.disk = .error f) :
    start arguments h = .finished (if f.isTold then { exit := some 1, shown := [.trouble (.config f)], disk := h.disk }
      else { fault := some (.config f), disk := h.disk }) := by
  simp only [start, ha, hf]
  split
  · rfl
  · rfl

end Simulator

/-! ## Any bytes -/

/-- what a load does with a file of these bytes -/
structure LoadsSoundly (d : Disk) (path : Text) (b : ByteArray) : Prop where
  /-- it returns the bindings over the defaults if they are accepted, and nothing else -/
  returns_iff : ∀ c, Config.load d path = .ok c ↔ Config.Holds b c
  accepted : ∀ c, Config.load d path = .ok c → c.Accepted
  /-- the last binding that is written counts, and else the default -/
  latest : ∀ c, Config.load d path = .ok c →
    ∀ key, Fields.get? c key = (Fields.get? (Config.written b).reverse key).or (Fields.get? Config.defaults key)
  keys : ∀ c, Config.load d path = .ok c →
    ∀ key ∈ Fields.keys c, key ∈ Fields.keys (Config.written b) ∨ key ∈ Fields.keys Config.defaults
  /-- an object, and a list of pairs, whose bindings over the defaults are accepted -/
  object : ∀ s fs, String.fromUTF8? b = some s → Json.readFile s = .ok (.object fs) →
    Config.Accepted (Config.defaults.merge fs) → Config.load d path = .ok (Config.defaults.merge fs)
  pairs : ∀ s ps, String.fromUTF8? b = some s →
    Json.readFile s = .ok (.list (ps.map fun p => .list [.string p.1, p.2])) →
    Config.Accepted (Config.defaults.merge ps) → Config.load d path = .ok (Config.defaults.merge ps)
  fails : ∀ f, Config.load d path = .error f → f.sort ≠ .other ∨ Config.TooDeep b f
  /-- a program that uses the file tells of its fault and exits with one, except for too much depth -/
  exits : ∀ f, Config.load d path = .error f → ∀ arguments g h, h.disk = d →
    Arguments.read Simulator.options arguments = .run g → Simulator.Uses g d path →
    if f.sort = .other then Simulator.start arguments h = .finished { fault := some (.config f), disk := d }
    else Simulator.start arguments h = .finished { exit := some 1, shown := [.trouble (.config f)], disk := d }
  /-- the defaults at the first place of a store are only copied, whatever the load comes to -/
  defaults : ∀ σ : Store, 0 < σ.length → Store.read σ 0 = Config.defaults →
    let o := Store.load σ (some (Config.valueIn d path))
    Store.read o.1 0 = Config.defaults ∧ Store.Loads σ (Config.load d path) o

/-- **A configuration file gives a sound configuration, or a fault that is told**, except for too much depth. -/
theorem loadsSoundly {d : Disk} {path : Text} {b : ByteArray} (h : d.entry path = .ok (.file (.ofBytes b))) :
    LoadsSoundly d path b where
  returns_iff := Config.load_eq_ok_iff h
  accepted := by
    intro c hc
    obtain ⟨s, v, ps, -, -, -, -, haccepted⟩ := (Config.load_eq_ok_iff h c).1 hc
    exact haccepted
  latest := fun c hc => ((Config.load_eq_ok_iff h c).1 hc).get?
  keys := fun c hc key hk => ((Config.load_eq_ok_iff h c).1 hc).keys hk
  object := fun s fs hb hr hc => (Config.load_eq_ok_iff h _).2 ⟨s, _, fs, hb, hr, rfl, rfl, hc⟩
  pairs := fun s ps hb hr hc => (Config.load_eq_ok_iff h _).2 ⟨s, _, ps, hb, hr, Config.bindings_pairs ps, rfl, hc⟩
  fails := fun f hf => Config.load_error h hf
  exits := by
    rintro f hf arguments g host rfl ha hu
    rw [Simulator.start_of_fault ha (hu.configuration.trans hf)]
    obtain hsort | ⟨s, k, -, rfl, -⟩ := Config.load_error h hf
    · rw [if_neg hsort, if_pos (ConfigFault.isTold_of_sort hsort)]
    · rfl
  defaults := by
    intro σ hlength hσ
    have hloads := Store.loads hσ (some (Config.valueIn d path))
    refine ⟨(hloads.kept 0 hlength).trans hσ, ?_⟩
    rw [Config.load_eq_bind]
    exact hloads

/-! ### A file with a key twice, and one with too much depth -/

namespace Config

/-- an object with a key twice -/
def twice : String := "\x7b\"max_steps\": 5, \"max_steps\": 7\x7d"

def twiceDisk : Disk := { files := [(["twice.json"], .text twice)] }

theorem twice_loadsSoundly :
    twiceDisk.entry "twice.json" = .ok (.file (.ofBytes twice.toUTF8)) ∧
      Fields.keys (written twice.toUTF8) = [("max_steps" : Text), "max_steps"] ∧
      (load twiceDisk "twice.json").toOption.map (intAt · "max_steps") = some 7 ∧
      LoadsSoundly twiceDisk "twice.json" twice.toUTF8 := by
  have hfile : twiceDisk.entry "twice.json" = .ok (.file (.ofBytes twice.toUTF8)) := by decide +kernel
  exact ⟨hfile, by decide +kernel, by decide +kernel, loadsSoundly hfile⟩

/-- lists inside one another, more of them than may be open at once -/
def deep : String := String.ofList (List.replicate 2000 '[' ++ List.replicate 2000 ']')

def deepDisk : Disk := { files := [(["deep.json"], .text deep)] }

theorem ofBytes_toUTF8 (s : String) : Contents.ofBytes s.toUTF8 = .text s := by
  have hs : String.fromUTF8? s.toUTF8 = some s := dif_pos s.isValidUTF8
  rw [Contents.ofBytes, hs]

theorem entry_deep (x : Contents) : Disk.entry { files := [(["deep.json"], x)] } "deep.json" = .ok (.file x) := by
  with_unfolding_all rfl

theorem readFile_deepText : Json.readFile deep = .error (.tooDeep .list) :=
  Json.readFile_deep (k := 2000) (by decide) String.toList_ofList

theorem load_deepDisk : load deepDisk "deep.json" = .error (.unread (.tooDeep .list)) :=
  (load_of_file (entry_deep (.text deep))).trans (ofText_of_unread readFile_deepText)

/-- **Too much depth is neither returned nor told**: a program that uses such a file ends in its fault. -/
theorem deep_uncaught :
    let f : ConfigFault := .unread (.tooDeep .list)
    deepDisk.entry "deep.json" = .ok (.file (.ofBytes deep.toUTF8)) ∧ load deepDisk "deep.json" = .error f ∧
      f.sort = .other ∧ f.isTold = false ∧
      ∀ h : Host, h.disk = deepDisk →
        Simulator.start ["--config", "deep.json"] h = .finished { fault := some (.config f), disk := deepDisk } := by
  refine ⟨?_, load_deepDisk, rfl, rfl, ?_⟩
  · rw [ofBytes_toUTF8]
    exact entry_deep (.text deep)
  · intro h hd
    have ha : Arguments.read Simulator.options ["--config", "deep.json"] = .run [("config", .text "deep.json")] := by
      decide +kernel
    have hc : Simulator.configuration [("config", .text "deep.json")] h.disk = .error (.unread (.tooDeep .list)) := by
      rw [hd]
      exact (Simulator.Uses.named "deep.json" rfl).configuration.trans load_deepDisk
    rw [Simulator.start_of_fault ha hc, ← hd]
    rfl

end Config
end TapeMachine
