/-
Configurations that are saved and loaded again.

Saving writes the configuration alone, loading binds what is in the file over the defaults. An accepted configuration
has all the default keys itself, so that no default comes through, and what is loaded is the same mapping
(`Fields.merge_keeps`). It has its keys in the order of the defaults; from then on saving and loading changes nothing
at all (`Fields.merge_merge`).

A configuration is checked before its file is opened. So the file of one that is refused stays as it was, and need not
even be there (`Config.store`, `Config.store_lossless`).
-/
import TapeMachine.Proofs.ConfigFiles
import TapeMachine.Proofs.Directory

namespace TapeMachine

/-! ## The same mapping -/

namespace Fields

variable {fs gs ps : Fields} {key : Text} {v : Json}

theorem mem_iff_get? (h : fs.keys.Nodup) : (key, v) ∈ fs ↔ fs.get? key = some v := by
  induction fs with
  | nil => simp [get?]
  | cons f fs ih =>
    obtain ⟨k, w⟩ := f
    obtain ⟨hk, hfs⟩ := List.nodup_cons.1 h
    have hfresh : ∀ v, (k, v) ∉ fs := fun v hv => hk (List.mem_map.2 ⟨(k, v), hv, rfl⟩)
    rw [List.mem_cons, Prod.mk.injEq, ih hfs]
    by_cases heq : k = key
    · subst heq
      rw [get?_cons_self, ← ih hfs]
      simp [hfresh v, eq_comm]
    · rw [get?_cons_of_ne heq]
      simp [Ne.symm heq]

theorem nodup_of_keys (h : fs.keys.Nodup) : fs.Nodup := List.Nodup.of_map _ h

/-- the same look-ups are the same pairs, in some order -/
theorem perm_of_get? (hf : fs.keys.Nodup) (hg : gs.keys.Nodup) (h : ∀ key, fs.get? key = gs.get? key) :
    fs.Perm gs := by
  rw [List.perm_ext_iff_of_nodup (nodup_of_keys hf) (nodup_of_keys hg)]
  rintro ⟨key, v⟩
  rw [mem_iff_get? hf, mem_iff_get? hg, h key]

/-- with the keys in the same order they are the same -/
theorem eq_of_get? (hk : fs.keys = gs.keys) (hf : fs.keys.Nodup) (h : ∀ key, fs.get? key = gs.get? key) :
    fs = gs := by
  induction fs generalizing gs with
  | nil => exact (List.map_eq_nil_iff.1 hk.symm).symm
  | cons f fs ih =>
    obtain ⟨k, v⟩ := f
    rcases gs with _ | ⟨⟨k', w⟩, gs⟩
    · cases hk
    · obtain ⟨rfl, hrest⟩ : k = k' ∧ keys fs = keys gs := List.cons.inj hk
      obtain ⟨hfresh, hnodup⟩ := List.nodup_cons.1 hf
      have hhead := h k
      rw [get?_cons_self, get?_cons_self, Option.some.injEq] at hhead
      have htail : ∀ key, get? fs key = get? gs key := by
        intro key
        by_cases heq : k = key
        · subst heq
          have hfresh' : k ∉ keys gs := hrest ▸ hfresh
          rw [(get?_eq_none_iff fs k).2 hfresh, (get?_eq_none_iff gs k).2 hfresh']
        · have hkey := h key
          rwa [get?_cons_of_ne heq, get?_cons_of_ne heq] at hkey
      rw [hhead, ih hrest hnodup htail]

/-- the keys that are new come behind those that are there -/
theorem keys_merge (fs : Fields) (h : ps.keys.Nodup) :
    (fs.merge ps).keys = fs.keys ++ ps.keys.filter (fun k => decide (k ∉ fs.keys)) := by
  induction ps generalizing fs with
  | nil => simp [merge, keys]
  | cons p ps ih =>
    obtain ⟨hp, hps⟩ := List.nodup_cons.1 h
    have hkeys : keys (p :: ps) = p.1 :: keys ps := rfl
    rw [merge_cons_eq, ih _ hps, keys_put, hkeys]
    split_ifs with hmem
    · rw [List.filter_cons_of_neg (by simpa using hmem)]
    · have hfilter : (keys ps).filter (fun k => decide (k ∉ fs.keys ++ [p.1])) =
          (keys ps).filter fun k => decide (k ∉ fs.keys) := by
        apply List.filter_congr
        intro k hk
        have hne : k ≠ p.1 := fun heq => hp (heq ▸ hk)
        simp [hne]
      rw [List.filter_cons_of_pos (by simpa using hmem), hfilter, List.append_assoc, List.singleton_append]

/-- fields that have every key of those below them keep all their values -/
theorem merge_keeps (hps : ps.keys.Nodup) (h : ∀ key ∈ fs.keys, key ∈ ps.keys) (key : Text) :
    (fs.merge ps).get? key = ps.get? key := by
  rw [get?_merge, get?_reverse hps]
  rcases hv : ps.get? key with _ | v
  · have hnone : fs.get? key = none := by
      rw [get?_eq_none_iff] at hv ⊢
      exact fun hk => hv (h key hk)
    rw [hnone]
    rfl
  · rfl

/-- what came of a merge is merged as it is -/
theorem merge_merge (hfs : fs.keys.Nodup) (hps : ps.keys.Nodup) : fs.merge (fs.merge ps) = fs.merge ps := by
  have hnodup := nodup_keys_merge hfs ps
  have hkeys := keys_merge fs hps
  have hnew : ((fs.merge ps).keys.filter fun k => decide (k ∉ fs.keys)) =
      ps.keys.filter fun k => decide (k ∉ fs.keys) := by
    rw [hkeys, List.filter_append, List.filter_filter]
    simp
  refine eq_of_get? ?_ (nodup_keys_merge hfs _) (merge_keeps hnodup ?_)
  · rw [keys_merge fs hnodup, hnew, hkeys]
  · intro key hkey
    rw [hkeys]
    exact List.mem_append_left _ hkey

end Fields

/-! ## Equal values -/

namespace Json

mutual

/-- whether two values are the same -/
def same : Json → Json → Bool
  | .null, .null => true
  | .bool a, .bool b => decide (a = b)
  | .number m, .number n => decide (m = n)
  | .string s, .string t => decide (s = t)
  | .list vs, .list ws => sameItems vs ws
  | .object fs, .object gs => sameFields fs gs
  | _, _ => false

def sameItems : List Json → List Json → Bool
  | [], [] => true
  | v :: vs, w :: ws => same v w && sameItems vs ws
  | _, _ => false

def sameFields : List (Text × Json) → List (Text × Json) → Bool
  | [], [] => true
  | (k, v) :: fs, (l, w) :: gs => decide (k = l) && same v w && sameFields fs gs
  | _, _ => false

end

mutual

theorem same_iff_eq : ∀ v w : Json, same v w = true ↔ v = w
  | .null, w => by cases w <;> simp [same]
  | .bool a, w => by cases w <;> simp [same]
  | .number m, w => by cases w <;> simp [same]
  | .string s, w => by cases w <;> simp [same]
  | .list vs, w => by cases w <;> simp [same, sameItems_iff_eq vs]
  | .object fs, w => by cases w <;> simp [same, sameFields_iff_eq fs]

theorem sameItems_iff_eq : ∀ vs ws : List Json, sameItems vs ws = true ↔ vs = ws
  | [], ws => by cases ws <;> simp [sameItems]
  | v :: vs, ws => by cases ws <;> simp [sameItems, same_iff_eq v, sameItems_iff_eq vs]

theorem sameFields_iff_eq : ∀ fs gs : List (Text × Json), sameFields fs gs = true ↔ fs = gs
  | [], gs => by cases gs <;> simp [sameFields]
  | (k, v) :: fs, gs => by
    rcases gs with _ | ⟨⟨l, w⟩, gs⟩
    · simp [sameFields]
    · simp [sameFields, same_iff_eq v, sameFields_iff_eq fs]

end

instance : DecidableEq Json := fun v w => decidable_of_iff (same v w = true) (same_iff_eq v w)

end Json
namespace Config

variable {c c' : Config} {d d' : Disk} {path : Text}

/-- each key of the one has the same value in the other, and there is no other key -/
structure SameMapping (c c' : Config) : Prop where
  get? : ∀ key, Fields.get? c' key = Fields.get? c key
  pairs : List.Perm c' c

theorem Accepted.congr (h : c.Accepted) (hget : ∀ key, Fields.get? c' key = Fields.get? c key) : c'.Accepted := by
  have hint : ∀ key, intAt c' key = intAt c key := by
    intro key
    rw [intAt, intAt, hget]
  constructor
  · intro s hs
    rw [hget]
    exact h.kinds s hs
  · simpa only [hint] using h.buffer
  · simpa only [hint] using h.floor
  · simpa only [hint] using h.ordered
  · simpa only [hint] using h.steps

theorem nodup_keys_defaults : (Fields.keys defaults).Nodup := by decide

/-- an accepted configuration has all the default keys -/
theorem Accepted.default_keys (h : c.Accepted) : ∀ key ∈ Fields.keys defaults, key ∈ Fields.keys c := by
  intro key hkey
  obtain ⟨f, hf, rfl⟩ := List.mem_map.1 hkey
  obtain ⟨s, hs, rfl⟩ := List.mem_map.1 hf
  obtain ⟨v, hv, -⟩ := h.kinds s hs
  by_contra hno
  rw [(Fields.get?_eq_none_iff c s.key).2 hno] at hv
  cases hv

/-- what is loaded of an accepted configuration -/
theorem Accepted.loaded (h : c.Accepted) (hc : (Fields.keys c).Nodup) :
    SameMapping c (defaults.merge c) ∧ Accepted (defaults.merge c) := by
  have hget := Fields.merge_keeps hc h.default_keys
  exact ⟨⟨hget, Fields.perm_of_get? (Fields.nodup_keys_merge nodup_keys_defaults c) hc hget⟩, h.congr hget⟩

/-! ## Reading back -/

/-- the text that is written of the configuration is read as the configuration -/
def ReadsBack (c : Config) : Prop := Json.readFile c.fileText = .ok (.object c)

instance (c : Config) : Decidable c.ReadsBack := inferInstanceAs (Decidable (_ = _))

theorem ReadsBack.nodup (h : c.ReadsBack) : (Fields.keys c).Nodup := by
  rw [Json.readFile_object h]
  have hempty : (Fields.keys []).Nodup := List.nodup_nil
  exact Fields.nodup_keys_merge hempty _

/-- what is loaded from a file with an accepted configuration -/
theorem ReadsBack.load_eq (h : c.ReadsBack) (hc : c.Accepted) (he : d.entry path = .ok (.file (.text c.fileText))) :
    load d path = .ok (defaults.merge c) := by
  rw [load_of_file he, ofText_of_read h]
  exact (checked_eq_ok_iff _ _).2 ⟨rfl, (hc.loaded h.nodup).2⟩

/-! ## Saving step by step -/

/-- saves a configuration step by step, and gives the disk as each of them leaves it: the configuration is checked, then
the file is opened, which makes it or empties it, and then it is written -/
def store (c : Config) (path : Text) (d : Disk) : Disk × Except ConfigFault Unit :=
  match c.validate with
  | .error f => (d, .error (.setting f))
  | .ok () =>
    match d.write path "" with
    | .error f => (d, .error (.disk f))
    | .ok opened =>
      match opened.append path c.fileText with
      | .error f => (opened, .error (.disk f))
      | .ok written => (written, .ok ())

theorem store_of_invalid {f : SettingFault} (h : c.validate = .error f) (path : Text) (d : Disk) :
    store c path d = (d, .error (.setting f)) := by
  rw [store, h]

theorem save_of_invalid {f : SettingFault} (h : c.validate = .error f) (d : Disk) (path : Text) :
    save c d path = .error (.setting f) := by
  simp only [save, checked, h]
  rfl

theorem save_of_valid (h : c.validate = .ok ()) (d : Disk) (path : Text) :
    save c d path = (d.write path c.fileText).mapError .disk := by
  simp only [save, checked, h]
  rfl

/-- the file of a configuration that is accepted, where there is a place for it -/
theorem store_of_place {q : Route} (h : c.validate = .ok ()) (hq : d.HasPlace path q) :
    store c path d = ({ d with files := Disk.putFile d.files q (.text c.fileText) }, .ok ()) := by
  have hopen := hq.alter_eq fun _ => .text ""
  have hempty : ("" : String) ++ c.fileText = c.fileText := String.empty_append
  rw [store, h, Disk.write, hopen]
  simp only [Disk.append, (hq.put (.text "")).alter_eq, Disk.file?_putFile, if_true, Disk.putFile_putFile, hempty]

/-- step by step the same is done as at once -/
theorem store_eq_save (c : Config) (path : Text) (d : Disk) :
    store c path d = match save c d path with
      | .ok d' => (d', .ok ())
      | .error f => (d, .error f) := by
  rcases hv : c.validate with f | ⟨⟩
  · rw [store_of_invalid hv, save_of_invalid hv]
  · rw [save_of_valid hv]
    rcases hw : d.write path c.fileText with f | d'
    · have hopen : d.write path "" = .error f := Disk.alter_error hw _
      simp only [store, hv, hopen]
      rfl
    · obtain ⟨q, hq⟩ := Disk.hasPlace_of_alter hw
      rw [Disk.write, hq.alter_eq] at hw
      rw [store_of_place hv hq, ← Except.ok.inj hw]
      rfl

/-- an accepted configuration that reads back is loaded from the file that it was saved in, over the defaults -/
theorem load_of_place {q : Route} (hv : c.validate = .ok ()) (hc : c.ReadsBack) (hq : d.HasPlace path q) :
    ∃ d', store c path d = (d', .ok ()) ∧ d'.HasPlace path q ∧ load d' path = .ok (defaults.merge c) :=
  ⟨_, store_of_place hv hq, hq.put _, hc.load_eq ((validate_eq_ok_iff c).1 hv) (hq.entry_put _)⟩

/-! ## Saving and loading -/

/-- What saving a configuration does. One that is refused is not written, with the fault of the check, and the disk
stays as it was. One that is accepted is loaded from its file as the same mapping, and that one as it is. -/
structure Lossless (c : Config) (path : Text) (d : Disk) : Prop where
  atOnce : store c path d = match save c d path with
    | .ok d' => (d', .ok ())
    | .error f => (d, .error f)
  refused : ∀ f, c.validate = .error f →
    save c d path = .error (.setting f) ∧ store c path d = (d, .error (.setting f))
  kept : c.validate = .ok () → c.ReadsBack → ∀ opened, d.write path "" = .ok opened →
    ∃ d₁, store c path d = (d₁, .ok ()) ∧ load d₁ path = .ok (defaults.merge c) ∧ SameMapping c (defaults.merge c) ∧
      (ReadsBack (defaults.merge c) → ∃ d₂, store (defaults.merge c) path d₁ = (d₂, .ok ()) ∧
        load d₂ path = .ok (defaults.merge c))

theorem store_lossless (c : Config) (path : Text) (d : Disk) : Lossless c path d := by
  refine ⟨store_eq_save c path d, fun f hf => ⟨save_of_invalid hf d path, store_of_invalid hf path d⟩, ?_⟩
  intro hv hc opened hopen
  obtain ⟨q, hq⟩ := Disk.hasPlace_of_alter hopen
  obtain ⟨d₁, hstore, hq₁, hload⟩ := load_of_place hv hc hq
  obtain ⟨hsame, haccepted⟩ := ((validate_eq_ok_iff c).1 hv).loaded hc.nodup
  refine ⟨d₁, hstore, hload, hsame, ?_⟩
  intro hc₁
  obtain ⟨d₂, hstore₂, -, hload₂⟩ := load_of_place ((validate_eq_ok_iff _).2 haccepted) hc₁ hq₁
  exact ⟨d₂, hstore₂, by rw [hload₂, Fields.merge_merge nodup_keys_defaults hc.nodup]⟩

/-- a configuration with a key of its own, and the others not in the order of the defaults -/
def tailored : Config :=
  [("note", .list [.null, .string "a"]), ("max_steps", .ofInt 7), ("tape_buffer", .ofInt 1),
   ("min_interval_ms", .ofInt 0), ("max_interval_ms", .ofInt 0), ("default_speed", .ofInt (-5)),
   ("render_window", .ofInt 3), ("log_enabled", .bool false), ("output_directory", .string ""),
   ("log_file_prefix", .string "x")]

/-- the same with its keys in the order in which they are loaded -/
def tailoredLoaded : Config :=
  [("tape_buffer", .ofInt 1), ("min_interval_ms", .ofInt 0), ("max_interval_ms", .ofInt 0),
   ("default_speed", .ofInt (-5)), ("max_steps", .ofInt 7), ("render_window", .ofInt 3), ("log_enabled", .bool false),
   ("output_directory", .string ""), ("log_file_prefix", .string "x"), ("note", .list [.null, .string "a"])]

theorem merge_tailored : defaults.merge tailored = tailoredLoaded := by decide

-- the text of the file is taken apart into characters first: as strings they take the kernel long to join
theorem readsBack_tailored : tailored.ReadsBack ∧ tailoredLoaded.ReadsBack := by
  simp only [ReadsBack, Json.readFile, Json.read, fileText, tailored, tailoredLoaded, Json.spread, Json.spreadFields,
    Json.spreadItems, Json.lineBreak, Json.writeText, Json.ofInt, String.toList_append, String.toList_intercalate,
    String.toList_ofList]
  constructor <;> decide +kernel

theorem tailored_lossless :
    (∃ d₁ d₂, store tailored "own.json" {} = (d₁, .ok ()) ∧ load d₁ "own.json" = .ok tailoredLoaded ∧
      SameMapping tailored tailoredLoaded ∧ store tailoredLoaded "own.json" d₁ = (d₂, .ok ()) ∧
      load d₂ "own.json" = .ok tailoredLoaded) ∧
    store [] "own.json" { files := [(["own.json"], .text "kept")] } =
      ({ files := [(["own.json"], .text "kept")] }, .error (.setting (.missing "tape_buffer"))) := by
  obtain ⟨hread, hread₁⟩ := readsBack_tailored
  have hkept := (store_lossless tailored "own.json" {}).kept (by decide) hread _ rfl
  rw [merge_tailored] at hkept
  obtain ⟨d₁, hstore, hload, hsame, hagain⟩ := hkept
  obtain ⟨d₂, hstore₂, hload₂⟩ := hagain hread₁
  exact ⟨⟨d₁, d₂, hstore, hload, hsame, hstore₂, hload₂⟩, ((store_lossless [] "own.json" _).refused _ rfl).2⟩

end Config
end TapeMachine
