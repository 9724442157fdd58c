/-
The files of one directory.

A path that is a directory and a name leads to the file of that name in it, whatever way the path of the directory
takes (`Disk.Opens.locate_name`). Writing such a file makes or removes no directory (`Disk.sameDirectories_putFile`),
so every path that led to a place leads there after it too, and no other file changes (`Disk.file?_putFile`).
-/
import Mathlib.Tactic
import TapeMachine.Storage.Disk

namespace TapeMachine

namespace Path

/-! ## Components -/

theorem runs_append (acc ps qs : List CodePoint) {p : CodePoint} (hp : isSlash p = true) :
    runs acc (ps ++ p :: qs) = runs acc ps ++ runs [] qs := by
  induction ps generalizing acc with
  | nil => simp only [List.nil_append, runs, hp, if_true, List.singleton_append]
  | cons q ps ih =>
    rw [List.cons_append, runs, runs]
    split_ifs
    · rw [ih, List.cons_append]
    · exact ih (q :: acc)

theorem runs_of_forall (acc ps : List CodePoint) (h : ∀ p ∈ ps, isSlash p = false) :
    runs acc ps = [acc.reverse ++ ps] := by
  induction ps generalizing acc with
  | nil => rw [runs, List.append_nil]
  | cons p ps ih =>
    obtain ⟨hp, hps⟩ := List.forall_mem_cons.1 h
    rw [runs, if_neg (by rw [hp]; exact Bool.false_ne_true), ih (p :: acc) hps, List.reverse_cons, List.append_assoc,
      List.singleton_append]

/-- a text that can be the name of a file: characters, without slashes and null, and not a way to a directory -/
structure FileName (name : Text) : Prop where
  points : ∀ p ∈ name.points, p.isHalf = false ∧ isSlash p = false ∧ p ≠ '\x00'
  leads : stays name = false ∧ name ≠ up

section FileName

variable {directory name : Text}

theorem FileName.not_rooted (h : FileName name) : isRooted name = false := by
  rw [isRooted]
  cases hn : name.points with
  | nil => rfl
  | cons p ps => exact (h.points p (hn ▸ List.mem_cons_self)).2.1

theorem FileName.name_eq (h : FileName name) : Path.name name = name := by
  have hbytes : name.points.any isByte = false := by
    rw [List.any_eq_false]
    intro p hp hbyte
    have hhalf : ¬ (0xD800 ≤ p.code ∧ p.code ≤ 0xDFFF) := of_decide_eq_false (h.points p hp).1
    have hrange : 0xDC80 ≤ p.code ∧ p.code ≤ 0xDCFF := of_decide_eq_true hbyte
    omega
  rw [Path.name, hbytes]
  rfl

theorem FileName.advance_eq (h : FileName name) (r : Route) : advance r name = r ++ [name] := by
  rw [advance, h.leads.1, if_neg Bool.false_ne_true, if_neg h.leads.2, h.name_eq]

theorem FileName.append_nonempty (h : FileName name) (t : Text) : (t ++ name).isEmpty = false := by
  obtain ⟨ps⟩ := name
  cases ps with
  | nil => exact absurd h.leads.1 (by decide)
  | cons p ps => simp [Text.isEmpty]

/-- the path of a directory, with a slash at its end unless it is empty or has one there -/
theorem join_empty (directory : Text) :
    join directory "" =
      if directory.isEmpty || directory.points.getLast?.any isSlash then directory else directory ++ "/" := by
  have hempty : ∀ t : Text, t ++ ("" : Text) = t := fun t => congrArg Text.mk (List.append_nil t.points)
  have hroot : isRooted "" = false := rfl
  rw [join, hroot, if_neg Bool.false_ne_true, hempty, hempty]

/-- a name stands behind the path of its directory -/
theorem join_eq (h : isRooted name = false) : join directory name = join directory "" ++ name := by
  rw [join_empty, join, h, if_neg Bool.false_ne_true]
  split_ifs <;> rfl

theorem join_empty_cases (directory : Text) :
    join directory "" = "" ∨ ∃ ps p, isSlash p = true ∧ join directory "" = ⟨ps ++ [p]⟩ := by
  rw [join_empty]
  obtain ⟨ps⟩ := directory
  rcases List.eq_nil_or_concat ps with rfl | ⟨ps, p, rfl⟩
  · exact Or.inl rfl
  · refine Or.inr ?_
    rw [List.concat_eq_append]
    by_cases hp : isSlash p = true
    · refine ⟨ps, p, hp, ?_⟩
      rw [if_pos]
      simp [hp]
    · refine ⟨ps ++ [p], .ofChar '/', rfl, ?_⟩
      rw [if_neg]
      · rfl
      · simp [hp, Text.isEmpty]

/-- the components of the path of a directory, and of the path of a name in it -/
theorem exists_split_join (directory : Text) :
    ∃ cs, split (join directory "") = cs ++ [Text.ofString ""] ∧
      ∀ name, FileName name → split (join directory name) = cs ++ [name] := by
  have hrun : ∀ {name}, FileName name → runs [] name.points = [name.points] :=
    fun {name} hn => runs_of_forall [] name.points fun p hp => (hn.points p hp).2.1
  rcases join_empty_cases directory with heq | ⟨ps, p, hp, heq⟩
  · refine ⟨[], by rw [heq]; rfl, ?_⟩
    intro name hn
    have hname : ("" : Text) ++ name = name := rfl
    rw [join_eq hn.not_rooted, heq, hname, split, hrun hn]
    rfl
  · refine ⟨(runs [] ps).map Text.mk, ?_, ?_⟩
    · rw [heq, split, runs_append [] ps [] hp, List.map_append]
      rfl
    · intro name hn
      have hpoints : ((⟨ps ++ [p]⟩ : Text) ++ name).points = ps ++ p :: name.points := by
        rw [Text.points_append, List.append_assoc, List.singleton_append]
      rw [join_eq hn.not_rooted, heq, split, hpoints, runs_append [] ps _ hp, List.map_append, hrun hn]
      rfl

theorem start_join (h : FileName name) : start (join directory name) = start (join directory "") := by
  rw [join_eq h.not_rooted]
  rcases join_empty_cases directory with heq | ⟨ps, p, -, heq⟩
  · have hpoints : (("" : Text) ++ name) = name := rfl
    rw [heq, hpoints, start, h.not_rooted]
    rfl
  · rw [heq, start, start, isRooted, isRooted, Text.points_append]
    cases ps <;> rfl

/-! ## Paths that can be asked for -/

theorem byteless?_eq_none_iff (i : ℕ) (ps : List CodePoint) :
    byteless? i ps = none ↔ ∀ p ∈ ps, (p.isHalf && !isByte p) = false := by
  induction ps generalizing i with
  | nil => exact iff_of_true rfl nofun
  | cons p ps ih =>
    rw [byteless?, List.forall_mem_cons]
    cases hp : p.isHalf && !isByte p with
    | true => simp
    | false => simp [ih]

theorem unusable?_eq_none_iff (path : Text) :
    unusable? path = none ↔ ∀ p ∈ path.points, (p.isHalf && !isByte p) = false ∧ p ≠ '\x00' := by
  rw [unusable?]
  cases hb : byteless? 0 path.points with
  | some half =>
    refine iff_of_false nofun ?_
    intro h
    have hnone := (byteless?_eq_none_iff 0 path.points).2 fun p hp => (h p hp).1
    exact absurd (hb.symm.trans hnone) nofun
  | none =>
    have hhalf := (byteless?_eq_none_iff 0 path.points).1 hb
    simp only [ite_eq_right_iff, List.contains_iff_mem, reduceCtorEq, imp_false]
    constructor
    · intro hnull p hp
      exact ⟨hhalf p hp, fun h => hnull (h ▸ hp)⟩
    · intro h hnull
      exact (h _ hnull).2 rfl

theorem unusable?_join (h : FileName name) (hd : unusable? (join directory "") = none) :
    unusable? (join directory name) = none := by
  rw [unusable?_eq_none_iff] at hd ⊢
  rw [join_eq h.not_rooted, Text.points_append, List.forall_mem_append]
  refine ⟨hd, ?_⟩
  intro p hp
  obtain ⟨hhalf, -, hnull⟩ := h.points p hp
  exact ⟨by rw [hhalf]; rfl, hnull⟩

end FileName

end Path

namespace Disk

/-! ## Directories -/

variable {d d' : Disk} {directory name : Text} {r q : Route}

/-- the same places are directories -/
def SameDirectories (d d' : Disk) : Prop := ∀ r, d'.isDirectory r = d.isDirectory r

theorem SameDirectories.enter (h : SameDirectories d d') {component : Text} (he : d.enter r component = .ok q) :
    d'.enter r component = .ok q := by
  rw [Disk.enter] at he ⊢
  rw [h r]
  split_ifs at he ⊢
  exact he

theorem SameDirectories.foldlM_enter (h : SameDirectories d d') {components : List Text}
    (hf : components.foldlM d.enter r = .ok q) : components.foldlM d'.enter r = .ok q := by
  induction components generalizing r with
  | nil => exact hf
  | cons c cs ih =>
    rw [List.foldlM_cons] at hf ⊢
    cases he : d.enter r c with
    | error o =>
      rw [he] at hf
      cases hf
    | ok r' =>
      rw [he] at hf
      rw [h.enter he]
      exact ih hf

theorem SameDirectories.walk (h : SameDirectories d d') {components : List Text}
    (hw : d.walk r components = .ok q) : d'.walk r components = .ok q := by
  rw [Disk.walk] at hw ⊢
  rw [h]
  split_ifs at hw ⊢
  · exact hw
  · exact h.foldlM_enter hw

/-- the path of the directory leads there -/
structure Opens (d : Disk) (directory : Text) (r : Route) : Prop where
  usable : Path.unusable? (Path.join directory "") = none
  located : d.locate (Path.join directory "") = .ok r

/-- the name, and the path with it, are not too long -/
structure Short (directory name : Text) : Prop where
  nameShort : Path.isLongName name = false
  pathShort : Path.isLong (Path.join directory name) = false

theorem locate_ok_iff {path component : Text} {cs : List Text} (hsplit : Path.split path = cs ++ [component]) :
    d.locate path = .ok q ↔ path.isEmpty = false ∧ Path.isLong path = false ∧
      ∃ r, d.walk (Path.start path) cs = .ok r ∧ d.enter r component = .ok q := by
  rw [locate, hsplit]
  simp only [List.dropLast_concat, List.getLast?_concat, Option.getD_some, bind]
  split_ifs with hempty hlong
  · simp [hempty]
  · simp [hlong]
  · cases d.walk (Path.start path) cs with
    | error o => simp [Except.bind]
    | ok r => simp [Except.bind, hempty, hlong]

theorem enter_ok_iff {component : Text} : d.enter r component = .ok q ↔
    d.isDirectory r = true ∧ Path.isLongName component = false ∧ Path.advance r component = q := by
  rw [enter]
  split_ifs with hdir hlong
  · simp_all
  · simp [hlong]
  · simp_all

theorem SameDirectories.opens (h : SameDirectories d d') (ho : Opens d directory r) : Opens d' directory r := by
  refine ⟨ho.usable, ?_⟩
  obtain ⟨cs, hsplit, -⟩ := Path.exists_split_join directory
  have hloc := ho.located
  rw [locate_ok_iff hsplit] at hloc ⊢
  obtain ⟨hempty, hlong, r', hwalk, henter⟩ := hloc
  exact ⟨hempty, hlong, r', h.walk hwalk, h.enter henter⟩

/-- the components of the path lead to the directory, so that the path of a name in it leads to that name there -/
theorem Opens.locate_name (ho : Opens d directory r) :
    d.isDirectory r = true ∧
      ∀ name, Path.FileName name → Short directory name → d.locate (Path.join directory name) = .ok (r ++ [name]) := by
  obtain ⟨cs, hsplit, hnames⟩ := Path.exists_split_join directory
  have hloc := ho.located
  rw [locate_ok_iff hsplit] at hloc
  obtain ⟨-, -, r', hwalk, henter⟩ := hloc
  obtain ⟨hdir, -, hstays⟩ := enter_ok_iff.1 henter
  obtain rfl : r' = r := hstays
  refine ⟨hdir, ?_⟩
  intro name hn hs
  rw [locate_ok_iff (hnames name hn)]
  refine ⟨?_, hs.pathShort, r', ?_, ?_⟩
  · rw [Path.join_eq hn.not_rooted]
    exact hn.append_nonempty _
  · rw [Path.start_join hn]
    exact hwalk
  · exact enter_ok_iff.2 ⟨hdir, hs.nameShort, hn.advance_eq r'⟩

/-! ## Files -/

theorem lookup_putFile (files : List (Route × Contents)) (r q : Route) (c : Contents) :
    (putFile files r c).lookup q = if q = r then some c else files.lookup q := by
  have hlookup : ∀ (p : Route) (x : Contents) (l : List (Route × Contents)),
      ((p, x) :: l).lookup q = if q = p then some x else l.lookup q := by
    intro p x l
    by_cases h : q = p
    · rw [h, List.lookup_cons_self, if_pos rfl]
    · rw [List.lookup_cons, beq_false_of_ne h, if_neg h]
  induction files with
  | nil => exact hlookup r c []
  | cons f files ih =>
    obtain ⟨r', c'⟩ := f
    rw [putFile, hlookup r' c']
    by_cases hr : r' = r
    · subst hr
      rw [if_pos rfl, hlookup]
      by_cases hq : q = r'
      · rw [if_pos hq, if_pos hq]
      · rw [if_neg hq, if_neg hq, if_neg hq]
    · rw [if_neg hr, hlookup, ih]
      by_cases hq : q = r'
      · rw [if_pos hq, if_pos hq, if_neg fun h => hr (hq.symm.trans h)]
      · rw [if_neg hq, if_neg hq]

theorem file?_putFile (d : Disk) (r q : Route) (c : Contents) :
    { d with files := putFile d.files r c }.file? q = if q = r then some c else d.file? q :=
  lookup_putFile d.files r q c

theorem any_putFile (files : List (Route × Contents)) (r : Route) (c : Contents) (p : Route → Bool) :
    ((putFile files r c).any fun f => p f.1) = ((files.any fun f => p f.1) || p r) := by
  induction files with
  | nil => simp [putFile]
  | cons f files ih =>
    rw [putFile]
    split_ifs with hr
    · subst hr
      simp only [List.any_cons]
      cases p f.1 <;> simp
    · simp only [List.any_cons, ih, Bool.or_assoc]

/-- what a directory lies in is a directory -/
theorem isDirectory_of_isPrefix (h : d.isDirectory r = true) (hq : q <+: r) : d.isDirectory q = true := by
  simp only [Disk.isDirectory, Bool.or_eq_true, beq_iff_eq, List.any_eq_true, Bool.and_eq_true, bne_iff_ne,
    List.isPrefixOf_iff_prefix] at h ⊢
  rcases h with ((rfl | hup) | ⟨p, hp, hpre⟩) | ⟨f, hf, hpre, hne⟩
  · rcases List.prefix_cons_iff.1 hq with rfl | ⟨t, rfl, ht⟩
    · exact Or.inl (Or.inl (Or.inr rfl))
    · rw [List.prefix_nil.1 ht]
      exact Or.inl (Or.inl (Or.inl rfl))
  · refine Or.inl (Or.inl (Or.inr ?_))
    rw [List.all_eq_true] at hup ⊢
    exact fun c hc => hup c (hq.subset hc)
  · exact Or.inl (Or.inr ⟨p, hp, hq.trans hpre⟩)
  · refine Or.inr ⟨f, hf, hq.trans hpre, ?_⟩
    rintro rfl
    exact hne (hpre.eq_of_length_le hq.length_le)

/-- a file in a directory that is there makes no other place a directory -/
theorem sameDirectories_putFile (h : d.isDirectory r = true) (name : Text) (c : Contents) :
    SameDirectories d { d with files := putFile d.files (r ++ [name]) c } := by
  intro q
  have hany := any_putFile d.files (r ++ [name]) c fun s => q.isPrefixOf s && q != s
  have hboth : { d with files := putFile d.files (r ++ [name]) c }.isDirectory q =
      (d.isDirectory q || (q.isPrefixOf (r ++ [name]) && q != r ++ [name])) := by
    rw [isDirectory, isDirectory, hany, ← Bool.or_assoc]
  rw [hboth, Bool.or_eq_left_iff_imp, Bool.and_eq_true, List.isPrefixOf_iff_prefix, bne_iff_ne]
  rintro ⟨hpre, hne⟩
  rcases List.prefix_concat_iff.1 hpre with heq | hr
  · exact absurd heq hne
  · exact isDirectory_of_isPrefix h hr

/-- there is nothing in the directory -/
structure EmptyAt (d : Disk) (r : Route) : Prop where
  files : ∀ f ∈ d.files, ¬ r <+: f.1
  directories : ∀ q ∈ d.directories, r <+: q → q = r

theorem EmptyAt.file?_eq (h : EmptyAt d r) (name : Text) : d.file? (r ++ [name]) = none := by
  rw [file?, List.lookup_eq_none_iff]
  intro f hf
  rw [bne_iff_ne]
  intro heq
  exact h.files f hf (heq ▸ List.prefix_append r [name])

theorem EmptyAt.isDirectory_eq (h : EmptyAt d r) (hn : Path.FileName name) : d.isDirectory (r ++ [name]) = false := by
  have hbelow : ∀ {q}, r ++ [name] <+: q → r <+: q := fun hq => (List.prefix_append r [name]).trans hq
  rw [← Bool.not_eq_true]
  simp only [Disk.isDirectory, Bool.or_eq_true, beq_iff_eq, List.any_eq_true, Bool.and_eq_true,
    List.isPrefixOf_iff_prefix]
  rintro (((heq | hup) | ⟨q, hq, hpre⟩) | ⟨f, hf, hpre, -⟩)
  · have hslash : name = Path.slash := (List.append_eq_singleton_iff.1 heq).elim (fun h => List.singleton_inj.1 h.2)
      fun h => absurd h.2 (List.cons_ne_nil _ _)
    obtain ⟨-, hno, -⟩ := hn.points '/' (by rw [hslash]; exact List.mem_cons_self)
    exact absurd hno (by decide)
  · rw [List.all_append, Bool.and_eq_true, List.all_cons, Bool.and_eq_true, beq_iff_eq] at hup
    exact hn.leads.2 hup.2.1
  · have hlen := hpre.length_le
    rw [h.directories q hq (hbelow hpre), List.length_append] at hlen
    exact absurd hlen (by simp)
  · exact h.files f hf (hbelow hpre)

/-- what is added to a file that is not there, or holds text -/
def extended (c : Option Contents) (text : String) : Contents :=
  match c with
  | some (.text s) => .text (s ++ text)
  | some .undecodable => .undecodable
  | none => .text text

/-- adding text to a file of the directory adds it there, and leaves the rest of the disk as it is -/
theorem Opens.append_name (ho : Opens d directory r) (hn : Path.FileName name) (hs : Short directory name)
    (hfile : d.isDirectory (r ++ [name]) = false) (text : String) :
    d.append (Path.join directory name) text =
      .ok { d with files := putFile d.files (r ++ [name]) (extended (d.file? (r ++ [name])) text) } := by
  rw [append, alter, Path.unusable?_join hn ho.usable, ho.locate_name.2 name hn hs]
  simp only [hfile, Bool.false_eq_true, if_false]
  rfl

/-! ## Writing at any path -/

theorem putFile_putFile (files : List (Route × Contents)) (r : Route) (c c' : Contents) :
    putFile (putFile files r c) r c' = putFile files r c' := by
  induction files with
  | nil => simp [putFile]
  | cons f files ih =>
    by_cases hr : f.1 = r
    · simp [putFile, hr]
    · simp [putFile, hr, ih]

/-- what is not a directory bears a name in one -/
theorem exists_name_of_enter {component : Text} (h : d.enter r component = .ok q) (hq : d.isDirectory q = false) :
    d.isDirectory r = true ∧ ∃ name, q = r ++ [name] := by
  obtain ⟨hdir, -, rfl⟩ := enter_ok_iff.1 h
  refine ⟨hdir, ?_⟩
  have hbelow : ∀ {q'}, q' <+: r → d.isDirectory q' = true := fun hpre => isDirectory_of_isPrefix hdir hpre
  rw [Path.advance] at hq ⊢
  split_ifs at hq ⊢ with hstays hup
  · exact absurd (hbelow (List.prefix_refl r)) (by simp [hq])
  · rw [Path.above] at hq ⊢
    split_ifs at hq ⊢ with hroot hall
    · exact absurd (hbelow (List.prefix_refl r)) (by simp [hq])
    · exact ⟨Path.up, rfl⟩
    · exact absurd (hbelow (List.dropLast_prefix r)) (by simp [hq])
  · exact ⟨Path.name component, rfl⟩

end Disk

theorem Path.exists_split (path : Text) : ∃ cs component, split path = cs ++ [component] := by
  have hruns : ∀ acc ps, runs acc ps ≠ [] := by
    intro acc ps
    induction ps generalizing acc with
    | nil => simp [runs]
    | cons p ps ih =>
      rw [runs]
      split_ifs
      · simp
      · exact ih _
  rcases List.eq_nil_or_concat (split path) with hnil | ⟨cs, component, hsplit⟩
  · exact absurd (List.map_eq_nil_iff.1 hnil) (hruns [] path.points)
  · exact ⟨cs, component, hsplit.trans List.concat_eq_append⟩

namespace Disk

variable {d d' : Disk} {path : Text} {r q : Route} {change : Option Contents → Contents} {c : Contents}

theorem SameDirectories.locate (h : SameDirectories d d') (hl : d.locate path = .ok q) : d'.locate path = .ok q := by
  obtain ⟨cs, component, hsplit⟩ := Path.exists_split path
  rw [locate_ok_iff hsplit] at hl ⊢
  obtain ⟨hempty, hlong, r, hwalk, henter⟩ := hl
  exact ⟨hempty, hlong, r, h.walk hwalk, h.enter henter⟩

/-- a file in the place that a path leads to makes no other place a directory -/
theorem sameDirectories_of_locate (hl : d.locate path = .ok q) (hq : d.isDirectory q = false) (c : Contents) :
    SameDirectories d { d with files := putFile d.files q c } := by
  obtain ⟨cs, component, hsplit⟩ := Path.exists_split path
  obtain ⟨-, -, r, -, henter⟩ := (locate_ok_iff hsplit).1 hl
  obtain ⟨hdir, name, rfl⟩ := exists_name_of_enter henter hq
  exact sameDirectories_putFile hdir name c

/-- the path leads to a place for a file -/
structure HasPlace (d : Disk) (path : Text) (q : Route) : Prop where
  usable : Path.unusable? path = none
  located : d.locate path = .ok q
  free : d.isDirectory q = false

theorem HasPlace.alter_eq (h : HasPlace d path q) (change : Option Contents → Contents) :
    d.alter path change = .ok { d with files := putFile d.files q (change (d.file? q)) } := by
  rw [alter, h.usable, h.located]
  simp only [h.free, Bool.false_eq_true, if_false]

/-- only at such a path can a file be written -/
theorem hasPlace_of_alter (h : d.alter path change = .ok d') : ∃ q, HasPlace d path q := by
  rw [alter] at h
  rcases hu : Path.unusable? path with _ | f
  · rcases hl : d.locate path with o | q
    · simp [hu, hl] at h
    · refine ⟨q, hu, hl, ?_⟩
      simp only [hu, hl] at h
      split_ifs at h with hdir
      exact Bool.not_eq_true _ ▸ hdir
  · simp [hu] at h

/-- that there is no place does not hang on what was to be written -/
theorem alter_error {f : DiskFault} (h : d.alter path change = .error f) (change' : Option Contents → Contents) :
    d.alter path change' = .error f := by
  rw [alter] at h ⊢
  rcases hu : Path.unusable? path with _ | f'
  · rcases hl : d.locate path with o | q
    · simpa only [hu, hl] using h
    · simp only [hu, hl] at h ⊢
      split_ifs at h ⊢
      exact h
  · simpa only [hu] using h

theorem HasPlace.put (h : HasPlace d path q) (c : Contents) :
    HasPlace { d with files := putFile d.files q c } path q := by
  have hsame := sameDirectories_of_locate h.located h.free c
  exact ⟨h.usable, hsame.locate h.located, (hsame q).trans h.free⟩

/-- what was written at a path is found there -/
theorem HasPlace.entry_put (h : HasPlace d path q) (c : Contents) :
    { d with files := putFile d.files q c }.entry path = .ok (.file c) := by
  obtain ⟨hu, hl, hfree⟩ := h.put c
  rw [entry, hu, hl]
  simp only [hfree, Bool.false_eq_true, if_false, file?_putFile, if_true]

end Disk
end TapeMachine
