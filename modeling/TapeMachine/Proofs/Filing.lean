/-
Which entry is in which file.

A journal keeps a book of events and one for each verdict, and each book has a file for each day. Whatever is written,
and however the clock is set between the calls, a file holds the lines of its book and its day, all of them, in the
order of the calls (`makeCalls_filed`). It takes that no two books share the name of a file (`Book.fileName_inj`): a
year before 1000 has fewer digits, so that digits at the end of a stem may stand for those that are missing
(`twoMillennia_misfiled`).
-/
import TapeMachine.Proofs.Directory
import TapeMachine.Proofs.OneLine
import TapeMachine.Storage.Journal

namespace TapeMachine

theorem Text.ofString_append (s t : String) : Text.ofString (s ++ t) = Text.ofString s ++ Text.ofString t := by
  refine congrArg Text.mk ?_
  rw [String.toList_append, List.map_append]
  rfl

/-! ## Days -/

theorem isDigit_of_mem_toDigits {n : ℕ} {c : Char} (h : c ∈ Nat.toDigits 10 n) : c.isDigit = true :=
  Nat.isDigit_of_mem_toDigits (by decide) (by decide) h

theorem toDigits_inj {m n : ℕ} (h : Nat.toDigits 10 m = Nat.toDigits 10 n) : m = n :=
  calc
    m = Nat.ofDigitChars 10 (Nat.toDigits 10 m) 0 := Nat.ofDigitChars_ten_toDigits.symm
    _ = Nat.ofDigitChars 10 (Nat.toDigits 10 n) 0 := by rw [h]
    _ = n := Nat.ofDigitChars_ten_toDigits

namespace Clock

variable {c D : Clock} {w m n : ℕ}

theorem toList_padded (w n : ℕ) :
    (padded w n).toList = List.replicate (w - (Nat.toDigits 10 n).length) '0' ++ Nat.toDigits 10 n := by
  rw [padded, String.toList_ofList]

theorem padded_inj (h : (padded w m).toList = (padded w n).toList) : m = n := by
  have hvalue : ∀ k, Nat.ofDigitChars 10 (padded w k).toList 0 = k := by
    intro k
    rw [toList_padded, Nat.ofDigitChars_append, Nat.ofDigitChars_replicate_zero, Nat.mul_zero,
      Nat.ofDigitChars_ten_toDigits]
  calc
    m = Nat.ofDigitChars 10 (padded w m).toList 0 := (hvalue m).symm
    _ = Nat.ofDigitChars 10 (padded w n).toList 0 := by rw [h]
    _ = n := hvalue n

theorem length_padded (hw : 0 < w) (hn : n < 10 ^ w) : (padded w n).toList.length = w := by
  have hlen := (Nat.length_toDigits_le_iff (b := 10) (by decide) hw).2 hn
  rw [toList_padded, List.length_append, List.length_replicate]
  omega

/-- the moment has a date, of a year up to 9999 -/
structure Dated (c : Clock) : Prop where
  year : 1 ≤ c.year ∧ c.year ≤ 9999
  month : 1 ≤ c.month ∧ c.month ≤ 12
  day : 1 ≤ c.day ∧ c.day ≤ 31

instance (c : Clock) : Decidable c.Dated :=
  decidable_of_iff ((1 ≤ c.year ∧ c.year ≤ 9999) ∧ (1 ≤ c.month ∧ c.month ≤ 12) ∧ 1 ≤ c.day ∧ c.day ≤ 31)
    ⟨fun h => ⟨h.1, h.2.1, h.2.2⟩, fun h => ⟨h.year, h.month, h.day⟩⟩

/-- the two moments are on one day -/
def SameDay (c D : Clock) : Prop := c.year = D.year ∧ c.month = D.month ∧ c.day = D.day

instance (c D : Clock) : Decidable (SameDay c D) := inferInstanceAs (Decidable (_ ∧ _))

theorem SameDay.dayName_eq (h : SameDay c D) : c.dayName = D.dayName := by
  rw [dayName, dayName, monthAndDay, monthAndDay, h.1, h.2.1, h.2.2]

theorem toList_dayName (c : Clock) :
    c.dayName.toList =
      Nat.toDigits 10 c.year ++ '-' :: (padded 2 c.month).toList ++ '-' :: (padded 2 c.day).toList := by
  have hyear : (toString c.year).toList = Nat.toDigits 10 c.year := Nat.toList_repr
  have hdash : "-".toList = ['-'] := rfl
  simp only [dayName, monthAndDay, String.toList_append, hyear, hdash, List.append_assoc, List.cons_append,
    List.nil_append]

/-- behind anything, the name of a day tells the month and the day, and what is before them -/
theorem dayName_append_inj (hc : c.Dated) (hD : D.Dated) {s t : List Char}
    (h : s ++ c.dayName.toList = t ++ D.dayName.toList) :
    s ++ Nat.toDigits 10 c.year = t ++ Nat.toDigits 10 D.year ∧ c.month = D.month ∧ c.day = D.day := by
  have hmonth : ∀ {c : Clock}, c.Dated → (padded 2 c.month).toList.length = 2 :=
    fun hc => length_padded (by decide) (lt_of_le_of_lt hc.month.2 (by decide))
  have hday : ∀ {c : Clock}, c.Dated → (padded 2 c.day).toList.length = 2 :=
    fun hc => length_padded (by decide) (lt_of_le_of_lt hc.day.2 (by decide))
  rw [toList_dayName, toList_dayName, ← List.append_assoc, ← List.append_assoc, ← List.append_assoc,
    ← List.append_assoc] at h
  obtain ⟨hleft, hd⟩ := List.append_inj' h (by rw [List.length_cons, List.length_cons, hday hc, hday hD])
  obtain ⟨hyear, hm⟩ := List.append_inj' hleft (by rw [List.length_cons, List.length_cons, hmonth hc, hmonth hD])
  exact ⟨hyear, padded_inj (List.cons.inj hm).2, padded_inj (List.cons.inj hd).2⟩

/-- a year has four digits from 1000 on -/
theorem length_year (hc : c.Dated) (h : 1000 ≤ c.year) : (Nat.toDigits 10 c.year).length = 4 := by
  have hle := (Nat.length_toDigits_le_iff (b := 10) (n := c.year) (k := 4) (by decide) (by decide)).2
    (lt_of_le_of_lt hc.year.2 (by decide))
  have hgt := (Nat.length_toDigits_le_iff (b := 10) (n := c.year) (k := 3) (by decide) (by decide)).not.2
    (not_lt_of_ge h)
  omega

end Clock

/-! ## Books -/

/-- what a journal keeps: its events, and the runs of each verdict -/
inductive Book where
  | events
  | runs (v : Verdict)
deriving DecidableEq, Repr

namespace Book

variable {b b' : Book} {own : String} {c D : Clock}

/-- what the names of the files of a book begin with; that of the events is the journal's own -/
def stem (own : String) : Book → String
  | .events => own
  | .runs v => v.name ++ "_"

/-- the name of the file of a book for the day of a moment -/
def fileName (own : String) (b : Book) (c : Clock) : Text := b.stem own ++ c.dayName ++ ".jsonl"

/-- the stem of the events is not that of a verdict, and for a year before 1000 not that of one with digits behind it -/
structure Distinct (own : String) (c : Clock) : Prop where
  alone : ∀ v : Verdict, own ≠ v.name ++ "_"
  digits : 1000 ≤ c.year ∨
    ∀ (v : Verdict) (ds : String), (∀ ch ∈ ds.toList, ch.isDigit = true) → own ≠ v.name ++ "_" ++ ds

/-- of two texts that end with the digits of a year, one of them a verdict's, the other one has but digits more -/
theorem exists_digits {s y y' : List Char} {v : Verdict} (hy : ∀ ch ∈ y, ch.isDigit = true)
    (hy' : ∀ ch ∈ y', ch.isDigit = true) (h : s ++ y = (v.name ++ "_").toList ++ y') :
    ∃ ds, (∀ ch ∈ ds, ch.isDigit = true) ∧ s = (v.name ++ "_").toList ++ ds ∧ y' = ds ++ y := by
  rcases List.append_eq_append_iff.1 h with ⟨as, hv, hyear⟩ | ⟨ds, hs, hyear⟩
  · rcases List.eq_nil_or_concat as with rfl | ⟨as, ch, rfl⟩
    · exact ⟨[], nofun, by rw [List.append_nil] at hv ⊢; exact hv.symm, hyear.symm⟩
    · -- the verdict's text ends with a low line, which is no digit
      have hlow : "_".toList = ['_'] := rfl
      rw [String.toList_append, hlow, List.concat_eq_append, ← List.append_assoc] at hv
      have hlast : '_' = ch := List.singleton_inj.1 (List.append_inj' hv rfl).2
      have hdigit := hy ch (by rw [hyear]; simp)
      rw [← hlast] at hdigit
      exact absurd hdigit (by decide)
  · exact ⟨ds, fun ch hch => hy' ch (by rw [hyear]; exact List.mem_append_left _ hch), hs, hyear⟩

theorem digits_year (c : Clock) : ∀ ch ∈ Nat.toDigits 10 c.year, ch.isDigit = true :=
  fun _ h => isDigit_of_mem_toDigits h

/-- no file for events has the name of a file for runs -/
theorem stem_ne_runs (hc : c.Dated) (hD : D.Dated) (hdc : Distinct own c) (hdD : Distinct own D) (v : Verdict) :
    own.toList ++ Nat.toDigits 10 c.year ≠ (v.name ++ "_").toList ++ Nat.toDigits 10 D.year := by
  intro h
  obtain ⟨ds, hdigits, hstem, hyear⟩ := exists_digits (digits_year c) (digits_year D) h
  have hds : own = v.name ++ "_" ++ String.ofList ds := by
    rw [← String.toList_inj, hstem, String.toList_append (s := v.name ++ "_"), String.toList_ofList]
  have hchars : ∀ ch ∈ (String.ofList ds).toList, ch.isDigit = true := by
    rw [String.toList_ofList]
    exact hdigits
  rcases hdc.digits with hcy | hno
  · rcases hdD.digits with hDy | hno
    · have hlen := congrArg List.length hyear
      rw [List.length_append, Clock.length_year hc hcy, Clock.length_year hD hDy] at hlen
      have hnil : ds = [] := List.length_eq_zero_iff.1 (by omega)
      exact hdc.alone v (by rw [hds, hnil]; simp)
    · exact hno v _ hchars hds
  · exact hno v _ hchars hds

theorem toList_stem_inj (hc : c.Dated) (hD : D.Dated) (hdc : Distinct own c) (hdD : Distinct own D)
    (h : (b.stem own).toList ++ Nat.toDigits 10 c.year = (b'.stem own).toList ++ Nat.toDigits 10 D.year) :
    b = b' ∧ c.year = D.year := by
  cases b with
  | events =>
    cases b' with
    | events => exact ⟨rfl, toDigits_inj (List.append_cancel_left h)⟩
    | runs v => exact absurd h (stem_ne_runs hc hD hdc hdD v)
  | runs v =>
    cases b' with
    | events => exact absurd h.symm (stem_ne_runs hD hc hdD hdc v)
    | runs v' =>
      have hlen : (v.name ++ "_").toList.length = (v'.name ++ "_").toList.length := by
        cases v <;> cases v' <;> decide +kernel
      obtain ⟨hname, hyear⟩ := List.append_inj h hlen
      refine ⟨?_, toDigits_inj hyear⟩
      have hv : v.name ++ "_" = v'.name ++ "_" := String.toList_inj.1 hname
      cases v <;> cases v' <;> first | rfl | exact absurd hv (by decide +kernel)

theorem fileName_eq (own : String) (b : Book) (c : Clock) :
    b.fileName own c = Text.ofString (b.stem own ++ c.dayName ++ ".jsonl") := by
  rw [fileName, Text.ofString_append, Text.ofString_append]

/-- the name of a file tells its book and its day -/
theorem fileName_inj (hc : c.Dated) (hD : D.Dated) (hdc : Distinct own c) (hdD : Distinct own D) :
    b.fileName own c = b'.fileName own D ↔ b = b' ∧ c.SameDay D := by
  constructor
  · intro h
    rw [fileName_eq, fileName_eq, Text.ofString_inj, ← String.toList_inj, String.toList_append, String.toList_append,
      String.toList_append, String.toList_append] at h
    obtain ⟨hyears, hmonth, hday⟩ := Clock.dayName_append_inj hc hD (List.append_cancel_right h)
    obtain ⟨hbook, hyear⟩ := toList_stem_inj hc hD hdc hdD hyears
    exact ⟨hbook, hyear, hmonth, hday⟩
  · rintro ⟨rfl, hday⟩
    rw [fileName, fileName, hday.dayName_eq]

/-- a string that can be the first part of the name of a file -/
def Plain (own : String) : Prop := ∀ ch ∈ own.toList, ch ≠ '/' ∧ ch ≠ '\x00'

theorem plain_of_all {s : String} (h : (s.toList.all fun ch => ch != '/' && ch != '\x00') = true) : Plain s := by
  intro ch hch
  have hboth := List.all_eq_true.1 h ch hch
  rw [Bool.and_eq_true, bne_iff_ne, bne_iff_ne] at hboth
  exact hboth

theorem plain_of_digits {ch : Char} (h : ch.isDigit = true) : ch ≠ '/' ∧ ch ≠ '\x00' := by
  constructor
  all_goals
    rintro rfl
    exact absurd h (by decide)

theorem plain_dayName (c : Clock) : Plain c.dayName := by
  have hpadded : ∀ n, Plain (Clock.padded 2 n) := by
    intro n ch hch
    rw [Clock.toList_padded, List.mem_append] at hch
    rcases hch with hzero | hdigit
    · rw [List.eq_of_mem_replicate hzero]
      decide
    · exact plain_of_digits (isDigit_of_mem_toDigits hdigit)
  intro ch hch
  rw [Clock.toList_dayName, List.mem_append, List.mem_append, List.mem_cons, List.mem_cons] at hch
  rcases hch with (hyear | rfl | hmonth) | rfl | hday
  · exact plain_of_digits (isDigit_of_mem_toDigits hyear)
  · decide
  · exact hpadded _ ch hmonth
  · decide
  · exact hpadded _ ch hday

theorem plain_stem (h : Plain own) (b : Book) : Plain (b.stem own) := by
  have hruns : ∀ v : Verdict, Plain (v.name ++ "_") := by
    intro v
    refine plain_of_all ?_
    cases v <;> decide +kernel
  cases b with
  | events => exact h
  | runs v => exact hruns v

/-- the name of a file of a book is one that a file can have -/
theorem isFileName (h : Plain own) (b : Book) (c : Clock) : Path.FileName (b.fileName own c) := by
  have hend : Plain ".jsonl" := plain_of_all (by decide +kernel)
  have hlength : 6 ≤ (b.fileName own c).points.length := by
    have hsix : ".jsonl".toList.length = 6 := rfl
    rw [fileName_eq, Text.ofString, List.length_map, String.toList_append, List.length_append, hsix]
    exact Nat.le_add_left 6 _
  refine ⟨?_, ?_, ?_⟩
  · intro p hp
    rw [fileName_eq] at hp
    obtain ⟨ch, hch, rfl⟩ := List.mem_map.1 hp
    have hplain : ch ≠ '/' ∧ ch ≠ '\x00' := by
      rw [String.toList_append, String.toList_append, List.mem_append, List.mem_append] at hch
      rcases hch with (hstem | hday) | hjsonl
      · exact plain_stem h b ch hstem
      · exact plain_dayName c ch hday
      · exact hend ch hjsonl
    refine ⟨CodePoint.isHalf_ofChar ch, ?_, ?_⟩
    · exact beq_false_of_ne fun heq => hplain.1 (CodePoint.ofChar_inj.1 heq)
    · exact fun heq => hplain.2 (CodePoint.ofChar_inj.1 heq)
  · rw [Path.stays, Bool.or_eq_false_iff]
    constructor
    · rw [Text.isEmpty, List.isEmpty_eq_false_iff]
      intro hnil
      rw [hnil] at hlength
      exact absurd hlength (by decide)
    · refine beq_false_of_ne ?_
      intro hdot
      rw [hdot] at hlength
      exact absurd hlength (by decide)
  · intro hup
    rw [hup] at hlength
    exact absurd hlength (by decide)

end Book

/-! ## Entries -/

theorem Fields.put_of_notMem {fs : Fields} {k : Text} (h : k ∉ fs.keys) (v : Json) : fs.put k v = fs ++ [(k, v)] := by
  induction fs with
  | nil => rfl
  | cons f fs ih =>
    obtain ⟨k', w⟩ := f
    obtain ⟨hne, hrest⟩ := not_or.1 (List.mem_cons.not.1 h)
    rw [put, if_neg fun heq => hne heq.symm, ih hrest]
    rfl

/-- a field put first keeps its place, and its value unless the fields that are put after it bring another one -/
theorem Fields.merge_cons {k : Text} {v : Json} {rest entry : Fields} (hentry : entry.keys.Nodup)
    (hrest : ∀ key ∈ entry.keys, key ∉ rest.keys) :
    merge ((k, v) :: rest) entry = (k, (entry.get? k).getD v) :: (rest ++ entry.filter fun f => f.1 ≠ k) := by
  induction entry generalizing v rest with
  | nil => rw [List.filter_nil, List.append_nil]; rfl
  | cons f entry ih =>
    obtain ⟨key, w⟩ := f
    obtain ⟨hkey, hnodup⟩ := List.nodup_cons.1 hentry
    obtain ⟨hnew, hothers⟩ := List.forall_mem_cons.1 hrest
    have hmerge : merge ((k, v) :: rest) ((key, w) :: entry) = merge (put ((k, v) :: rest) key w) entry := rfl
    rw [hmerge, put]
    by_cases hk : k = key
    · subst hk
      have hnone : get? entry k = none := get?_eq_none_iff entry k |>.2 hkey
      have hall : entry.filter (fun f => f.1 ≠ k) = entry := by
        rw [List.filter_eq_self]
        intro f hf
        refine decide_eq_true ?_
        intro heq
        have hmem : f.1 ∈ keys entry := List.mem_map_of_mem hf
        rw [heq] at hmem
        exact hkey hmem
      rw [if_pos rfl, ih hnodup hothers, hnone, get?_cons_self, hall, List.filter_cons_of_neg (by simp), hall]
      rfl
    · rw [if_neg hk, put_of_notMem hnew, ih hnodup, get?_cons_of_ne fun heq => hk heq.symm,
        List.filter_cons_of_pos (by simpa using fun heq => hk heq.symm), List.append_assoc]
      · rfl
      · intro key' hkey' hmem
        rw [keys, List.map_append, List.mem_append, List.map_singleton, List.mem_singleton] at hmem
        rcases hmem with hmem | rfl
        · exact hothers key' hkey' hmem
        · exact hkey hkey'

namespace Journal

/-- an entry with the time stamp before it, its own one if it has one -/
def dated (c : Clock) (entry : Fields) : Fields :=
  ("timestamp", (entry.get? "timestamp").getD (.string c.stamp)) ::
    entry.filter fun f => f.1 ≠ Text.ofString "timestamp"

theorem stamped_eq {entry : Fields} (h : entry.keys.Nodup) (c : Clock) : stamped c entry = dated c entry := by
  have hnone : ∀ key ∈ entry.keys, key ∉ Fields.keys [] := fun _ _ => List.not_mem_nil
  have hmerge := Fields.merge_cons (k := "timestamp") (v := .string c.stamp) h hnone
  rw [List.nil_append] at hmerge
  exact hmerge

/-- an entry is one line, and says what it is when no key comes twice in it -/
theorem exists_line (c : Clock) (entry : Fields) :
    ∃ s, OneLine s ∧ line c entry = s ++ "\n" ∧ (entry.keys.Nodup → s = Json.write (.object (dated c entry))) :=
  ⟨_, Json.oneLine_write _, rfl, fun h => by rw [stamped_eq h]⟩

/-! ## Calls -/

/-- what is asked of a journal -/
inductive Call where
  | log (entry : Fields)
  | event (name : Json) (fields : Fields)
  | runs (v : Verdict) (entries : List Fields)
  | rotate

/-- the call at a moment -/
def Call.make (call : Call) (c : Clock) (j : Journal) (d : Disk) : Journal × Except EventFault Disk :=
  match call with
  | .log entry => ((j.log c entry d).1, (j.log c entry d).2.mapError .disk)
  | .event name fields => j.logEvent c name fields d
  | .runs v entries => ((j.logRuns c v entries d).1, (j.logRuns c v entries d).2.mapError .disk)
  | .rotate => (j.rotate c, .ok d)

/-- calls one after the other, each at its moment; one that ends in a fault leaves the disk as it is -/
def makeCalls : Journal → Disk → List (Clock × Call) → Journal × Disk × List EventFault
  | j, d, [] => (j, d, [])
  | j, d, (c, call) :: calls =>
    match call.make c j d with
    | (j, .ok d) => makeCalls j d calls
    | (j, .error f) =>
      let (j, d, faults) := makeCalls j d calls
      (j, d, f :: faults)

/-- the entries given with a call, and the book they are for; an event with a taken name is none -/
def Call.given : Call → Option (Book × List Fields)
  | .log entry => some (.events, [entry])
  | .event name fields => if clash? fields = none then some (.events, [("event", name) :: fields]) else none
  | .runs v entries => some (.runs v, entries)
  | .rotate => none

/-- the lines that a call adds to the file of a book for a day, if it has to do with that file -/
def linesFor (b : Book) (D : Clock) : Clock × Call → Option (List String)
  | (c, call) =>
    match call.given with
    | some (b', entries) => if b' = b ∧ c.SameDay D then some (entries.map (line c)) else none
    | none => none

/-- what is in a file to which lines have been added a number of times -/
def contentsOf : List (List String) → Option Contents
  | [] => none
  | parts => some (.text (String.join parts.flatten))

/-- a file after a call: lines are added to its end, if the call has to do with it -/
def added (found : Option Contents) : Option (List String) → Option Contents
  | some ls => some (Disk.extended found (String.join ls))
  | none => found

theorem added_contentsOf (parts : List (List String)) (ls : Option (List String)) :
    added (contentsOf parts) ls = contentsOf (parts ++ ls.toList) := by
  cases ls with
  | none => rw [Option.toList_none, List.append_nil]; rfl
  | some ls =>
    cases parts with
    | nil => simp [added, contentsOf, Disk.extended]
    | cons p parts => simp [added, contentsOf, Disk.extended, String.append_assoc]

variable {own : String} {directory : Text} {r : Route} {j j' : Journal} {d d' : Disk} {c : Clock} {call : Call}
  {b : Book} {entries : List Fields}

/-- the journal is in this directory, which is there and has no directory in the place of a file -/
structure Keeps (own : String) (directory : Text) (r : Route) (j : Journal) (d : Disk) : Prop where
  place : j.directory = directory
  stem : j.stem = own
  opens : d.Opens directory r
  free : ∀ b c, d.isDirectory (r ++ [Book.fileName own b c]) = false

theorem Call.make_given (hj : j.stem = own) (hg : call.given = some (b, entries)) :
    call.make c j d = (j.rotate c,
      (d.append (Path.join j.directory (b.fileName own c)) (String.join (entries.map (line c)))).mapError .disk) := by
  have hcurrent : (j.rotate c).current = Path.join j.directory (Book.fileName own .events c) := by
    have hname : (j.rotate c).currentName = j.stem ++ c.dayName ++ ".jsonl" := rfl
    rw [current, hname, hj]
    rfl
  have hone : ∀ entry, String.join ([entry].map (line c)) = line c entry := by
    intro entry
    simp
  cases call with
  | log entry =>
    obtain ⟨rfl, rfl⟩ := Prod.mk.inj (Option.some.inj hg)
    simp only [make, Journal.log, hcurrent, hone]
  | event name fields =>
    rw [given] at hg
    split_ifs at hg with hclash
    obtain ⟨rfl, rfl⟩ := Prod.mk.inj (Option.some.inj hg)
    simp only [make, logEvent, hclash, Journal.log, hcurrent, hone]
  | runs v es =>
    obtain ⟨rfl, rfl⟩ := Prod.mk.inj (Option.some.inj hg)
    have hpath : (j.rotate c).verdictPath v = Path.join j.directory (Book.fileName own (.runs v) c) := by
      rw [Book.fileName, Book.stem, Text.ofString_append]
      rfl
    simp only [make, logRuns, hpath]
  | rotate => cases hg

theorem Call.make_none (hg : call.given = none) :
    (∃ n, call.make c j d = (j, .error (.nameTaken n))) ∨ call.make c j d = (j.rotate c, .ok d) := by
  cases call with
  | log entry => cases hg
  | event name fields =>
    cases hclash : clash? fields with
    | none =>
      rw [given, if_pos hclash] at hg
      cases hg
    | some taken => exact Or.inl ⟨taken, by simp only [make, logEvent, hclash]⟩
  | runs v entries => cases hg
  | rotate => exact Or.inr rfl

/-! ## Files -/

/-- a moment at which the journal can file what it is given -/
structure Filable (own : String) (directory : Text) (c : Clock) : Prop where
  dated : c.Dated
  distinct : Book.Distinct own c
  short : ∀ b, Disk.Short directory (Book.fileName own b c)

/-- a place in the directory where no book has a file -/
def Elsewhere (own : String) (r q : Route) : Prop :=
  ∀ (b : Book) (D : Clock), D.Dated → Book.Distinct own D → q ≠ r ++ [b.fileName own D]

/-- a call adds its lines to the file of its book and its day, and to no other one -/
theorem Keeps.make (h : Keeps own directory r j d) (hown : Book.Plain own) (hc : Filable own directory c)
    (call : Call) :
    ∃ j' d', Keeps own directory r j' d' ∧
      (call.make c j d = (j', .ok d') ∨ d' = d ∧ ∃ n, call.make c j d = (j', .error (.nameTaken n))) ∧
      (∀ (b : Book) (D : Clock), D.Dated → Book.Distinct own D →
        d'.file? (r ++ [b.fileName own D]) = added (d.file? (r ++ [b.fileName own D])) (linesFor b D (c, call))) ∧
      ∀ q, Elsewhere own r q → d'.file? q = d.file? q := by
  cases hg : call.given with
  | none =>
    have hlines : ∀ b D, linesFor b D (c, call) = none := fun b D => by simp only [linesFor, hg]
    rcases Call.make_none (c := c) (j := j) (d := d) hg with ⟨n, heq⟩ | heq
    · exact ⟨j, d, h, Or.inr ⟨rfl, n, heq⟩, fun b D _ _ => by rw [hlines]; rfl, fun _ _ => rfl⟩
    · exact ⟨j.rotate c, d, ⟨h.place, h.stem, h.opens, h.free⟩, Or.inl heq, fun b D _ _ => by rw [hlines]; rfl,
        fun _ _ => rfl⟩
  | some g =>
    obtain ⟨b, entries⟩ := g
    have hmake := Call.make_given (c := c) (d := d) h.stem hg
    rw [h.place, h.opens.append_name (Book.isFileName hown b c) (hc.short b) (h.free b c)] at hmake
    have hsame := Disk.sameDirectories_putFile h.opens.locate_name.1 (b.fileName own c)
      (Disk.extended (d.file? (r ++ [b.fileName own c])) (String.join (entries.map (line c))))
    refine ⟨j.rotate c, _, ⟨h.place, h.stem, hsame.opens h.opens, ?_⟩, Or.inl hmake, ?_, ?_⟩
    · intro b' c'
      rw [hsame]
      exact h.free b' c'
    · intro b' D hD hdistinct
      have hfile : r ++ [b'.fileName own D] = r ++ [b.fileName own c] ↔ b = b' ∧ c.SameDay D := by
        rw [List.append_cancel_left_eq, List.singleton_inj, eq_comm]
        exact Book.fileName_inj hc.dated hD hc.distinct hdistinct
      rw [Disk.file?_putFile]
      simp only [linesFor, hg]
      by_cases hhere : b = b' ∧ c.SameDay D
      · rw [if_pos hhere, if_pos (hfile.2 hhere), hfile.2 hhere]
        rfl
      · rw [if_neg hhere, if_neg (hfile.not.2 hhere)]
        rfl
    · intro q hq
      rw [Disk.file?_putFile, if_neg (hq b c hc.dated hc.distinct)]

/-- what calls leave behind: faults of events with a taken name alone, and in each file the lines of its book and its
day, in the order of the calls -/
structure Filed (own : String) (r : Route) (calls : List (Clock × Call)) (d : Disk)
    (o : Journal × Disk × List EventFault) : Prop where
  faults : ∀ f ∈ o.2.2, ∃ n, f = .nameTaken n
  files : ∀ (b : Book) (D : Clock), D.Dated → Book.Distinct own D →
    o.2.1.file? (r ++ [b.fileName own D]) = contentsOf (calls.filterMap (linesFor b D))
  others : ∀ q, Elsewhere own r q → o.2.1.file? q = d.file? q
  lines : ∀ c entry, ∃ s, OneLine s ∧ line c entry = s ++ "\n" ∧
    (entry.keys.Nodup → s = Json.write (.object (dated c entry)))

/-- the calls go on after others, which have left their lines -/
theorem Keeps.makeCalls (h : Keeps own directory r j d) (hown : Book.Plain own)
    {calls done : List (Clock × Call)} (hcalls : ∀ x ∈ calls, Filable own directory x.1)
    (hdone : ∀ (b : Book) (D : Clock), D.Dated → Book.Distinct own D →
      d.file? (r ++ [b.fileName own D]) = contentsOf (done.filterMap (linesFor b D))) :
    Filed own r (done ++ calls) d (makeCalls j d calls) := by
  induction calls generalizing j d done with
  | nil =>
    rw [List.append_nil]
    exact ⟨nofun, hdone, fun _ _ => rfl, exists_line⟩
  | cons x calls ih =>
    obtain ⟨c, call⟩ := x
    obtain ⟨hc, hcalls⟩ := List.forall_mem_cons.1 hcalls
    obtain ⟨j', d', hkeeps, hmake, hfiles, hothers⟩ := h.make hown hc call
    have hdone' : ∀ (b : Book) (D : Clock), D.Dated → Book.Distinct own D →
        d'.file? (r ++ [b.fileName own D]) = contentsOf ((done ++ [(c, call)]).filterMap (linesFor b D)) := by
      intro b D hD hdistinct
      rw [hfiles b D hD hdistinct, hdone b D hD hdistinct, added_contentsOf, List.filterMap_append]
      cases hl : linesFor b D (c, call) <;> simp [hl]
    -- a call that is made joins those that are done, so the parts of a file stay in the order of the calls
    have hrest := ih hkeeps hcalls hdone'
    rw [List.append_assoc, List.singleton_append] at hrest
    rcases hmake with heq | ⟨rfl, n, heq⟩
    · rw [Journal.makeCalls, heq]
      exact ⟨hrest.faults, hrest.files, fun q hq => (hrest.others q hq).trans (hothers q hq), hrest.lines⟩
    · rw [Journal.makeCalls, heq]
      exact ⟨List.forall_mem_cons.2 ⟨⟨n, rfl⟩, hrest.faults⟩, hrest.files, hrest.others, hrest.lines⟩

/-- a journal just started in an empty directory -/
theorem keeps_start {c₀ : Clock} {disk : Disk} (hstart : start directory own c₀ disk = .ok (j, d))
    (hopens : d.Opens directory r) (hempty : d.EmptyAt r) (hown : Book.Plain own) : Keeps own directory r j d := by
  unfold start at hstart
  cases hmade : disk.makeDirectories directory with
  | error f =>
    rw [hmade] at hstart
    cases hstart
  | ok d' =>
    rw [hmade] at hstart
    obtain ⟨rfl, rfl⟩ := Prod.mk.inj (Except.ok.inj hstart)
    exact ⟨rfl, rfl, hopens, fun b c => hempty.isDirectory_eq (Book.isFileName hown b c)⟩

/-- **No entry is lost, written twice, out of order, or in the file of another day.** In a directory that was empty
when the journal started, the file of a book for a day has the lines of the entries given for that book at moments of
that day, all of them and in the order of the calls, to whatever moments the clock was set in between. -/
theorem makeCalls_filed {c₀ : Clock} {disk : Disk} {calls : List (Clock × Call)}
    (hstart : start directory own c₀ disk = .ok (j, d)) (hopens : d.Opens directory r) (hempty : d.EmptyAt r)
    (hown : Book.Plain own) (hcalls : ∀ x ∈ calls, Filable own directory x.1) :
    Filed own r calls d (makeCalls j d calls) := by
  have hdone : ∀ (b : Book) (D : Clock), D.Dated → Book.Distinct own D →
      d.file? (r ++ [b.fileName own D]) = contentsOf (List.filterMap (linesFor b D) []) :=
    fun b D _ _ => hempty.file?_eq _
  exact (keeps_start hstart hopens hempty hown).makeCalls hown hcalls hdone

/-- a disk with one empty directory -/
def oneDirectory : Disk := { directories := [["out"]] }

/-- a moment of the second of January, of a year -/
def second (year : ℕ) : Clock := ⟨year, 1, 2, 3, 4, 5, 0⟩

theorem oneDirectory_opens : oneDirectory.Opens "out" ["out"] ∧ oneDirectory.EmptyAt ["out"] := by
  refine ⟨⟨by decide +kernel, by rfl⟩, nofun, ?_⟩
  intro q hq _
  exact List.mem_singleton.1 hq

theorem start_oneDirectory (own : String) (c : Clock) :
    start "out" own c {} = .ok (⟨"out", own, c.dayName⟩, oneDirectory) := by
  have hmade : ({} : Disk).makeDirectories "out" = .ok oneDirectory := by rfl
  rw [start, hmade]
  rfl

/-- a run accepted on one day, events on the next and, when the clock is set back, on the first one again -/
def overMidnight : List (Clock × Call) :=
  [(⟨2024, 1, 2, 23, 59, 59, 0⟩, .runs .accepted [[("steps", .ofInt 6)]]),
    (⟨2024, 1, 3, 0, 0, 1, 0⟩, .event (.string "halt") [("steps", .ofInt 6)]),
    (⟨2024, 1, 2, 23, 59, 58, 0⟩, .log [("timestamp", .string "now")])]

theorem overMidnight_filed :
    start "out" "turing_" (second 2024) {} = .ok (⟨"out", "turing_", (second 2024).dayName⟩, oneDirectory) ∧
      oneDirectory.Opens "out" ["out"] ∧ oneDirectory.EmptyAt ["out"] ∧ Book.Plain "turing_" ∧
      (∀ x ∈ overMidnight, Filable "turing_" "out" x.1) ∧
      Filed "turing_" ["out"] overMidnight oneDirectory
        (makeCalls ⟨"out", "turing_", (second 2024).dayName⟩ oneDirectory overMidnight) := by
  have hplain : Book.Plain "turing_" := Book.plain_of_all (by decide +kernel)
  have hfilable : ∀ x ∈ overMidnight, Filable "turing_" "out" x.1 := by
    have hdistinct : ∀ v : Verdict, "turing_" ≠ v.name ++ "_" := fun v => by cases v <;> decide +kernel
    have hmoment : ∀ x ∈ overMidnight, x.1.Dated ∧ 1000 ≤ x.1.year ∧
        ∀ b ∈ [Book.events, .runs .accepted, .runs .rejected],
          Path.isLongName (b.fileName "turing_" x.1) = false ∧
            Path.isLong (Path.join "out" (b.fileName "turing_" x.1)) = false := by
      decide +kernel
    intro x hx
    obtain ⟨hdated, hyear, hshort⟩ := hmoment x hx
    refine ⟨hdated, ⟨hdistinct, Or.inl hyear⟩, ?_⟩
    intro b
    have hb : b ∈ [Book.events, .runs .accepted, .runs .rejected] := by
      rcases b with _ | _ | _ <;> decide
    exact ⟨(hshort b hb).1, (hshort b hb).2⟩
  obtain ⟨hopens, hempty⟩ := oneDirectory_opens
  exact ⟨start_oneDirectory _ _, hopens, hempty, hplain, hfilable,
    makeCalls_filed (start_oneDirectory "turing_" (second 2024)) hopens hempty hplain hfilable⟩

/-- an event in the year 24, and an accepted run in the year 2024 -/
def twoMillennia : List (Clock × Call) :=
  [(second 24, .event (.string "a") []), (second 2024, .runs .accepted [[("k", .ofInt 1)]])]

/-- **Two books can have one file.** The events of the year 24 under the stem `accepted_20` go where the accepted runs
of the year 2024 go. -/
theorem twoMillennia_misfiled :
    let j : Journal := ⟨"out", "accepted_20", (second 24).dayName⟩
    start "out" "accepted_20" (second 24) {} = .ok (j, oneDirectory) ∧ oneDirectory.Opens "out" ["out"] ∧
      oneDirectory.EmptyAt ["out"] ∧ Book.Plain "accepted_20" ∧ (∀ v : Verdict, "accepted_20" ≠ v.name ++ "_") ∧
      (∀ x ∈ twoMillennia, x.1.Dated) ∧
      (makeCalls j oneDirectory twoMillennia).2.1.file? ["out", Book.fileName "accepted_20" .events (second 24)] ≠
        contentsOf (twoMillennia.filterMap (linesFor .events (second 24))) ∧
      (makeCalls j oneDirectory twoMillennia).2.1.file?
          ["out", Book.fileName "accepted_20" (.runs .accepted) (second 2024)] ≠
        contentsOf (twoMillennia.filterMap (linesFor (.runs .accepted) (second 2024))) := by
  have hplain : Book.Plain "accepted_20" := Book.plain_of_all (by decide +kernel)
  obtain ⟨hopens, hempty⟩ := oneDirectory_opens
  refine ⟨start_oneDirectory _ _, hopens, hempty, hplain, ?_, by decide, ?_, ?_⟩
  · intro v
    cases v <;> decide +kernel
  · decide +kernel
  · decide +kernel

end Journal
end TapeMachine
