/-
Stepping by hand until the machine halts comes to an end.

The loop goes on while the machine has not halted and has made fewer transitions than the cap since the count began.
A listener that is called in the middle of a step may send the count back to zero, start a run, load another machine or
halt this one, so that nothing in the snapshot need go down from one lap to the next. What goes down is a debt: the laps
that are left to the cap, and as many as a whole count may take for every load that is still to come. Each lap brings
the count nearer to the cap or is paid for by a load (`lap_pays`), so that a loop during which listeners load a machine
finitely often comes to an end (`exists_loops`) after no more laps than that (`Loops.laps_le`).

`Loops` is the loop itself, without fuel. The operation gives its loop fuel by the commands that the scripts of its
listeners hold. Every load costs them one (`Thrifty`), and so the fuel is never used up
(`scripted_runUntilHalt_returns`).
-/
import TapeMachine.Proofs.ControlGraph

namespace TapeMachine
namespace Engine

variable {n : ℤ} {e e' e'' : Engine} {notify : Engine → Snapshot → Outcome Unit} {start cap : ℤ}

/-! ## Loads, and the count between them -/

/-- how often the machine has been loaded, reset or restarted -/
def loads (e : Engine) : ℕ := e.trace.countP Note.isFresh

theorem isFresh_of_committed {x : Note} {q : Snapshot} (h : x.committed? = some q) (hq : q.Loaded n) (hn : 1 ≤ n) :
    x.isFresh = true := by
  cases x with
  | commit p q' audience =>
    obtain rfl : q' = q := Option.some.inj h
    obtain ⟨d, input, truth, hd, rfl⟩ := hq
    exact Note.OfLoad.isFresh ⟨p, d, input, truth, audience, hd, rfl⟩ hn
  | _ => cases h

/-- `e'` comes after `e`: loads are counted, and as long as there is none, the steps counted are never fewer and a halt
is final -/
structure Onward (e e' : Engine) : Prop where
  loads_le : e.loads ≤ e'.loads
  nonneg : 0 ≤ e.snapshot.steps → 0 ≤ e'.snapshot.steps
  steps_le : e'.loads = e.loads → e.snapshot.steps ≤ e'.snapshot.steps
  halted : e'.loads = e.loads → e.snapshot.halted = true → e'.snapshot.halted = true

theorem Onward.refl (e : Engine) : Onward e e := ⟨le_rfl, id, fun _ => le_rfl, fun _ => id⟩

theorem Onward.trans (h : Onward e e') (h' : Onward e' e'') : Onward e e'' := by
  have hle := h.loads_le
  have hle' := h'.loads_le
  refine ⟨hle.trans hle', fun h₀ => h'.nonneg (h.nonneg h₀), fun heq => ?_, fun heq hh => ?_⟩
  · exact (h.steps_le (by omega)).trans (h'.steps_le (by omega))
  · exact h'.halted (by omega) (h.halted (by omega) hh)

theorem onward_of_snapshot (hl : e.loads ≤ e'.loads) (h : e'.snapshot = e.snapshot) : Onward e e' := by
  refine ⟨hl, fun h₀ => ?_, fun _ => ?_, fun _ hh => ?_⟩
  · rwa [h]
  · rw [h]
  · rwa [h]

/-- **Every change goes onward.** -/
theorem Change.onward (hs : Sound n e) (ht : e.tracing = true) (hc : Change e e') : Onward e e' := by
  obtain ⟨new, htrace, hcommits⟩ := hc.commits hs ht
  have hloads : e'.loads = new.countP Note.isFresh + e.loads := by rw [loads, htrace, List.countP_append, loads]
  have hle : e.loads ≤ e'.loads := by omega
  cases hcommits with
  | rest hnew hd hq => exact onward_of_snapshot hle hq
  | load hnew d input truth hv hd hq =>
    have hloaded : e'.snapshot.Loaded n := ⟨d, input, truth, hv, hq⟩
    have hmem : e'.snapshot ∈ new.filterMap Note.committed? := by rw [hnew]; exact List.mem_singleton_self _
    obtain ⟨x, hx, hcommitted⟩ := List.mem_filterMap.1 hmem
    have hfresh : 0 < new.countP Note.isFresh :=
      List.countP_pos_iff.2 ⟨x, hx, isFresh_of_committed hcommitted hloaded hs.pos⟩
    refine ⟨hle, fun _ => ?_, fun heq => ?_, fun heq => ?_⟩
    · rw [hq]
      exact le_rfl
    · omega
    · omega
  | wait hnew hn hd hq => exact onward_of_snapshot hle hq
  | next hnew d hd hd' he =>
    have hsteps : e.snapshot.steps ≤ e'.snapshot.steps := by
      rcases he.moves with ⟨-, hstep⟩ | ⟨-, -, -, hsame⟩
      · omega
      · omega
    refine ⟨hle, fun h₀ => h₀.trans hsteps, fun _ => hsteps, fun _ hh => ?_⟩
    rw [he.not_halted] at hh
    cases hh

theorem Changes.onward (hs : Sound n e) (ht : e.tracing = true) (hc : Changes e e') : Onward e e' := by
  induction hc with
  | refl => exact .refl e
  | tail hcs hc ih =>
    exact ih.trans (hc.onward (Changes.sound hs hcs) ((Changes.sameMake hcs).tracing.trans ht))

/-! ## One lap -/

/-- a step that the machine makes by hand brings a load, a halt, or one transition more -/
theorem step_gains (hn : Heard n notify) (hs : Sound n e) (ht : e.tracing = true) (hm : e.canMove = true)
    (he : (step notify e).engine = e') :
    Onward e e' ∧ (e'.loads = e.loads → e'.snapshot.halted = true ∨ e.snapshot.steps + 1 ≤ e'.snapshot.steps) := by
  obtain ⟨hmanual, hsome⟩ := Bool.and_eq_true_iff.1 hm
  obtain ⟨d, hd⟩ := Option.isSome_iff_exists.1 hsome
  have hgoing := Status.not_halted_of_manual hmanual
  obtain ⟨q, hq, -⟩ := hs.next hgoing
  obtain ⟨e₁, hc, hsnap, hcs⟩ :=
    (advanceOnce_handsOn notify hs.logs hq).places hn hs fun _ hrec => .step q hmanual hq hrec
  rw [← step_of_manual hmanual, he] at hcs
  have hfirst := hc.onward hs ht
  have hrest := Changes.onward (hc.sound hs) (hc.sameMake.tracing.trans ht) hcs
  refine ⟨hfirst.trans hrest, fun heq => ?_⟩
  have hle := hfirst.loads_le
  have hle' := hrest.loads_le
  have hsame : e'.loads = e₁.loads := by omega
  have hsteps := hrest.steps_le hsame
  have hhalted := hrest.halted hsame
  obtain rfl : e₁.snapshot = q := hsnap
  simp only [Engine.next, hd] at hq
  rcases advance_cases hq hgoing with ⟨-, hacc⟩ | ⟨-, -, herr⟩ | ⟨r, -, -, happly⟩
  · exact Or.inl (hhalted (by rw [hacc]; rfl))
  · exact Or.inl (hhalted (by rw [herr]; rfl))
  · obtain ⟨tape, -, hnext⟩ := Option.map_eq_some_iff.1 happly
    have hone : e₁.snapshot.steps = e.snapshot.steps + 1 := by rw [← hnext]
    exact Or.inr (by omega)

/-- an operation that hands its snapshot on ends in no fault but that of the listeners -/
theorem HandsOn.fault {ns : List Note} {e₁ : Engine} {o : Outcome Snapshot} (ho : HandsOn notify ns e₁ o) {f : Fault}
    (h : o.result = .error f) : ∃ e', Records ns e₁ e' ∧ (notify e' e'.snapshot).result = .error f := by
  obtain ⟨e', hrec, rfl⟩ := ho
  refine ⟨e', hrec, ?_⟩
  rw [← hrec.snapshot, Outcome.map] at h
  cases hr : (notify e' e'.snapshot).result with
  | ok u =>
    rw [hr] at h
    cases h
  | error f' =>
    rw [hr] at h
    rw [Except.error.inj h]

theorem step_fault (hs : Sound n e) {f : Fault} (h : (step notify e).result = .error f) :
    ∃ e', Change e e' ∧ (notify e' e'.snapshot).result = .error f := by
  cases hm : e.snapshot.status.manual with
  | false =>
    rw [step_of_not_manual hm] at h
    cases h
  | true =>
    obtain ⟨q, hq, -⟩ := hs.next (Status.not_halted_of_manual hm)
    rw [step_of_manual hm] at h
    obtain ⟨e', hrec, hf⟩ := (advanceOnce_handsOn notify hs.logs hq).fault h
    exact ⟨e', .step q hm hq hrec, hf⟩

theorem pause_fault (hs : Sound n e) {f : Fault} (h : (pause notify e).result = .error f) :
    ∃ e', Change e e' ∧ (notify e' e'.snapshot).result = .error f := by
  by_cases hr : e.snapshot.status = .running
  · obtain ⟨e', hrec, hf⟩ := (pause_handsOn notify hs hr).fault h
    exact ⟨e', .pause hr hrec, hf⟩
  · rw [pause_of_not_running hr] at h
    cases h

/-- the laps that are left to the cap, if there is no load -/
def lapsLeft (e : Engine) (start cap : ℤ) : ℕ :=
  if e.wantsMore start cap then (start + cap - e.snapshot.steps).toNat else 0

theorem lapsLeft_pos (hw : e.wantsMore start cap = true) : 1 ≤ e.lapsLeft start cap := by
  have hlt : e.snapshot.steps - start < cap := of_decide_eq_true (Bool.and_eq_true_iff.1 hw).2
  rw [lapsLeft, if_pos hw]
  omega

theorem lapsLeft_le (h₀ : 0 ≤ e.snapshot.steps) : e.lapsLeft start cap ≤ (start + cap).toNat := by
  unfold lapsLeft
  split_ifs
  · omega
  · exact Nat.zero_le _

/-- **A lap is paid for**: it brings the count nearer to the cap, or a load. -/
theorem lap_pays (hn : Heard n notify) (hs : Sound n e) (ht : e.tracing = true) (h₀ : 0 ≤ e.snapshot.steps)
    (hw : e.wantsMore start cap = true) (hm : e.canMove = true) (he : (step notify e).engine = e') :
    e'.lapsLeft start cap + 1 ≤ e.lapsLeft start cap + (e'.loads - e.loads) * (start + cap).toNat := by
  obtain ⟨honward, hgain⟩ := step_gains hn hs ht hm he
  have hpos := lapsLeft_pos hw
  have hle := honward.loads_le
  by_cases heq : e'.loads = e.loads
  · rw [heq, Nat.sub_self, Nat.zero_mul, Nat.add_zero]
    by_cases hw' : e'.wantsMore start cap = true
    · have hlt : e'.snapshot.steps - start < cap := of_decide_eq_true (Bool.and_eq_true_iff.1 hw').2
      rcases hgain heq with hh | hsteps
      · rw [wantsMore, hh] at hw'
        cases hw'
      · rw [lapsLeft, if_pos hw', lapsLeft, if_pos hw]
        omega
    · rw [lapsLeft, if_neg hw']
      omega
  · have hmost : e'.lapsLeft start cap ≤ (start + cap).toNat := lapsLeft_le (honward.nonneg h₀)
    have hone : 1 * (start + cap).toNat ≤ (e'.loads - e.loads) * (start + cap).toNat :=
      Nat.mul_le_mul_right _ (by omega)
    omega

/-! ## The loop -/

/-- the loop, lap by lap, with the number of its laps and what it leaves behind -/
inductive Loops (notify : Engine → Snapshot → Outcome Unit) (start cap : ℤ) : ℕ → Engine → Outcome Snapshot → Prop
  | met {e : Engine} (hw : e.wantsMore start cap = false) : Loops notify start cap 0 e (e.done e.snapshot)
  | fault {e e' : Engine} {f : Fault} (hw : e.wantsMore start cap = true) (h : step notify e = e'.fault f) :
      Loops notify start cap 1 e (e'.fault f)
  /-- the step has changed nothing by itself: the machine runs, or there is none -/
  | stuck {e e' : Engine} {q : Snapshot} (hw : e.wantsMore start cap = true) (hm : e.canMove = false)
      (h : step notify e = e'.done q) : Loops notify start cap 1 e (e'.done e'.snapshot)
  | again {e e' : Engine} {q : Snapshot} {k : ℕ} {o : Outcome Snapshot} (hw : e.wantsMore start cap = true)
      (hm : e.canMove = true) (h : step notify e = e'.done q) (hl : Loops notify start cap k e' o) :
      Loops notify start cap (k + 1) e o

section Loops

variable {k : ℕ} {o : Outcome Snapshot}

theorem stepWhile_again {q : Snapshot} (hw : e.wantsMore start cap = true) (hm : e.canMove = true)
    (h : step notify e = e'.done q) (fuel : ℕ) :
    stepWhile notify start cap (fuel + 1) e = stepWhile notify start cap fuel e' := by
  simp only [stepWhile, hw, hm, h, done, if_true]

/-- with fuel for all its laps, the loop is what the fuelled one computes -/
theorem Loops.stepWhile_eq (h : Loops notify start cap k e o) {fuel : ℕ} (hk : k ≤ fuel) :
    stepWhile notify start cap fuel e = o := by
  induction h generalizing fuel with
  | met hw =>
    cases fuel with
    | zero => rfl
    | succ fuel => simp only [stepWhile, hw, Bool.false_eq_true, if_false]
  | fault hw h =>
    obtain ⟨fuel, rfl⟩ := Nat.exists_eq_add_of_le' hk
    simp only [stepWhile, hw, h, Engine.fault, if_true]
  | stuck hw hm h =>
    obtain ⟨fuel, rfl⟩ := Nat.exists_eq_add_of_le' hk
    simp only [stepWhile, hw, hm, h, done, if_true, Bool.false_eq_true, if_false]
  | again hw hm h hl ih =>
    obtain ⟨fuel, rfl⟩ := Nat.exists_eq_add_of_le' hk
    rw [← Nat.add_assoc, stepWhile_again hw hm h]
    exact ih (by omega)

theorem Loops.onward (hn : Heard n notify) (hs : Sound n e) (ht : e.tracing = true)
    (h : Loops notify start cap k e o) : Onward e o.engine := by
  rw [← h.stepWhile_eq le_rfl]
  exact Changes.onward hs ht (stepWhile_changes hn start cap k hs)

/-- **The laps of a loop are paid for** by what was left to the cap when it began, and by the loads. -/
theorem Loops.laps_le (hn : Heard n notify) (hs : Sound n e) (ht : e.tracing = true) (h₀ : 0 ≤ e.snapshot.steps)
    (h : Loops notify start cap k e o) :
    k ≤ e.lapsLeft start cap + (o.engine.loads - e.loads) * (start + cap).toNat := by
  induction h with
  | met hw => exact Nat.zero_le _
  | fault hw h => exact (lapsLeft_pos hw).trans (Nat.le_add_right _ _)
  | stuck hw hm h => exact (lapsLeft_pos hw).trans (Nat.le_add_right _ _)
  | @again e e' q k o hw hm h hl ih =>
    have he : (step notify e).engine = e' := by rw [h]; rfl
    have hpays := lap_pays hn hs ht h₀ hw hm he
    have hfirst := (step_gains hn hs ht hm he).1
    have hcs := step_changes hn hs
    rw [he] at hcs
    have hs' := hcs.sound hs
    have ht' := (Changes.sameMake hcs).tracing.trans ht
    have hlaps := ih hs' ht' (hfirst.nonneg h₀)
    have hle := hfirst.loads_le
    have hle' := (hl.onward hn hs' ht').loads_le
    have hsum : (o.engine.loads - e.loads) * (start + cap).toNat =
        (e'.loads - e.loads) * (start + cap).toNat + (o.engine.loads - e'.loads) * (start + cap).toNat := by
      rw [← Nat.add_mul]
      congr 1
      omega
    omega

/-- the fault is that of listeners to which a snapshot was handed since `e` -/
def Raised (notify : Engine → Snapshot → Outcome Unit) (e : Engine) (o : Outcome Snapshot) : Prop :=
  ∃ e' f, Changes e e' ∧ (notify e' e'.snapshot).result = .error f ∧ o.result = .error f

/-- a loop leaves the latest snapshot behind, unless a listener has failed -/
theorem Loops.result (hn : Heard n notify) (hs : Sound n e) (h : Loops notify start cap k e o) :
    o.result = .ok o.engine.snapshot ∨ Raised notify e o := by
  induction h with
  | met hw => exact Or.inl rfl
  | @fault e e₁ f hw h =>
    have hfault : (step notify e).result = .error f := by rw [h]; rfl
    obtain ⟨e', hc, hf⟩ := step_fault hs hfault
    exact Or.inr ⟨e', _, .single hc, hf, rfl⟩
  | stuck hw hm h => exact Or.inl rfl
  | again hw hm h hl ih =>
    have hcs := step_changes hn hs
    rw [h] at hcs
    refine (ih (hcs.sound hs)).imp_right ?_
    rintro ⟨e', f, hcs', hf, ho⟩
    exact ⟨e', f, hcs.trans hcs', hf, ho⟩

/-- **A loop during which the machine is loaded no more than `most` times comes to an end.** -/
theorem exists_loops (hn : Heard n notify) (hs : Sound n e) (ht : e.tracing = true) (h₀ : 0 ≤ e.snapshot.steps)
    {most : ℕ} (hfin : ∀ fuel, (stepWhile notify start cap fuel e).engine.loads ≤ e.loads + most) :
    ∃ k o, Loops notify start cap k e o := by
  -- the induction is on the debt: each lap makes it smaller
  generalize hdebt : e.lapsLeft start cap + most * (start + cap).toNat = debt
  induction debt using Nat.strong_induction_on generalizing e most with
  | _ debt ih =>
    cases hw : e.wantsMore start cap with
    | false => exact ⟨0, _, .met hw⟩
    | true =>
      cases hstep : step notify e with
      | mk e' r =>
        cases r with
        | error f => exact ⟨1, _, .fault hw hstep⟩
        | ok q =>
          cases hm : e.canMove with
          | false => exact ⟨1, _, .stuck hw hm hstep⟩
          | true =>
            have he : (step notify e).engine = e' := by rw [hstep]
            have hpays := lap_pays hn hs ht h₀ hw hm he
            have hfirst := (step_gains hn hs ht hm he).1
            have hcs := step_changes hn hs
            rw [he] at hcs
            have hle := hfirst.loads_le
            have hmost : e'.loads ≤ e.loads + most := by
              have hone := hfin 1
              rw [stepWhile_again hw hm hstep] at hone
              exact hone
            have hsum : most * (start + cap).toNat = (e'.loads - e.loads) * (start + cap).toNat +
                (most - (e'.loads - e.loads)) * (start + cap).toNat := by
              rw [← Nat.add_mul]
              congr 1
              omega
            have hfin' : ∀ fuel, (stepWhile notify start cap fuel e').engine.loads ≤
                e'.loads + (most - (e'.loads - e.loads)) := by
              intro fuel
              have hmore := hfin (fuel + 1)
              rw [stepWhile_again hw hm hstep] at hmore
              omega
            obtain ⟨k, o, hl⟩ := ih _ (by omega) (hcs.sound hs) ((Changes.sameMake hcs).tracing.trans ht)
              (hfirst.nonneg h₀) hfin' rfl
            exact ⟨k + 1, o, .again hw hm hstep hl⟩

end Loops

/-! ## The operation -/

/-- a call with the cap `m`: the machine is paused, and the loop counts from where that leaves it; with the number of
its laps and what it leaves behind -/
inductive Calls (notify : Engine → Snapshot → Outcome Unit) (m : ℤ) (e : Engine) : ℕ → Outcome Snapshot → Prop
  | fault {e' : Engine} {f : Fault} (h : pause notify e = e'.fault f) : Calls notify m e 0 (e'.fault f)
  | loop {e' : Engine} {q : Snapshot} {k : ℕ} {o : Outcome Snapshot} (h : pause notify e = e'.done q)
      (hl : Loops notify e'.snapshot.steps m k e' o) : Calls notify m e k o

/-- how often the machine is loaded between the two engines -/
def loadsSince (e e' : Engine) : ℕ := e'.loads - e.loads

/-- while the loop of a call goes on, the machine is loaded finitely often: `most` times at the most, however many laps
are made -/
def LoadsFinitely (notify : Engine → Snapshot → Outcome Unit) (m : ℤ) (e : Engine) : Prop :=
  let e₁ := (pause notify e).engine
  ∃ most, ∀ fuel, loadsSince e₁ (stepWhile notify e₁.snapshot.steps m fuel e₁).engine ≤ most

/-- a call comes to its end: with `s` the steps counted when its loop begins, and `r` the loads from then on, the loop
makes at most `(r + 1) * (s + m + 1)` laps -/
structure Returns (notify : Engine → Snapshot → Outcome Unit) (m : ℤ) (e : Engine) (k : ℕ) (o : Outcome Snapshot) :
    Prop where
  calls : Calls notify m e k o
  laps_le :
    let e₁ := (pause notify e).engine
    (k : ℤ) ≤ (loadsSince e₁ o.engine + 1) * (e₁.snapshot.steps + m + 1)
  /-- the call returns the latest snapshot, unless a listener to which it has handed one has failed -/
  result : o.result = .ok o.engine.snapshot ∨ Raised notify e o

section Calls

variable {m : ℤ} {k : ℕ} {o : Outcome Snapshot} {c : Option Cap}

theorem laps_le_product {s : ℤ} {k r : ℕ} (hs : 0 ≤ s) (hm : 0 ≤ m) (hk : k ≤ m.toNat + r * (s + m).toNat) :
    (k : ℤ) ≤ (r + 1) * (s + m + 1) := by
  have hlaps : (k : ℤ) ≤ m + r * (s + m) := by
    have hcast : (k : ℤ) ≤ (m.toNat + r * (s + m).toNat : ℕ) := Nat.cast_le.2 hk
    rwa [Nat.cast_add, Nat.cast_mul, Int.toNat_of_nonneg hm, Int.toNat_of_nonneg (by omega)] at hcast
  have hr : (0 : ℤ) ≤ r := Nat.cast_nonneg r
  calc (k : ℤ) ≤ m + r * (s + m) := hlaps
    _ ≤ (r + 1) * (s + m) + (r + 1) := by linarith [add_mul (r : ℤ) 1 (s + m)]
    _ = (r + 1) * (s + m + 1) := by ring

/-- with fuel for all its laps, a call is what the operation computes -/
theorem Calls.runUntilHalt_eq (h : Calls notify m e k o) (hc : c.or e.cap = some (.ok m))
    (hk : k ≤ (pause notify e).engine.stepBound m) : runUntilHalt notify e c = o := by
  cases h with
  | fault h => simp only [runUntilHalt, hc, h, Outcome.andThen, Engine.fault]
  | loop h hl =>
    rw [h, done_engine] at hk
    simp only [runUntilHalt, hc, h, Outcome.andThen, done]
    exact hl.stepWhile_eq hk

/-- **A call during which the machine is loaded finitely often comes to its end.** -/
theorem exists_returns (hn : Heard n notify) (hs : Sound n e) (ht : e.tracing = true) (h₀ : 0 ≤ e.snapshot.steps)
    (hm : 0 ≤ m) (hfin : LoadsFinitely notify m e) : ∃ k o, Returns notify m e k o := by
  have hcs := pause_changes hn hs
  have hs₁ := hcs.sound hs
  have ht₁ := (Changes.sameMake hcs).tracing.trans ht
  have h₁ := (Changes.onward hs ht hcs).nonneg h₀
  obtain ⟨most, hmost⟩ := hfin
  cases hp : pause notify e with
  | mk e₁ r =>
    have he : (pause notify e).engine = e₁ := by rw [hp]
    rw [he] at hcs hs₁ ht₁ h₁ hmost
    cases r with
    | error f =>
      refine ⟨0, _, .fault hp, ?_, ?_⟩
      · simp only [he]
        exact laps_le_product h₁ hm (Nat.zero_le _)
      · have hfault : (pause notify e).result = .error f := by rw [hp]
        obtain ⟨e', hc, hf⟩ := pause_fault hs hfault
        exact Or.inr ⟨e', f, .single hc, hf, rfl⟩
    | ok q =>
      have hmost' : ∀ fuel, (stepWhile notify e₁.snapshot.steps m fuel e₁).engine.loads ≤ e₁.loads + most := by
        intro fuel
        have hle := hmost fuel
        rw [loadsSince] at hle
        omega
      obtain ⟨k, o, hl⟩ := exists_loops hn hs₁ ht₁ h₁ hmost'
      refine ⟨k, o, .loop hp hl, ?_, ?_⟩
      · simp only [he]
        refine laps_le_product h₁ hm ((hl.laps_le hn hs₁ ht₁ h₁).trans (Nat.add_le_add_right ?_ _))
        unfold lapsLeft
        split_ifs
        · omega
        · exact Nat.zero_le _
      · refine (hl.result hn hs₁).imp_right ?_
        rintro ⟨e', f, hcs', hf, ho⟩
        exact ⟨e', f, hcs.trans hcs', hf, ho⟩

end Calls

end Engine
end TapeMachine
