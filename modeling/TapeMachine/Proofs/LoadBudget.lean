/-
What loads cost, and the fuel of a call.

A listener with a script loads the machine only by a command of its script, which is used up. So the loads that there
have been, together with the commands that scripts hold, never grow in number while a snapshot is handed on
(`Thrifty`, `notifyAt_thrifty`): each operation loads no more than it does by itself, and what it calls pays for the
rest. Stepping by hand loads nothing by itself, and with scripted listeners it loads the machine finitely often.

The main statement is about any listeners (`runUntilHalt_returns`). If they load the machine finitely often while the
loop goes on, and whatever else they do in it, the loop comes to its end within the laps that the count and the loads
allow. With no more loads than there are commands in scripts, it does so within the fuel that the operation gives it,
and that is always so when scripts are all there is (`scripted_runUntilHalt_returns`).
-/
import TapeMachine.Proofs.Laps

namespace TapeMachine
namespace Engine

variable {n : ℤ} {e e' : Engine} {notify : Engine → Snapshot → Outcome Unit} {ns : List Note}

/-! ## The budget -/

/-- the loads that there have been, and the commands that could cause one more each -/
def budget (e : Engine) : ℕ := e.loads + e.commandsLeft

theorem Records.budget (h : Records ns e e') (ht : e.tracing = true) :
    e'.budget = e.budget + ns.countP Note.isFresh := by
  have hscripts : e'.commandsLeft = e.commandsLeft := by
    obtain ⟨j, d, -, rfl⟩ := h.eq
    rfl
  rw [Engine.budget, loads, h.trace ht, List.countP_append, hscripts, Engine.budget, loads]
  omega

theorem budget_note (ht : e.tracing = true) {x : Note} (hx : x.isFresh = false) : (e.note x).budget = e.budget := by
  rw [(records_note e x).budget ht, List.countP_singleton, hx]
  rfl

theorem countP_isFresh_le (ns : List Note) : ns.countP Note.isFresh ≤ (ns.filterMap Note.committed?).length := by
  rw [List.length_filterMap_eq_countP]
  refine List.countP_mono_left fun x _ hx => ?_
  cases x with
  | commit p q audience => rfl
  | _ => cases hx

/-- notes without the commit of a load -/
theorem countP_isFresh_eq_zero (h : ∀ q ∈ ns.filterMap Note.committed?, q.status ≠ .idle ∨ q.tape = []) :
    ns.countP Note.isFresh = 0 := by
  refine List.countP_eq_zero.2 fun x hx hfresh => ?_
  cases x with
  | commit p q audience =>
    obtain ⟨hstatus, htape⟩ := Bool.and_eq_true_iff.1 hfresh
    rcases h q (List.mem_filterMap.2 ⟨_, hx, rfl⟩) with hs | ht
    · exact hs (eq_of_beq hstatus)
    · rw [ht] at htape
      cases htape
  | _ => cases hfresh

/-- listeners that pay for the loads that they cause -/
def Thrifty (n : ℤ) (notify : Engine → Snapshot → Outcome Unit) : Prop :=
  ∀ e q, Sound n e → Walks n e → (notify e q).engine.budget ≤ e.budget

/-- an operation that hands its snapshot on loads the machine no more often than it notes by itself -/
theorem HandsOn.budget_le (hy : Thrifty n notify) {e₁ : Engine} {o : Outcome Snapshot} (ho : HandsOn notify ns e₁ o)
    (hs : Sound n e) (hw : Walks n e) (hc : ∀ e', Records ns e₁ e' → Change e e') (ht : e₁.tracing = e.tracing)
    (hb : e₁.budget = e.budget) {b : ℕ} (hns : ns.countP Note.isFresh ≤ b) : o.engine.budget ≤ e.budget + b := by
  obtain ⟨e', hrec, rfl⟩ := ho
  have hchange := hc e' hrec
  have hcalled := hy e' e₁.snapshot (hchange.sound hs) (hchange.walks hs hw)
  have hrecorded := hrec.budget (ht.trans hw.tracing)
  rw [Outcome.map_engine]
  omega

/-! ## What each operation costs -/

section Operations

theorem loadDefinition_budget_le (hy : Thrifty n notify) (hs : Sound n e) (hw : Walks n e) (d : Definition)
    (input : Text) : (loadDefinition notify e d input).engine.budget ≤ e.budget + 1 := by
  cases hv : d.validate with
  | error f =>
    simp only [loadDefinition, hv]
    exact Nat.le_succ _
  | ok u =>
    have hd := d.validate_ok_iff.1 hv
    refine (loadDefinition_handsOn notify hd hs.logs hs.room input).budget_le hy hs hw
      (fun _ hrec => .load d input n hd hs.room hrec) rfl rfl ((countP_isFresh_le _).trans ?_)
    rw [commits_loadNotes]
    exact le_rfl

theorem load_budget_le (hy : Thrifty n notify) (hs : Sound n e) (hw : Walks n e) (source : Source) (input : Text) :
    (load notify e source input).engine.budget ≤ e.budget + 1 := by
  unfold load
  split
  · exact loadDefinition_budget_le hy hs hw _ _
  · exact Nat.le_succ _

theorem reset_budget_le (hy : Thrifty n notify) (hs : Sound n e) (hw : Walks n e) :
    (reset notify e).engine.budget ≤ e.budget + 1 := by
  cases hd : e.definition with
  | none =>
    rw [reset_of_none hd]
    exact Nat.le_succ _
  | some d =>
    refine (reset_handsOn notify hs hd).budget_le hy hs hw
      (fun _ hrec => .reset d n hd (hs.valid d hd) hs.room hrec) rfl rfl ((countP_isFresh_le _).trans ?_)
    rw [List.filterMap_append, commits_loadNotes, commits_event]
    exact le_rfl

theorem restart_budget_le (hy : Thrifty n notify) (hs : Sound n e) (hw : Walks n e) :
    (restart notify e).engine.budget ≤ e.budget + 1 := by
  cases hd : e.definition with
  | none =>
    rw [restart_of_none hd]
    exact Nat.le_succ _
  | some d =>
    refine (restart_handsOn notify hs hd).budget_le hy hs hw
      (fun _ hrec => .load d e.input n (hs.valid d hd) hs.room hrec) rfl rfl ((countP_isFresh_le _).trans ?_)
    rw [commits_loadNotes]
    exact le_rfl

/-- the next snapshot is not that of a load -/
theorem placeNotes_not_fresh (hw : Walks n e) (hh : e.snapshot.halted = false) {q : Snapshot}
    (hq : e.next = some q) : (e.placeNotes q).countP Note.isFresh = 0 := by
  refine countP_isFresh_eq_zero fun q' hq' => ?_
  rw [commits_placeNotes, List.mem_singleton] at hq'
  rw [hq']
  cases hd : e.definition with
  | none =>
    simp only [Engine.next, hd, hw.snapshot_eq hd] at hq
    rw [← Option.some.inj hq]
    exact Or.inr rfl
  | some d =>
    simp only [Engine.next, hd] at hq
    exact Or.inl (advance_ne_idle hq hh)

theorem step_budget_le (hy : Thrifty n notify) (hs : Sound n e) (hw : Walks n e) :
    (step notify e).engine.budget ≤ e.budget := by
  cases hm : e.snapshot.status.manual with
  | false =>
    rw [step_of_not_manual hm]
    exact le_rfl
  | true =>
    have hgoing := Status.not_halted_of_manual hm
    obtain ⟨q, hq, -⟩ := hs.next hgoing
    rw [step_of_manual hm]
    exact (advanceOnce_handsOn notify hs.logs hq).budget_le hy hs hw (fun _ hrec => .step q hm hq hrec) rfl rfl
      (placeNotes_not_fresh hw hgoing hq).le

theorem tick_budget_le (hy : Thrifty n notify) (hs : Sound n e) (hw : Walks n e) {t : Ticker Unit}
    (ht : e.ticker.due = some t) : (tick notify { e with ticker := t }).engine.budget ≤ e.budget := by
  obtain ⟨q, o, hr, hq, heq, ho⟩ := tick_handsOn notify hs ht
  rw [heq, Outcome.map_engine]
  exact ho.budget_le hy hs hw (fun _ hrec => .tick t q ht hr hq hrec) rfl rfl
    (placeNotes_not_fresh hw (Snapshot.not_halted_of_running hr) hq).le

theorem fire_budget_le (hn : Heard n notify) (hy : Thrifty n notify) (hs : Sound n e) (hw : Walks n e) :
    (fire notify e).engine.budget ≤ e.budget := by
  cases ht : e.ticker.due with
  | none =>
    rw [fire, ht]
    exact le_rfl
  | some t =>
    have htick := tick_budget_le hy hs hw ht
    obtain ⟨q, -, hplaces⟩ := tick_places hn hs ht
    have htracing := (Changes.walks hs hw hplaces.changes).tracing
    rw [fire, ht]
    simp only
    split
    · exact htick
    · exact (budget_note htracing rfl).le.trans htick
    · exact (budget_note (e := Engine.stopTicker _) htracing rfl).le.trans htick

theorem pause_budget_le (hy : Thrifty n notify) (hs : Sound n e) (hw : Walks n e) :
    (pause notify e).engine.budget ≤ e.budget := by
  by_cases hr : e.snapshot.status = .running
  · refine (pause_handsOn notify hs hr).budget_le hy hs hw (fun _ hrec => .pause hr hrec) rfl rfl
      (countP_isFresh_eq_zero fun q hq => ?_).le
    rw [List.filterMap_cons, commits_event] at hq
    rw [List.mem_singleton.1 hq]
    exact Or.inl Status.noConfusion
  · rw [pause_of_not_running hr]
    exact le_rfl

theorem run_budget_le (hy : Thrifty n notify) (hs : Sound n e) (hw : Walks n e) (interval : Seconds) :
    (run notify e interval).engine.budget ≤ e.budget := by
  have hstart : ∀ i, (e.startNotes i).countP Note.isFresh = 0 := by
    intro i
    refine countP_isFresh_eq_zero fun q hq => ?_
    rw [commits_startNotes] at hq
    cases hq
  cases hgo : e.definition.isNone || e.snapshot.halted with
  | true =>
    rw [run_of_idle hgo]
    exact (budget_note (e := e.stopTicker) hw.tracing rfl).le
  | false =>
    cases ht : e.ticker.start (interval.max e.least) () with
    | mk t r =>
      cases r with
      | error f =>
        rw [run_of_refused hgo ht]
        exact (budget_note (e := e.stopTicker) hw.tracing rfl).le
      | ok u =>
        by_cases hr : e.snapshot.status = .running
        · obtain ⟨e₁, hrec, heq⟩ := run_of_started notify hs hgo ht
          have hbudget := hrec.budget hw.tracing
          rw [hstart] at hbudget
          rw [heq, if_pos hr]
          exact hbudget.le
        · obtain ⟨hd, hh⟩ := Bool.or_eq_false_iff.1 hgo
          have hsome : e.definition.isSome = true := by
            rw [← Option.not_isNone, hd]
            rfl
          refine (run_handsOn notify hs hgo ht hr).budget_le hy hs hw
            (fun _ hrec => .start t _ hsome hh ht hr hrec) rfl rfl (countP_isFresh_eq_zero fun q hq => ?_).le
          rw [List.filterMap_cons, commits_startNotes] at hq
          rw [List.mem_singleton.1 hq]
          exact Or.inl Status.noConfusion

theorem runFor_budget_le (hy : Thrifty n notify) (hs : Sound n e) (hw : Walks n e) (interval : Json) :
    (runFor notify e interval).engine.budget ≤ e.budget := by
  unfold runFor
  split
  · exact run_budget_le hy hs hw _
  · have hnote : (e.stopTicker.note .runMistyped).budget ≤ e.budget :=
      (budget_note (e := e.stopTicker) hw.tracing rfl).le
    simp only
    split_ifs
    · exact hnote
    · exact hnote

/-- **Stepping by hand loads nothing by itself**, for however long. -/
theorem stepWhile_budget_le (hn : Heard n notify) (hy : Thrifty n notify) (start cap : ℤ) (fuel : ℕ) (hs : Sound n e)
    (hw : Walks n e) : (stepWhile notify start cap fuel e).engine.budget ≤ e.budget := by
  induction fuel generalizing e with
  | zero => exact le_rfl
  | succ fuel ih =>
    have hcs := step_changes hn hs
    have hstep := step_budget_le hy hs hw
    simp only [stepWhile]
    by_cases hwants : e.wantsMore start cap = true
    · rw [if_pos hwants]
      generalize step notify e = o at hcs hstep ⊢
      obtain ⟨e₁, r⟩ := o
      cases r with
      | error f => exact hstep
      | ok q =>
        simp only
        split_ifs
        · exact (ih (hcs.sound hs) (Changes.walks hs hw hcs)).trans hstep
        · exact hstep
    · rw [if_neg hwants]
      exact le_rfl

theorem runUntilHalt_budget_le (hn : Heard n notify) (hy : Thrifty n notify) (hs : Sound n e) (hw : Walks n e)
    (cap : Option Cap) : (runUntilHalt notify e cap).engine.budget ≤ e.budget := by
  unfold runUntilHalt
  split
  · exact le_rfl
  · have hcs := pause_changes hn hs
    have hpause := pause_budget_le hy hs hw
    generalize pause notify e = o at hcs hpause ⊢
    obtain ⟨e₁, r⟩ := o
    cases r with
    | error f => exact hpause
    | ok q =>
      simp only [Outcome.andThen]
      split
      · exact (stepWhile_budget_le hn hy _ _ _ (hcs.sound hs) (Changes.walks hs hw hcs)).trans hpause
      · split_ifs
        · exact hpause
        · exact hpause

/-- **A command loads the machine once at the most**, and what it calls pays for the rest. -/
theorem perform_budget_le (hn : Heard n notify) (hy : Thrifty n notify) (hs : Sound n e) (hw : Walks n e)
    (self : String) (c : Command) : (perform notify self e c).engine.budget ≤ e.budget + 1 := by
  cases c with
  | load source input => exact load_budget_le hy hs hw _ _
  | step => exact (step_budget_le hy hs hw).trans (Nat.le_succ _)
  | run interval => exact (run_budget_le hy hs hw _).trans (Nat.le_succ _)
  | runFor interval => exact (runFor_budget_le hy hs hw _).trans (Nat.le_succ _)
  | pause => exact (pause_budget_le hy hs hw).trans (Nat.le_succ _)
  | reset => exact reset_budget_le hy hs hw
  | restart => exact restart_budget_le hy hs hw
  | runUntilHalt cap => exact (runUntilHalt_budget_le hn hy hs hw _).trans (Nat.le_succ _)
  | subscribe name => exact Nat.le_succ _
  | unsubscribe name =>
    rw [perform, unsubscribe]
    split_ifs
    · exact Nat.le_succ _
    · exact Nat.le_succ _
  | fire => exact (fire_budget_le hn hy hs hw).trans (Nat.le_succ _)
  | fail => exact Nat.le_succ _
  | interrupt => exact Nat.le_succ _

theorem performAll_budget_le (hn : Heard n notify) (hy : Thrifty n notify) (self : String) (cs : List Command)
    (hs : Sound n e) (hw : Walks n e) : (performAll notify self e cs).engine.budget ≤ e.budget + cs.length := by
  induction cs generalizing e with
  | nil => exact le_rfl
  | cons c cs ih =>
    have hchanges := perform_changes hn hs self c
    have hfirst := perform_budget_le hn hy hs hw self c
    rw [performAll, Outcome.andThen, List.length_cons]
    split
    · have hrest := ih (hchanges.sound hs) (Changes.walks hs hw hchanges)
      omega
    · change (perform notify self e c).engine.budget ≤ _
      omega

end Operations

/-! ## Scripts pay for what they cause -/

/-- the commands of a script -/
def commandsOf (s : String × List Reaction) : ℕ := total (s.2.map fun r => r.commands.length)

theorem commandsOf_tail_le (s : String × List Reaction) : commandsOf (s.1, s.2.tail) ≤ commandsOf s := by
  obtain ⟨name, rs⟩ := s
  cases rs with
  | nil => exact le_rfl
  | cons r rs => exact Nat.le_add_left _ _

theorem total_dropReaction_le (l : List (String × List Reaction)) (name : String) :
    total ((dropReaction l name).map commandsOf) ≤ total (l.map commandsOf) := by
  induction l with
  | nil => exact le_rfl
  | cons s l ih =>
    simp only [dropReaction, total, List.map_cons, List.foldr_cons] at ih ⊢
    split_ifs
    · exact Nat.add_le_add (commandsOf_tail_le s) ih
    · exact Nat.add_le_add_left ih _

/-- a reaction that is used up takes its commands with it -/
theorem total_dropReaction_add_le {l : List (String × List Reaction)} {name : String} {r : Reaction}
    {rs : List Reaction} (h : l.lookup name = some (r :: rs)) :
    total ((dropReaction l name).map commandsOf) + r.commands.length ≤ total (l.map commandsOf) := by
  induction l with
  | nil => cases h
  | cons s l ih =>
    obtain ⟨name', script⟩ := s
    have hrest := total_dropReaction_le l name
    simp only [dropReaction, total, List.map_cons, List.foldr_cons] at ih hrest ⊢
    rw [List.lookup_cons] at h
    by_cases heq : name' = name
    · rw [heq, beq_self_eq_true] at h
      obtain rfl : script = r :: rs := Option.some.inj h
      rw [if_pos heq]
      simp only [commandsOf, total, List.tail_cons, List.map_cons, List.foldr_cons] at hrest ⊢
      omega
    · rw [beq_false_of_ne (Ne.symm heq)] at h
      have hmore := ih h
      rw [if_neg heq]
      omega

theorem takeReaction_budget_le {name : String} {q : Snapshot} {cs : List Command}
    (h : e.takeReaction name q = some (cs, e')) : Change e e' ∧ e'.budget + cs.length ≤ e.budget := by
  unfold takeReaction at h
  split at h
  · rename_i r rs hlookup
    split_ifs at h
    obtain ⟨rfl, rfl⟩ := Prod.mk.inj (Option.some.inj h)
    have hless : total ((dropReaction e.scripts name).map commandsOf) + r.commands.length ≤
        total (e.scripts.map commandsOf) := total_dropReaction_add_le hlookup
    refine ⟨.script _ rfl, ?_⟩
    change e.loads + total ((dropReaction e.scripts name).map commandsOf) + r.commands.length ≤
      e.loads + total (e.scripts.map commandsOf)
    omega
  · cases h

theorem deliver_budget_le {react : String → Engine → Snapshot → Outcome Unit}
    (hr : ∀ l e q, Sound n e → Walks n e → Changes e (react l e q).engine ∧ (react l e q).engine.budget ≤ e.budget)
    (q : Snapshot) (ls : List String) (hs : Sound n e) (hw : Walks n e) :
    (deliver react q e ls).engine.budget ≤ e.budget := by
  induction ls generalizing e with
  | nil => exact le_rfl
  | cons l ls ih =>
    have hnote : Change e (e.note (.delivery l q)) := .deliver l q rfl
    obtain ⟨hcs, hreact⟩ := hr l _ q (hnote.sound hs) (hnote.walks hs hw)
    have hbudget := hreact.trans (budget_note hw.tracing rfl).le
    have hchanges : Changes e (react l (e.note (.delivery l q)) q).engine := .trans (.single hnote) hcs
    rw [deliver, Outcome.andThen]
    split
    · exact (ih (hchanges.sound hs) (Changes.walks hs hw hchanges)).trans hbudget
    · exact hbudget

theorem notifyAt_heard (n : ℤ) (m : ℕ) : Heard n (notifyAt m) :=
  fun e q hs => reaches_changes (notifyAt_reaches m e q) hs

/-- **Scripted listeners pay for every load that they cause**, in any nesting. -/
theorem notifyAt_thrifty (n : ℤ) (m : ℕ) : Thrifty n (notifyAt m) := by
  induction m with
  | zero => exact fun e q hs hw => deliver_budget_le (fun _ _ _ _ _ => ⟨.refl, le_rfl⟩) q _ hs hw
  | succ m ih =>
    refine fun e q hs hw => deliver_budget_le ?_ q _ hs hw
    intro l e q hs hw
    cases ht : e.takeReaction l q with
    | none => exact ⟨.refl, le_rfl⟩
    | some r =>
      obtain ⟨cs, e₁⟩ := r
      obtain ⟨hc, htaken⟩ := takeReaction_budget_le ht
      have hs₁ := hc.sound hs
      have hall := performAll_budget_le (notifyAt_heard n m) ih l cs hs₁ (hc.walks hs hw)
      have hcs := reaches_changes (performAll_reaches (notifyAt_reaches m) l cs e₁) hs₁
      exact ⟨.trans (.single hc) hcs, hall.trans htaken⟩

theorem notify_thrifty (n : ℤ) : Thrifty n Engine.notify := fun e q hs hw => notifyAt_thrifty n _ e q hs hw

theorem notify_heard (n : ℤ) : Heard n Engine.notify := fun e q hs => reaches_changes (notify_reaches e q) hs

/-- while a machine is stepped by hand, scripts load it no more often than they have commands -/
theorem loadsSince_le_commandsLeft (hs : Sound n e) (hw : Walks n e) (start cap : ℤ) (fuel : ℕ) :
    loadsSince e (stepWhile Engine.notify start cap fuel e).engine ≤ e.commandsLeft := by
  have hbudget := stepWhile_budget_le (notify_heard n) (notify_thrifty n) start cap fuel hs hw
  unfold budget at hbudget
  unfold loadsSince
  omega

/-! ## A call comes to its end -/

section Returns

variable {m : ℤ} {k : ℕ} {o : Outcome Snapshot} {cap : Option Cap}

/-- with no more loads than there are commands in scripts, the fuel of a call is enough -/
theorem Returns.runUntilHalt_eq (h : Returns notify m e k o) (hcap : cap.or e.cap = some (.ok m))
    (hr : loadsSince (pause notify e).engine o.engine ≤ (pause notify e).engine.commandsLeft) :
    runUntilHalt notify e cap = o := by
  refine h.calls.runUntilHalt_eq hcap ?_
  have hlaps := h.laps_le
  simp only at hlaps
  generalize (pause notify e).engine = e₁ at hlaps hr ⊢
  have hpos : (e₁.snapshot.steps + m + 1) ≤ ((e₁.snapshot.steps + m).toNat + 1 : ℕ) := by omega
  have hbound : (k : ℤ) ≤ (((e₁.snapshot.steps + m).toNat + 1) * (e₁.commandsLeft + 1) : ℕ) := by
    calc (k : ℤ) ≤ (loadsSince e₁ o.engine + 1) * (e₁.snapshot.steps + m + 1) := hlaps
      _ ≤ (loadsSince e₁ o.engine + 1) * ((e₁.snapshot.steps + m).toNat + 1 : ℕ) :=
        mul_le_mul_of_nonneg_left hpos (by positivity)
      _ ≤ (e₁.commandsLeft + 1) * ((e₁.snapshot.steps + m).toNat + 1 : ℕ) := by
        gcongr
      _ = (((e₁.snapshot.steps + m).toNat + 1) * (e₁.commandsLeft + 1) : ℕ) := by
        push_cast
        ring
  exact Nat.cast_le.1 hbound

/-- a call in which scripts are all that loads the machine -/
theorem loadsFinitely_notify (hs : Sound n e) (hw : Walks n e) (m : ℤ) : LoadsFinitely Engine.notify m e := by
  have hc := pause_changes (notify_heard n) hs
  exact ⟨_, fun fuel => loadsSince_le_commandsLeft (hc.sound hs) (Changes.walks hs hw hc) _ m fuel⟩

theorem Calls.loadsSince_le (h : Calls Engine.notify m e k o) (hs : Sound n e) (hw : Walks n e) :
    loadsSince (pause Engine.notify e).engine o.engine ≤ (pause Engine.notify e).engine.commandsLeft := by
  have hc := pause_changes (notify_heard n) hs
  cases h with
  | fault h =>
    rw [h, loadsSince]
    exact (Nat.sub_self _).le.trans (Nat.zero_le _)
  | loop h hl =>
    have hle := loadsSince_le_commandsLeft (hc.sound hs) (Changes.walks hs hw hc)
      (pause Engine.notify e).engine.snapshot.steps m k
    rw [h, done_engine] at hle ⊢
    rwa [hl.stepWhile_eq le_rfl] at hle

section Reached

variable {c : Config} {loop : Bool} {disk : Disk} {clock : Clock} {journal : Option Journal} {refused : List String}
  {room : Option ℕ}

theorem reaches_walks (hm : make c loop disk clock = .ok e) (hn : e.padding.count room = .ok n) (hpos : 1 ≤ n)
    (hl : { e with room, journal, refused, tracing := true }.LogsAll)
    (h : Reaches { e with room, journal, refused, tracing := true } e') :
    Sound n e' ∧ Walks n e' ∧ 0 ≤ e'.snapshot.steps := by
  have hs := sound_of_make hm hn hpos hl
  have hc := reaches_changes h hs
  have hw : Walks n { e with room, journal, refused, tracing := true } := by
    obtain ⟨padding, least, v, -, -, rfl⟩ := make_eq hm
    exact ⟨rfl, [], rfl, .made⟩
  have hzero : e.snapshot.steps = 0 := by
    obtain ⟨padding, least, v, -, -, rfl⟩ := make_eq hm
    rfl
  exact ⟨Changes.sound hs hc, Changes.walks hs hw hc, (Changes.onward hs rfl hc).nonneg hzero.ge⟩

/-- **Stepping until the halt always returns**, whatever the listeners do when they are called in the middle of it, as
long as they load the machine finitely often. The cap is not negative, the settings give at least one cell of padding,
for which there is room, and the log takes every entry. -/
theorem runUntilHalt_returns (hm : make c loop disk clock = .ok e) (hn : e.padding.count room = .ok n) (hpos : 1 ≤ n)
    (hl : { e with room, journal, refused, tracing := true }.LogsAll)
    (h : Reaches { e with room, journal, refused, tracing := true } e') (hlistens : Listens notify)
    (hcap : cap.or e'.cap = some (.ok m)) (hm₀ : 0 ≤ m) (hfin : LoadsFinitely notify m e') :
    ∃ k o, Returns notify m e' k o ∧
      (loadsSince (pause notify e').engine o.engine ≤ (pause notify e').engine.commandsLeft →
        runUntilHalt notify e' cap = o) := by
  obtain ⟨hs, hw, hnonneg⟩ := reaches_walks hm hn hpos hl h
  have hheard : Heard n notify := fun e q he => reaches_changes (hlistens e q) he
  obtain ⟨k, o, hreturns⟩ := exists_returns hheard hs hw.tracing hnonneg hm₀ hfin
  exact ⟨k, o, hreturns, hreturns.runUntilHalt_eq hcap⟩

/-- the busy beaver after one step, with a listener that starts it again two steps from its beginning, and makes a step
in the middle of that; and then once more when it has halted -/
def recurring : Engine :=
  applyAll { bench with
    scripts := [("recurring", [⟨some 2, none, [.restart, .step]⟩, ⟨none, some .accepted, [.pause, .restart]⟩])] }
    [.subscribe "recurring", .load (.definition Preset.busyBeaver) none, .step]

theorem recurring_returns :
    let e : Engine := { bench with tracing := false }
    make benchSettings true {} bench.clock = .ok e ∧ e.padding.count e.room = .ok 1 ∧ bench.LogsAll ∧
      Reaches bench recurring ∧ Listens Engine.notify ∧ LoadsFinitely Engine.notify 20 recurring ∧
      recurring.snapshot.steps = 1 ∧
      loadsSince recurring (runUntilHalt Engine.notify recurring (some (.ok 20))).engine = 2 ∧
      ∃ k o, Returns Engine.notify 20 recurring k o ∧
        (loadsSince (pause Engine.notify recurring).engine o.engine ≤
            (pause Engine.notify recurring).engine.commandsLeft →
          runUntilHalt Engine.notify recurring (some (.ok 20)) = o) := by
  have hl : bench.LogsAll := logsAll_of_no_journal rfl
  have hr : Reaches bench recurring := (Reaches.script _ (.refl _)).trans (applyAll_reaches _ _)
  obtain ⟨hs, hw, -⟩ := reaches_walks make_bench rfl (by decide) hl hr
  have hfin : LoadsFinitely Engine.notify 20 recurring := loadsFinitely_notify hs hw 20
  exact ⟨make_bench, rfl, hl, hr, notify_reaches, hfin, by decide +kernel, by decide +kernel,
    runUntilHalt_returns make_bench rfl (by decide) hl hr notify_reaches rfl (by decide) hfin⟩

/-- **With scripted listeners the fuel of a call is never used up**: what the operation computes is what the loop comes
to. -/
theorem scripted_runUntilHalt_returns (hm : make c loop disk clock = .ok e) (hn : e.padding.count room = .ok n)
    (hpos : 1 ≤ n) (hl : { e with room, journal, refused, tracing := true }.LogsAll)
    (h : Reaches { e with room, journal, refused, tracing := true } e') (hcap : cap.or e'.cap = some (.ok m))
    (hm₀ : 0 ≤ m) :
    ∃ k, Returns Engine.notify m e' k (runUntilHalt Engine.notify e' cap) := by
  obtain ⟨hs, hw, hnonneg⟩ := reaches_walks hm hn hpos hl h
  obtain ⟨k, o, hreturns⟩ := exists_returns (notify_heard n) hs hw.tracing hnonneg hm₀ (loadsFinitely_notify hs hw m)
  rw [hreturns.runUntilHalt_eq hcap (hreturns.calls.loadsSince_le hs hw)]
  exact ⟨k, hreturns⟩

end Reached

end Returns

end Engine
end TapeMachine
