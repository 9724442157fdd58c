/-
Listeners that only subscribe and unsubscribe.

Such listeners leave the machine alone, in the middle of a delivery too (`notify_aside`): a snapshot goes to those who
were subscribed when its delivery began, each as often as it was in the list, whoever comes and goes meanwhile. So what
is on the air, the commits and the deliveries among all that the trace tells of, is one announcement after another
(`Announcement`): a commit, and then a delivery to each of its audience.

Every operation adds whole announcements, whatever else it does (`Carries`). It may end in the middle of one in two ways
only: a listener raises, or the log refuses the entry of a halt, which comes between the commit and its deliveries. So
what a listener has received is the committed snapshots in order, each as often as the listener was in its audience,
without those whose halt the log refused (`conducts_hears`).
-/
import TapeMachine.Proofs.BrokenOff
import TapeMachine.Proofs.LiveFrames

namespace TapeMachine

/-- a command that leaves the machine and its timer alone -/
def Command.aside : Command → Bool
  | .subscribe _ => true
  | .unsubscribe _ => true
  | .fail => true
  | .interrupt => true
  | _ => false

/-- a listener has raised it -/
def Fault.ofListener : Fault → Bool
  | .notSubscribed => true
  | .listenerFailed _ => true
  | .interrupted => true
  | _ => false

namespace Engine

variable {e e' : Engine} {q : Snapshot}

/-! ## Listeners aside -/

/-- scripts in which every command leaves the machine alone -/
def Bystanding (l : List (String × List Reaction)) : Prop := ∀ s ∈ l, ∀ r ∈ s.2, ∀ c ∈ r.commands, c.aside = true

/-- nothing differs but the listeners, and what the trace tells of them -/
def LeavesAlone (e e' : Engine) : Prop := ∃ l s t, e' = { e with subscribers := l, scripts := s, trace := t }

theorem LeavesAlone.refl (e : Engine) : LeavesAlone e e := ⟨_, _, _, rfl⟩

theorem LeavesAlone.trans {e'' : Engine} (h : LeavesAlone e e') (h' : LeavesAlone e' e'') : LeavesAlone e e'' := by
  obtain ⟨_, _, _, rfl⟩ := h
  obtain ⟨l, s, t, rfl⟩ := h'
  exact ⟨l, s, t, rfl⟩

theorem LeavesAlone.tracing (h : LeavesAlone e e') : e'.tracing = e.tracing := by
  obtain ⟨_, _, _, rfl⟩ := h
  rfl

/-- what a listener does that leaves the machine alone, and keeps no record: it may end in a fault of its own -/
structure Aside (e : Engine) (o : Outcome Unit) : Prop where
  leaves : LeavesAlone e o.engine
  bystanding : Bystanding o.engine.scripts
  trace : o.engine.trace = e.trace
  faults : ∀ f, o.result = .error f → f.ofListener = true

theorem aside_done (h : Bystanding e.scripts) : Aside e (e.done ()) := by
  refine ⟨.refl e, h, rfl, ?_⟩
  intro f hf
  cases hf

theorem aside_fault (h : Bystanding e.scripts) {f : Fault} (hf : f.ofListener = true) : Aside e (e.fault f) := by
  refine ⟨.refl e, h, rfl, ?_⟩
  intro f' hf'
  rwa [← Except.error.inj hf']

theorem Aside.andThen {o : Outcome Unit} {f : Engine → Unit → Outcome Unit} (h : Aside e o)
    (hf : Bystanding o.engine.scripts → Aside o.engine (f o.engine ())) : Aside e (o.andThen f) := by
  cases hr : o.result with
  | ok u =>
    obtain ⟨hleaves, hbystanding, htrace, hfaults⟩ := hf h.bystanding
    rw [Outcome.andThen_of_ok hr]
    exact ⟨h.leaves.trans hleaves, hbystanding, htrace.trans h.trace, hfaults⟩
  | error x =>
    have hx := h.faults x hr
    simp only [Outcome.andThen, hr]
    refine ⟨h.leaves, h.bystanding, h.trace, ?_⟩
    intro f' hf'
    rwa [← Except.error.inj hf']

section Aside

variable {notify : Engine → Snapshot → Outcome Unit}

theorem perform_aside (h : Bystanding e.scripts) (self : String) {c : Command} (hc : c.aside = true) :
    Aside e (perform notify self e c) := by
  cases c with
  | subscribe name =>
    refine ⟨⟨_, _, _, rfl⟩, h, rfl, ?_⟩
    intro f hf
    cases hf
  | unsubscribe name =>
    rw [perform, unsubscribe]
    split_ifs
    · refine ⟨⟨_, _, _, rfl⟩, h, rfl, ?_⟩
      intro f hf
      cases hf
    · exact aside_fault h rfl
  | fail => exact aside_fault h rfl
  | interrupt => exact aside_fault h rfl
  | load | step | run | runFor | pause | reset | restart | runUntilHalt | fire => cases hc

theorem performAll_aside (h : Bystanding e.scripts) (self : String) {cs : List Command}
    (hcs : ∀ c ∈ cs, c.aside = true) : Aside e (performAll notify self e cs) := by
  induction cs generalizing e with
  | nil => exact aside_done h
  | cons c cs ih =>
    refine (perform_aside h self (hcs c List.mem_cons_self)).andThen fun h' => ?_
    exact ih h' fun c' hc' => hcs c' (List.mem_cons_of_mem c hc')

end Aside

/-- a reaction that is taken was in the script, and is used up -/
theorem takeReaction_eq {name : String} {cs : List Command} (h : e.takeReaction name q = some (cs, e')) :
    (∃ s ∈ e.scripts, ∃ r ∈ s.2, r.commands = cs) ∧ e' = { e with scripts := dropReaction e.scripts name } := by
  unfold takeReaction at h
  split at h
  · rename_i r rs hl
    split_ifs at h
    obtain ⟨rfl, rfl⟩ := Prod.mk.inj (Option.some.inj h)
    obtain ⟨before, after, heq, -⟩ := List.lookup_eq_some_iff.1 hl
    have hmem : (name, r :: rs) ∈ e.scripts := by
      rw [heq]
      exact List.mem_append_right before List.mem_cons_self
    exact ⟨⟨_, hmem, r, List.mem_cons_self, rfl⟩, rfl⟩
  · cases h

theorem bystanding_dropReaction {l : List (String × List Reaction)} (h : Bystanding l) (name : String) :
    Bystanding (dropReaction l name) := by
  intro s hs r hr
  obtain ⟨x, hx, rfl⟩ := List.mem_map.1 hs
  split_ifs at hr
  · exact h x hx r (List.mem_of_mem_tail hr)
  · exact h x hx r hr

/-- a delivery that leaves the machine alone, and tells of all who were to be given the snapshot unless one of them
raises -/
structure Delivers (e : Engine) (ls : List String) (q : Snapshot) (o : Outcome Unit) : Prop where
  leaves : LeavesAlone e o.engine
  bystanding : Bystanding o.engine.scripts
  trace : e.tracing = true → o.result = .ok () → o.engine.trace = Live.deliveries ls q ++ e.trace
  faults : ∀ f, o.result = .error f → f.ofListener = true

/-- the list of those who are given a snapshot is not the one that they change -/
theorem deliver_aside {react : String → Engine → Snapshot → Outcome Unit}
    (hr : ∀ name e, Bystanding e.scripts → Aside e (react name e q)) (ls : List String) (h : Bystanding e.scripts) :
    Delivers e ls q (deliver react q e ls) := by
  induction ls generalizing e with
  | nil =>
    refine ⟨.refl e, h, fun _ _ => rfl, ?_⟩
    intro f hf
    cases hf
  | cons name ls ih =>
    have hnote : LeavesAlone e (e.note (.delivery name q)) := ⟨e.subscribers, e.scripts, _, note_eq e _⟩
    have hscripts : Bystanding (e.note (.delivery name q)).scripts := by rwa [note_eq]
    obtain ⟨hleaves, hbystanding, htrace, hfaults⟩ := hr name _ hscripts
    rw [deliver]
    generalize react name (e.note (.delivery name q)) q = o at hleaves hbystanding htrace hfaults ⊢
    obtain ⟨e₁, r⟩ := o
    cases r with
    | error f =>
      refine ⟨hnote.trans hleaves, hbystanding, ?_, hfaults⟩
      intro _ hok
      cases hok
    | ok u =>
      have hrest := ih (e := e₁) hbystanding
      refine ⟨(hnote.trans hleaves).trans hrest.leaves, hrest.bystanding, ?_, hrest.faults⟩
      intro ht hok
      have htell := hrest.trace ((hnote.trans hleaves).tracing.trans ht) hok
      rw [htrace, note_eq, if_pos ht] at htell
      simp only [Outcome.andThen, htell, Live.deliveries, List.map_cons, List.reverse_cons, List.append_assoc,
        List.singleton_append]

/-- **Listeners that only come and go leave the machine alone**, and every one that was there is given the snapshot. -/
theorem notify_aside (h : Bystanding e.scripts) (q : Snapshot) : Delivers e e.subscribers q (notify e q) := by
  unfold notify
  cases e.reactionsLeft with
  | zero => exact deliver_aside (fun name e h => aside_done h) e.subscribers h
  | succ m =>
    refine deliver_aside (fun name e h => ?_) e.subscribers h
    cases ht : e.takeReaction name q with
    | none => exact aside_done h
    | some x =>
      obtain ⟨cs, e'⟩ := x
      obtain ⟨⟨s, hs, r, hr, rfl⟩, rfl⟩ := takeReaction_eq ht
      have hrest : Bystanding { e with scripts := dropReaction e.scripts name }.scripts :=
        bystanding_dropReaction h name
      have haside : Aside _ (performAll (notifyAt m) name _ r.commands) := performAll_aside hrest name (h s hs r hr)
      obtain ⟨hleaves, hbystanding, htrace, hfaults⟩ := haside
      exact ⟨LeavesAlone.trans ⟨_, _, _, rfl⟩ hleaves, hbystanding, htrace, hfaults⟩

end Engine

/-! ## What is on the air -/

/-- a note that tells of a commit or of a delivery -/
def Note.onAir : Note → Bool
  | .commit .. => true
  | .delivery .. => true
  | _ => false

/-- the snapshot that a note tells the listener was given -/
def Note.given? (l : String) : Note → Option Snapshot
  | .delivery l' q => if l' = l then some q else none
  | _ => none

/-- the snapshot that a note tells the commit of, with the listeners subscribed -/
def Note.announced? : Note → Option (Snapshot × List String)
  | .commit _ q audience => some (q, audience)
  | _ => none

/-- a snapshot that took the place of another, and its delivery, if that began -/
structure Announcement where
  before : Snapshot
  snapshot : Snapshot
  audience : List String
  delivered : Bool

/-- the commit, and a delivery to each of the audience, in order -/
def Announcement.notes (a : Announcement) : List Note :=
  .commit a.before a.snapshot a.audience ::
    if a.delivered then a.audience.map fun l => .delivery l a.snapshot else []

/-- the snapshots that a listener is given of it -/
def Announcement.givenTo (a : Announcement) (l : String) : List Snapshot :=
  if a.delivered then List.replicate (a.audience.count l) a.snapshot else []

/-- it ends with the commit of a halt -/
structure Announcement.Missed (a : Announcement) : Prop where
  undelivered : a.delivered = false
  halts : a.before.halted = false ∧ a.snapshot.halted = true

namespace Engine

variable {e e' : Engine} {q : Snapshot}

/-- what is on the air, in order -/
def air (e : Engine) : List Note := (e.trace.filter Note.onAir).reverse

/-- the snapshots that a listener was given, in order -/
def received (e : Engine) (l : String) : List Snapshot := (e.trace.filterMap (Note.given? l)).reverse

/-- the snapshots committed, in order, with the listeners subscribed at each -/
def announced (e : Engine) : List (Snapshot × List String) := (e.trace.filterMap Note.announced?).reverse

/-- listeners aside, and a trace that tells of them -/
structure OnAir (e : Engine) : Prop where
  tracing : e.tracing = true
  bystanding : Bystanding e.scripts

/-- from `e` to `e'` these announcements are made -/
structure Airs (as : List Announcement) (e e' : Engine) : Prop extends OnAir e' where
  air : e'.air = e.air ++ as.flatMap Announcement.notes

variable {as as' : List Announcement}

theorem Airs.trans {e'' : Engine} (h : Airs as e e') (h' : Airs as' e' e'') : Airs (as ++ as') e e'' where
  toOnAir := h'.toOnAir
  air := by rw [h'.air, h.air, List.flatMap_append, List.append_assoc]

theorem OnAir.quiet (h : OnAir e) (hlisteners : e'.scripts = e.scripts) (htracing : e'.tracing = e.tracing)
    (htrace : e'.trace = e.trace) : Airs [] e e' where
  tracing := htracing.trans h.tracing
  bystanding := by rw [hlisteners]; exact h.bystanding
  air := by rw [Engine.air, htrace, List.flatMap_nil, List.append_nil]; rfl

theorem OnAir.note (h : OnAir e) {x : Note} (hx : x.onAir = false) : Airs [] e (e.note x) where
  tracing := by rw [note_eq]; exact h.tracing
  bystanding := by rw [note_eq]; exact h.bystanding
  air := by
    rw [Engine.air, note_eq, if_pos h.tracing, List.filter_cons_of_neg (by simp [hx]), List.flatMap_nil,
      List.append_nil]
    rfl

theorem OnAir.stopTicker (h : OnAir e) : Airs [] e e.stopTicker := h.quiet rfl rfl rfl

/-- the listeners leave the machine to an operation that makes whole announcements, unless it ends in the middle of one
because the log refuses a halt, or because a listener raises -/
inductive Carries {α : Type} (e : Engine) (o : Outcome α) : Prop
  | whole (as : List Announcement) (h : Airs as e o.engine) (hall : ∀ a ∈ as, a.delivered = true)
  | cutShort (as : List Announcement) (a : Announcement) (h : Airs (as ++ [a]) e o.engine)
      (hall : ∀ a ∈ as, a.delivered = true) (ha : a.Missed) (ho : o.Refused)
  | disturbed (f : Fault) (h : o.result = .error f) (hf : f.ofListener = true)

section Carries

variable {α β : Type} {o : Outcome α}

/-- after something that makes whole announcements -/
theorem Carries.after (hall : ∀ a ∈ as, a.delivered = true) (h : Airs as e e') (ho : Carries e' o) : Carries e o := by
  cases ho with
  | whole as' h' hall' => exact .whole _ (h.trans h') (List.forall_mem_append.2 ⟨hall, hall'⟩)
  | cutShort as' a h' hall' ha ho =>
    have hair := h.trans h'
    rw [← List.append_assoc] at hair
    exact .cutShort _ a hair (List.forall_mem_append.2 ⟨hall, hall'⟩) ha ho
  | disturbed f hf hl => exact .disturbed f hf hl

theorem Carries.afterQuiet (h : Airs [] e e') (ho : Carries e' o) : Carries e o := ho.after (by simp) h

theorem Airs.carries (h : Airs [] e o.engine) : Carries e o := .whole [] h (by simp)

theorem OnAir.carries (h : OnAir e) {r : Except Fault α} : Carries e ⟨e, r⟩ :=
  Airs.carries (o := ⟨e, r⟩) (h.quiet rfl rfl rfl)

/-- what comes after it, with the same fault if there is one, announces nothing -/
theorem Carries.endsAs {o' : Outcome β} (h : Carries e o) (hair : OnAir o.engine → Airs [] o.engine o'.engine)
    (hfault : ∀ f, o.result = .error f → o'.result = .error f) : Carries e o' := by
  cases h with
  | whole as h hall =>
    have hend := h.trans (hair h.toOnAir)
    rw [List.append_nil] at hend
    exact .whole as hend hall
  | cutShort as a h hall ha ho =>
    obtain ⟨f, hf, hlog⟩ := ho
    have hend := h.trans (hair h.toOnAir)
    rw [List.append_nil] at hend
    exact .cutShort as a hend hall ha ⟨f, hfault f hf, hlog⟩
  | disturbed f hf hl => exact .disturbed f (hfault f hf) hl

theorem Carries.map {f : α → β} (h : Carries e o) : Carries e (o.map f) := by
  refine h.endsAs (fun h => h.quiet rfl rfl rfl) ?_
  intro x hx
  rw [Outcome.map, hx]
  rfl

theorem Carries.andThen {f : Engine → α → Outcome β} (h : Carries e o)
    (hf : ∀ a, OnAir o.engine → Carries o.engine (f o.engine a)) : Carries e (o.andThen f) := by
  cases hr : o.result with
  | ok a =>
    rw [Outcome.andThen_of_ok hr]
    cases h with
    | whole as h hall => exact (hf a h.toOnAir).after hall h
    | cutShort as a h hall ha ho =>
      obtain ⟨x, hx, -⟩ := ho
      rw [hr] at hx
      cases hx
    | disturbed x hx hl =>
      rw [hr] at hx
      cases hx
  | error x =>
    simp only [Outcome.andThen, hr]
    refine h.endsAs (fun h => h.quiet rfl rfl rfl) ?_
    intro y hy
    rw [hr] at hy
    rw [Except.error.inj hy]

end Carries

/-! ### The log -/

/-- the log takes an entry or refuses it, and nothing of it is on the air -/
theorem OnAir.writeLog (h : OnAir e) (write : Journal → Journal × Except DiskFault Disk) {x : Note}
    (hx : x.onAir = false) :
    Airs [] e (e.writeLog write x).engine ∧ ∀ f, (e.writeLog write x).result = .error f → f.ofLog = true := by
  unfold Engine.writeLog
  split
  · refine ⟨h.quiet rfl rfl rfl, ?_⟩
    intro f hf
    cases hf
  · split
    · rename_i j disk _
      have hquiet : Airs [] e { e with journal := some j, disk } := h.quiet rfl rfl rfl
      refine ⟨hquiet.trans (hquiet.toOnAir.note hx), ?_⟩
      intro f hf
      cases hf
    · refine ⟨h.quiet rfl rfl rfl, ?_⟩
      intro f hf
      rw [← Except.error.inj hf]
      rfl

theorem OnAir.logEvent (h : OnAir e) (ev : Event) :
    Airs [] e (e.logEvent ev).engine ∧ ∀ f, (e.logEvent ev).result = .error f → f.ofLog = true := by
  unfold Engine.logEvent
  split_ifs
  · refine ⟨h.quiet rfl rfl rfl, ?_⟩
    intro f hf
    rw [← Except.error.inj hf]
    rfl
  · exact h.writeLog _ rfl

theorem OnAir.logRun (h : OnAir e) (r : HaltedRun) :
    Airs [] e (e.logRun r).engine ∧ ∀ f, (e.logRun r).result = .error f → f.ofLog = true := h.writeLog _ rfl

theorem OnAir.logHalt (h : OnAir e) (q : Snapshot) :
    Airs [] e (e.logHalt q).engine ∧ ∀ f, (e.logHalt q).result = .error f → f.ofLog = true := by
  obtain ⟨hair, hfaults⟩ := h.logEvent (.halt q.status q.state q.steps)
  unfold Engine.logHalt
  cases hr : (e.logEvent (.halt q.status q.state q.steps)).result with
  | error x =>
    simp only [Outcome.andThen, hr]
    refine ⟨hair, ?_⟩
    intro f hf
    exact Except.error.inj hf ▸ hfaults x hr
  | ok u =>
    rw [Outcome.andThen_of_ok hr]
    split
    · obtain ⟨hair', hfaults'⟩ := hair.toOnAir.logRun _
      exact ⟨hair.trans hair', hfaults'⟩
    · refine ⟨hair, ?_⟩
      intro f hf
      cases hf

/-! ### Operations -/

/-- a snapshot that is placed is on the air, and is to be delivered unless the log refuses its halt -/
theorem OnAir.place (h : OnAir e) (q : Snapshot) :
    Airs [⟨e.snapshot, q, e.subscribers, false⟩] e (e.place q).engine ∧
      (e.place q).engine.subscribers = e.subscribers ∧
      ((e.place q).result = .ok () ∨ (e.place q).Refused ∧ e.snapshot.halted = false ∧ q.halted = true) := by
  have hplaced : Airs [⟨e.snapshot, q, e.subscribers, false⟩] e
      ({ e with snapshot := q }.note (.commit e.snapshot q e.subscribers)) := by
    refine ⟨⟨by rw [note_eq]; exact h.tracing, by rw [note_eq]; exact h.bystanding⟩, ?_⟩
    rw [air, note_eq]
    simp only [h.tracing, if_true, List.filter_cons_of_pos (show Note.onAir (.commit _ _ _) = true from rfl),
      List.reverse_cons]
    rfl
  have hsubscribers : ({ e with snapshot := q }.note (.commit e.snapshot q e.subscribers)).subscribers =
      e.subscribers := by rw [note_eq]
  have hstopped := hplaced.trans hplaced.toOnAir.stopTicker
  obtain ⟨e₁, he₁, hair, hsub⟩ : ∃ e₁, e.place q =
      (if q.halted && !e.snapshot.halted then e₁.logHalt q else e₁.done ()) ∧
      Airs [⟨e.snapshot, q, e.subscribers, false⟩] e e₁ ∧ e₁.subscribers = e.subscribers := by
    refine ⟨_, rfl, ?_⟩
    split_ifs
    · exact ⟨hplaced, hsubscribers⟩
    · exact ⟨hstopped, hsubscribers⟩
  rw [he₁]
  split_ifs with hhalts
  · rw [Bool.and_eq_true, Bool.not_eq_true'] at hhalts
    obtain ⟨hquiet, hfaults⟩ := hair.toOnAir.logHalt q
    have hkept : KeptByLog fun e' => e'.subscribers = e.subscribers := keptByLog_of_frame fun _ _ _ _ h => h
    refine ⟨hair.trans hquiet, hkept.logHalt hsub q, ?_⟩
    cases hr : (e₁.logHalt q).result with
    | ok u => exact Or.inl rfl
    | error f => exact Or.inr ⟨⟨f, hr, hfaults f hr⟩, hhalts.2, hhalts.1⟩
  · exact ⟨hair, hsub, Or.inl rfl⟩

theorem filter_deliveries (ls : List String) (q : Snapshot) :
    (Live.deliveries ls q).filter Note.onAir = Live.deliveries ls q := by
  rw [List.filter_eq_self]
  intro x hx
  obtain ⟨l, -, rfl⟩ := List.mem_map.1 (List.mem_reverse.1 hx)
  rfl

/-- a snapshot is announced, and delivered unless the log refuses its halt -/
theorem carries_commit (h : OnAir e) (q : Snapshot) : Carries e (commit notify e q) := by
  obtain ⟨hplaced, hsub, hok | ⟨hrefused, hhalts⟩⟩ := h.place q
  · rw [commit, Outcome.andThen_of_ok hok]
    have hnotify := notify_aside hplaced.bystanding q
    rw [hsub] at hnotify
    cases hr : (notify (e.place q).engine q).result with
    | error f => exact .disturbed f (by rw [Outcome.map, hr]; rfl) (hnotify.faults f hr)
    | ok u =>
      refine .whole [⟨e.snapshot, q, e.subscribers, true⟩] ⟨⟨?_, hnotify.bystanding⟩, ?_⟩ (by simp)
      · exact hnotify.leaves.tracing.trans hplaced.tracing
      · have hair := hplaced.air
        rw [Outcome.map_engine, air, hnotify.trace hplaced.tracing hr, List.filter_append, filter_deliveries,
          List.reverse_append, ← air, hair, Live.deliveries, List.reverse_reverse]
        simp [Announcement.notes]
  · obtain ⟨f, hf, hlog⟩ := hrefused
    have hcommit : commit notify e q = (e.place q).engine.fault f := by rw [commit, Outcome.andThen, hf]; rfl
    rw [hcommit]
    exact .cutShort [] _ hplaced (by simp) ⟨rfl, hhalts⟩ ⟨f, rfl, hlog⟩

theorem carries_logEvent {f : Engine → Unit → Outcome Snapshot} (h : OnAir e) (ev : Event)
    (hf : ∀ e, OnAir e → Carries e (f e ())) : Carries e ((e.logEvent ev).andThen f) :=
  (h.logEvent ev).1.carries.andThen fun _ => hf _

theorem carries_loadDefinition (h : OnAir e) (d : Definition) (input : Text) :
    Carries e (loadDefinition notify e d input) := by
  unfold loadDefinition
  split
  · exact h.carries
  · have hequip : Airs [] e (e.equip d input) := h.quiet rfl rfl rfl
    refine .afterQuiet hequip ?_
    simp only
    split
    · exact hequip.toOnAir.carries
    · exact carries_logEvent hequip.toOnAir _ fun e h => carries_commit h _

theorem carries_load (h : OnAir e) (source : Source) (input : Text) : Carries e (load notify e source input) := by
  unfold load
  split
  · exact carries_loadDefinition h _ input
  · exact h.carries

theorem carries_advanceOnce (h : OnAir e) : Carries e (advanceOnce notify e) := by
  unfold advanceOnce
  split
  · exact carries_commit h _
  · split
    · exact carries_commit h _
    · exact h.carries

theorem carries_step (h : OnAir e) : Carries e (step notify e) := by
  unfold step
  split_ifs
  · exact carries_advanceOnce h
  · exact h.carries

theorem carries_tick (h : OnAir e) : Carries e (tick notify e) := by
  unfold tick
  split_ifs
  · exact (carries_advanceOnce h).map
  · exact .afterQuiet h.stopTicker h.stopTicker.toOnAir.carries

theorem carries_run (h : OnAir e) (interval : Seconds) : Carries e (run notify e interval) := by
  have hstop := h.stopTicker
  unfold run
  refine .afterQuiet hstop ?_
  simp only
  split_ifs
  · have hnote := hstop.toOnAir.note (x := .runCalled false) rfl
    exact .afterQuiet hnote hnote.toOnAir.carries
  · split
    · rename_i t f _
      have hticker : Airs [] e.stopTicker { e.stopTicker with ticker := t } := hstop.toOnAir.quiet rfl rfl rfl
      have hnote := hticker.trans (hticker.toOnAir.note (x := .runCalled false) rfl)
      exact .afterQuiet hnote hnote.toOnAir.carries
    · rename_i t _
      have hticker : Airs [] e.stopTicker { e.stopTicker with ticker := t } := hstop.toOnAir.quiet rfl rfl rfl
      have hnote := hticker.trans (hticker.toOnAir.note (x := .runCalled true) rfl)
      refine .afterQuiet hnote (carries_logEvent hnote.toOnAir _ fun e h => ?_)
      split_ifs
      · exact h.carries
      · exact carries_commit h _

theorem carries_runFor (h : OnAir e) (interval : Json) : Carries e (runFor notify e interval) := by
  unfold runFor
  split
  · exact carries_run h _
  · have hnote := h.stopTicker.trans (h.stopTicker.toOnAir.note (x := .runMistyped) rfl)
    refine .afterQuiet hnote ?_
    simp only
    split_ifs
    · exact hnote.toOnAir.carries
    · exact hnote.toOnAir.carries

theorem carries_pause (h : OnAir e) : Carries e (pause notify e) := by
  unfold pause
  split_ifs
  · exact .afterQuiet h.stopTicker (carries_logEvent h.stopTicker.toOnAir _ fun e h => carries_commit h _)
  · exact h.carries

theorem carries_reset (h : OnAir e) : Carries e (reset notify e) := by
  unfold reset
  refine .afterQuiet h.stopTicker ?_
  simp only
  split
  · exact h.stopTicker.toOnAir.carries
  · exact carries_logEvent h.stopTicker.toOnAir _ fun e h => carries_loadDefinition h _ _

theorem carries_restart (h : OnAir e) : Carries e (restart notify e) := by
  unfold restart
  refine .afterQuiet h.stopTicker ?_
  simp only
  split
  · exact h.stopTicker.toOnAir.carries
  · exact carries_loadDefinition h.stopTicker.toOnAir _ _

/-- steps by hand go on for as long as none of them ends in a fault -/
theorem carries_stepWhile (h : OnAir e) (start cap : ℤ) (fuel : ℕ) : Carries e (stepWhile notify start cap fuel e) := by
  induction fuel generalizing e with
  | zero => exact h.carries
  | succ fuel ih =>
    have hbind : stepWhile notify start cap (fuel + 1) e =
        if e.wantsMore start cap then
          (step notify e).andThen fun e' _ =>
            if e.canMove then stepWhile notify start cap fuel e' else e'.done e'.snapshot
        else e.done e.snapshot := by
      rw [stepWhile, Outcome.andThen]
      rcases step notify e with ⟨e', r⟩
      cases r with
      | error f => rfl
      | ok q => rfl
    rw [hbind]
    split_ifs
    · exact (carries_step h).andThen fun _ h' => ih h'
    · exact (carries_step h).andThen fun _ h' => h'.carries
    · exact h.carries

theorem carries_runUntilHalt (h : OnAir e) (cap : Option Cap) : Carries e (runUntilHalt notify e cap) := by
  unfold runUntilHalt
  split
  · exact h.carries
  · refine (carries_pause h).andThen fun _ h' => ?_
    split
    · exact carries_stepWhile h' _ _ _
    · split_ifs
      · exact h'.carries
      · exact h'.carries

/-- a tick that fails says so, and its timer stops -/
theorem carries_fire (h : OnAir e) : Carries e (fire notify e) := by
  unfold fire
  split
  · exact h.carries
  · rename_i t _
    have hdue : Airs [] e { e with ticker := t } := h.quiet rfl rfl rfl
    have htick := (carries_tick hdue.toOnAir).afterQuiet hdue
    simp only
    split
    · rename_i hok
      refine htick.endsAs (fun h => h.quiet rfl rfl rfl) ?_
      intro f hf
      rw [hok] at hf
      cases hf
    · rename_i hinterrupted
      refine htick.endsAs (fun h => h.note rfl) ?_
      intro f hf
      rw [hinterrupted] at hf
      rw [← Except.error.inj hf]
      rfl
    · rename_i f _ hfailed
      refine htick.endsAs (fun h => h.stopTicker.trans (h.stopTicker.toOnAir.note rfl)) ?_
      intro f' hf'
      rw [hfailed] at hf'
      rw [← Except.error.inj hf']
      rfl

theorem carries_apply (h : OnAir e) {c : Command} (hc : c.aside = false) : Carries e (e.apply c) := by
  cases c with
  | load source input => exact (carries_load h source _).map
  | step => exact (carries_step h).map
  | run interval => exact (carries_run h interval).map
  | runFor interval => exact (carries_runFor h interval).map
  | pause => exact (carries_pause h).map
  | reset => exact (carries_reset h).map
  | restart => exact (carries_restart h).map
  | runUntilHalt cap => exact (carries_runUntilHalt h cap).map
  | fire => exact (carries_fire h).map
  | subscribe | unsubscribe | fail | interrupt => cases hc

/-! ## Whole conducts -/

/-- a listener has raised in the middle of an operation -/
def Disturbed (c : Command) (o : Outcome Unit) : Prop :=
  c.aside = false ∧ ∃ f, o.result = .error f ∧ f.ofListener = true

/-- `e'` comes of `e` by commands from outside, among them ticks, subscriptions and their ends, before listeners that
only subscribe and unsubscribe. The log, and what listeners have still to do, may turn into any other between two
commands; `k` of the commands are broken off by the log. -/
inductive Conducts (e : Engine) : ℕ → Engine → Prop where
  | start : Conducts e 0 e
  | command {k : ℕ} {e' : Engine} (c : Command) (h : Conducts e k e') (hc : ¬ Disturbed c (e'.apply c))
      (hr : ¬ (e'.apply c).Refused) : Conducts e k (e'.apply c).engine
  | refused {k : ℕ} {e' : Engine} (c : Command) (h : Conducts e k e') (hr : (e'.apply c).Refused) :
      Conducts e (k + 1) (e'.apply c).engine
  | script {k : ℕ} {e' : Engine} (l : List (String × List Reaction)) (h : Conducts e k e') (hl : Bystanding l) :
      Conducts e k { e' with scripts := l }
  | log {k : ℕ} {e' : Engine} (j : Option Journal) (refused : List String) (disk : Disk) (clock : Clock)
      (h : Conducts e k e') : Conducts e k { e' with journal := j, refused, disk, clock }

theorem Conducts.succeed {k : ℕ} (h : Conducts e k e') {c : Command} (hc : (e'.apply c).result = .ok ()) :
    Conducts e k (e'.apply c).engine := by
  refine .command c h ?_ ?_
  · rintro ⟨-, f, hf, -⟩
    rw [hc] at hf
    cases hf
  · rintro ⟨f, hf, -⟩
    rw [hc] at hf
    cases hf

theorem not_disturbed_of_refused {c : Command} {o : Outcome Unit} (h : o.Refused) : ¬ Disturbed c o := by
  obtain ⟨f, hf, hlog⟩ := h
  rintro ⟨-, f', hf', hlistener⟩
  rw [hf] at hf'
  rw [← Except.error.inj hf'] at hlistener
  cases f with
  | journalRefused | disk => cases hlistener
  | definition | unknownPreset | operand | noCell | ticker | notSubscribed | listenerFailed | interrupted => cases hlog

/-- a command makes whole announcements, unless the log breaks it off in the middle of the last one -/
theorem apply_announces (h : OnAir e) {c : Command} (hc : ¬ Disturbed c (e.apply c)) :
    (∃ as, Airs as e (e.apply c).engine ∧ ∀ a ∈ as, a.delivered = true) ∨
      (e.apply c).Refused ∧ ∃ as a, Airs (as ++ [a]) e (e.apply c).engine ∧ (∀ a ∈ as, a.delivered = true) ∧
        a.Missed := by
  cases haside : c.aside with
  | true =>
    have happly : Aside e (e.apply c) := perform_aside h.bystanding "" haside
    obtain ⟨hleaves, hbystanding, htrace, -⟩ := happly
    refine Or.inl ⟨[], ⟨⟨hleaves.tracing.trans h.tracing, hbystanding⟩, ?_⟩, by simp⟩
    rw [air, htrace, List.flatMap_nil, List.append_nil]
    rfl
  | false =>
    cases carries_apply h haside with
    | whole as h hall => exact Or.inl ⟨as, h, hall⟩
    | cutShort as a h hall ha ho => exact Or.inr ⟨ho, as, a, h, hall, ha⟩
    | disturbed f hf hl => exact absurd ⟨haside, f, hf, hl⟩ hc

/-- these announcements were made, all but `k` of them delivered, and the others are of a halt -/
structure Announces (as : List Announcement) (k : ℕ) (e e' : Engine) : Prop extends Airs as e e' where
  missed : ∀ a ∈ as, a.delivered = true ∨ a.Missed
  count : as.countP (fun a => !a.delivered) ≤ k

theorem Announces.more {as as' : List Announcement} {k j : ℕ} {e'' : Engine} (h : Announces as k e e')
    (h' : Airs as' e' e'') (hmissed : ∀ a ∈ as', a.delivered = true ∨ a.Missed)
    (hcount : as'.countP (fun a => !a.delivered) ≤ j) : Announces (as ++ as') (k + j) e e'' where
  toAirs := h.toAirs.trans h'
  missed := List.forall_mem_append.2 ⟨h.missed, hmissed⟩
  count := by
    rw [List.countP_append]
    exact Nat.add_le_add h.count hcount

theorem countP_delivered {as : List Announcement} (h : ∀ a ∈ as, a.delivered = true) :
    as.countP (fun a => !a.delivered) = 0 := by
  rw [List.countP_eq_zero]
  intro a ha
  rw [h a ha]
  simp

/-- **A conduct is one announcement after another.** -/
theorem Conducts.announces {k : ℕ} (he : OnAir e) (h : Conducts e k e') : ∃ as, Announces as k e e' := by
  induction h with
  | start => exact ⟨[], he.quiet rfl rfl rfl, by simp, by simp⟩
  | @command k e' c _ hc hr ih =>
    obtain ⟨as, has⟩ := ih
    rcases apply_announces has.toOnAir hc with ⟨as', hair, hall⟩ | ⟨hrefused, -⟩
    · exact ⟨as ++ as', has.more (j := 0) hair (fun a ha => Or.inl (hall a ha)) (countP_delivered hall).le⟩
    · exact absurd hrefused hr
  | @refused k e' c _ hr ih =>
    obtain ⟨as, has⟩ := ih
    rcases apply_announces has.toOnAir (not_disturbed_of_refused hr) with
      ⟨as', hair, hall⟩ | ⟨-, as', a, hair, hall, ha⟩
    · refine ⟨as ++ as', has.more hair (fun a ha => Or.inl (hall a ha)) ?_⟩
      rw [countP_delivered hall]
      exact Nat.zero_le 1
    · refine ⟨as ++ (as' ++ [a]), has.more hair (List.forall_mem_append.2 ⟨fun a ha => Or.inl (hall a ha), ?_⟩) ?_⟩
      · simpa using Or.inr ha
      · rw [List.countP_append, countP_delivered hall, Nat.zero_add]
        exact List.countP_le_length
  | @script k e' l _ hl ih =>
    obtain ⟨as, has⟩ := ih
    exact ⟨as, ⟨⟨⟨has.tracing, hl⟩, has.air⟩, has.missed, has.count⟩⟩
  | @log k e' j refused disk clock _ ih =>
    obtain ⟨as, has⟩ := ih
    exact ⟨as, ⟨⟨⟨has.tracing, has.bystanding⟩, has.air⟩, has.missed, has.count⟩⟩

/-! ## What a listener hears -/

theorem received_eq (e : Engine) (l : String) : e.received l = e.air.filterMap (Note.given? l) := by
  rw [received, air, List.filterMap_reverse, List.filterMap_filter]
  congr 1
  refine List.filterMap_congr fun x _ => ?_
  cases x with
  | delivery | commit => rfl
  | event | halted | runCalled | runMistyped | tickFailed => rfl

theorem announced_eq (e : Engine) : e.announced = e.air.filterMap Note.announced? := by
  rw [announced, air, List.filterMap_reverse, List.filterMap_filter]
  congr 1
  refine List.filterMap_congr fun x _ => ?_
  cases x with
  | delivery | commit => rfl
  | event | halted | runCalled | runMistyped | tickFailed => rfl

theorem given_deliveries (ls : List String) (q : Snapshot) (l : String) :
    (ls.map fun l' => Note.delivery l' q).filterMap (Note.given? l) = List.replicate (ls.count l) q := by
  induction ls with
  | nil => rfl
  | cons l' ls ih =>
    rw [List.map_cons, List.count_cons]
    by_cases hl : l' = l
    · have hgiven : Note.given? l (.delivery l' q) = some q := if_pos hl
      rw [List.filterMap_cons_some hgiven, ih, if_pos (beq_iff_eq.2 hl), List.replicate_succ]
    · have hgiven : Note.given? l (.delivery l' q) = none := if_neg hl
      rw [List.filterMap_cons_none hgiven, ih, if_neg (mt beq_iff_eq.1 hl), Nat.add_zero]

theorem given_notes (a : Announcement) (l : String) : a.notes.filterMap (Note.given? l) = a.givenTo l := by
  rw [Announcement.notes, List.filterMap_cons_none rfl, Announcement.givenTo]
  split_ifs
  · exact given_deliveries a.audience a.snapshot l
  · rfl

theorem announced_notes (a : Announcement) : a.notes.filterMap Note.announced? = [(a.snapshot, a.audience)] := by
  have hcommit : Note.announced? (.commit a.before a.snapshot a.audience) = some (a.snapshot, a.audience) := rfl
  rw [Announcement.notes, List.filterMap_cons_some hcommit]
  split_ifs
  · rw [List.filterMap_map, List.filterMap_eq_nil_iff.2]
    intro l _
    rfl
  · rfl

/-- listeners have heard what was announced, but for what `k` refusals of the log have kept from them -/
structure Hears (k : ℕ) (e : Engine) : Prop where
  announcements : ∃ as : List Announcement, e.air = as.flatMap Announcement.notes ∧
    e.announced = as.map (fun a => (a.snapshot, a.audience)) ∧ (∀ l, e.received l = as.flatMap fun a => a.givenTo l) ∧
    (∀ a ∈ as, a.delivered = true ∨ a.Missed) ∧ as.countP (fun a => !a.delivered) ≤ k
  /-- every committed snapshot, in order, as often as the listener was in the list when its delivery began -/
  received : k = 0 → ∀ l, e.received l = e.announced.flatMap fun a => List.replicate (a.2.count l) a.1
  /-- nothing differs but the listeners, from outside and in the middle of a delivery -/
  subscribe : ∀ name, LeavesAlone e (e.subscribe name)
  unsubscribe : ∀ name, LeavesAlone e (e.unsubscribe name).engine
  delivery : ∀ q, LeavesAlone e (notify e q).engine

/-- **Listeners hear every snapshot that is committed, in order, each as often as they were in the list when its
delivery began**, whatever the list does meanwhile; and coming and going leaves the machine alone. -/
theorem conducts_hears {e : Engine} {l : List (String × List Reaction)} {k : ℕ} (hl : Bystanding l)
    (h : Conducts { e with scripts := l, tracing := true, trace := [] } k e') : Hears k e' := by
  obtain ⟨as, has⟩ := h.announces ⟨rfl, hl⟩
  have hair : e'.air = as.flatMap Announcement.notes := has.air
  have hannounced : e'.announced = as.map fun a => (a.snapshot, a.audience) := by
    rw [announced_eq, hair, List.filterMap_flatMap, List.map_eq_flatMap]
    exact List.flatMap_congr fun a _ => announced_notes a
  have hreceived : ∀ l, e'.received l = as.flatMap fun a => a.givenTo l := by
    intro l
    rw [received_eq, hair, List.filterMap_flatMap]
    exact List.flatMap_congr fun a _ => given_notes a l
  refine ⟨⟨as, hair, hannounced, hreceived, has.missed, has.count⟩, ?_, ?_, ?_, ?_⟩
  · rintro rfl l
    rw [hreceived, hannounced, List.flatMap_map]
    refine List.flatMap_congr fun a ha => ?_
    have hdelivered := List.countP_eq_zero.1 (Nat.le_zero.1 has.count) a ha
    rw [Announcement.givenTo, if_pos (by simpa using hdelivered)]
  · exact fun name => ⟨_, _, _, rfl⟩
  · intro name
    have haside : Aside e' (e'.apply (.unsubscribe name)) := perform_aside has.bystanding "" rfl
    exact haside.leaves
  · exact fun q => (notify_aside has.bystanding q).leaves

/-- `early` takes one of its two subscriptions back and brings `late` in, and `other` ends what is left of `early` -/
def gossips : List (String × List Reaction) :=
  [("early", [⟨none, none, [.unsubscribe "early", .subscribe "late"]⟩]),
    ("other", [⟨none, none, [.unsubscribe "early"]⟩])]

/-- a machine with these listeners, before it is loaded -/
def overheard : Engine := { bench with scripts := gossips, tracing := true, trace := [] }

theorem conducts_hears_gossips :
    let cs : List Command := [.subscribe "early", .subscribe "other", .subscribe "early"]
    let e := overheard.applyAll (cs ++ [.load (.definition Preset.busyBeaver) none, .step])
    Bystanding gossips ∧ Conducts overheard 0 e ∧ Hears 0 e ∧
      (e.received "early").length = 2 ∧ (e.received "other").length = 2 ∧ (e.received "late").length = 1 := by
  have hl : Bystanding gossips := by
    unfold Bystanding
    decide
  have h : Conducts overheard 0 (overheard.applyAll [.subscribe "early", .subscribe "other", .subscribe "early",
      .load (.definition Preset.busyBeaver) none, .step]) :=
    ((((Conducts.start.succeed (c := .subscribe "early") rfl).succeed (c := .subscribe "other") rfl).succeed
      (c := .subscribe "early") rfl).succeed (c := .load (.definition Preset.busyBeaver) none)
        (by decide +kernel)).succeed (c := .step) (by decide +kernel)
  exact ⟨hl, h, conducts_hears (e := bench) hl h, by decide +kernel, by decide +kernel, by decide +kernel⟩

/-- the same machine without reactions, with a log that refuses the entry of every halt -/
def hushed : Engine :=
  { overheard with scripts := [], journal := some ⟨"", "turing_", "1970-01-01"⟩, refused := ["halt"] }

/-- **A halt that the log refuses is committed, and nobody hears of it**, although the listener stays subscribed and
does nothing. -/
theorem refused_halt_unheard :
    let e := hushed.applyAll [.subscribe "late", .load (.definition Preset.busyBeaver) none,
      .runUntilHalt (some (.ok 100))]
    Bystanding hushed.scripts ∧ Conducts hushed 1 e ∧ e.snapshot.halted = true ∧
      e.announced.map Prod.snd = List.replicate 14 ["late"] ∧ (e.received "late").length = 13 ∧
      e.received "late" ≠ e.announced.flatMap fun a => List.replicate (a.2.count "late") a.1 := by
  have hcalls : Conducts hushed 1 (hushed.applyAll [.subscribe "late", .load (.definition Preset.busyBeaver) none,
      .runUntilHalt (some (.ok 100))]) :=
    .refused _ ((Conducts.start.succeed (c := .subscribe "late") rfl).succeed
      (c := .load (.definition Preset.busyBeaver) none) (by decide +kernel))
        ⟨.journalRefused "halt", by decide +kernel, rfl⟩
  refine ⟨List.forall_mem_nil _, hcalls, by decide +kernel, by decide +kernel, by decide +kernel, ?_⟩
  intro heq
  have hlength := congrArg List.length heq
  revert hlength
  decide +kernel

end Engine
end TapeMachine
