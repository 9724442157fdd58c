/-
Live runs that an interrupt may cut short.

The display of a live run is a listener that draws a frame at each delivery and, at one of them, is interrupted
(`notify_showing`). A delivery that does not go through is the interrupt, and after it the display only draws
(`HandsOn.airing`). So the pause that ends the run goes through, and the display is taken away again: a live run that
halts, or that is interrupted at whatever frame, hands back an engine at rest, with nobody subscribed
(`AtRest.runOrPause`).

A run that is watched no longer while the machine still runs is paused in the same way. This is what becomes of an
interrupt between two ticks, when no frame is drawn. Only a second interrupt, in the middle of the pause itself, keeps
the display from being taken away (`CutTwice`).
-/
import TapeMachine.Proofs.LiveRun

namespace TapeMachine

open Engine

/-! ## Engines between commands -/

namespace Engine

variable {n : ℤ} {e e₁ : Engine} {notify : Engine → Snapshot → Outcome Unit} {ns : List Note} {o : Outcome Snapshot}

/-- an engine in order, loaded, and on the trajectory of its definition and input -/
structure Steady (n : ℤ) (e : Engine) : Prop where
  sound : Sound n e
  follows : Follows n e
  loaded : e.definition ≠ none

/-- the listeners and the trace do not matter for it -/
theorem Steady.listened (h : Steady n e) (tracing : Bool) (trace : List Note) (subscribers : List String)
    (scripts : List (String × List Reaction)) : Steady n { e with tracing, trace, subscribers, scripts } where
  sound := { h.sound with logs := h.sound.logs.of_sameLog ⟨rfl, rfl, rfl, rfl⟩ }
  follows := h.follows
  loaded := h.loaded

/-- such an engine that does not run, with nobody subscribed -/
structure AtRest (n : ℤ) (e : Engine) : Prop extends Steady n e where
  stopped : e.snapshot.status ≠ .running
  alone : e.subscribers = []

theorem AtRest.pending (h : AtRest n e) : e.ticker.pending = [] := (h.sound.still h.stopped).pending

/-- the engine that is handed on is in order, and has the listeners of the one before -/
theorem HandsOn.steady (ho : HandsOn notify ns e₁ o) (hs : Sound n e) (hf : Follows n e) (hd : e₁.definition ≠ none)
    (hc : ∀ e', Records ns e₁ e' → Change e e') :
    ∃ e', o = (notify e' e'.snapshot).map (fun _ => e'.snapshot) ∧ Steady n e' ∧ e'.snapshot = e₁.snapshot ∧
      e'.subscribers = e₁.subscribers ∧ e'.scripts = e₁.scripts := by
  obtain ⟨e', hrec, rfl⟩ := ho
  have hchange := hc e' hrec
  have hframe : e'.subscribers = e₁.subscribers ∧ e'.scripts = e₁.scripts := by
    obtain ⟨j, disk, -, rfl⟩ := hrec.eq
    exact ⟨rfl, rfl⟩
  refine ⟨e', by rw [hrec.snapshot], ⟨hchange.sound hs, hchange.follows hs hf, ?_⟩, hrec.snapshot, hframe⟩
  rw [hrec.definition]
  exact hd

theorem notify_of_alone (h : e.subscribers = []) (q : Snapshot) : Engine.notify e q = e.done () := by
  unfold Engine.notify
  cases e.reactionsLeft with
  | zero => simp only [notifyAt, h, deliver]
  | succ m => simp only [notifyAt, h, deliver]

/-- with nobody subscribed an operation ends with the engine that it hands on -/
theorem HandsOn.atRest (ho : HandsOn Engine.notify ns e₁ o) (hs : Sound n e) (hf : Follows n e)
    (hd : e₁.definition ≠ none) (hr : e₁.snapshot.status ≠ .running) (ha : e₁.subscribers = [])
    (hc : ∀ e', Records ns e₁ e' → Change e e') : ∃ e', o = e'.done e'.snapshot ∧ AtRest n e' := by
  obtain ⟨e', rfl, hsteady, hsnap, hsub, -⟩ := ho.steady hs hf hd hc
  rw [← hsnap] at hr
  rw [← hsub] at ha
  refine ⟨e', ?_, hsteady, hr, ha⟩
  rw [notify_of_alone ha]
  rfl

end Engine

/-! ## The display -/

namespace Live

variable {n : ℤ} {k : Option ℕ} {e e₁ : Engine}

/-- the display is the only listener, and is interrupted at the `k`-th frame from now on -/
structure Showing (k : Option ℕ) (e : Engine) : Prop where
  alone : e.subscribers = [display]
  script : e.scripts.lookup display = some (script k)

/-- one frame later -/
def countdown : Option ℕ → Option ℕ
  | some (k + 2) => some (k + 1)
  | _ => none

theorem script_countdown (k : Option ℕ) : script (countdown k) = (script k).tail := by
  match k with
  | none => rfl
  | some 0 => rfl
  | some 1 => rfl
  | some (k + 2) => rfl

theorem lookup_dropReaction (l : List (String × List Reaction)) (name : String) :
    (dropReaction l name).lookup name = (l.lookup name).map List.tail := by
  induction l with
  | nil => rfl
  | cons s l ih =>
    obtain ⟨a, rs⟩ := s
    unfold dropReaction at ih ⊢
    by_cases ha : a = name
    · subst ha
      rw [List.map_cons, if_pos rfl, List.lookup_cons_self, List.lookup_cons_self]
      rfl
    · have hne : (name == a) = false := beq_eq_false_iff_ne.2 fun h => ha h.symm
      rw [List.map_cons, if_neg ha, List.lookup_cons, List.lookup_cons, hne]
      exact ih

/-- a listener that has something to do counts -/
theorem reactionsLeft_pos {name : String} {r : Reaction} {rs : List Reaction}
    (h : e.scripts.lookup name = some (r :: rs)) : 0 < e.reactionsLeft := by
  obtain ⟨before, after, heq, -⟩ := List.lookup_eq_some_iff.1 h
  have hmem : (r :: rs).length ∈ e.scripts.map fun s => s.2.length := by
    rw [heq]
    exact List.mem_map_of_mem (List.mem_append_right before List.mem_cons_self)
  exact lt_of_lt_of_le (Nat.succ_pos rs.length) (List.le_sum_of_mem hmem)

theorem deliver_single (react : String → Engine → Snapshot → Outcome Unit) (q : Snapshot) (e : Engine) (l : String) :
    deliver react q e [l] = react l (e.note (.delivery l q)) q := by
  simp only [deliver, Outcome.andThen]
  split
  · rename_i u hu
    rw [Engine.done, ← hu]
  · rename_i x hx
    rw [← hx]

/-- the script of the display has no reaction that waits for a snapshot of its own -/
theorem takeReaction_script (h : e.scripts.lookup display = some (script k)) (q : Snapshot) :
    e.takeReaction display q =
      (Live.script k).head?.map fun r => (r.commands, { e with scripts := dropReaction e.scripts display }) := by
  unfold Engine.takeReaction
  rw [h]
  match k with
  | none => rfl
  | some 0 => rfl
  | some 1 => rfl
  | some (k + 2) => rfl

theorem Showing.note (h : Showing k e) (x : Note) : Showing k (e.note x) := by
  rw [note_eq]
  exact ⟨h.alone, h.script⟩

/-- a display that is not to be interrupted only draws -/
theorem notify_drawing (h : Showing k e) (hk : script k = []) (q : Snapshot) :
    Engine.notify e q = (e.note (.delivery display q)).done () := by
  unfold Engine.notify
  cases e.reactionsLeft with
  | zero => simp only [notifyAt, h.alone, deliver_single]
  | succ m =>
    simp only [notifyAt, h.alone, deliver_single, takeReaction_script (h.note _).script, hk, List.head?_nil,
      Option.map_none]

/-- a display that is to be interrupted has something to do at the next frame -/
theorem notify_acting (h : Showing k e) {r : Reaction} {rs : List Reaction} (hk : script k = r :: rs) (q : Snapshot) :
    ∃ m, Engine.notify e q = performAll (notifyAt m) display
      { e.note (.delivery display q) with scripts := dropReaction (e.note (.delivery display q)).scripts display }
      r.commands := by
  obtain ⟨m, hm⟩ := Nat.exists_eq_add_one.2 (reactionsLeft_pos (h.script.trans (congrArg some hk)))
  refine ⟨m, ?_⟩
  rw [Engine.notify, hm]
  simp only [notifyAt, h.alone, deliver_single, takeReaction_script (h.note _).script, hk, List.head?_cons,
    Option.map_some]

/-- **The display takes a snapshot**, unless it is interrupted at this frame. -/
theorem notify_showing (h : Showing k e) (q : Snapshot) :
    ∃ l, l.lookup display = some (script (countdown k)) ∧
      Engine.notify e q = ⟨{ e.note (.delivery display q) with scripts := l },
        if k = some 1 then .error .interrupted else .ok ()⟩ := by
  have hnote := h.note (.delivery display q)
  have hdrop : (dropReaction (e.note (.delivery display q)).scripts display).lookup display =
      some (script (countdown k)) := by
    rw [lookup_dropReaction, hnote.script, script_countdown]
    rfl
  match k with
  | none => exact ⟨_, hnote.script, notify_drawing h rfl q⟩
  | some 0 => exact ⟨_, hnote.script, notify_drawing h rfl q⟩
  | some 1 =>
    obtain ⟨m, hm⟩ := notify_acting h rfl q
    exact ⟨_, hdrop, hm⟩
  | some (k + 2) =>
    obtain ⟨m, hm⟩ := notify_acting h rfl q
    refine ⟨_, hdrop, hm.trans ?_⟩
    rw [if_neg (by simp)]
    rfl

/-- an engine whose frames are shown -/
structure Airing (n : ℤ) (k : Option ℕ) (e : Engine) : Prop extends Steady n e where
  showing : Showing k e

/-- how a part of a live run ends: after an interrupt there is no other to come, and no other fault leaves the machine
running -/
structure Aired {α : Type} (n : ℤ) (o : Outcome α) : Prop where
  airing : ∃ k, Airing n k o.engine ∧ (o.result = .error .interrupted → k = none)
  faults : ∀ f, o.result = .error f → f = .interrupted ∨ o.engine.snapshot.status ≠ .running

end Live

namespace Engine

variable {n : ℤ} {k : Option ℕ} {e e₁ : Engine} {ns : List Note} {o : Outcome Snapshot}

/-- before the display an operation ends with the engine that it hands on, or in the interrupt -/
theorem HandsOn.airing (ho : HandsOn Engine.notify ns e₁ o) (hs : Sound n e) (hf : Follows n e)
    (hd : e₁.definition ≠ none) (hk : Live.Showing k e₁) (hc : ∀ e', Records ns e₁ e' → Change e e') :
    ∃ e', o = ⟨e', if k = some 1 then .error .interrupted else .ok e₁.snapshot⟩ ∧
      Live.Airing n (Live.countdown k) e' ∧ e'.snapshot = e₁.snapshot := by
  obtain ⟨e', rfl, hsteady, hsnap, hsub, hscripts⟩ := ho.steady hs hf hd hc
  have hk' : Live.Showing k e' := ⟨hsub.trans hk.alone, by rw [hscripts, hk.script]⟩
  obtain ⟨l, hl, heq⟩ := Live.notify_showing hk' e'.snapshot
  have hdrawn : Live.Airing n (Live.countdown k)
        { e'.note (.delivery Live.display e'.snapshot) with scripts := l } ∧
      ({ e'.note (.delivery Live.display e'.snapshot) with scripts := l } : Engine).snapshot = e₁.snapshot := by
    rw [note_eq]
    exact ⟨⟨hsteady.listened _ _ _ l, hk'.alone, hl⟩, hsnap⟩
  refine ⟨_, ?_, hdrawn⟩
  rw [heq, Outcome.map, hsnap]
  split_ifs
  · rfl
  · rfl

theorem HandsOn.aired (ho : HandsOn Engine.notify ns e₁ o) (hs : Sound n e) (hf : Follows n e)
    (hd : e₁.definition ≠ none) (hk : Live.Showing k e₁) (hc : ∀ e', Records ns e₁ e' → Change e e') :
    Live.Aired n o := by
  obtain ⟨e', rfl, hair, -⟩ := ho.airing hs hf hd hk hc
  by_cases hk : k = some 1
  · subst hk
    exact ⟨⟨none, hair, fun _ => rfl⟩, fun f hf => Or.inl (Except.error.inj hf).symm⟩
  · simp only [if_neg hk]
    refine ⟨⟨_, hair, ?_⟩, ?_⟩
    · intro hf
      cases hf
    · intro f hf
      cases hf

end Engine

namespace Live

variable {n : ℤ} {k : Option ℕ} {e : Engine}

theorem Airing.note (h : Airing n k e) (x : Note) : Airing n k (e.note x) := by
  rw [note_eq]
  exact ⟨h.listened _ _ _ _, h.showing.alone, h.showing.script⟩

theorem Airing.stopTicker (h : Airing n k e) : Airing n k e.stopTicker :=
  ⟨⟨h.sound.stopTicker, h.follows, h.loaded⟩, h.showing.alone, h.showing.script⟩

theorem Airing.done {α : Type} (h : Airing n k e) (a : α) : Aired n (e.done a) := by
  refine ⟨⟨k, h, ?_⟩, ?_⟩
  · intro hf
    cases hf
  · intro f hf
    cases hf

theorem Airing.interrupted {α : Type} (h : Airing n none e) : Aired n (e.fault .interrupted : Outcome α) :=
  ⟨⟨none, h, fun _ => rfl⟩, fun _ hf => Or.inl (Except.error.inj hf).symm⟩

theorem Aired.andThen {α β : Type} {o : Outcome α} {f : Engine → α → Outcome β} (h : Aired n o)
    (hf : ∀ k e a, Airing n k e → Aired n (f e a)) : Aired n (o.andThen f) := by
  obtain ⟨k, hair, hk⟩ := h.airing
  cases hr : o.result with
  | ok a =>
    rw [Outcome.andThen_of_ok hr]
    exact hf k _ a hair
  | error x =>
    rw [hr] at hk
    have hx := h.faults x hr
    simp only [Outcome.andThen, hr]
    refine ⟨⟨k, hair, ?_⟩, ?_⟩
    · intro hi
      exact hk (by rw [Except.error.inj hi])
    · intro y hy
      rw [← Except.error.inj hy]
      exact hx

/-! ## The run -/

theorem Airing.run (h : Airing n k e) (hr : e.snapshot.status ≠ .running) (interval : Seconds) :
    Aired n (Engine.run Engine.notify e interval) := by
  have hstopped := h.stopTicker.note (.runCalled false)
  cases hgo : e.definition.isNone || e.snapshot.halted with
  | true =>
    rw [run_of_idle hgo]
    exact hstopped.done _
  | false =>
    cases ht : e.ticker.start (interval.max e.least) () with
    | mk t r =>
      cases r with
      | error f =>
        rw [run_of_refused hgo ht]
        refine ⟨⟨k, hstopped, ?_⟩, fun _ _ => Or.inr ?_⟩
        · intro hi
          cases hi
        · rw [note_eq]
          exact hr
      | ok u =>
        obtain ⟨hd, hh⟩ := Bool.or_eq_false_iff.1 hgo
        have hsome : e.definition.isSome = true := by
          rw [← Option.not_isNone, hd]
          rfl
        exact (run_handsOn Engine.notify h.sound hgo ht hr).aired h.sound h.follows h.loaded
          ⟨h.showing.alone, h.showing.script⟩ fun _ hrec => .start t _ hsome hh ht hr hrec

/-- a tick shows a frame, unless none is due or the display is interrupted at this frame -/
theorem Airing.fire (h : Airing n k e) :
    (∃ k' e' b, Engine.fire Engine.notify e = e'.done b ∧ Airing n k' e') ∨
      ∃ e', Engine.fire Engine.notify e = e'.fault .interrupted ∧ Airing n none e' := by
  cases ht : e.ticker.due with
  | none =>
    refine Or.inl ⟨k, e, false, ?_, h⟩
    rw [Engine.fire, ht]
  | some t =>
    obtain ⟨q, o, hs, hq, htick, ho⟩ := tick_handsOn Engine.notify h.sound ht
    have hplaced : Showing k (({ e with ticker := t } : Engine).placed q) := ⟨h.showing.alone, h.showing.script⟩
    obtain ⟨e', rfl, hair, -⟩ := ho.airing h.sound h.follows h.loaded hplaced fun _ hrec => .tick t q ht hs hq hrec
    by_cases hk : k = some 1
    · subst hk
      refine Or.inr ⟨e'.note .tickFailed, ?_, hair.note _⟩
      rw [Engine.fire, ht]
      simp only [htick]
      rfl
    · refine Or.inl ⟨_, e', true, ?_, hair⟩
      rw [Engine.fire, ht]
      simp only [htick, if_neg hk]
      rfl

/-- **The run is watched to its end, or to the interrupt.** -/
theorem Airing.watch (h : Airing n k e) (m : ℕ) : Aired n (watch m e) := by
  induction m generalizing k e with
  | zero => exact h.done ()
  | succ m ih =>
    rw [Live.watch]
    split_ifs
    · rcases h.fire with ⟨k', e', b, hfire, hair⟩ | ⟨e', hfire, hair⟩
      · cases b with
        | true => simpa only [hfire, Engine.done] using ih hair
        | false => simpa only [hfire, Engine.done] using hair.done ()
      · simpa only [hfire, Engine.fault] using hair.interrupted
    · exact h.done ()

/-- a live run up to the pause that ends it -/
def ride (e : Engine) (interval : Seconds) (stopAt : Option ℕ) (patience : ℕ) : Outcome Unit :=
  (Engine.run Engine.notify (attach e stopAt) interval).andThen fun e _ => watch patience e

theorem drive_eq (e : Engine) (interval : Seconds) (stopAt : Option ℕ) (patience : ℕ) :
    drive e interval stopAt patience = finish (ride e interval stopAt patience) := rfl

/-- the run is watched no longer while the machine still runs, and the display is interrupted when it is paused -/
def CutTwice (s : Shell) : Prop :=
  match s.interval with
  | .ok i =>
    let o := ride s.engine i s.interrupts.head?.join s.patience
    o.result = .ok () ∧ o.engine.snapshot.status = .running ∧
      (Engine.pause Engine.notify o.engine).result = .error .interrupted
  | .error _ => False

instance (s : Shell) : Decidable (CutTwice s) :=
  match hi : s.interval with
  | .ok i =>
    let o := ride s.engine i s.interrupts.head?.join s.patience
    decidable_of_iff (o.result = .ok () ∧ o.engine.snapshot.status = .running ∧
      (Engine.pause Engine.notify o.engine).result = .error .interrupted) (by rw [CutTwice, hi])
  | .error _ => isFalse (by rw [CutTwice, hi]; exact not_false)

/-- the display has a script of its own, whatever there was under its name -/
theorem lookup_attach (e : Engine) (stopAt : Option ℕ) :
    (attach e stopAt).scripts.lookup display = some (script stopAt) := by
  have hnone : (e.scripts.filter fun s => s.1 ≠ display).lookup display = none := by
    rw [List.lookup_eq_none_iff]
    intro s hs
    have hne : s.1 ≠ display := by simpa using (List.mem_filter.1 hs).2
    exact bne_iff_ne.2 fun h => hne h.symm
  rw [attach, List.lookup_append, hnone, Option.none_or, List.lookup_cons_self]

theorem airing_attach (h : AtRest n e) (stopAt : Option ℕ) : Airing n stopAt (attach e stopAt) := by
  refine ⟨h.listened _ _ _ _, ?_, lookup_attach e stopAt⟩
  rw [attach, h.alone]
  rfl

theorem aired_ride (h : AtRest n e) (interval : Seconds) (stopAt : Option ℕ) (patience : ℕ) :
    Aired n (ride e interval stopAt patience) :=
  ((airing_attach h stopAt).run h.stopped interval).andThen fun _ _ _ hair => hair.watch patience

/-- the pause at the end goes through, and the display is taken away -/
theorem Aired.finish {o : Outcome Unit} (h : Aired n o)
    (hcut : ¬ (o.result = .ok () ∧ o.engine.snapshot.status = .running ∧
      (Engine.pause Engine.notify o.engine).result = .error .interrupted)) :
    ∃ e', Live.finish o = ⟨e', o.result⟩ ∧ AtRest n e' := by
  obtain ⟨k, hair, hk⟩ := h.airing
  have hpause : ∃ k' e', Engine.pause Engine.notify o.engine = e'.done e'.snapshot ∧ Airing n k' e' ∧
      e'.snapshot.status ≠ .running := by
    by_cases hs : o.engine.snapshot.status = .running
    · obtain ⟨e', heq, hair', hsnap⟩ := (pause_handsOn Engine.notify hair.sound hs).airing hair.sound hair.follows
        hair.loaded ⟨hair.showing.alone, hair.showing.script⟩ fun _ hrec => .pause hs hrec
      -- a display that has been interrupted already is not interrupted again
      have hgoes : k ≠ some 1 := by
        rintro rfl
        rw [heq] at hcut
        cases hr : o.result with
        | ok u => exact hcut ⟨hr, hs, rfl⟩
        | error f =>
          rcases h.faults f hr with rfl | hstopped
          · cases hk hr
          · exact hstopped hs
      refine ⟨_, e', ?_, hair', ?_⟩
      · rw [heq, if_neg hgoes, hsnap]
        rfl
      · rw [hsnap]
        intro hp
        cases hp
    · exact ⟨k, _, pause_of_not_running hs, hair, hs⟩
  obtain ⟨k', e', hpause, hair', hstopped⟩ := hpause
  refine ⟨{ e' with subscribers := [] }, ?_, hair'.listened _ _ _ _, hstopped, rfl⟩
  have halone : e'.subscribers.erase display = [] := by
    rw [hair'.showing.alone]
    exact List.erase_cons_head display []
  have hmem : display ∈ e'.subscribers := by
    rw [hair'.showing.alone]
    exact List.mem_singleton_self display
  simp only [Live.finish, hpause, Engine.done, unsubscribe, if_pos hmem, halone]

/-- **A live run hands back an engine at rest**, however it ends, unless it is cut twice. -/
theorem atRest_runOrPause {s : Shell} (h : AtRest n s.engine) (hcut : ¬ CutTwice s) {i : Seconds}
    (hi : s.interval = .ok i) :
    ∃ e' shown r, runOrPause s = ({ s with engine := e', interrupts := s.interrupts.tail }, shown, r) ∧
      AtRest n e' := by
  rw [CutTwice, hi] at hcut
  obtain ⟨e₁, hfinish, h₁⟩ := (aired_ride h i s.interrupts.head?.join s.patience).finish hcut
  have h₂ : AtRest n { e₁ with tracing := s.engine.tracing, trace := s.engine.trace } :=
    ⟨h₁.listened _ _ _ _, h₁.stopped, h₁.alone⟩
  refine ⟨{ e₁ with tracing := s.engine.tracing, trace := s.engine.trace },
    [.live ((s.engine.snapshot :: shots e₁).map fun q => s.panelOf q none)], ?_⟩
  simp only [runOrPause, Live.run, hi, drive_eq, hfinish]
  cases (ride s.engine i s.interrupts.head?.join s.patience).result with
  | ok u => exact ⟨_, rfl, h₂⟩
  | error f =>
    cases f with
    | interrupted =>
      refine ⟨.ok true, ?_, h₂⟩
      simp only [pause_of_not_running h₂.stopped]
      rfl
    | _ => exact ⟨_, rfl, h₂⟩

end Live
end TapeMachine
