/-
The frames of a live run.

A live run shows the snapshot that it starts from, and then exactly the snapshots that the machine commits while it
lasts, in order: the running one, one for each tick, and the paused one if it is cut short (`Reel`). The display is the
last in the list of listeners. Those before it may look on as well, and none of them has a command to perform, so that
every commit goes through to the display and nothing comes in between (`notify_filmed`). An interrupt comes at a frame,
in the middle of its delivery, or between two ticks, when the run is watched no longer.

What is kept along the run is `Filming`: the display has been given what was committed. Each of the operations of a live
run adds one snapshot to both. The pause at the end comes before the display is taken away, so that its snapshot is
shown too, and the last frame shows the machine as it is then (`run_frames`).
-/
import TapeMachine.Proofs.ControlGraph
import TapeMachine.Proofs.InterruptedRun

namespace TapeMachine

open Engine

/-! ## What was shown, and what was committed -/

/-- the snapshot that a note tells the display was given -/
def Note.shown? : Note → Option Snapshot
  | .delivery l q => if l = Live.display then some q else none
  | _ => none

namespace Engine

variable {n : ℤ} {e e' : Engine} {ns : List Note}

/-- the snapshots committed, in order -/
def commits (e : Engine) : List Snapshot := (e.trace.filterMap Note.committed?).reverse

theorem shots_eq (e : Engine) : Live.shots e = (e.trace.filterMap Note.shown?).reverse := by
  rw [Live.shots, ← List.filterMap_reverse]
  rfl

theorem Logged.shown_nil (h : Logged ns) : ns.filterMap Note.shown? = [] := by
  rw [List.filterMap_eq_nil_iff]
  intro x hx
  obtain ⟨ev, rfl⟩ | ⟨r, rfl⟩ := h x hx
  · rfl
  · rfl

theorem shown_event (e : Engine) (ev : Event) : (e.logNotes [.event ev]).filterMap Note.shown? = [] :=
  (logged_logNotes (logged_event ev) e).shown_nil

theorem shown_placeNotes (e : Engine) (q : Snapshot) : (e.placeNotes q).filterMap Note.shown? = [] := by
  rw [placeNotes, List.filterMap_append]
  split_ifs
  · rw [(logged_haltNotes e q).shown_nil]
    rfl
  · rfl

theorem shown_startNotes (e : Engine) (interval : Seconds) : (e.startNotes interval).filterMap Note.shown? = [] := by
  rw [startNotes, List.filterMap_append, shown_event]
  rfl

end Engine

namespace Live

variable {n : ℤ} {d : Definition} {k : Option ℕ} {e e₁ : Engine} {others : List String}

/-! ## The display among other listeners -/

/-- scripts in which the display is interrupted at its `k`-th frame from now on, and the others have no command -/
structure Scripted (others : List String) (k : Option ℕ) (l : List (String × List Reaction)) : Prop where
  script : l.lookup display = some (script k)
  mute : ∀ s ∈ l, s.1 ∈ others → ∀ r ∈ s.2, r.commands = []

theorem lookup_dropReaction_of_ne (l : List (String × List Reaction)) {name name' : String} (h : name' ≠ name) :
    (dropReaction l name).lookup name' = l.lookup name' := by
  induction l with
  | nil => rfl
  | cons s l ih =>
    obtain ⟨a, rs⟩ := s
    unfold dropReaction at ih ⊢
    by_cases ha : a = name
    · have hne : (name' == a) = false := beq_eq_false_iff_ne.2 fun heq => h (heq.trans ha)
      rw [List.map_cons, if_pos ha, List.lookup_cons, hne, List.lookup_cons, hne]
      exact ih
    · rw [List.map_cons, if_neg ha, List.lookup_cons, List.lookup_cons, ih]

theorem Scripted.drop {l : List (String × List Reaction)} (h : Scripted others k l) (name : String) :
    Scripted others (if name = display then countdown k else k) (dropReaction l name) where
  script := by
    split_ifs with hname
    · rw [hname, lookup_dropReaction, h.script, script_countdown]
      rfl
    · rw [lookup_dropReaction_of_ne l (Ne.symm hname), h.script]
  mute := by
    intro s hs hin r hr
    obtain ⟨x, hx, rfl⟩ := List.mem_map.1 hs
    split_ifs at hin hr
    · exact h.mute x hx hin r (List.mem_of_mem_tail hr)
    · exact h.mute x hx hin r hr

/-- the other listeners perform nothing -/
theorem Scripted.takeReaction (h : Scripted others k e.scripts) {name : String} (hin : name ∈ others)
    (hne : name ≠ display) {q : Snapshot} {cs : List Command} {e' : Engine}
    (ht : e.takeReaction name q = some (cs, e')) :
    cs = [] ∧ ∃ l, Scripted others k l ∧ e' = { e with scripts := l } := by
  unfold Engine.takeReaction at ht
  split at ht
  · rename_i r rs hl
    split_ifs at ht
    obtain ⟨rfl, rfl⟩ := Prod.mk.inj (Option.some.inj ht)
    obtain ⟨before, after, heq, -⟩ := List.lookup_eq_some_iff.1 hl
    have hmem : (name, r :: rs) ∈ e.scripts := by
      rw [heq]
      exact List.mem_append_right before List.mem_cons_self
    have hdrop := h.drop name
    rw [if_neg hne] at hdrop
    exact ⟨h.mute _ hmem hin r List.mem_cons_self, _, hdrop, rfl⟩
  · cases ht

theorem deliver_append (react : String → Engine → Snapshot → Outcome Unit) (q : Snapshot) (e : Engine)
    (ls ls' : List String) :
    deliver react q e (ls ++ ls') = (deliver react q e ls).andThen fun e _ => deliver react q e ls' := by
  induction ls generalizing e with
  | nil => rfl
  | cons l ls ih =>
    simp only [List.cons_append, deliver, Outcome.andThen, ih]
    cases (react l (e.note (.delivery l q)) q).result with
    | ok u => rfl
    | error f => rfl

/-- the notes of a delivery to some listeners, the latest first -/
def deliveries (ls : List String) (q : Snapshot) : List Note := (ls.map fun l => Note.delivery l q).reverse

/-- what the listeners other than the display do with a snapshot: nothing -/
def LookOn (others : List String) (k : Option ℕ) (react : String → Engine → Snapshot → Outcome Unit) : Prop :=
  ∀ name ∈ others, ∀ e q, Scripted others k e.scripts →
    ∃ l, Scripted others k l ∧ react name e q = ({ e with scripts := l } : Engine).done ()

/-- listeners that perform nothing are given the snapshot -/
theorem deliver_others {react : String → Engine → Snapshot → Outcome Unit} {q : Snapshot}
    (hr : LookOn others k react) {ls : List String} (hls : ls ⊆ others)
    (h : Scripted others k e.scripts) (ht : e.tracing = true) :
    ∃ l, Scripted others k l ∧
      deliver react q e ls = ({ e with trace := deliveries ls q ++ e.trace, scripts := l } : Engine).done () := by
  induction ls generalizing e with
  | nil => exact ⟨e.scripts, h, rfl⟩
  | cons name ls ih =>
    obtain ⟨hname, hls⟩ := List.cons_subset.1 hls
    have hnote : e.note (.delivery name q) = { e with trace := .delivery name q :: e.trace } := by rw [note, if_pos ht]
    obtain ⟨l, hl, heq⟩ := hr name hname (e.note (.delivery name q)) q (by rw [hnote]; exact h)
    rw [hnote] at heq
    obtain ⟨l', hl', heq'⟩ := ih (e := { e with trace := .delivery name q :: e.trace, scripts := l }) hls hl ht
    refine ⟨l', hl', ?_⟩
    rw [deliver, hnote, heq, Outcome.andThen_of_ok (a := ()) rfl, done_engine, heq']
    simp only [deliveries, List.map_cons, List.reverse_cons, List.append_assoc, List.singleton_append]

/-- the display is subscribed behind listeners that perform nothing -/
structure Drawing (others : List String) (k : Option ℕ) (e : Engine) : Prop where
  subscribed : e.subscribers = others ++ [display]
  apart : display ∉ others
  scripted : Scripted others k e.scripts

/-- what the display does with a frame -/
def Draws (others : List String) (k : Option ℕ) (react : Engine → Outcome Unit) : Prop :=
  ∀ e, Scripted others k e.scripts → ∃ l, Scripted others (countdown k) l ∧
    react e = ⟨{ e with scripts := l }, if k = some 1 then .error .interrupted else .ok ()⟩

theorem deliver_filmed {react : String → Engine → Snapshot → Outcome Unit} {q : Snapshot}
    (hr : LookOn others k react) (hd : Draws others k fun e => react display e q)
    (h : Drawing others k e) (ht : e.tracing = true) :
    ∃ l, Scripted others (countdown k) l ∧
      deliver react q e e.subscribers =
        ⟨{ e with trace := .delivery display q :: (deliveries others q ++ e.trace), scripts := l },
          if k = some 1 then .error .interrupted else .ok ()⟩ := by
  obtain ⟨l, hl, heq⟩ := deliver_others hr (List.Subset.refl others) h.scripted ht
  obtain ⟨l', hl', heq'⟩ :=
    hd { e with trace := .delivery display q :: (deliveries others q ++ e.trace), scripts := l } hl
  refine ⟨l', hl', ?_⟩
  have hnote : ({ e with trace := deliveries others q ++ e.trace, scripts := l } : Engine).note (.delivery display q) =
      { e with trace := .delivery display q :: (deliveries others q ++ e.trace), scripts := l } := by
    rw [note, if_pos ht]
  conv_lhs =>
    rw [h.subscribed, deliver_append, heq, Outcome.andThen_of_ok (a := ()) rfl, done_engine, deliver_single, hnote]
  exact heq'

/-- a display without a reaction left only draws -/
theorem Scripted.idle {l : List (String × List Reaction)} (h : Scripted others k l) (hk : Live.script k = []) :
    Scripted others (countdown k) l ∧ k ≠ some 1 := by
  refine ⟨⟨?_, h.mute⟩, ?_⟩
  · rw [h.script, script_countdown, hk]
    rfl
  · rintro rfl
    cases hk

theorem draws_take (m : ℕ) (q : Snapshot) : Draws others k fun e =>
    match e.takeReaction display q with
    | some (cs, e) => performAll (notifyAt m) display e cs
    | none => e.done () := by
  intro e h
  have hdrop := h.drop display
  rw [if_pos rfl] at hdrop
  simp only [takeReaction_script h.script]
  match k with
  | none => exact ⟨e.scripts, h, rfl⟩
  | some 0 => exact ⟨e.scripts, (h.idle rfl).1, rfl⟩
  | some 1 => exact ⟨_, hdrop, rfl⟩
  | some (k + 2) =>
    refine ⟨_, hdrop, ?_⟩
    rw [if_neg (by simp)]
    rfl

/-- **A snapshot goes through to the display**, which takes it unless it is interrupted at this frame. -/
theorem notify_filmed (h : Drawing others k e) (ht : e.tracing = true) (q : Snapshot) :
    ∃ l, Scripted others (countdown k) l ∧
      Engine.notify e q = ⟨{ e with trace := .delivery display q :: (deliveries others q ++ e.trace), scripts := l },
        if k = some 1 then .error .interrupted else .ok ()⟩ := by
  unfold Engine.notify
  cases hm : e.reactionsLeft with
  | zero =>
    have hnil : script k = [] := by
      cases hs : script k with
      | nil => rfl
      | cons r rs =>
        have hpos := reactionsLeft_pos (h.scripted.script.trans (congrArg some hs))
        omega
    refine deliver_filmed (fun name _ e _ h => ⟨e.scripts, h, rfl⟩) (fun e h => ⟨e.scripts, (h.idle hnil).1, ?_⟩) h ht
    rw [if_neg (h.idle hnil).2]
    rfl
  | succ m =>
    refine deliver_filmed (fun name hin e q hscripted => ?_) (draws_take m q) h ht
    cases htake : e.takeReaction name q with
    | none => exact ⟨e.scripts, hscripted, rfl⟩
    | some x =>
      obtain ⟨cs, e'⟩ := x
      have hne : name ≠ display := fun heq => h.apart (heq ▸ hin)
      obtain ⟨rfl, l, hl, rfl⟩ := hscripted.takeReaction hin hne htake
      exact ⟨l, hl, rfl⟩

/-! ## Filming -/

/-- an engine of which every commit is shown; `qs` are the snapshots committed since the display came -/
structure Filming (n : ℤ) (d : Definition) (others : List String) (k : Option ℕ) (qs : List Snapshot) (e : Engine) :
    Prop where
  sound : Sound n e
  definition : e.definition = some d
  tracing : e.tracing = true
  drawing : Drawing others k e
  shots : Live.shots e = qs
  commits : e.commits = qs

theorem shown_deliveries (h : display ∉ others) (q : Snapshot) :
    (deliveries others q).filterMap Note.shown? = [] := by
  rw [List.filterMap_eq_nil_iff]
  intro x hx
  obtain ⟨l, hl, rfl⟩ := List.mem_map.1 (List.mem_reverse.1 hx)
  have hne : l ≠ display := fun heq => h (heq ▸ hl)
  exact if_neg hne

theorem committed_deliveries (q : Snapshot) : (deliveries others q).filterMap Note.committed? = [] := by
  rw [List.filterMap_eq_nil_iff]
  intro x hx
  obtain ⟨l, -, rfl⟩ := List.mem_map.1 (List.mem_reverse.1 hx)
  rfl

/-- `e₁` has the definition, the trace and the listeners of `e` -/
structure SameFilm (e e₁ : Engine) : Prop where
  definition : e₁.definition = e.definition
  tracing : e₁.tracing = e.tracing
  trace : e₁.trace = e.trace
  subscribers : e₁.subscribers = e.subscribers
  scripts : e₁.scripts = e.scripts

end Live

namespace Engine

variable {n : ℤ} {d : Definition} {k : Option ℕ} {e e₁ : Engine} {others : List String} {qs : List Snapshot}
  {ns : List Note} {o : Outcome Snapshot}

/-- **What is committed is shown**, and the operation ends with that snapshot, or in the interrupt. -/
theorem HandsOn.filming (ho : HandsOn Engine.notify ns e₁ o) (h : Live.Filming n d others k qs e)
    (hc : ∀ e', Records ns e₁ e' → Change e e') (hsame : Live.SameFilm e e₁)
    (hcommitted : ns.filterMap Note.committed? = [e₁.snapshot]) (hshown : ns.filterMap Note.shown? = []) :
    ∃ e', o = ⟨e', if k = some 1 then .error .interrupted else .ok e₁.snapshot⟩ ∧ e'.snapshot = e₁.snapshot ∧
      e'.ticker = e₁.ticker ∧ e'.input = e₁.input ∧
      Live.Filming n d others (Live.countdown k) (qs ++ [e₁.snapshot]) e' := by
  obtain ⟨e₂, hrec, rfl⟩ := ho
  have htracing : e₁.tracing = true := hsame.tracing.trans h.tracing
  have hs := (hc e₂ hrec).sound h.sound
  have htrace : e₂.trace = ns ++ e.trace := by rw [hrec.trace htracing, hsame.trace]
  have hframe : e₂.ticker = e₁.ticker ∧ e₂.input = e₁.input ∧ e₂.subscribers = e₁.subscribers ∧
      e₂.scripts = e₁.scripts ∧ e₂.tracing = e₁.tracing := by
    obtain ⟨j, disk, -, rfl⟩ := hrec.eq
    exact ⟨rfl, rfl, rfl, rfl, rfl⟩
  obtain ⟨hticker, hinput, hsub, hscripts, htracing₂⟩ := hframe
  have hdrawing : Live.Drawing others k e₂ := by
    refine ⟨?_, h.drawing.apart, ?_⟩
    · rw [hsub, hsame.subscribers, h.drawing.subscribed]
    · rw [hscripts, hsame.scripts]
      exact h.drawing.scripted
  obtain ⟨l, hl, heq⟩ := Live.notify_filmed hdrawing (htracing₂.trans htracing) e₁.snapshot
  have hshots := h.shots
  have hcommits := h.commits
  rw [shots_eq] at hshots
  rw [Engine.commits] at hcommits
  refine ⟨{ e₂ with
      trace := .delivery Live.display e₁.snapshot :: (Live.deliveries others e₁.snapshot ++ e₂.trace), scripts := l },
    ?_, hrec.snapshot, hticker, hinput, { hs with logs := hs.logs.of_sameLog ⟨rfl, rfl, rfl, rfl⟩ },
    hrec.definition.trans (hsame.definition.trans h.definition), htracing₂.trans htracing,
    ⟨hdrawing.subscribed, hdrawing.apart, hl⟩, ?_, ?_⟩
  · rw [heq, Outcome.map]
    split_ifs
    · rfl
    · rfl
  · simp only [shots_eq, htrace]
    rw [List.filterMap_cons, List.filterMap_append, List.filterMap_append, Live.shown_deliveries h.drawing.apart,
      hshown, ← hshots]
    exact List.reverse_cons
  · simp only [Engine.commits, htrace]
    rw [List.filterMap_cons, List.filterMap_append, List.filterMap_append, Live.committed_deliveries, hcommitted,
      ← hcommits]
    exact List.reverse_cons

end Engine

namespace Live

variable {n : ℤ} {d : Definition} {k : Option ℕ} {e : Engine} {others : List String} {qs : List Snapshot}

/-- a note of neither a commit nor a delivery -/
theorem Filming.note (h : Filming n d others k qs e) {x : Note} (hx : x.committed? = none) (hx' : x.shown? = none) :
    Filming n d others k qs (e.note x) := by
  have hrec := records_note e x
  have hshots := h.shots
  have hcommits := h.commits
  rw [shots_eq] at hshots
  rw [Engine.commits] at hcommits
  refine ⟨hrec.sound h.sound, hrec.definition.trans h.definition, ?_, ?_, ?_, ?_⟩
  · rw [note_eq]
    exact h.tracing
  · rw [note_eq]
    exact ⟨h.drawing.subscribed, h.drawing.apart, h.drawing.scripted⟩
  · rw [shots_eq, hrec.trace h.tracing, List.singleton_append, List.filterMap_cons, hx']
    exact hshots
  · rw [Engine.commits, hrec.trace h.tracing, List.singleton_append, List.filterMap_cons, hx]
    exact hcommits

theorem Filming.next (h : Filming n d others k qs e) {q : Snapshot} (hq : e.next = some q) :
    advance d d.table e.snapshot = some q := by
  simp only [Engine.next, h.definition, h.sound.table d h.definition] at hq
  exact hq

/-- a run starts with the running snapshot -/
theorem Filming.run (h : Filming n d others k qs e) (hh : e.snapshot.halted = false)
    (hr : e.snapshot.status ≠ .running) {interval : Seconds}
    (hstart : (e.ticker.start (interval.max e.least) ()).2 = .ok ()) :
    ∃ e', Engine.run Engine.notify e interval =
        ⟨e', if k = some 1 then .error .interrupted else .ok (e.withStatus .running)⟩ ∧
      e'.snapshot = e.withStatus .running ∧ e'.ticker.active = true ∧ e'.input = e.input ∧
      Filming n d others (countdown k) (qs ++ [e.withStatus .running]) e' := by
  have hsome : e.definition.isSome = true := by rw [h.definition]; rfl
  have hgo : (e.definition.isNone || e.snapshot.halted) = false := by rw [h.definition, hh]; rfl
  obtain ⟨t, ht⟩ : ∃ t, e.ticker.start (interval.max e.least) () = (t, .ok ()) := ⟨_, Prod.ext rfl hstart⟩
  obtain ⟨e', hrun, hsnap, hticker, hinput, hfilm⟩ := (run_handsOn Engine.notify h.sound hgo ht hr).filming h
    (fun _ hrec => .start t _ hsome hh ht hr hrec) ⟨rfl, rfl, rfl, rfl, rfl⟩
    (by rw [List.filterMap_cons, commits_startNotes]; rfl) (by rw [List.filterMap_cons, shown_startNotes]; rfl)
  refine ⟨e', hrun, hsnap, ?_, hinput, hfilm⟩
  rw [hticker]
  exact (h.sound.owned.start ht).2

/-- a tick goes on to the next snapshot -/
theorem Filming.fire (h : Filming n d others k qs e) (ha : e.ticker.active = true) :
    ∃ e' q, Engine.fire Engine.notify e = ⟨e', if k = some 1 then .error .interrupted else .ok true⟩ ∧
      advance d d.table e.snapshot = some q ∧ e'.snapshot = q ∧ (q.status = .running → e'.ticker.active = true) ∧
      e'.input = e.input ∧ Filming n d others (countdown k) (qs ++ [q]) e' := by
  obtain ⟨t, ht⟩ := h.sound.owned.due_of_active ha
  obtain ⟨q, o, hs, hq, htick, ho⟩ := tick_handsOn Engine.notify h.sound ht
  obtain ⟨e', rfl, hsnap, hticker, hinput, hfilm⟩ := ho.filming h (fun _ hrec => .tick t q ht hs hq hrec)
    ⟨rfl, rfl, rfl, rfl, rfl⟩ (commits_placeNotes e q) (shown_placeNotes e q)
  have hsnap' : e'.snapshot = q := hsnap
  have hactive : q.status = .running → e'.ticker.active = true := by
    intro hrun
    rw [hticker, placed, if_pos hrun]
    exact (h.sound.owned.due ht).2.2
  by_cases hk : k = some 1
  · simp only [if_pos hk] at htick ⊢
    refine ⟨e'.note .tickFailed, q, ?_, h.next hq, ?_, ?_, ?_, hfilm.note rfl rfl⟩
    · rw [Engine.fire, ht]
      simp only [htick]
      rfl
    · rw [note_eq]
      exact hsnap'
    · rw [note_eq]
      exact hactive
    · rw [note_eq]
      exact hinput
  · simp only [if_neg hk] at htick ⊢
    refine ⟨e', q, ?_, h.next hq, hsnap', hactive, hinput, hfilm⟩
    rw [Engine.fire, ht]
    simp only [htick]
    rfl

/-- the snapshots of ticks in a row, from `p` to `q` -/
inductive Ticks (d : Definition) : Snapshot → List Snapshot → Snapshot → Prop
  | nil (p : Snapshot) : Ticks d p [] p
  | cons {p p' q : Snapshot} {qs : List Snapshot} (hp : p.status = .running) (hq : advance d d.table p = some p')
      (h : Ticks d p' qs q) : Ticks d p (p' :: qs) q

theorem countdown_eq_some {j : ℕ} (h : countdown k = some j) : k = some (j + 1) := by
  match k with
  | none => cases h
  | some 0 => cases h
  | some 1 => cases h
  | some (k + 2) => rw [← Option.some.inj h]

/-- **The run is watched tick by tick**, to the halt, for as long as it is watched at all, or to the interrupt. -/
theorem Filming.watch (h : Filming n d others k qs e) (ha : e.snapshot.status = .running → e.ticker.active = true)
    (m : ℕ) :
    ∃ ticks k' e' r, Live.watch m e = ⟨e', r⟩ ∧ Filming n d others k' (qs ++ ticks) e' ∧
      Ticks d e.snapshot ticks e'.snapshot ∧ ticks.length ≤ m ∧ e'.input = e.input ∧
      ((r = .ok () ∧ (e'.snapshot.status = .running → ticks.length = m)) ∨
        r = .error .interrupted ∧ k' = none ∧ k = some ticks.length) := by
  induction m generalizing k qs e with
  | zero =>
    refine ⟨[], k, e, .ok (), rfl, ?_, .nil _, le_rfl, rfl, Or.inl ⟨rfl, fun _ => rfl⟩⟩
    rwa [List.append_nil]
  | succ m ih =>
    by_cases hs : e.snapshot.status = .running
    · obtain ⟨e₁, q, hfire, hadv, rfl, hactive, hinput₁, h₁⟩ := h.fire (ha hs)
      by_cases hk : k = some 1
      · rw [if_pos hk] at hfire
        refine ⟨[e₁.snapshot], countdown k, e₁, .error .interrupted, ?_, h₁, .cons hs hadv (.nil _),
          Nat.succ_le_succ (Nat.zero_le m), hinput₁, Or.inr ⟨rfl, by rw [hk]; rfl, hk⟩⟩
        simp only [Live.watch, if_pos hs, hfire]
        rfl
      · rw [if_neg hk] at hfire
        obtain ⟨ticks, k', e', r, hwatch, hfilm, hticks, hlength, hinput, hend⟩ := ih h₁ hactive
        refine ⟨e₁.snapshot :: ticks, k', e', r, ?_, ?_, .cons hs hadv hticks, Nat.succ_le_succ hlength,
          hinput.trans hinput₁, ?_⟩
        · simp only [Live.watch, if_pos hs, hfire]
          exact hwatch
        · rwa [List.append_cons]
        · rcases hend with ⟨hr, hrun⟩ | ⟨hr, hk', hcount⟩
          · exact Or.inl ⟨hr, fun hs' => congrArg (· + 1) (hrun hs')⟩
          · exact Or.inr ⟨hr, hk', countdown_eq_some hcount⟩
    · refine ⟨[], k, e, .ok (), ?_, ?_, .nil _, Nat.zero_le _, rfl, Or.inl ⟨rfl, fun hs' => absurd hs' hs⟩⟩
      · rw [Live.watch, if_neg hs]
        rfl
      · rwa [List.append_nil]

/-- the display comes last -/
theorem filming_attach (hs : Sound n e) (hd : e.definition = some d) (hnew : display ∉ e.subscribers)
    (hmute : ∀ s ∈ e.scripts, s.1 ∈ e.subscribers → ∀ r ∈ s.2, r.commands = []) (stopAt : Option ℕ) :
    Filming n d e.subscribers stopAt [] (attach e stopAt) where
  sound := { hs with logs := hs.logs.of_sameLog ⟨rfl, rfl, rfl, rfl⟩ }
  definition := hd
  tracing := rfl
  drawing := by
    refine ⟨rfl, hnew, lookup_attach e stopAt, fun s hs hin => ?_⟩
    rcases List.mem_append.1 hs with hs | hs
    · exact hmute s (List.mem_of_mem_filter hs) hin
    · rw [List.mem_singleton.1 hs] at hin
      exact absurd hin hnew
  shots := rfl
  commits := rfl

/-- the pause of a run is shown, like all else -/
theorem Filming.pause (h : Filming n d others k qs e) (hs : e.snapshot.status = .running) :
    ∃ e', Engine.pause Engine.notify e =
        ⟨e', if k = some 1 then .error .interrupted else .ok (e.withStatus .paused)⟩ ∧
      e'.snapshot = e.withStatus .paused ∧ e'.input = e.input ∧
      Filming n d others (countdown k) (qs ++ [e.withStatus .paused]) e' := by
  obtain ⟨e', hpause, hsnap, -, hinput, hfilm⟩ := (pause_handsOn Engine.notify h.sound hs).filming h
    (fun _ hrec => .pause hs hrec) ⟨rfl, rfl, rfl, rfl, rfl⟩
    (by rw [List.filterMap_cons, commits_event]; rfl) (by rw [List.filterMap_cons, shown_event]; rfl)
  exact ⟨e', hpause, hsnap, hinput, hfilm⟩

/-- **The pause at the end is shown**, and then the display is taken away. -/
theorem Filming.finish (h : Filming n d others k qs e) (hcut : e.snapshot.status = .running → k ≠ some 1)
    (r : Except Fault Unit) :
    ∃ e', Live.finish ⟨e, r⟩ = ⟨e', r⟩ ∧ e'.snapshot = e.snapshot.settled ∧ Sound n e' ∧ e'.definition = some d ∧
      e'.input = e.input ∧ e'.subscribers = others ∧ Live.shots e' = e'.commits ∧
      e'.commits = qs ++ if e.snapshot.status = .running then [e.snapshot.settled] else [] := by
  have hpause : ∃ k' e', Engine.pause Engine.notify e = e'.done e'.snapshot ∧ e'.snapshot = e.snapshot.settled ∧
      e'.input = e.input ∧
      Filming n d others k' (qs ++ if e.snapshot.status = .running then [e.snapshot.settled] else []) e' := by
    by_cases hs : e.snapshot.status = .running
    · obtain ⟨e', heq, hsnap, hinput, hfilm⟩ := h.pause hs
      have hsettled : e.snapshot.settled = e.withStatus .paused := by rw [Snapshot.settled, if_pos hs]; rfl
      refine ⟨countdown k, e', ?_, hsnap.trans hsettled.symm, hinput, ?_⟩
      · rw [heq, if_neg (hcut hs), hsnap]
        rfl
      · rw [if_pos hs, hsettled]
        exact hfilm
    · refine ⟨k, e, pause_of_not_running hs, (Snapshot.settled_of_not_running hs).symm, rfl, ?_⟩
      rw [if_neg hs, List.append_nil]
      exact h
  obtain ⟨k', e', hpause, hsnap, hinput, hfilm⟩ := hpause
  have herase : e'.subscribers.erase display = others := by
    rw [hfilm.drawing.subscribed, List.erase_append_right _ hfilm.drawing.apart, List.erase_cons_head, List.append_nil]
  have hmem : display ∈ e'.subscribers := by
    rw [hfilm.drawing.subscribed]
    exact List.mem_append_right others (List.mem_singleton_self display)
  have hs := hfilm.sound
  refine ⟨{ e' with subscribers := others }, ?_, hsnap, { hs with logs := hs.logs.of_sameLog ⟨rfl, rfl, rfl, rfl⟩ },
    hfilm.definition, hinput, rfl, hfilm.shots.trans hfilm.commits.symm, hfilm.commits⟩
  simp only [Live.finish, hpause, Engine.done, unsubscribe, if_pos hmem, herase]

/-! ## The run -/

/-- what a live run from `p` commits, up to its last snapshot: the running snapshot and those of its ticks, up to a
halt; or up to the tick after which it is cut short, which is the last one that it is watched for or the one of the
frame `stopAt`, counted from the running snapshot, and then the paused one -/
inductive Reel (d : Definition) (p : Snapshot) (stopAt : Option ℕ) (patience : ℕ) : List Snapshot → Snapshot → Prop
  | halted (ticks : List Snapshot) (q : Snapshot) (ht : Ticks d { p with status := .running } ticks q)
      (hl : ticks.length ≤ patience) (hh : q.halted = true) :
      Reel d p stopAt patience ({ p with status := .running } :: ticks) q
  | paused (ticks : List Snapshot) (q : Snapshot) (ht : Ticks d { p with status := .running } ticks q)
      (hl : ticks.length ≤ patience) (hr : q.status = .running)
      (hcut : ticks.length = patience ∨ stopAt = some (ticks.length + 1)) :
      Reel d p stopAt patience ({ p with status := .running } :: (ticks ++ [{ q with status := .paused }]))
        { q with status := .paused }

/-- the second snapshot is the first one, or a step on -/
def Near (p q : Snapshot) : Prop := p.steps ≤ q.steps ∧ q.steps ≤ p.steps + 1

section Reel

variable {p q : Snapshot} {stopAt : Option ℕ} {patience : ℕ} {ticks : List Snapshot}

/-- a run that has not halted still runs -/
theorem Ticks.running_or_halted (h : Ticks d p ticks q) (hp : p.status = .running) :
    q.status = .running ∨ q.halted = true := by
  induction h with
  | nil p => exact Or.inl hp
  | cons hp hq h ih =>
    rcases advance_of_running hq hp with hrun | hhalted
    · exact ih hrun
    · cases h with
      | nil p => exact Or.inr hhalted
      | cons hp' hq' h' =>
        rw [Snapshot.not_halted_of_running hp'] at hhalted
        cases hhalted

/-- the ticks of a run, with the pause if it still runs, are what a live run commits -/
theorem Ticks.reel (h : Ticks d { p with status := .running } ticks q) (hl : ticks.length ≤ patience)
    (hcut : q.status = .running → ticks.length = patience ∨ stopAt = some (ticks.length + 1)) :
    Reel d p stopAt patience
      ({ p with status := .running } :: ticks ++ if q.status = .running then [q.settled] else []) q.settled := by
  by_cases hr : q.status = .running
  · rw [if_pos hr, Snapshot.settled, if_pos hr]
    exact .paused ticks q h hl hr (hcut hr)
  · rw [if_neg hr, List.append_nil, Snapshot.settled_of_not_running hr]
    exact .halted ticks q h hl ((h.running_or_halted rfl).resolve_left hr)

theorem Ticks.getLast? (h : Ticks d p ticks q) : (p :: ticks).getLast? = some q := by
  induction h with
  | nil p => rfl
  | cons hp hq h ih => rwa [List.getLast?_cons_cons]

theorem near_advance (hp : p.status = .running) (hq : advance d d.table p = some q) : Near p q := by
  rcases advance_steps hq (Snapshot.not_halted_of_running hp) with hsteps | ⟨-, hsteps⟩
  · exact ⟨by omega, hsteps.le⟩
  · exact ⟨hsteps.ge, by omega⟩

theorem near_withStatus (p : Snapshot) (status : Status) : Near p { p with status } := ⟨le_rfl, by simp only; omega⟩

theorem Ticks.near (h : Ticks d p ticks q) : (p :: ticks).IsChain Near := by
  induction h with
  | nil p => exact List.isChain_singleton p
  | cons hp hq h ih => exact List.isChain_cons_cons.2 ⟨near_advance hp hq, ih⟩

theorem Ticks.near_append (h : Ticks d p ticks q) {q' : Snapshot} (hq' : Near q q') :
    (p :: (ticks ++ [q'])).IsChain Near := by
  induction h with
  | nil p => exact List.isChain_cons_cons.2 ⟨hq', List.isChain_singleton q'⟩
  | cons hp hq h ih => exact List.isChain_cons_cons.2 ⟨near_advance hp hq, ih hq'⟩

/-- the steps counted go up one by one -/
theorem Reel.near (h : Reel d p stopAt patience qs q) : (p :: qs).IsChain Near := by
  cases h with
  | halted ticks q ht hl hh => exact List.isChain_cons_cons.2 ⟨near_withStatus p .running, ht.near⟩
  | paused ticks q ht hl hr hcut =>
    exact List.isChain_cons_cons.2 ⟨near_withStatus p .running, ht.near_append (near_withStatus q .paused)⟩

theorem Reel.getLast? (h : Reel d p stopAt patience qs q) : qs.getLast? = some q := by
  cases h with
  | halted ticks q ht hl hh => exact ht.getLast?
  | paused ticks q ht hl hr hcut => rw [← List.cons_append, List.getLast?_concat]

/-- the machine has stopped at the end -/
theorem Reel.stopped (h : Reel d p stopAt patience qs q) : q.status ≠ .running := by
  cases h with
  | halted ticks q ht hl hh =>
    intro hr
    rw [Snapshot.not_halted_of_running hr] at hh
    cases hh
  | paused ticks q ht hl hr hcut =>
    intro hr
    cases hr

end Reel

/-- **A live run is watched from its first frame to its last.** -/
theorem Filming.ride (h : Filming n d others k [] e) (hh : e.snapshot.halted = false)
    (hr : e.snapshot.status ≠ .running) {interval : Seconds}
    (hstart : (e.ticker.start (interval.max e.least) ()).2 = .ok ()) (patience : ℕ) :
    ∃ ticks k' e' r,
      ((Engine.run Engine.notify e interval).andThen fun e _ => Live.watch patience e) = ⟨e', r⟩ ∧
      Filming n d others k' (e.withStatus .running :: ticks) e' ∧ Ticks d (e.withStatus .running) ticks e'.snapshot ∧
      ticks.length ≤ patience ∧ e'.input = e.input ∧
      ((r = .ok () ∧ (e'.snapshot.status = .running → ticks.length = patience)) ∨
        r = .error .interrupted ∧ k' = none ∧ k = some (ticks.length + 1)) := by
  obtain ⟨e₁, hrun, hsnap, hactive, hinput₁, h₁⟩ := h.run hh hr hstart
  by_cases hk : k = some 1
  · rw [if_pos hk] at hrun
    refine ⟨[], countdown k, e₁, .error .interrupted, ?_, h₁, ?_, Nat.zero_le _, hinput₁, Or.inr ⟨rfl, ?_, hk⟩⟩
    · rw [hrun]
      rfl
    · rw [hsnap]
      exact .nil _
    · rw [hk]
      rfl
  · rw [if_neg hk] at hrun
    obtain ⟨ticks, k', e', r, hwatch, hfilm, hticks, hlength, hinput, hend⟩ := h₁.watch (fun _ => hactive) patience
    rw [hsnap] at hticks
    refine ⟨ticks, k', e', r, ?_, hfilm, hticks, hlength, hinput.trans hinput₁, ?_⟩
    · rw [hrun, Outcome.andThen_of_ok (a := e.withStatus .running) rfl]
      exact hwatch
    · rcases hend with hend | ⟨hr, hk', hcount⟩
      · exact Or.inl hend
      · exact Or.inr ⟨hr, hk', countdown_eq_some hcount⟩

/-- an interrupt that is left for the next frame comes in the middle of the pause -/
theorem Filming.cutTwice (h : Filming n d others (some 1) qs e) (hr : e.snapshot.status = .running) {s : Shell}
    {interval : Seconds} (hi : s.interval = .ok interval)
    (hride : Live.ride s.engine interval s.interrupts.head?.join s.patience = ⟨e, .ok ()⟩) : CutTwice s := by
  obtain ⟨e', hpause, -⟩ := h.pause hr
  rw [CutTwice, hi]
  simp only [hride, hpause, true_and]
  exact ⟨hr, rfl⟩

/-- the engine that a live run ends with, with the trace of the run -/
def screened (s : Shell) (interval : Seconds) : Engine :=
  (drive s.engine interval s.interrupts.head?.join s.patience).engine

/-- what a live run shows, and what it leaves behind -/
structure Screening (s : Shell) (interval : Seconds) (d : Definition) : Prop where
  /-- the frames are those of the snapshot at the start and of all that is committed, in order -/
  frames : (Live.run s).2.1 =
    [.live ((s.engine.snapshot :: (screened s interval).commits).map fun q => s.panelOf q none)]
  reel : Reel d s.engine.snapshot s.interrupts.head?.join s.patience (screened s interval).commits
    (Live.run s).1.engine.snapshot
  near : (s.engine.snapshot :: (screened s interval).commits).IsChain Near
  /-- the last frame shows the machine as it is afterwards -/
  last : ((s.engine.snapshot :: (screened s interval).commits).map fun q => s.panelOf q none).getLast? =
    some ((Live.run s).1.panelOf (Live.run s).1.engine.snapshot none)
  result : (Live.run s).2.2 = .ok () ∨ (Live.run s).2.2 = .error .interrupted
  stopped : (Live.run s).1.engine.snapshot.status ≠ .running
  pending : (Live.run s).1.engine.ticker.pending = []
  subscribers : (Live.run s).1.engine.subscribers = s.engine.subscribers

/-- **A live run shows every snapshot that is committed, and ends on the true one.** The machine is loaded and has
neither halted nor does it run; listeners that are there already perform nothing; the timer starts; and the run is not
interrupted a second time while it is paused. The settings give at least one cell of padding, and the log takes every
entry. -/
theorem run_screening {c : Config} {loop : Bool} {disk : Disk} {clock : Clock} {room : Option ℕ}
    {journal : Option Journal} {refused : List String} {tracing : Bool} {s : Shell} {interval : Seconds}
    (hm : make c loop disk clock = .ok e) (hn : e.padding.count room = .ok n) (hpos : 1 ≤ n)
    (hl : { e with room, journal, refused, tracing }.LogsAll)
    (h : Reaches { e with room, journal, refused, tracing } s.engine) (hd : s.engine.definition = some d)
    (hh : s.engine.snapshot.halted = false) (hr : s.engine.snapshot.status ≠ .running)
    (hnew : display ∉ s.engine.subscribers)
    (hmute : ∀ x ∈ s.engine.scripts, x.1 ∈ s.engine.subscribers → ∀ r ∈ x.2, r.commands = [])
    (hi : s.interval = .ok interval)
    (hstart : (s.engine.ticker.start (interval.max s.engine.least) ()).2 = .ok ()) (hcut : ¬ CutTwice s) :
    Screening s interval d := by
  have hs₀ := sound_of_make hm hn hpos hl
  have hs := Changes.sound hs₀ (reaches_changes h hs₀)
  obtain ⟨ticks, k', e₁, r, hride, hfilm, hticks, hlength, hinput₁, hend⟩ :=
    (filming_attach hs hd hnew hmute s.interrupts.head?.join).ride hh hr hstart s.patience
  have hgoes : e₁.snapshot.status = .running → k' ≠ some 1 := by
    rintro hrun rfl
    rcases hend with ⟨rfl, -⟩ | ⟨-, hk', -⟩
    · exact hcut (hfilm.cutTwice hrun hi hride)
    · cases hk'
  obtain ⟨e₂, hfinish, hsnap, hs₂, hd₂, hinput₂, hsub, hshots, hcommits⟩ := hfilm.finish hgoes r
  have hdrive : drive s.engine interval s.interrupts.head?.join s.patience = ⟨e₂, r⟩ := by
    rw [drive_eq, Live.ride, hride, hfinish]
  have hscreened : screened s interval = e₂ := by rw [screened, hdrive]
  have hrun : Live.run s =
      ({ s with
          engine := { e₂ with tracing := s.engine.tracing, trace := s.engine.trace }
          interrupts := s.interrupts.tail },
        [.live ((s.engine.snapshot :: e₂.commits).map fun q => s.panelOf q none)], r) := by
    simp only [Live.run, hi, hdrive, hshots]
  have hreel : Reel d s.engine.snapshot s.interrupts.head?.join s.patience e₂.commits e₂.snapshot := by
    rw [hcommits, hsnap]
    refine hticks.reel hlength fun hs₁ => ?_
    rcases hend with ⟨-, hwatched⟩ | ⟨-, -, hframe⟩
    · exact Or.inl (hwatched hs₁)
    · exact Or.inr hframe
  have hpanel : ∀ q, s.panelOf q none = (Live.run s).1.panelOf q none := by
    intro q
    rw [hrun]
    simp only [Shell.panelOf, Shell.window, hd, hd₂, hinput₂.trans hinput₁]
    rfl
  refine ⟨?_, ?_, ?_, ?_, ?_, ?_, ?_, ?_⟩
  · rw [hscreened, hrun]
  · rw [hscreened, hrun]
    exact hreel
  · rw [hscreened]
    exact hreel.near
  · rw [hscreened, List.getLast?_map, List.getLast?_cons, hreel.getLast?, ← hpanel, hrun]
    rfl
  · rw [hrun]
    rcases hend with ⟨hr, -⟩ | ⟨hr, -, -⟩
    · exact Or.inl hr
    · exact Or.inr hr
  · rw [hrun]
    exact hreel.stopped
  · rw [hrun]
    exact (hs₂.still hreel.stopped).pending
  · rw [hrun]
    exact hsub

/-- a shell with a machine after its first step, with a listener that looks on, and with an interrupt at its third frame
-/
def matinee : Shell where
  config := Config.defaults
  engine := watched
  speed := .whole 5
  interrupts := [some 3]
  patience := 20

theorem matinee_screening :
    let e := ofSettings Config.defaults true {} bench.clock
    let interval : Seconds := .ofMillis (.whole 995)
    make Config.defaults true {} bench.clock = .ok e ∧ e.padding.count none = .ok 50 ∧ e.LogsAll ∧
      Reaches e matinee.engine ∧ matinee.engine.definition = some Preset.busyBeaver ∧
      matinee.engine.subscribers = ["watcher"] ∧ matinee.interval = .ok interval ∧ ¬ CutTwice matinee ∧
      (screened matinee interval).commits.map (fun q => (q.steps, q.status)) =
        [(1, .running), (2, .running), (3, .running), (3, .paused)] ∧
      Screening matinee interval Preset.busyBeaver := by
  have hm := make_defaults true {} bench.clock
  have hl : (ofSettings Config.defaults true {} bench.clock).LogsAll := logsAll_of_no_journal rfl
  have hr : Reaches (ofSettings Config.defaults true {} bench.clock) matinee.engine :=
    (Reaches.script _ (.refl _)).trans (applyAll_reaches _ _)
  have hd : matinee.engine.definition = some Preset.busyBeaver := by decide +kernel
  have hi : matinee.interval = .ok (.ofMillis (.whole 995)) := by with_unfolding_all rfl
  have hcut : ¬ CutTwice matinee := by decide +kernel
  have hmute : ∀ x ∈ matinee.engine.scripts, x.1 ∈ matinee.engine.subscribers → ∀ r ∈ x.2, r.commands = [] := by
    decide +kernel
  exact ⟨hm, rfl, hl, hr, hd, by decide +kernel, hi, hcut, by decide +kernel,
    run_screening hm rfl (by decide) hl hr hd (by decide +kernel) (by decide +kernel) (by decide +kernel) hmute hi
      (by decide +kernel) hcut⟩

/-- the same, with a listener that restarts the machine after its first step, and one that then runs it again -/
def heckled : Shell :=
  { matinee with
    engine := applyAll
      { ofSettings Config.defaults true {} bench.clock with
        scripts := [("restarter", [⟨some 1, some .running, [.restart]⟩]),
          ("runner", [⟨some 0, some .idle, [.run (.ofMillis (.whole 995))]⟩])] }
      [.load (.definition Preset.busyBeaver) none, .subscribe "restarter", .subscribe "runner"]
    interrupts := [none] }

/-- A listener that drives the machine while it is given a snapshot upsets the display behind it. The machine runs to
its halt, and the display is given the restarted machine ahead of the step that was answered by the restart. -/
theorem heckled_outOfOrder :
    let e := ofSettings Config.defaults true {} bench.clock
    let interval : Seconds := .ofMillis (.whole 995)
    Reaches e heckled.engine ∧ heckled.engine.definition = some Preset.busyBeaver ∧
      heckled.engine.snapshot.status = .idle ∧ display ∉ heckled.engine.subscribers ∧
      heckled.interval = .ok interval ∧ ¬ CutTwice heckled ∧ (Live.run heckled).2.2 = .ok () ∧
      (Live.run heckled).1.engine.snapshot.status = .accepted ∧
      ((screened heckled interval).commits.take 5).map (fun q => (q.steps, q.status)) =
        [(0, .running), (1, .running), (0, .idle), (0, .running), (1, .running)] ∧
      ((shots (screened heckled interval)).take 5).map (fun q => (q.steps, q.status)) =
        [(0, .running), (0, .running), (0, .idle), (1, .running), (1, .running)] ∧
      (Live.run heckled).2.1 ≠
        [.live ((heckled.engine.snapshot :: (screened heckled interval).commits).map fun q =>
          heckled.panelOf q none)] := by
  have hr : Reaches (ofSettings Config.defaults true {} bench.clock) heckled.engine :=
    (Reaches.script _ (.refl _)).trans (applyAll_reaches _ _)
  have hi : heckled.interval = .ok (.ofMillis (.whole 995)) := by with_unfolding_all rfl
  refine ⟨hr, by decide +kernel, by decide +kernel, by decide +kernel, hi, by decide +kernel, by decide +kernel,
    by decide +kernel, by decide +kernel, by decide +kernel, ?_⟩
  have hshown : (Live.run heckled).2.1 = [.live ((heckled.engine.snapshot ::
      shots (screened heckled (.ofMillis (.whole 995)))).map fun q => heckled.panelOf q none)] := by
    simp only [Live.run, hi]
    rfl
  intro h
  rw [hshown] at h
  have hframes := Output.live.inj (List.cons.inj h).1
  -- the third frames differ in their cards, in the steps
  have hcards := congrArg (fun frames : List Panel => frames[2]?.bind fun p => p.parts.getLast?) hframes
  revert hcards
  decide +kernel

end Live
end TapeMachine
