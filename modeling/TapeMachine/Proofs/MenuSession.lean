/-
Sessions of the menu.

A session is any sequence of answers, with live runs that halt or are interrupted at any moment, and with files that may
change between two answers (`Session`). Whatever question it waits with, the machine behind it is in order
(`session_atPrompt`): a definition that can start is loaded, the snapshot is on its trajectory, the machine does not
run, no tick is pending and nobody is subscribed.

Along with the session goes the last attempt to load a machine (`Menu.attempt?`), told by the answers alone: a preset
that there is, a definition from a file, another input, or a file that holds none. The shell has a message exactly if
that attempt was rejected, and a rejected attempt leaves the engine as it was.

Each option and each answer hands back a shell that is tidy (`Tidy`), or ends the program.
-/
import TapeMachine.Proofs.InterruptedRun
import TapeMachine.Proofs.OneShot

namespace TapeMachine

open Engine

/-! ## Attempts to load a machine -/

/-- what is tried: a definition, from a preset, a file or the machine itself, or a file that none is read from -/
inductive Attempt where
  | given (d : Definition)
  | unread (f : LoadFault)

/-- only a definition that can start is taken -/
def Attempt.Rejected : Attempt → Prop
  | .given d => ¬ d.Valid
  | .unread _ => True

namespace Menu

/-- the attempt to load the preset of an index; none when there is no such preset -/
def presetAttempt? (index : ℤ) : Option Attempt :=
  if 0 ≤ index then Preset.all[index.toNat]?.map fun p => .given p.definition else none

/-- the attempt to read a file; a definition that is read is not given yet, since its input is asked for first -/
def fileAttempt? (disk : Disk) (path : String) : Option Attempt :=
  match Definition.load disk path with
  | .ok _ => none
  | .error f => some (.unread f)

/-- the attempt that an answer makes -/
def attempt? (s : Shell) (answer : String) : Question → Option Attempt
  | .presetIndex =>
    match numberAnswer? (.whole 0) answer with
    | some (.whole i) => presetAttempt? i
    | _ => none
  | .definitionPath => fileAttempt? s.engine.disk ((typed? answer).getD "")
  | .inputFor d _ => some (.given d)
  | .newInput => s.engine.definition.map .given
  | _ => none

end Menu

/-! ## Sessions -/

/-- a dialogue of the menu, with the last attempt to load a machine. The first one is that of the first preset, before
any answer. -/
inductive Session (c : Config) (h : Host) : Dialogue → Attempt → Prop where
  | start {d : Dialogue} (hd : Simulator.interactive c h = .asking d) : Session c h d (.given Preset.first.definition)
  /-- files and time go on, and the log still takes every entry -/
  | world {d : Dialogue} {last : Attempt} (disk : Disk) (clock : Clock) (hs : Session c h d last)
      (hl : ({ d.shell.engine with disk, clock } : Engine).LogsAll) :
      Session c h { d with shell := { d.shell with engine := { d.shell.engine with disk, clock } } } last
  /-- an answer; a live run that it asks for halts or is interrupted, but not a second time while it is paused -/
  | answer {d : Dialogue} {last : Attempt} {q : Question} (a : String) (hs : Session c h d last)
      (hq : d.waiting = some q)
      (hcut : q = .choice → (Menu.typed? a).getD "4" = "5" → ¬ Live.CutTwice d.shell) :
      Session c h (d.answer a) ((Menu.attempt? d.shell a q).getD last)

/-- what holds while a question waits for an answer, with `n` cells of padding -/
structure AtPrompt (n : ℤ) (d : Dialogue) (last : Attempt) : Prop where
  loaded : ∃ m, d.shell.engine.definition = some m ∧ m.Valid ∧ d.shell.engine.table = m.table ∧
    OnTrajectory m (Snapshot.fresh m d.shell.engine.input n) d.shell.engine.snapshot
  stopped : d.shell.engine.snapshot.status ≠ .running
  pending : d.shell.engine.ticker.pending = []
  alone : d.shell.engine.subscribers = []
  error : d.shell.error.isSome = true ↔ last.Rejected
  /-- an attempt that is rejected leaves the engine as it was -/
  rejected : ∀ a q x, d.waiting = some q → Menu.attempt? d.shell a q = some x → x.Rejected →
    (d.answer a).shell.engine = d.shell.engine
  /-- so does an answer that only leads to another question, and the shell with it -/
  asked : ∀ a q, (d.answer a).waiting = some q → q ≠ .choice → (d.answer a).shell = d.shell

/-! ## Operations of an engine at rest -/

namespace Engine

variable {n : ℤ} {e : Engine}

theorem AtRest.exists_definition (h : AtRest n e) : ∃ d, e.definition = some d :=
  Option.ne_none_iff_exists'.1 h.loaded

theorem loaded_not_running (e : Engine) (d : Definition) (input : Text) (n : ℤ) :
    (e.loaded d input n).snapshot.status ≠ .running := by
  intro hr
  cases hr

/-- a definition that can start is loaded, and what was there before does not matter -/
theorem atRest_loadDefinition (hs : Sound n e) (hf : Follows n e) (ha : e.subscribers = []) {d : Definition}
    (hd : d.Valid) (input : Text) :
    ∃ e', loadDefinition Engine.notify e d input = e'.done e'.snapshot ∧ AtRest n e' :=
  (loadDefinition_handsOn Engine.notify hd hs.logs hs.room input).atRest hs hf (Option.some_ne_none d)
    (loaded_not_running e d input n) ha fun _ hrec => .load d input n hd hs.room hrec

theorem AtRest.reset (h : AtRest n e) : ∃ e', Engine.reset Engine.notify e = e'.done e'.snapshot ∧ AtRest n e' := by
  obtain ⟨d, hd⟩ := h.exists_definition
  exact (reset_handsOn Engine.notify h.sound hd).atRest h.sound h.follows (Option.some_ne_none d)
    (loaded_not_running e d "" n) h.alone fun _ hrec => .reset d n hd (h.sound.valid d hd) h.sound.room hrec

theorem AtRest.restart (h : AtRest n e) :
    ∃ e', Engine.restart Engine.notify e = e'.done e'.snapshot ∧ AtRest n e' := by
  obtain ⟨d, hd⟩ := h.exists_definition
  exact (restart_handsOn Engine.notify h.sound hd).atRest h.sound h.follows (Option.some_ne_none d)
    (loaded_not_running e d e.input n) h.alone fun _ hrec => .load d e.input n (h.sound.valid d hd) h.sound.room hrec

theorem AtRest.step (h : AtRest n e) : ∃ e', Engine.step Engine.notify e = e'.done e'.snapshot ∧ AtRest n e' := by
  cases hm : e.snapshot.status.manual with
  | false => exact ⟨e, step_of_not_manual hm, h⟩
  | true =>
    obtain ⟨q, hq, -⟩ := h.sound.next (Status.not_halted_of_manual hm)
    rw [step_of_manual hm]
    exact (advanceOnce_handsOn Engine.notify h.sound.logs hq).atRest h.sound h.follows h.loaded
      (next_not_running hq h.stopped) h.alone fun _ hrec => .step q hm hq hrec

end Engine

/-! ## Shells -/

/-- a shell with its engine at rest, and with a message if and only if the last attempt was rejected -/
structure Tidy (n : ℤ) (s : Shell) (last : Attempt) : Prop where
  engine : AtRest n s.engine
  error : s.error.isSome = true ↔ last.Rejected

section Load

variable {n : ℤ} {s : Shell} {d : Definition} {last : Attempt}

theorem Shell.load_valid (s : Shell) (hs : Sound n s.engine) (hf : Follows n s.engine) (ha : s.engine.subscribers = [])
    (hd : d.Valid) (input : Text) :
    ∃ e', s.load d input = ({ s with engine := e', error := none }, [], .ok true) ∧ AtRest n e' := by
  obtain ⟨e', heq, h'⟩ := atRest_loadDefinition hs hf ha hd input
  refine ⟨e', ?_, h'⟩
  simp only [Shell.load, heq, done]

theorem Shell.load_invalid (s : Shell) (hd : ¬ d.Valid) (input : Text) :
    ∃ f : DefinitionFault, s.load d input =
      ({ s with error := some f.message }, [.trouble (.engine (.definition f))], .ok false) := by
  cases hv : d.validate with
  | ok u => exact absurd (d.validate_ok_iff.1 hv) hd
  | error f =>
    refine ⟨f, ?_⟩
    simp only [Shell.load, loadDefinition, hv, fault]

end Load

/-! ## Turns -/

namespace Menu

variable {n : ℤ} {s : Shell} {d : Definition} {last : Attempt}

/-- what is done once a definition is taken leaves the engine and the message alone -/
def Harmless (taken : Shell → Shell × List Output) : Prop :=
  ∀ s, (taken s).1.engine = s.engine ∧ (taken s).1.error = s.error

theorem loading_tidy (h : AtRest n s.engine) {taken : Shell → Shell × List Output} (ht : Harmless taken)
    (input : Text) : Tidy n (loading s d input taken).shell (.given d) := by
  by_cases hd : d.Valid
  · obtain ⟨e', heq, h'⟩ := Shell.load_valid s h.sound h.follows h.alone hd input
    obtain ⟨hengine, herror⟩ := ht { s with engine := e', error := none }
    rw [loading, heq]
    refine ⟨?_, ?_⟩
    · simp only
      rw [hengine]
      exact h'
    · simp only
      rw [herror]
      exact iff_of_false Bool.false_ne_true (not_not.2 hd)
  · obtain ⟨f, heq⟩ := Shell.load_invalid s hd input
    rw [loading, heq]
    exact ⟨h, iff_of_true rfl hd⟩

theorem loading_rejected (hd : ¬ d.Valid) (input : Text) (taken : Shell → Shell × List Output) :
    (loading s d input taken).shell.engine = s.engine := by
  obtain ⟨f, heq⟩ := Shell.load_invalid s hd input
  rw [loading, heq]

theorem operate_tidy (h : Tidy n s last) {op : Engine → Outcome Snapshot}
    (hop : ∃ e', op s.engine = e'.done e'.snapshot ∧ AtRest n e') : Tidy n (operate s op).shell last := by
  obtain ⟨e', heq, h'⟩ := hop
  rw [operate, heq]
  exact ⟨h', h.error⟩

theorem step_tidy (h : Tidy n s last) : Tidy n (step s).shell last := by
  unfold step
  split_ifs
  · exact h
  · exact h
  · exact operate_tidy h h.engine.step

theorem run_tidy (h : Tidy n s last) (hcut : ¬ Live.CutTwice s) : Tidy n (run s).shell last := by
  unfold run
  split_ifs
  · exact h
  · exact h
  · cases hi : s.interval with
    | error f => exact h
    | ok i =>
      obtain ⟨e', shown, r, heq, h'⟩ := Live.atRest_runOrPause h.engine hcut hi
      have htidy : Tidy n { s with engine := e', interrupts := s.interrupts.tail } last := ⟨h', h.error⟩
      simp only [heq]
      cases r with
      | error f => exact htidy
      | ok b =>
        cases b with
        | true => exact htidy
        | false => exact htidy

theorem option?_tidy (h : Tidy n s last) {x : String} (hcut : x = "5" → ¬ Live.CutTwice s) {t : Turn}
    (ht : option? s x = some t) : Tidy n t.shell last := by
  unfold option? at ht
  split at ht
  all_goals first
    | obtain rfl := Option.some.inj ht
    | cases ht
  · exact h
  · exact h
  · exact h
  · unfold setInput
    split_ifs
    · exact h
    · exact h
  · exact step_tidy h
  · exact run_tidy h (hcut rfl)
  · exact operate_tidy h h.engine.reset
  · exact operate_tidy h h.engine.restart
  · exact h
  · exact h

/-- an index beyond the presets loads nothing -/
theorem choosePreset_tidy (h : Tidy n s last) (i : ℤ) :
    Tidy n (choosePreset s i).shell ((presetAttempt? i).getD last) := by
  unfold choosePreset presetAttempt?
  split_ifs
  · cases Preset.all[i.toNat]? with
    | none => exact h
    | some p => exact loading_tidy h.engine (fun s => ⟨rfl, rfl⟩) p.input
  · exact h

theorem setSpeed_tidy (h : Tidy n s last) (speed : Number) : Tidy n (setSpeed s speed).shell last := by
  have hset : Tidy n { s with speed := clampSpeed speed } last := ⟨h.engine, h.error⟩
  cases hi : ({ s with speed := clampSpeed speed } : Shell).interval with
  | ok i =>
    simp only [setSpeed, hi]
    exact hset
  | error f =>
    simp only [setSpeed, hi]
    exact hset

theorem changeInput_tidy (h : Tidy n s last) (input : Text) :
    Tidy n (changeInput s input).shell ((s.engine.definition.map Attempt.given).getD last) := by
  obtain ⟨d, hd⟩ := h.engine.exists_definition
  rw [changeInput, hd]
  exact loading_tidy h.engine (fun s => ⟨rfl, rfl⟩) input

/-- a file that no definition is read from leaves a message, or ends the program -/
theorem readDefinition_tidy (h : Tidy n s last) (path : String) :
    (∃ f, (readDefinition s path).next = .failed f) ∨
      Tidy n (readDefinition s path).shell ((fileAttempt? s.engine.disk path).getD last) := by
  unfold readDefinition fileAttempt?
  cases Definition.load s.engine.disk path with
  | ok d => exact Or.inr h
  | error f =>
    simp only
    split_ifs
    · exact Or.inr ⟨h.engine, iff_of_true rfl trivial⟩
    · exact Or.inl ⟨_, rfl⟩

/-- **An answer leaves a tidy shell**, unless the program ends with it. -/
theorem answer?_tidy (h : Tidy n s last) {a : String} {q : Question}
    (hcut : q = .choice → (typed? a).getD "4" = "5" → ¬ Live.CutTwice s) {t : Turn} (ht : answer? s a q = some t) :
    (∃ f, t.next = .failed f) ∨ Tidy n t.shell ((attempt? s a q).getD last) := by
  cases q with
  | choice => exact Or.inr (option?_tidy h (hcut rfl) ht)
  | presetIndex =>
    obtain ⟨i, hi, rfl⟩ := Option.map_eq_some_iff.1 ht
    simp only [attempt?, hi]
    cases i with
    | whole i => exact Or.inr (choosePreset_tidy h i)
    | real x => exact Or.inr h
  | definitionPath =>
    obtain rfl := Option.some.inj ht
    exact readDefinition_tidy h _
  | inputFor d path =>
    obtain rfl := Option.some.inj ht
    exact Or.inr (loading_tidy h.engine (fun s => ⟨rfl, rfl⟩) _)
  | newInput =>
    obtain rfl := Option.some.inj ht
    exact Or.inr (changeInput_tidy h _)
  | speed =>
    obtain ⟨speed, -, rfl⟩ := Option.map_eq_some_iff.1 ht
    exact Or.inr (setSpeed_tidy h speed)

/-! ### Rejected attempts, and answers that lead to a question -/

theorem choosePreset_rejected {i : ℤ} {x : Attempt} (hx : presetAttempt? i = some x) (hr : x.Rejected) :
    (choosePreset s i).shell.engine = s.engine := by
  unfold presetAttempt? at hx
  split_ifs at hx with hi
  obtain ⟨p, hp, rfl⟩ := Option.map_eq_some_iff.1 hx
  simp only [choosePreset, if_pos hi, hp]
  exact loading_rejected hr _ _

theorem readDefinition_engine (s : Shell) (path : String) : (readDefinition s path).shell.engine = s.engine := by
  unfold readDefinition
  split
  · rfl
  · split_ifs
    · rfl
    · rfl

/-- **An attempt that is rejected leaves the engine as it was.** -/
theorem answer?_rejected {a : String} {q : Question} {t : Turn} {x : Attempt} (ht : answer? s a q = some t)
    (hx : attempt? s a q = some x) (hr : x.Rejected) : t.shell.engine = s.engine := by
  cases q with
  | choice => cases hx
  | presetIndex =>
    obtain ⟨i, hi, rfl⟩ := Option.map_eq_some_iff.1 ht
    simp only [attempt?, hi] at hx
    cases i with
    | whole i => exact choosePreset_rejected hx hr
    | real y => cases hx
  | definitionPath =>
    obtain rfl := Option.some.inj ht
    exact readDefinition_engine s _
  | inputFor d path =>
    obtain rfl := Option.some.inj ht
    obtain rfl := Option.some.inj hx
    exact loading_rejected hr _ _
  | newInput =>
    obtain rfl := Option.some.inj ht
    obtain ⟨d, hd, rfl⟩ := Option.map_eq_some_iff.1 hx
    simp only [changeInput, hd]
    exact loading_rejected hr _ _
  | speed => cases hx

/-- a turn that asks a question, and not for a choice, leaves the shell alone -/
def Asks (s : Shell) (t : Turn) : Prop := ∀ q, t.next = .ask q → t.shell = s

theorem loading_asks (s : Shell) (d : Definition) (input : Text) (taken : Shell → Shell × List Output) :
    Asks s (loading s d input taken) := by
  intro q hq
  unfold loading at hq
  split at hq
  · cases hq
  · cases hq
  · cases hq

theorem operate_asks (s : Shell) (op : Engine → Outcome Snapshot) : Asks s (operate s op) := by
  intro q hq
  unfold operate at hq
  simp only at hq
  split at hq
  · cases hq
  · cases hq

theorem step_asks (s : Shell) : Asks s (step s) := by
  unfold step
  split_ifs
  · exact fun _ _ => rfl
  · exact fun _ _ => rfl
  · exact operate_asks s _

theorem run_asks (s : Shell) : Asks s (run s) := by
  unfold run
  split_ifs
  · exact fun _ _ => rfl
  · exact fun _ _ => rfl
  · intro q hq
    split at hq
    · cases hq
    · split at hq
      · cases hq
      · cases hq
      · cases hq

theorem option?_asks {x : String} {t : Turn} (ht : option? s x = some t) : Asks s t := by
  unfold option? at ht
  split at ht
  all_goals first
    | obtain rfl := Option.some.inj ht
    | cases ht
  · exact fun _ _ => rfl
  · exact fun _ _ => rfl
  · exact fun _ _ => rfl
  · unfold setInput
    split_ifs
    · exact fun _ _ => rfl
    · exact fun _ _ => rfl
  · exact step_asks s
  · exact run_asks s
  · exact operate_asks s _
  · exact operate_asks s _
  · exact fun _ _ => rfl
  · exact fun _ _ => rfl

theorem choosePreset_asks (s : Shell) (i : ℤ) : Asks s (choosePreset s i) := by
  unfold choosePreset
  split
  · exact fun _ _ => rfl
  · exact loading_asks s _ _ _

theorem readDefinition_asks (s : Shell) (path : String) : Asks s (readDefinition s path) := by
  unfold readDefinition
  split
  · exact fun _ _ => rfl
  · intro q hq
    split_ifs at hq

theorem changeInput_asks (s : Shell) (input : Text) : Asks s (changeInput s input) := by
  unfold changeInput
  split
  · exact loading_asks s _ _ _
  · exact fun _ _ => rfl

theorem setSpeed_asks (s : Shell) (speed : Number) : Asks s (setSpeed s speed) := by
  intro q hq
  unfold setSpeed at hq
  simp only at hq
  split at hq
  · cases hq
  · cases hq

theorem answer?_asks {a : String} {q : Question} {t : Turn} (ht : answer? s a q = some t) : Asks s t := by
  cases q with
  | choice => exact option?_asks ht
  | presetIndex =>
    obtain ⟨i, -, rfl⟩ := Option.map_eq_some_iff.1 ht
    cases i with
    | whole i => exact choosePreset_asks s i
    | real x => exact choosePreset_asks s (-1)
  | definitionPath =>
    obtain rfl := Option.some.inj ht
    exact readDefinition_asks s _
  | inputFor d path =>
    obtain rfl := Option.some.inj ht
    exact loading_asks s d _ _
  | newInput =>
    obtain rfl := Option.some.inj ht
    exact changeInput_asks s _
  | speed =>
    obtain ⟨speed, -, rfl⟩ := Option.map_eq_some_iff.1 ht
    exact setSpeed_asks s speed

end Menu

/-! ## Dialogues -/

namespace Dialogue

variable {d : Dialogue} {t : Turn} {q : Question}

/-- a dialogue that is over because the console could not show an output -/
structure CutOff (c : Console) (d : Dialogue) : Prop where
  waiting : d.waiting = none
  unshown : ∃ o, d.unshown = some o ∧ c.shows o = false

/-- all can be shown, or the dialogue is cut off -/
theorem display_cases (d : Dialogue) :
    (d.display = d ∧ ∀ o ∈ d.shown, d.console.shows o = true) ∨ d.display.CutOff d.console := by
  unfold display
  cases ho : d.shown.find? fun o => !d.console.shows o with
  | none =>
    refine Or.inl ⟨rfl, fun o hmem => ?_⟩
    simpa using List.find?_eq_none.1 ho o hmem
  | some o => exact Or.inr ⟨rfl, o, rfl, by simpa using List.find?_some ho⟩

/-- a dialogue that still waits has shown everything -/
theorem display_eq (h : d.display.waiting = some q) : d.display = d ∧ ∀ o ∈ d.shown, d.console.shows o = true := by
  refine d.display_cases.resolve_right fun hcut => ?_
  rw [hcut.waiting] at h
  cases h

theorem display_shell (d : Dialogue) : d.display.shell = d.shell := by
  unfold display
  split
  · rfl
  · rfl

theorem take_shell (d : Dialogue) (t : Turn) : (d.take t).shell = t.shell := by
  unfold take
  simp only
  split
  · split_ifs
    · rfl
    · rfl
  · rfl
  · rfl
  · rfl

theorem follow_shell (d : Dialogue) (t : Turn) : (d.follow t).shell = t.shell :=
  (d.take t).display_shell.trans (d.take_shell t)

/-- a question comes after a turn that does not end the program, and asks it unless it is back at the choice -/
theorem follow_waiting (h : (d.follow t).waiting = some q) :
    (∀ f, t.next ≠ .failed f) ∧ (q ≠ .choice → t.next = .ask q) := by
  rw [follow, (display_eq h).1] at h
  unfold take at h
  cases hn : t.next with
  | back =>
    refine ⟨?_, fun hq => ?_⟩
    · intro f hf
      cases hf
    · simp only [hn] at h
      split_ifs at h
      exact absurd (Option.some.inj h).symm hq
  | ask q' =>
    refine ⟨?_, fun _ => ?_⟩
    · intro f hf
      cases hf
    · simp only [hn] at h
      rw [Option.some.inj h]
  | leave =>
    simp only [hn] at h
    cases h
  | failed f =>
    simp only [hn] at h
    cases h

/-- an answer is taken up, or turned down -/
theorem answer_cases (hq : d.waiting = some q) (a : String) :
    (∃ t, Menu.answer? d.shell a q = some t ∧ d.answer a = d.follow t) ∨
      (Menu.answer? d.shell a q = none ∧ (d.answer a).shell = d.shell) := by
  cases ht : Menu.answer? d.shell a q with
  | some t =>
    refine Or.inl ⟨t, rfl, ?_⟩
    simp only [answer, hq, ht]
  | none =>
    refine Or.inr ⟨rfl, ?_⟩
    simp only [answer, hq, ht, display_shell]

/-- an answer that is turned down makes no attempt -/
theorem attempt?_of_invalid {s : Shell} {a : String} (h : Menu.answer? s a q = none) : Menu.attempt? s a q = none := by
  cases q with
  | choice => rfl
  | presetIndex =>
    have hn : Menu.numberAnswer? (.whole 0) a = none := Option.map_eq_none_iff.1 h
    simp only [Menu.attempt?, hn]
  | definitionPath => cases h
  | inputFor d path => cases h
  | newInput => cases h
  | speed => rfl

end Dialogue

/-! ## The law of the menu -/

namespace Session

variable {c : Config} {h : Host} {d : Dialogue} {last : Attempt} {q : Question} {n : ℤ}

/-- an answer keeps the shell tidy -/
theorem tidy_answer (htidy : Tidy n d.shell last) (hq : d.waiting = some q) (a : String)
    (hcut : q = .choice → (Menu.typed? a).getD "4" = "5" → ¬ Live.CutTwice d.shell) {q' : Question}
    (hq' : (d.answer a).waiting = some q') : Tidy n (d.answer a).shell ((Menu.attempt? d.shell a q).getD last) := by
  rcases d.answer_cases hq a with ⟨t, ht, heq⟩ | ⟨ht, hshell⟩
  · rw [heq] at hq' ⊢
    rw [Dialogue.follow_shell]
    refine (Menu.answer?_tidy htidy hcut ht).resolve_left ?_
    rintro ⟨f, hf⟩
    exact (Dialogue.follow_waiting hq').1 f hf
  · rw [hshell, Dialogue.attempt?_of_invalid ht]
    exact htidy

theorem makeEngine_cases {e : Engine} (hm : Shell.makeEngine c h = .ok e) :
    ∃ journal disk e₀, Engine.make c true disk h.clock = .ok e₀ ∧ e = { e₀ with journal, room := h.room } := by
  unfold Shell.makeEngine at hm
  cases hj : Shell.makeJournal c h with
  | error f =>
    rw [hj] at hm
    cases hm
  | ok p =>
    obtain ⟨journal, disk⟩ := p
    cases hmake : Engine.make c true disk h.clock with
    | error f =>
      simp only [hj, hmake, Except.mapError, bind, Except.bind] at hm
      cases hm
    | ok e₀ =>
      simp only [hj, hmake, Except.mapError, bind, Except.bind, pure, Except.pure] at hm
      exact ⟨journal, disk, e₀, hmake, (Except.ok.inj hm).symm⟩

theorem valid_first : Preset.first.definition.Valid := Preset.first.definition.validate_ok_iff.1 (by decide +kernel)

/-- an engine that can load the first preset has room for its padding -/
theorem sound_of_load (hc : c.validate = .ok ()) (hl : ∀ e, Shell.makeEngine c h = .ok e → e.LogsAll) {e : Engine}
    (hm : Shell.makeEngine c h = .ok e)
    (hload : ∀ f, (loadDefinition Engine.notify e Preset.first.definition Preset.first.input).result ≠
      .error (.operand f)) :
    Sound (c.intAt "tape_buffer") e ∧ Follows (c.intAt "tape_buffer") e ∧ e.subscribers = [] := by
  have hlog := hl e hm
  obtain ⟨journal, disk, e₀, hmake, rfl⟩ := makeEngine_cases hm
  have hc' := c.validate_eq_ok_iff.1 hc
  obtain rfl := eq_ofSettings hc' hmake
  rcases Simulator.count_cells h.room (c.intAt "tape_buffer") with hroom | ⟨f, hf⟩
  · refine ⟨(prepared_of_make hc' hmake hroom hlog).sound, ?_, rfl⟩
    intro d hd
    cases hd
  · exact absurd (Simulator.loadDefinition_of_no_room Engine.notify valid_first hf Preset.first.input) (hload f)

/-- the menu starts with the first preset -/
theorem tidy_start (hc : c.validate = .ok ()) (hl : ∀ e, Shell.makeEngine c h = .ok e → e.LogsAll)
    (hd : Simulator.interactive c h = .asking d) :
    Tidy (c.intAt "tape_buffer") d.shell (.given Preset.first.definition) := by
  unfold Simulator.interactive Shell.make at hd
  cases hm : Shell.makeEngine c h with
  | error f =>
    rw [hm] at hd
    cases hd
  | ok e =>
    simp only [hm, bind, Except.bind, pure, Except.pure] at hd
    have hload : ∀ f, (loadDefinition Engine.notify e Preset.first.definition Preset.first.input).result ≠
        .error (.operand f) := by
      intro f hf
      simp only [Shell.load, hf] at hd
      cases hd
    obtain ⟨hs, hf, ha⟩ := sound_of_load hc hl hm hload
    obtain ⟨e', heq, h'⟩ := Shell.load_valid
      ⟨c, e, .whole (c.intAt "default_speed"), none, none, h.interrupts, h.patience⟩ hs hf ha valid_first
      Preset.first.input
    rw [heq] at hd
    obtain rfl := Progress.asking.inj hd
    rw [Dialogue.start, Dialogue.follow_shell]
    exact ⟨h', iff_of_false Bool.false_ne_true (not_not.2 valid_first)⟩

/-- **While a question waits for an answer the shell is tidy.** -/
theorem tidy (hc : c.validate = .ok ()) (hl : ∀ e, Shell.makeEngine c h = .ok e → e.LogsAll) (hs : Session c h d last)
    (hq : d.waiting = some q) : Tidy (c.intAt "tape_buffer") d.shell last := by
  induction hs generalizing q with
  | start hd => exact tidy_start hc hl hd
  | world disk clock _ hlog ih =>
    have htidy := ih hq
    exact ⟨⟨⟨{ htidy.engine.sound with logs := hlog }, htidy.engine.follows, htidy.engine.loaded⟩,
      htidy.engine.stopped, htidy.engine.alone⟩, htidy.error⟩
  | answer a _ hq' hcut ih => exact tidy_answer (ih hq') hq' a hcut hq

end Session

theorem Tidy.atPrompt {n : ℤ} {d : Dialogue} {last : Attempt} (h : Tidy n d.shell last) : AtPrompt n d last where
  loaded := by
    obtain ⟨m, hm⟩ := h.engine.exists_definition
    exact ⟨m, hm, h.engine.sound.valid m hm, h.engine.follows m hm⟩
  stopped := h.engine.stopped
  pending := h.engine.pending
  alone := h.engine.alone
  error := h.error
  rejected := by
    intro a q x hq hx hr
    rcases d.answer_cases hq a with ⟨t, ht, heq⟩ | ⟨-, hshell⟩
    · rw [heq, Dialogue.follow_shell]
      exact Menu.answer?_rejected ht hx hr
    · rw [hshell]
  asked := by
    intro a q hq hne
    cases hw : d.waiting with
    | none => rw [Dialogue.answer, hw]
    | some q' =>
      rcases d.answer_cases hw a with ⟨t, ht, heq⟩ | ⟨-, hshell⟩
      · rw [heq] at hq ⊢
        rw [Dialogue.follow_shell]
        exact Menu.answer?_asks ht q ((Dialogue.follow_waiting hq).2 hne)
      · exact hshell

/-- **Whatever the menu waits for, the machine behind it is in order**, after any answers, files and live runs, as long
as the log takes every entry. -/
theorem session_atPrompt {c : Config} {h : Host} {d : Dialogue} {last : Attempt} {q : Question}
    (hc : c.validate = .ok ()) (hl : ∀ e, Shell.makeEngine c h = .ok e → e.LogsAll) (hs : Session c h d last)
    (hq : d.waiting = some q) : AtPrompt (c.intAt "tape_buffer") d last :=
  (hs.tidy hc hl hq).atPrompt

/-! ## A session -/

namespace Session

open Simulator

/-- a host on which the first live run is interrupted at its third frame -/
def evening : Host := { host 20 with interrupts := [some 3] }

/-- the dialogue that a program waits with -/
def waiting? : Progress → Option Dialogue
  | .asking d => some d
  | .finished _ => none

def opening : Dialogue := (waiting? (interactive (settingsWith 1000) evening)).get (by decide +kernel)

/-- after a live run that is interrupted -/
def paused : Dialogue := opening.answer "5"

/-- the same, now that there is a file that holds no definition -/
def spoilt : Dialogue :=
  { paused with shell := { paused.shell with engine := { paused.shell.engine with
      disk := { files := [(["list.json"], .text "[]")] } } } }

/-- it asks for the path of a definition -/
theorem asked_session : Session (settingsWith 1000) evening (spoilt.answer "2") (.given Preset.first.definition) := by
  have hopening : Session (settingsWith 1000) evening opening (.given Preset.first.definition) :=
    .start (by with_unfolding_all rfl)
  have hpaused : Session (settingsWith 1000) evening paused (.given Preset.first.definition) :=
    hopening.answer (q := .choice) "5" (by with_unfolding_all rfl) fun _ _ => by decide +kernel
  have hspoilt : Session (settingsWith 1000) evening spoilt (.given Preset.first.definition) :=
    hpaused.world _ _ (logsAll_of_no_journal (by decide +kernel))
  exact hspoilt.answer (q := .choice) "2" (by with_unfolding_all rfl) fun _ h => absurd h (by decide +kernel)

/-- after an attempt to load it -/
def misread : Dialogue := (spoilt.answer "2").answer "list.json"

theorem logsAll_evening : ∀ e, Shell.makeEngine (settingsWith 1000) evening = .ok e → e.LogsAll := by
  obtain ⟨-, -, -, hl⟩ := logs_settingsWith evening
  exact hl

theorem misread_atPrompt :
    let c := settingsWith 1000
    let last : Attempt := .unread (.definition (.notMapping "list"))
    c.validate = .ok () ∧ (∀ e, Shell.makeEngine c evening = .ok e → e.LogsAll) ∧ Session c evening misread last ∧
      misread.waiting = some .choice ∧ misread.shell.engine.snapshot.steps = 2 ∧
      misread.shell.engine.snapshot.status = .paused ∧ AtPrompt 1 misread last := by
  have hlast : Menu.attempt? (spoilt.answer "2").shell "list.json" .definitionPath =
      some (.unread (.definition (.notMapping "list"))) := by
    with_unfolding_all rfl
  have hmisread : Session (settingsWith 1000) evening misread (.unread (.definition (.notMapping "list"))) := by
    have hs := asked_session.answer (q := .definitionPath) "list.json" (by with_unfolding_all rfl) fun h => by cases h
    rw [hlast] at hs
    exact hs
  have hwaiting : misread.waiting = some .choice := by with_unfolding_all rfl
  exact ⟨validate_settingsWith, logsAll_evening, hmisread, hwaiting, by decide +kernel, by decide +kernel,
    session_atPrompt validate_settingsWith logsAll_evening hmisread hwaiting⟩

end Session
end TapeMachine
