/-
Loads of a machine that can be reached.

What is given to load is a definition, or an object that describes one (`Offer`). A definition that can start comes of
it or not, and there is nothing in between (`reaches_loads`). If none does, the load fails with a definition fault, and
the engine is left as it was: machine, timer, listeners, log and trace. The fault is a refusal, unless something in the
object names a state, a symbol or a move and cannot be shown. If one does, the load comes to an engine in
which nothing is left of the machine before (`Anew`), hands the new snapshot to the listeners, and fails only if they
do. With listeners that only look on, that engine is the one at the end.

This holds whatever the machine did before, also while a tick is pending, and whatever the log took or refused then, as
long as it takes the entries of this load.

Three things can come in between (`load_overtaken`). A listener that calls the engine as soon as it is given the new
snapshot has driven the machine on before the load returns. A padding that is no whole number ends the load with
another fault, when the definition is replaced already. And a state that cannot be shown ends it with a fault that is no
refusal.
-/
import TapeMachine.Proofs.BrokenOff
import TapeMachine.Proofs.Driving
import TapeMachine.Proofs.Grammatical

namespace TapeMachine

/-- what is given to load; an object is given where there is room for values so many levels inside one another -/
inductive Offer where
  | definition (d : Definition)
  | object (fields : Fields) (room : ℕ)

namespace Offer

def source : Offer → Source
  | .definition d => .definition d
  | .object fs room => .data fs room

/-- the definition that is given, or that the object describes -/
def read : Offer → Except DefinitionFault Definition
  | .definition d => .ok d
  | .object fs room => Definition.ofJson (.object fs) room

/-- a definition that can start comes of it -/
def Gives (o : Offer) (d : Definition) : Prop := o.read = .ok d ∧ d.Valid

/-- all that names a state, a symbol or a move can be shown -/
def Shown : Offer → Prop
  | .definition _ => True
  | .object fs room => AllShown (Definition.Named (.object fs)) room

theorem Shown.isRefusal {o : Offer} (h : o.Shown) {f : DefinitionFault} (hf : o.read = .error f) :
    f.isRefusal = true := by
  cases o with
  | definition d => cases hf
  | object fs room =>
    obtain ⟨d, hd, -⟩ | ⟨f', hf', hflaw, -⟩ | ⟨f', -, hun⟩ := Definition.ofJson_cases (.object fs) room
    · exact absurd (hd.symm.trans hf) nofun
    · obtain rfl := Except.error.inj (hf.symm.trans hf')
      exact hflaw.isRefusal
    · exact absurd hun (AllShown.not_unshown h)

theorem Gives.shown {o : Offer} {d : Definition} (h : o.Gives d) : o.Shown := by
  cases o with
  | definition d => trivial
  | object fs room =>
    have hread := Definition.ofJson_yields (.object fs) room
    rw [show Definition.ofJson (.object fs) room = .ok d from h.1] at hread
    exact hread.1

end Offer

namespace Engine

variable {n : ℤ} {e e' : Engine} {notify : Engine → Snapshot → Outcome Unit}

theorem resolve_source (o : Offer) : resolve o.source = o.read.mapError .definition := by
  cases o with
  | definition d => rfl
  | object fs room => rfl

/-! ## The padding of a machine that can be reached -/

theorem Touch.padding (h : Touch e e') : e'.padding = e.padding ∧ e'.room = e.room := by
  cases h <;> exact ⟨rfl, rfl⟩

/-- nothing touches the padding, nor the room for it -/
theorem Touches.padding (h : Touches e e') : e'.padding = e.padding ∧ e'.room = e.room := by
  induction h with
  | refl => exact ⟨rfl, rfl⟩
  | tail _ ht ih => exact ⟨ht.padding.1.trans ih.1, ht.padding.2.trans ih.2⟩

/-! ## One load -/

/-- a machine just loaded, idle at the start of its tape and with no tick pending; of the engine before the load it has
the listeners alone -/
structure Anew (p : Padding) (n : ℤ) (d : Definition) (input : Text) (e e' : Engine) : Prop where
  machine : e'.machine = ⟨some d, d.table, input, { Snapshot.fresh d input n with truthHead := p.isTruth }⟩
  pending : e'.ticker.pending = []
  stopped : e'.isRunning = false
  subscribers : e'.subscribers = e.subscribers

/-- an operation that ends with such a machine -/
def Afresh (p : Padding) (n : ℤ) (d : Definition) (input : Text) (e : Engine) (o : Outcome Snapshot) : Prop :=
  ∃ e', Anew p n d input e e' ∧ o = e'.done e'.snapshot

/-- what a load does, with `n` cells of padding -/
structure Loads (p : Padding) (n : ℤ) (e : Engine) : Prop where
  /-- the engine is the same as before -/
  rejected : ∀ notify o input, (∀ d, ¬ Offer.Gives o d) →
    ∃ f, load notify e o.source input = e.fault (.definition f) ∧ (o.Shown → f.isRefusal = true)
  /-- and this is what becomes of what cannot be shown -/
  unshown : ∀ o, ¬ Offer.Shown o → ∀ d, ¬ o.Gives d
  accepted : ∀ notify o d input, Offer.Gives o d →
    ∃ e₁, Anew p n d input e e₁ ∧ load notify e o.source input = (notify e₁ e₁.snapshot).map fun _ => e₁.snapshot
  /-- as long as the listeners take the new snapshot -/
  succeeds_iff : ∀ notify o input, (∀ d e₁, Anew p n d input e e₁ → (notify e₁ e₁.snapshot).Succeeds) →
    ((load notify e o.source input).Succeeds ↔ ∃ d, Offer.Gives o d)
  /-- before listeners that only look on -/
  returned : ∀ K notify o d input, Watches K notify → K e.subscribers e.scripts → Offer.Gives o d →
    Afresh p n d input e (load notify e o.source input)

section Load

variable {o : Offer} {d : Definition} {input : Text}

theorem load_rejected (notify : Engine → Snapshot → Outcome Unit) (e : Engine) (input : Text)
    (h : ∀ d, ¬ o.Gives d) :
    ∃ f, load notify e o.source input = e.fault (.definition f) ∧ (o.Shown → f.isRefusal = true) := by
  cases hr : o.read with
  | error f =>
    refine ⟨f, ?_, fun hs => hs.isRefusal hr⟩
    rw [load, resolve_source, hr]
    rfl
  | ok d =>
    cases hv : d.validate with
    | error f =>
      refine ⟨f, ?_, fun _ => Definition.isRefusal_of_validate hv⟩
      rw [load, resolve_source, hr]
      simp only [Except.mapError, loadDefinition, hv]
    | ok u => exact absurd ⟨hr, d.validate_ok_iff.1 hv⟩ (h d)

/-- up to its records, the engine before the listeners is a loaded one -/
theorem load_accepted (notify : Engine → Snapshot → Outcome Unit) (input : Text) (hg : o.Gives d) (ho : Equipped e)
    (hl : e.LogsAll) (hn : e.padding.count e.room = .ok n) :
    ∃ e₁, Anew e.padding n d input e e₁ ∧ e₁.scripts = e.scripts ∧
      load notify e o.source input = (notify e₁ e₁.snapshot).map fun _ => e₁.snapshot := by
  obtain ⟨e₁, hrec, heq⟩ := loadDefinition_handsOn notify hg.2 hl hn input
  have hload : load notify e o.source input = loadDefinition notify e d input := by
    rw [load, resolve_source, hg.1]
    rfl
  have hframe : e₁.ticker = e.ticker.cancel ∧ e₁.subscribers = e.subscribers ∧ e₁.scripts = e.scripts := by
    obtain ⟨j, disk, -, rfl⟩ := hrec.eq
    exact ⟨rfl, rfl, rfl⟩
  obtain ⟨hticker, hsubscribers, hscripts⟩ := hframe
  refine ⟨e₁, ⟨hrec.machine, ?_, ?_, hsubscribers⟩, hscripts, ?_⟩
  · rw [hticker]
    exact ho.owned.cancel_pending
  · rw [isRunning, hticker]
    exact e.ticker.cancel_active
  · rw [hload, heq, hrec.snapshot]

/-- the record that a listener keeps is no part of the machine -/
theorem Anew.watched {p : Padding} {e₁ : Engine} (h : Anew p n d input e e₁) (t : List Note)
    (l : List (String × List Reaction)) : Anew p n d input e { e₁ with trace := t, scripts := l } :=
  ⟨h.machine, h.pending, h.stopped, h.subscribers⟩

theorem Equipped.loads (ho : Equipped e) (hl : e.LogsAll) (hn : e.padding.count e.room = .ok n) :
    Loads e.padding n e where
  rejected := fun notify _ input h => load_rejected notify e input h
  unshown := fun _ hno _ hg => hno hg.shown
  accepted := by
    intro notify o d input hg
    obtain ⟨e₁, hnew, -, heq⟩ := load_accepted notify input hg ho hl hn
    exact ⟨e₁, hnew, heq⟩
  succeeds_iff := by
    intro notify o input hlisten
    constructor
    · rintro ⟨q, hq⟩
      by_contra hnone
      obtain ⟨f, hf, -⟩ := load_rejected notify e input (not_exists.1 hnone)
      rw [hf] at hq
      cases hq
    · rintro ⟨d, hg⟩
      obtain ⟨e₁, hnew, -, heq⟩ := load_accepted notify input hg ho hl hn
      rw [heq]
      exact (hlisten d e₁ hnew).map _
  returned := by
    intro K notify o d input hw hk hg
    obtain ⟨e₁, hnew, hscripts, heq⟩ := load_accepted notify input hg ho hl hn
    rw [← hnew.subscribers, ← hscripts] at hk
    obtain ⟨t, l, -, hnotify⟩ := hw e₁ e₁.snapshot hk
    refine ⟨_, hnew.watched t l, ?_⟩
    rw [heq, hnotify]
    rfl

end Load

/-- **A load is all or nothing**, on every machine that can be reached: what is no definition that can start leaves the
engine as it was, and a definition that can start leaves nothing of the machine that was there. -/
theorem reaches_loads {c : Config} {loop : Bool} {disk : Disk} {clock : Clock} {room : Option ℕ}
    {journal : Option Journal} {refused : List String} {tracing : Bool} (hm : make c loop disk clock = .ok e)
    (hn : e.padding.count room = .ok n) (h : ReachesAnyLog { e with room, journal, refused, tracing } e')
    (hl : e'.LogsAll) : Loads e.padding n e' := by
  have hnew : Equipped { e with room, journal, refused, tracing } := by
    obtain ⟨padding, least, v, -, -, rfl⟩ := make_eq hm
    refine ⟨rfl, ?_⟩
    intro d hd
    cases hd
  obtain ⟨hpadding, hroom⟩ := h.touches.padding
  have hn' : e'.padding.count e'.room = .ok n := by
    rw [hpadding, hroom]
    exact hn
  have hloads := (h.touches.equipped hnew).loads hl hn'
  rw [hpadding] at hloads
  exact hloads

/-- a machine that runs, with a tick pending -/
def underway : Engine := bench.applyAll [.load (.definition Preset.busyBeaver) none, .run (.given (.whole 1))]

theorem underway_loads :
    let e : Engine := { bench with tracing := false }
    make benchSettings true {} bench.clock = .ok e ∧ e.padding.count bench.room = .ok 1 ∧
      ReachesAnyLog bench underway ∧ underway.LogsAll ∧ underway.snapshot.status = .running ∧
      underway.ticker.pending.length = 1 ∧ Loads (.cells 1) 1 underway := by
  have hr : ReachesAnyLog bench underway := (applyAll_reaches _ _).anyLog
  have hl : underway.LogsAll := logsAll_of_no_journal (by decide +kernel)
  exact ⟨make_bench, rfl, hr, hl, by decide +kernel, by decide +kernel, reaches_loads make_bench rfl hr hl⟩

/-! ## Loads that are overtaken -/

/-- a machine with a listener that runs every machine that it sees idle -/
def rushed : Engine :=
  { bench with
    subscribers := ["starter"]
    scripts := [("starter", [{ status := some .idle, commands := [.run (.given (.whole 1))] }])] }

/-- a padding of one cell that is no whole number -/
def fractionalSettings : Config := [("tape_buffer", .number (.real (.ofRat 1))), ("min_interval_ms", .ofInt 0)]

/-- the machine made with it -/
def fractional : Engine := { bench with padding := .unusable .real, tracing := false }

/-- **A load may succeed and leave a tick pending, and may fail with a fault that is no definition fault and have the
definition replaced.** What is no definition may not be refused either. There is no log here, and no listener fails. -/
theorem load_overtaken :
    let o : Offer := .definition Preset.busyBeaver
    let deep : Offer := .object (Definition.withState (Definition.boxed .null 1000)) Json.mostDepth
    let hasty := load Engine.notify rushed o.source ""
    let broken := load Engine.notify fractional o.source ""
    o.Gives Preset.busyBeaver ∧
      (make benchSettings true {} bench.clock = .ok { bench with tracing := false } ∧ ReachesAnyLog bench rushed ∧
        rushed.LogsAll ∧ hasty.Succeeds ∧ hasty.engine.ticker.pending.length = 1 ∧
        ¬ Afresh (.cells 1) 1 Preset.busyBeaver "" rushed hasty) ∧
      make fractionalSettings true {} bench.clock = .ok fractional ∧ fractional.LogsAll ∧
        fractional.definition = none ∧ broken.engine.definition = some Preset.busyBeaver ∧
        broken.result = .error (.operand (.unrepeatable .real)) ∧
        load Engine.notify rushed deep.source "" = rushed.fault (.definition (.textless .tooDeep)) ∧
        (DefinitionFault.textless .tooDeep).isRefusal = false := by
  have hgiven : (Offer.definition Preset.busyBeaver).Gives Preset.busyBeaver :=
    ⟨rfl, Preset.busyBeaver.validate_ok_iff.1 (by decide +kernel)⟩
  have hreached : ReachesAnyLog bench rushed :=
    .script _ (.perform Engine.notify "" (.subscribe "starter") (.refl bench) fun e q => (notify_reaches e q).anyLog)
  have hpending : (load Engine.notify rushed (.definition Preset.busyBeaver) "").engine.ticker.pending.length = 1 := by
    decide +kernel
  have hresult : (load Engine.notify rushed (.definition Preset.busyBeaver) "").result =
      .ok (Snapshot.fresh Preset.busyBeaver "" 1) := by
    decide +kernel
  refine ⟨hgiven, ⟨make_bench, hreached, logsAll_of_no_journal rfl, ⟨_, hresult⟩, hpending, ?_⟩,
    by with_unfolding_all rfl, logsAll_of_no_journal rfl, rfl, by decide +kernel, by decide +kernel, ?_, rfl⟩
  swap
  · have hdeep := Definition.ofFields_withState
      (Definition.trouble?_boxed (v := .null) (show Json.mostDepth < 1000 by decide))
    rw [load, Offer.source, resolve, hdeep]
    rfl
  rintro ⟨e₁, hnew, heq⟩
  have hnone : (load Engine.notify rushed (.definition Preset.busyBeaver) "").engine.ticker.pending = [] := by
    rw [Offer.source] at heq
    rw [heq]
    exact hnew.pending
  rw [hnone] at hpending
  cases hpending

end Engine
end TapeMachine
