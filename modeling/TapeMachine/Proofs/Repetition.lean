/-
One repetition at a time, and no stale callback.

A timer is started, cancelled and fired in any order, and its callbacks do the same to it while they run: they cancel
it, start it again, fail. The history of the stage (`Stage.deeds`, the latest first) tells which callback may be called:
that of the last start, as long as nothing but calls has happened since (`Deed.live`). An ordinary failure is part of
the history and ends the repetition. An interrupt is not: the callback is still live after it.

`InOrder` ties the timer to that history. It is kept by every act of a callback, and that carries it through a call: a
callback runs with the timer already armed anew, so each of its acts has to replace or drop a handle that is not the one
fired. `applyAll_orderly` is what it comes to between operations.
-/
import TapeMachine.Control.Callback
import TapeMachine.Proofs.Changes

namespace TapeMachine

namespace Ticker

variable {κ : Type} {t t' : Ticker κ}

theorem start_callback {i : Seconds} {c : κ} (hs : t.start i c = (t', .ok ())) : t'.callback = some c := by
  unfold Ticker.start at hs
  split_ifs at hs
  · cases (Prod.mk.inj hs).2
  · cases (Prod.mk.inj hs).2
  · rw [← (Prod.mk.inj hs).1]
    rfl

theorem due_callback (hd : t.due = some t') : t'.callback = t.callback := by
  unfold Ticker.due at hd
  split at hd
  · cases hd
  · rw [← Option.some.inj hd]
    rfl

theorem Owned.due_none (h : t.Owned) (ha : t.active = false) : t.due = none := by
  cases hd : t.due with
  | none => rfl
  | some t' =>
    obtain ⟨hactive, -, -⟩ := h.due hd
    exact absurd (hactive.symm.trans ha) Bool.noConfusion

end Ticker

/-! ## Histories -/

namespace Callback

theorem after_after (c : Callback) (i j : Nat) : (c.after i).after j = c.after (i + j) := by
  simp only [after, name, script, List.drop_drop]

theorem after_zero (c : Callback) : c.after 0 = c := by
  cases c
  rfl

end Callback

namespace Deed

/-- the callback to be called next, by a history with the latest first -/
def live : List Deed → Option Callback
  | .started c :: _ => some c
  | .called c :: _ => some (c.after 1)
  | _ => none

/-- the callback that a deed calls -/
def called? : Deed → Option Callback
  | .called c => some c
  | _ => none

/-- every call was to the callback that was live -/
def Lawful : List Deed → Prop
  | [] => True
  | d :: before => (∀ c, d.called? = some c → live before = some c) ∧ Lawful before

/-- the first calls of a callback, the latest first -/
def firstCalls (c : Callback) : Nat → List Deed
  | 0 => []
  | k + 1 => .called (c.after k) :: firstCalls c k

variable {ds : List Deed} {d : Deed} {c : Callback}

theorem Lawful.cons (hl : Lawful ds) (hd : d.called? = none) : Lawful (d :: ds) :=
  ⟨fun _ hc => absurd (hc.symm.trans hd) nofun, hl⟩

theorem Lawful.of_append {later : List Deed} (h : Lawful (later ++ ds)) : Lawful ds := by
  induction later with
  | nil => exact h
  | cons d later ih => exact ih h.2

/-- a live callback is that of the last start, after the calls that have come since, which all were its own -/
theorem Lawful.since_started (hl : Lawful ds) (h : live ds = some c) :
    ∃ start k earlier, c = start.after k ∧ ds = firstCalls start k ++ .started start :: earlier := by
  induction ds generalizing c with
  | nil => cases h
  | cons d before ih =>
    cases d with
    | started start => exact ⟨start, 0, before, (Option.some.inj h).symm.trans start.after_zero.symm, rfl⟩
    | called last =>
      obtain ⟨start, k, earlier, rfl, hbefore⟩ := ih hl.2 (hl.1 last rfl)
      obtain rfl := Option.some.inj h
      exact ⟨start, k + 1, earlier, start.after_after k 1, by rw [hbefore]; rfl⟩
    | refused => cases h
    | cancelled => cases h
    | failed => cases h

end Deed

namespace Stage

variable {s s' : Stage} {r : Except CallFault Unit} {d : Deed}

/-- the names of the callbacks called, by the history -/
def callsMade (s : Stage) : List String := (s.deeds.reverse.filterMap Deed.called?).map Callback.name

/-- at most one handle on the loop, and no call out of turn -/
structure Kept (s : Stage) : Prop where
  owned : s.ticker.Owned
  lawful : Deed.Lawful s.deeds
  recorded : s.calls = s.callsMade

/-- the timer is active when a callback is live, and then it has that callback -/
structure InOrder (s : Stage) : Prop extends Kept s where
  armed : s.ticker.active = true → ∃ c, s.ticker.callback = some c ∧ Deed.live s.deeds = some c
  idle : s.ticker.active = false → Deed.live s.deeds = none

theorem initial_inOrder (loop : Bool) : InOrder { ticker := { loop } } where
  owned := rfl
  lawful := trivial
  recorded := rfl
  armed := nofun
  idle := fun _ => rfl

theorem callsMade_note (s : Stage) (d : Deed) :
    (s.note d).callsMade = s.callsMade ++ (d.called?.map Callback.name).toList := by
  rw [callsMade, note, List.reverse_cons, List.filterMap_append, List.map_append]
  cases d <;> rfl

theorem Kept.note (h : s.Kept) (hd : d.called? = none) : (s.note d).Kept where
  owned := h.owned
  lawful := h.lawful.cons hd
  recorded := by
    rw [callsMade_note, hd]
    exact h.recorded.trans (List.append_nil _).symm

theorem Kept.withTicker (h : s.Kept) {t : Ticker Callback} (ht : t.Owned) : Kept { s with ticker := t } :=
  ⟨ht, h.lawful, h.recorded⟩

/-! ## Acts -/

/-- dropping the handle, for whatever reason, leaves nothing to be called -/
theorem Kept.dropped (h : s.Kept) (hd : d.called? = none) (hl : Deed.live (d :: s.deeds) = none) :
    ({ s with ticker := s.ticker.cancel }.note d).InOrder :=
  { (h.withTicker h.owned.cancel).note hd with
    armed := fun ha => absurd (s.ticker.cancel_active.symm.trans ha) Bool.noConfusion
    idle := fun _ => hl }

theorem cancel_active (s : Stage) : s.cancel.ticker.active = false := s.ticker.cancel_active

theorem start_cases (s : Stage) (i : Seconds) (c : Callback) :
    (∃ t, s.ticker.start i c = (t, .ok ()) ∧ s.start i c = ({ s with ticker := t }.note (.started c), .ok ())) ∨
      ∃ f, s.start i c = ({ s with ticker := s.ticker.cancel }.note .refused, .error (.ticker f)) := by
  unfold start
  cases hs : s.ticker.start i c with
  | mk t r =>
    cases r with
    | ok u => exact Or.inl ⟨t, rfl, rfl⟩
    | error f =>
      rw [Ticker.start_error hs]
      exact Or.inr ⟨f, rfl⟩

theorem start_refused (s : Stage) (i : Seconds) (c : Callback) (hr : (s.start i c).2 ≠ .ok ()) :
    (s.start i c).1.ticker.active = false := by
  rcases s.start_cases i c with ⟨t, -, heq⟩ | ⟨f, heq⟩
  · rw [heq] at hr
    exact absurd rfl hr
  · rw [heq]
    exact s.ticker.cancel_active

theorem startFor_cases (s : Stage) (v : Json) (c : Callback) :
    (∃ i, s.startFor v c = s.start i c) ∨
      ∃ f, s.startFor v c = ({ s with ticker := s.ticker.cancel }.note .refused, .error f) := by
  unfold startFor
  cases v.number? with
  | some n => exact Or.inl ⟨.given n, rfl⟩
  | none => exact Or.inr ⟨_, rfl⟩

/-- in order after an act, which has called nothing -/
structure After (s s' : Stage) : Prop where
  inOrder : s'.InOrder
  calls : s'.calls = s.calls

theorem After.trans {s'' : Stage} (h : After s s') (h' : After s' s'') : After s s'' :=
  ⟨h'.inOrder, h'.calls.trans h.calls⟩

theorem InOrder.after_cancel (h : s.InOrder) : After s s.cancel := ⟨h.dropped rfl rfl, rfl⟩

theorem InOrder.after_start (h : s.InOrder) (i : Seconds) (c : Callback) : After s (s.start i c).1 := by
  rcases s.start_cases i c with ⟨t, ht, heq⟩ | ⟨f, heq⟩
  · obtain ⟨howned, hactive⟩ := h.owned.start ht
    rw [heq]
    exact
      ⟨{ (h.withTicker howned).note (d := .started c) rfl with
          armed := fun _ => ⟨c, Ticker.start_callback ht, rfl⟩
          idle := fun hidle => absurd (hactive.symm.trans hidle) Bool.noConfusion }, rfl⟩
  · rw [heq]
    exact ⟨h.dropped rfl rfl, rfl⟩

theorem InOrder.after_startFor (h : s.InOrder) (v : Json) (c : Callback) : After s (s.startFor v c).1 := by
  rcases s.startFor_cases v c with ⟨i, heq⟩ | ⟨f, heq⟩
  · rw [heq]
    exact h.after_start i c
  · rw [heq]
    exact ⟨h.dropped rfl rfl, rfl⟩

/-! ## Callbacks -/

/-- what comes after a start, if it did not fail -/
theorem After.goOn {o : Stage × Except StageFault Unit} {name : String} {acts : List Act} (h : After s o.1)
    (hrest : ∀ s' : Stage, s'.InOrder → After s' (perform name s' acts).1) :
    After s (match o with
      | (s, .ok ()) => perform name s acts
      | (s, .error f) => (s, .error { fault := f })).1 := by
  obtain ⟨s', r⟩ := o
  cases r with
  | ok u => exact h.trans (hrest s' h.inOrder)
  | error f => exact h

/-- what a callback does to the timer, act by act, up to a fault -/
theorem InOrder.after_perform (name : String) (acts : List Act) (h : s.InOrder) :
    After s (perform name s acts).1 := by
  induction acts generalizing s with
  | nil => exact ⟨h, rfl⟩
  | cons act acts ih =>
    cases act with
    | cancel => exact h.after_cancel.trans (ih h.after_cancel.inOrder)
    | start i c => exact (h.after_start i c).goOn fun _ hs => ih hs
    | startFor v c => exact (h.after_startFor v c).goOn fun _ hs => ih hs
    | attempt i c => exact (h.after_start i c).trans (ih (h.after_start i c).inOrder)
    | fail => exact ⟨h, rfl⟩
    | interrupt => exact ⟨h, rfl⟩

/-- the callback of an active timer is called: the call is in turn, and the callback then does what it does -/
theorem InOrder.call (h : s.InOrder) (ha : s.ticker.active = true) {c : Callback} (hc : s.ticker.callback = some c) :
    (s.call c).1.InOrder ∧ (s.call c).1.calls = s.calls ++ [c.name] := by
  obtain ⟨c', hc', hlive⟩ := h.armed ha
  obtain rfl : c' = c := Option.some.inj (hc'.symm.trans hc)
  have hlawful : Deed.Lawful (.called c' :: s.deeds) := by
    refine ⟨?_, h.lawful⟩
    intro called hcalled
    rw [hlive]
    exact hcalled
  have hafter := InOrder.after_perform c'.name (c'.script.head?.getD [])
    (s := ({ s with
      calls := s.calls ++ [c'.name]
      ticker := { s.ticker with callback := some (c'.after 1) } } : Stage).note (.called c'))
    { owned := h.owned
      lawful := hlawful
      recorded := by
        rw [callsMade_note]
        exact congrArg (· ++ [c'.name]) h.recorded
      armed := fun _ => ⟨_, rfl, rfl⟩
      idle := fun hidle => absurd (ha.symm.trans hidle) Bool.noConfusion }
  exact ⟨hafter.inOrder, hafter.calls⟩

/-- what a firing comes to, when `c` is called -/
structure Fired (s : Stage) (c : Callback) (s' : Stage) (r : Except CallFault Unit) : Prop where
  calls : s'.calls = s.calls ++ [c.name]
  /-- an ordinary failure ends the repetition -/
  failed : ∀ f, r = .error f → f.interrupt = false → s'.ticker.active = false
  /-- an interrupt leaves all as the callback has left it, the timer armed anew before the call -/
  interrupted : ∀ f, r = .error f → f.interrupt = true → ∃ t, s.ticker.due = some t ∧ t.active = true ∧
    (Stage.call { s with ticker := t } c).1 = s'

/-- a firing calls the live callback, once -/
theorem InOrder.fire (h : s.InOrder) (hf : s.fire = some (s', r)) :
    s'.InOrder ∧ ∃ c, Deed.live s.deeds = some c ∧ s.Fired c s' r := by
  obtain ⟨t, ht, hfire⟩ := Option.map_eq_some_iff.1 hf
  obtain ⟨hactive, howned, harmed⟩ := h.owned.due ht
  obtain ⟨c, hc, hlive⟩ := h.armed hactive
  have hcallback : t.callback = some c := (Ticker.due_callback ht).trans hc
  have hrearmed : ({ s with ticker := t } : Stage).InOrder :=
    { h.withTicker howned with
      armed := fun _ => ⟨c, hcallback, hlive⟩
      idle := fun hidle => absurd (harmed.symm.trans hidle) Bool.noConfusion }
  obtain ⟨hcalled, hcalls⟩ := hrearmed.call harmed hcallback
  simp only [hcallback] at hfire
  split at hfire
  next s₁ heq =>
    obtain ⟨rfl, rfl⟩ := Prod.mk.inj hfire
    rw [heq] at hcalled hcalls
    exact ⟨hcalled, c, hlive, hcalls, nofun, nofun⟩
  next s₁ f heq =>
    split_ifs at hfire with hinterrupt
    · obtain ⟨rfl, rfl⟩ := Prod.mk.inj hfire
      have hleft : (Stage.call { s with ticker := t } c).1 = s₁ := congrArg Prod.fst heq
      rw [heq] at hcalled hcalls
      refine ⟨hcalled, c, hlive, hcalls, ?_, fun _ _ _ => ⟨t, ht, harmed, hleft⟩⟩
      rintro _ ⟨⟩ hordinary
      exact absurd (hinterrupt.symm.trans hordinary) Bool.noConfusion
    · obtain ⟨rfl, rfl⟩ := Prod.mk.inj hfire
      rw [heq] at hcalled hcalls
      -- between the failure and the cancel the timer may be armed with nothing live, so only `Kept` holds there
      have hnoted : (s₁.note .failed).Kept := hcalled.toKept.note rfl
      refine ⟨hnoted.dropped rfl rfl, c, hlive, hcalls, fun _ _ _ => cancel_active _, ?_⟩
      rintro _ ⟨⟩ hkind
      exact absurd hkind hinterrupt

/-! ## Operations -/

/-- what is done to a timer from outside -/
inductive Operation where
  | start (interval : Seconds) (callback : Callback)
  /-- as `start`, with an interval that a value gives -/
  | startFor (interval : Json) (callback : Callback)
  | cancel
  /-- runs the oldest handle, if any -/
  | fire

/-- the stage after an operation, whether or not it ended in a fault -/
def apply (s : Stage) : Operation → Stage
  | .start i c => (s.start i c).1
  | .startFor v c => (s.startFor v c).1
  | .cancel => s.cancel
  | .fire => (s.fire.map Prod.fst).getD s

def applyAll (s : Stage) (ops : List Operation) : Stage := ops.foldl apply s

theorem InOrder.apply (h : s.InOrder) (op : Operation) : (s.apply op).InOrder := by
  cases op with
  | start i c => exact (h.after_start i c).inOrder
  | startFor v c => exact (h.after_startFor v c).inOrder
  | cancel => exact h.after_cancel.inOrder
  | fire =>
    cases hf : s.fire with
    | none =>
      rw [Stage.apply, hf]
      exact h
    | some o =>
      obtain ⟨s', r⟩ := o
      rw [Stage.apply, hf]
      exact (h.fire hf).1

theorem InOrder.applyAll (h : s.InOrder) (ops : List Operation) : (s.applyAll ops).InOrder := by
  induction ops generalizing s with
  | nil => exact h
  | cons op ops ih => exact ih (h.apply op)

/-- one repetition at most, of the callback started last -/
structure Orderly (s : Stage) : Prop where
  /-- the loop holds the timer's own handle while the timer is active -/
  active : s.ticker.active = true → ∃ k, s.ticker.handle = some k ∧ s.ticker.pending = [k]
  /-- otherwise it holds none, and nothing fires -/
  inactive : s.ticker.active = false → s.ticker.pending = [] ∧ s.fire = none
  /-- before every call there is the start of the callback called, and only its own calls have come between -/
  called : ∀ later c before, s.deeds = later ++ .called c :: before →
    ∃ start k earlier, c = start.after k ∧ before = Deed.firstCalls start k ++ .started start :: earlier
  recorded : s.calls = s.callsMade
  /-- a firing makes one call, to the callback of the last start -/
  fired : ∀ s' r, s.fire = some (s', r) →
    ∃ start k earlier, s.deeds = Deed.firstCalls start k ++ .started start :: earlier ∧ s.Fired (start.after k) s' r
  cancelled : s.cancel.ticker.active = false
  refused : ∀ i c, (s.start i c).2 ≠ .ok () → (s.start i c).1.ticker.active = false
  refusedFor : ∀ v c, (s.startFor v c).2 ≠ .ok () → (s.startFor v c).1.ticker.active = false

theorem InOrder.orderly (h : s.InOrder) : s.Orderly where
  active := by
    intro ha
    obtain ⟨k, hk⟩ := Option.isSome_iff_exists.1 ha
    refine ⟨k, hk, ?_⟩
    rw [h.owned, hk]
    rfl
  inactive := by
    intro ha
    refine ⟨?_, ?_⟩
    · rw [h.owned, Option.isSome_eq_false_iff.1 ha |> Option.isNone_iff_eq_none.1]
      rfl
    · rw [Stage.fire, h.owned.due_none ha]
      rfl
  called := by
    intro later c before hd
    have hl : Deed.Lawful (.called c :: before) := (hd ▸ h.lawful).of_append
    exact hl.2.since_started (hl.1 c rfl)
  recorded := h.recorded
  fired := by
    intro s' r hf
    obtain ⟨-, c, hlive, hfired⟩ := h.fire hf
    obtain ⟨start, k, earlier, rfl, hd⟩ := h.lawful.since_started hlive
    exact ⟨start, k, earlier, hd, hfired⟩
  cancelled := s.cancel_active
  refused := fun i c => s.start_refused i c
  refusedFor := by
    intro v c hr
    rcases s.startFor_cases v c with ⟨i, heq⟩ | ⟨f, heq⟩
    · rw [heq] at hr ⊢
      exact s.start_refused i c hr
    · rw [heq]
      exact s.ticker.cancel_active

/-- **A timer never has two repetitions and never calls a stale callback.** So it is after any operations on a new
timer, whatever its callbacks do to it. -/
theorem applyAll_orderly (loop : Bool) (ops : List Operation) :
    (applyAll { ticker := { loop } } ops).Orderly :=
  ((initial_inOrder loop).applyAll ops).orderly

/-- A callback is interrupted, and the timer goes on: it is still armed after that firing, and the next one calls the
callback again. -/
theorem interrupted_rearmed :
    let started := applyAll { ticker := { loop := true } }
      [.start (.given (.whole 1)) (.once "tick" 1 .interrupt)]
    ∃ s' f, started.fire = some (s', .error f) ∧ s'.ticker.active = true ∧ s'.ticker.pending = [1] ∧
      s'.calls = ["tick"] ∧ (s'.apply .fire).calls = ["tick", "tick"] :=
  ⟨_, _, rfl, rfl, rfl, rfl, rfl⟩

/-- a callback that starts another one and then fails takes that one with it -/
example :
    let first : Callback := .mk "first" [[.start (.given (.whole 1)) (.mk "second" []), .fail]]
    let s := applyAll { ticker := { loop := true } } [.start (.given (.whole 1)) first, .fire, .fire]
    s.calls = ["first"] ∧ s.ticker.pending = [] := by
  decide +kernel

end Stage
end TapeMachine
