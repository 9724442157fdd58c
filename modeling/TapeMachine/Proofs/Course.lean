/-
What changes do to the machine alone.

Of all that an engine holds, the machine is the definition with its table, the input and the snapshot. A change leaves
the machine as it is, loads it, makes a step, or gives it a status in which it can go on (`Course`), and nothing that it
was made with ever changes (`SameMake`). An invariant of the machine has four cases to look at (`Changes.keeps`).
-/
import TapeMachine.Proofs.Operations

namespace TapeMachine
namespace Engine

variable {n : ℤ} {e e' : Engine}

/-! ## The make of an engine -/

/-- the settings, the loop, and whether there is a log and a trace -/
structure SameMake (e e' : Engine) : Prop where
  least : e'.least = e.least
  cap : e'.cap = e.cap
  loop : e'.ticker.loop = e.ticker.loop
  journal : e'.journal.isSome = e.journal.isSome
  tracing : e'.tracing = e.tracing

theorem SameMake.refl (e : Engine) : SameMake e e := ⟨rfl, rfl, rfl, rfl, rfl⟩

theorem SameMake.trans {e'' : Engine} (h : SameMake e e') (h' : SameMake e' e'') : SameMake e e'' :=
  ⟨h'.least.trans h.least, h'.cap.trans h.cap, h'.loop.trans h.loop, h'.journal.trans h.journal,
    h'.tracing.trans h.tracing⟩

theorem Records.sameMake {ns : List Note} (h : Records ns e e') : SameMake e e' := by
  obtain ⟨j, d, hj, rfl⟩ := h.eq
  exact ⟨rfl, rfl, rfl, hj, rfl⟩

theorem sameMake_stopTicker (e : Engine) : SameMake e e.stopTicker :=
  ⟨rfl, rfl, Ticker.cancel_loop e.ticker, rfl, rfl⟩

theorem sameMake_withTicker (e : Engine) {t : Ticker Unit} (h : t.loop = e.ticker.loop) (q : Snapshot) :
    SameMake e { e with ticker := t, snapshot := q } :=
  ⟨rfl, rfl, h, rfl, rfl⟩

theorem sameMake_placed (e : Engine) (q : Snapshot) : SameMake e (e.placed q) := by
  unfold placed
  split_ifs
  · exact ⟨rfl, rfl, rfl, rfl, rfl⟩
  · exact ⟨rfl, rfl, Ticker.cancel_loop e.ticker, rfl, rfl⟩

theorem sameMake_loaded (e : Engine) (d : Definition) (input : Text) (n : ℤ) : SameMake e (e.loaded d input n) :=
  ⟨rfl, rfl, Ticker.cancel_loop e.ticker, rfl, rfl⟩

/-- no change touches what the engine was made with -/
theorem Change.sameMake (hc : Change e e') : SameMake e e' := by
  cases hc with
  | load d input m hd hn h => exact (sameMake_loaded e d input m).trans h.sameMake
  | reset d m he hd hn h => exact (sameMake_loaded e d "" m).trans h.sameMake
  | step q hs hq h => exact (sameMake_placed e q).trans h.sameMake
  | tick t q ht hs hq h =>
    have hloop := sameMake_withTicker e (Ticker.due_loop ht) e.snapshot
    exact hloop.trans ((sameMake_placed _ q).trans h.sameMake)
  | start t i hd hh ht hs h => exact (sameMake_withTicker e (Ticker.start_loop ht) _).trans h.sameMake
  | restart t i ht hs h => exact (sameMake_withTicker e (Ticker.start_loop ht) e.snapshot).trans h.sameMake
  | decline hs h => exact (sameMake_stopTicker e).trans h.sameMake
  | refuse i f ht h => exact (sameMake_stopTicker e).trans h.sameMake
  | mistype h => exact (sameMake_stopTicker e).trans h.sameMake
  | pause hs h => exact (sameMake_placed e _).trans h.sameMake
  | stop hs h => rw [h]; exact sameMake_stopTicker e
  | fail h => rw [h]; exact (sameMake_stopTicker e).trans (records_note _ _).sameMake
  | interrupt h => rw [h]; exact (records_note _ _).sameMake
  | subscribe l h => rw [h]; exact ⟨rfl, rfl, rfl, rfl, rfl⟩
  | script l h => rw [h]; exact ⟨rfl, rfl, rfl, rfl, rfl⟩
  | deliver l q h => rw [h]; exact (records_note _ _).sameMake

theorem Changes.sameMake (hc : Changes e e') : SameMake e e' := by
  induction hc with
  | refl => exact .refl e
  | tail _ hc ih => exact ih.trans hc.sameMake

/-! ## The machine of an engine -/

/-- the machine alone -/
structure Machine where
  definition : Option Definition
  table : Table
  input : Text
  snapshot : Snapshot

def machine (e : Engine) : Machine := ⟨e.definition, e.table, e.input, e.snapshot⟩

/-- what becomes of the machine -/
inductive Course (n : ℤ) (e e' : Engine) : Prop
  | rest (h : e'.machine = e.machine)
  | load (d : Definition) (input : Text) (hd : d.Valid) (h : e'.machine = (e.loaded d input n).machine)
  | step (q : Snapshot) (hh : e.snapshot.halted = false) (hq : e.next = some q)
      (h : e'.machine = { e.machine with snapshot := q })
  | status (q : Status) (hh : e.snapshot.halted = false) (hq : q = .running ∨ q = .paused)
      (hd : e.definition ≠ none) (h : e'.machine = { e.machine with snapshot := e.withStatus q })

theorem Records.machine {ns : List Note} (h : Records ns e e') : e'.machine = e.machine := by
  obtain ⟨j, d, -, rfl⟩ := h.eq
  rfl

/-- **A change is one of four things to the machine.** -/
theorem Change.course (hs : Sound n e) (hc : Change e e') : Course n e e' := by
  cases hc with
  | load d input m hd hn h =>
    obtain rfl : n = m := Except.ok.inj (hs.room.symm.trans hn)
    exact .load d input hd h.machine
  | reset d m he hd hn h =>
    obtain rfl : n = m := Except.ok.inj (hs.room.symm.trans hn)
    exact .load d "" hd h.machine
  | step q hm hq h => exact .step q (Status.not_halted_of_manual hm) hq h.machine
  | tick t q ht hr hq h => exact .step q (Snapshot.not_halted_of_running hr) hq h.machine
  | start t i hd hh ht hr h =>
    refine .status .running hh (Or.inl rfl) ?_ h.machine
    intro hn
    rw [hn] at hd
    cases hd
  | restart t i ht hr h => exact .rest h.machine
  | decline hd h => exact .rest h.machine
  | refuse i f ht h => exact .rest h.machine
  | mistype h => exact .rest h.machine
  | pause hr h =>
    exact .status .paused (Snapshot.not_halted_of_running hr) (Or.inr rfl) (hs.defined (by rw [hr]; decide)) h.machine
  | stop hr h => rw [h]; exact .rest rfl
  | fail h => rw [h]; exact .rest (records_note _ _).machine
  | interrupt h => rw [h]; exact .rest (records_note _ _).machine
  | subscribe l h => rw [h]; exact .rest rfl
  | script l h => rw [h]; exact .rest rfl
  | deliver l q h => rw [h]; exact .rest (records_note _ _).machine

/-- what every course keeps is kept by changes -/
theorem Changes.keeps {P : Engine → Prop} (hP : ∀ e e', Sound n e → P e → Course n e e' → P e') (hs : Sound n e)
    (h : P e) (hc : Changes e e') : P e' :=
  Changes.preserve (fun hs h hc => hP _ _ hs h (hc.course hs)) hs h hc

end Engine
end TapeMachine
