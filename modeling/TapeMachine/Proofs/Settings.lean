/-
Configurations that are accepted.

A configuration passes the check if and only if every known setting is there with its kind and the four bounds hold
(`Config.validate_eq_ok_iff`). The settings an engine is made with are then whole numbers, and making one can only
fail for a least interval that is too large for the 64-bit format (`make_of_accepted`). With a loop, room for its padding
and a log that takes every entry the engine is prepared for whatever is asked of it, and stays so (`Prepared`).
-/
import TapeMachine.Proofs.Course
import TapeMachine.Proofs.Intervals

namespace TapeMachine

namespace Config

variable {c : Config}

/-- every known setting is there with its kind, and the bounds hold -/
structure Accepted (c : Config) : Prop where
  kinds : ∀ s ∈ settings, ∃ v, c.get? s.key = some v ∧ v.kind = s.kind
  buffer : 1 ≤ c.intAt "tape_buffer"
  floor : 0 ≤ c.intAt "min_interval_ms"
  ordered : c.intAt "min_interval_ms" ≤ c.intAt "max_interval_ms"
  steps : 1 ≤ c.intAt "max_steps"

theorem checkKind_eq_ok_iff (c : Config) (s : Setting) :
    c.checkKind s = .ok () ↔ ∃ v, c.get? s.key = some v ∧ v.kind = s.kind := by
  unfold checkKind
  cases c.get? s.key with
  | none => simp
  | some v =>
    by_cases hk : v.kind = s.kind
    · simp [hk]
    · simp [hk]

theorem checkBounds_eq_ok_iff (c : Config) :
    c.checkBounds = .ok () ↔ 1 ≤ c.intAt "tape_buffer" ∧ 0 ≤ c.intAt "min_interval_ms" ∧
      c.intAt "min_interval_ms" ≤ c.intAt "max_interval_ms" ∧ 1 ≤ c.intAt "max_steps" := by
  unfold checkBounds
  constructor
  · intro h
    split_ifs at h
    omega
  · rintro ⟨hb, hf, ho, hs⟩
    rw [if_neg (by omega), if_neg (by omega), if_neg (by omega), if_neg (by omega)]

/-- checks in turn are passed if each of them is -/
theorem forM_eq_ok_iff {α ε : Type} (check : α → Except ε Unit) (xs : List α) :
    xs.forM check = .ok () ↔ ∀ x ∈ xs, check x = .ok () := by
  induction xs with
  | nil => exact iff_of_true rfl (List.forall_mem_nil _)
  | cons x xs ih =>
    have hcons : (x :: xs).forM check = (check x).bind fun _ => xs.forM check := rfl
    rw [hcons, List.forall_mem_cons, ← ih]
    cases check x with
    | error f => simp [Except.bind]
    | ok u => simp [Except.bind]

/-- **The check accepts what it should, and nothing else.** -/
theorem validate_eq_ok_iff (c : Config) : c.validate = .ok () ↔ c.Accepted := by
  have hsplit : c.validate = .ok () ↔ settings.forM c.checkKind = .ok () ∧ c.checkBounds = .ok () := by
    unfold validate
    cases settings.forM c.checkKind with
    | error f => simp [bind, Except.bind]
    | ok u => simp [bind, Except.bind]
  rw [hsplit, forM_eq_ok_iff, checkBounds_eq_ok_iff]
  simp only [checkKind_eq_ok_iff]
  constructor
  · rintro ⟨hkinds, hb, hf, ho, hs⟩
    exact ⟨hkinds, hb, hf, ho, hs⟩
  · rintro ⟨hkinds, hb, hf, ho, hs⟩
    exact ⟨hkinds, hb, hf, ho, hs⟩

theorem eq_ofInt_of_kind {v : Json} (h : v.kind = .whole) : ∃ k, v = .ofInt k := by
  cases v with
  | number x =>
    cases x with
    | whole k => exact ⟨k, rfl⟩
    | real y => cases h
  | _ => cases h

/-- a whole setting that is accepted is the number that is read of it -/
theorem Accepted.get?_whole (h : c.Accepted) {s : Setting} (hs : s ∈ settings) (hw : s.kind = .whole) :
    c.get? s.key = some (.ofInt (c.intAt s.key)) := by
  obtain ⟨v, hv, hk⟩ := h.kinds s hs
  obtain ⟨k, rfl⟩ := eq_ofInt_of_kind (hk.trans hw)
  rw [intAt, hv]
  rfl

theorem Accepted.buffer_get? (h : c.Accepted) : c.get? "tape_buffer" = some (.ofInt (c.intAt "tape_buffer")) :=
  h.get?_whole (s := ⟨"tape_buffer", .whole, .ofInt 50⟩) (by simp [settings]) rfl

theorem Accepted.floor_get? (h : c.Accepted) :
    c.get? "min_interval_ms" = some (.ofInt (c.intAt "min_interval_ms")) :=
  h.get?_whole (s := ⟨"min_interval_ms", .whole, .ofInt 50⟩) (by simp [settings]) rfl

theorem Accepted.steps_get? (h : c.Accepted) : c.get? "max_steps" = some (.ofInt (c.intAt "max_steps")) :=
  h.get?_whole (s := ⟨"max_steps", .whole, .ofInt 100000⟩) (by simp [settings]) rfl

theorem Accepted.orDefaults (h : c.Accepted) : c.orDefaults = c := by
  cases c with
  | nil =>
    have hnone := h.buffer_get?
    cases hnone
  | cons f fs => rfl

end Config

theorem Seconds.eq_ofMillis {n : Number} {s : Seconds} (h : Seconds.ofMillis? n = some s) : s = .ofMillis n := by
  unfold ofMillis? at h
  split at h
  · cases h
  · exact (Option.some.inj h).symm

namespace Engine

/-- the engine that accepted settings make -/
def ofSettings (c : Config) (loop : Bool) (disk : Disk) (clock : Clock) : Engine where
  padding := .cells (c.intAt "tape_buffer")
  least := .ofMillis (.whole (c.intAt "min_interval_ms"))
  cap := some (.ok (c.intAt "max_steps"))
  ticker := { loop }
  disk
  clock

/-- accepted settings make an engine, unless the least interval is too large for the 64-bit format -/
theorem make_of_accepted {c : Config} (h : c.Accepted) (loop : Bool) (disk : Disk) (clock : Clock) :
    make c loop disk clock =
      if (Seconds.ofMillis? (.whole (c.intAt "min_interval_ms"))).isSome then .ok (ofSettings c loop disk clock)
      else .error .quotientTooLarge := by
  have hbuffer : c.orDefaults.value "tape_buffer" = .ok (.ofInt (c.intAt "tape_buffer")) := by
    rw [h.orDefaults, Config.value, h.buffer_get?]
  have hfloor : c.orDefaults.value "min_interval_ms" = .ok (.ofInt (c.intAt "min_interval_ms")) := by
    rw [h.orDefaults, Config.value, h.floor_get?]
  have hcap : (c.orDefaults.get? "max_steps").map Cap.ofJson = some (.ok (c.intAt "max_steps")) := by
    rw [h.orDefaults, h.steps_get?]
    rfl
  have hnumber : (Json.ofInt (c.intAt "min_interval_ms")).number? = some (.whole (c.intAt "min_interval_ms")) := rfl
  rw [make, hbuffer, hfloor, hcap]
  cases hs : Seconds.ofMillis? (.whole (c.intAt "min_interval_ms")) with
  | none =>
    have hleast : (Json.ofInt (c.intAt "min_interval_ms")).asMillis = .error .quotientTooLarge := by
      simp only [Json.asMillis, hnumber, hs]
    simp only [bind, Except.bind, hleast]
    rfl
  | some s =>
    have hleast : (Json.ofInt (c.intAt "min_interval_ms")).asMillis = .ok s := by
      simp only [Json.asMillis, hnumber, hs]
    obtain rfl := Seconds.eq_ofMillis hs
    simp only [bind, Except.bind, hleast]
    rfl

/-! ## Engines that are prepared -/

variable {n : ℤ} {e e' : Engine}

/-- an engine in order on a loop, with a least interval that is not negative and with a cap on steps -/
structure Prepared (n : ℤ) (e : Engine) : Prop where
  sound : Sound n e
  loop : e.ticker.loop = true
  floor : ∃ m : Number, m.NonNegative ∧ e.least = .ofMillis m
  cap : ∃ k, e.cap = some (.ok k)

theorem Prepared.sameMake (h : Prepared n e) (hs : Sound n e') (hsame : SameMake e e') : Prepared n e' := by
  refine ⟨hs, hsame.loop.trans h.loop, ?_, ?_⟩
  · rw [hsame.least]
    exact h.floor
  · rw [hsame.cap]
    exact h.cap

theorem Prepared.changes (h : Prepared n e) (hc : Changes e e') : Prepared n e' :=
  h.sameMake (Changes.sound h.sound hc) (Changes.sameMake hc)

/-- the timer starts at every interval that a run asks it for -/
theorem Prepared.starts (h : Prepared n e) (interval : Seconds) :
    ∃ t, e.ticker.start (interval.max e.least) () = (t, .ok ()) := by
  obtain ⟨m, hm, hleast⟩ := h.floor
  have hi : (interval.max e.least).isNegative = false := by
    rw [hleast]
    exact Seconds.isNegative_max hm interval
  exact ⟨_, Prod.ext rfl (Ticker.start_ok h.loop hi ())⟩

theorem eq_ofSettings {c : Config} (hc : c.Accepted) {loop : Bool} {disk : Disk} {clock : Clock}
    (hm : make c loop disk clock = .ok e) : e = ofSettings c loop disk clock := by
  rw [make_of_accepted hc] at hm
  split_ifs at hm
  exact (Except.ok.inj hm).symm

/-- the padding of accepted settings is the number of cells that they say, where there is room for it -/
theorem count_of_make {c : Config} {loop : Bool} {disk : Disk} {clock : Clock} {room : Option ℕ} (hc : c.Accepted)
    (hm : make c loop disk clock = .ok e) (hn : e.padding.count room = .ok n) : n = c.intAt "tape_buffer" := by
  obtain rfl := eq_ofSettings hc hm
  have hfit : Padding.fit room (c.intAt "tape_buffer") = .ok n := hn
  unfold Padding.fit at hfit
  split at hfit
  · exact (Except.ok.inj hfit).symm
  · split_ifs at hfit
    exact (Except.ok.inj hfit).symm

/-- **Accepted settings make an engine that is prepared**, with a loop, room for its padding and a log that takes every
entry. -/
theorem prepared_of_make {c : Config} {disk : Disk} {clock : Clock} {room : Option ℕ} {journal : Option Journal}
    {refused : List String} {tracing : Bool} (hc : c.Accepted) (hm : make c true disk clock = .ok e)
    (hn : e.padding.count room = .ok (c.intAt "tape_buffer"))
    (hl : { e with room, journal, refused, tracing }.LogsAll) :
    Prepared (c.intAt "tape_buffer") { e with room, journal, refused, tracing } := by
  obtain rfl := eq_ofSettings hc hm
  refine ⟨sound_of_make hm hn hc.buffer hl, rfl, ⟨_, ?_, rfl⟩, ⟨_, rfl⟩⟩
  have hfloor := hc.floor
  refine ⟨decide_eq_false (by omega), ?_⟩
  intro hu
  cases hu

/-- the default settings are accepted -/
theorem validate_defaults : Config.defaults.validate = .ok () := by with_unfolding_all rfl

theorem floor_fits_defaults :
    (Seconds.ofMillis? (.whole (Config.defaults.intAt "min_interval_ms"))).isSome = true := by
  decide +kernel

theorem make_defaults (loop : Bool) (disk : Disk) (clock : Clock) :
    make Config.defaults loop disk clock = .ok (ofSettings Config.defaults loop disk clock) := by
  rw [make_of_accepted (Config.defaults.validate_eq_ok_iff.1 validate_defaults), if_pos floor_fits_defaults]

end Engine
end TapeMachine
