/-
Definitions that come back from their data.

A definition comes back from its data with the blank symbol put at the end of an alphabet that it is not in, and with
nothing else changed. So it comes back as it was if and only if the blank symbol is in its alphabet
(`Definition.Normal`), and this is the form of all that is ever read from data (`Described.normal`), and of nothing
else: reading, writing and reading again is reading once (`ofJson_normalises`).
-/
import TapeMachine.Proofs.Grammatical

namespace TapeMachine
namespace Definition

/-- the blank symbol is in the alphabet -/
def Normal (d : Definition) : Prop := d.blank ∈ d.alphabet

/-- the definition with the blank symbol in its alphabet -/
def normalised (d : Definition) : Definition := { d with alphabet := withBlank d.alphabet d.blank }

/-- the data of the definition that a value describes -/
def rewritten (v : Json) (room : ℕ) : Except DefinitionFault Json := (ofJson v room).map toJson

variable {d : Definition} {v w : Json} {room : ℕ}

theorem withBlank_of_notMem {alphabet : List Text} {blank : Text} (h : blank ∉ alphabet) :
    withBlank alphabet blank = alphabet ++ [blank] := if_neg h

theorem normal_normalised (d : Definition) : d.normalised.Normal := by
  rw [Normal, normalised, withBlank]
  split_ifs with h
  · exact h
  · exact List.mem_append_right _ (List.mem_singleton_self _)

theorem Normal.normalised_eq (h : d.Normal) : d.normalised = d := by
  have hmem : d.blank ∈ d.alphabet := h
  rw [normalised, withBlank, if_pos hmem]

theorem normalised_eq_iff : d.normalised = d ↔ d.Normal := by
  constructor
  · intro h
    rw [← h]
    exact normal_normalised d
  · exact Normal.normalised_eq

theorem Described.normal (h : Described v d) : d.Normal := by
  cases h with
  | @intro fs states alphabet entries blank initial accept symbols rules hstates halphabet hblank hinitial haccept
      hentries hrules hin hout =>
    by_cases hmem : blank.label ∈ alphabet.map Json.label
    · rw [Normal, hin hmem]
      exact hmem
    · rw [Normal, hout hmem]
      exact List.mem_append_right _ (List.mem_singleton_self _)

/-- what is read from data is in normal form -/
theorem normal_of_ofJson (h : ofJson v room = .ok d) : d.Normal := by
  have hd := ofJson_yields v room
  rw [h] at hd
  exact hd.2.normal

theorem Normal.ofJson_toJson (h : d.Normal) (room : ℕ) : ofJson d.toJson room = .ok d := by
  rw [Definition.ofJson_toJson]
  exact congrArg Except.ok h.normalised_eq

theorem rewritten_eq_ok (h : rewritten v room = .ok w) : ∃ d, ofJson v room = .ok d ∧ w = d.toJson := by
  unfold rewritten at h
  cases hv : ofJson v room with
  | error f =>
    rw [hv] at h
    cases h
  | ok d =>
    rw [hv] at h
    exact ⟨d, rfl, (Except.ok.inj h).symm⟩

/-- reading undoes writing, where there is room for values `room` levels inside those that name something -/
structure Normalises (room : ℕ) : Prop where
  /-- every definition comes back, with nothing changed but its alphabet -/
  back : ∀ d : Definition, ∃ d', ofJson d.toJson room = .ok d' ∧ d' = { d with alphabet := d'.alphabet } ∧
    (d.blank ∈ d.alphabet → d'.alphabet = d.alphabet) ∧ (d.blank ∉ d.alphabet → d'.alphabet = d.alphabet ++ [d.blank])
  /-- the definitions that come back as they were -/
  same_iff : ∀ d : Definition, ofJson d.toJson room = .ok d ↔ d.blank ∈ d.alphabet
  /-- they are the ones that data describe -/
  read_iff : ∀ d : Definition, (∃ v, ofJson v room = .ok d) ↔ d.blank ∈ d.alphabet
  /-- reading again what was read gives the same -/
  again : ∀ v d, ofJson v room = .ok d → ofJson d.toJson room = .ok d
  /-- data that were read and written are read and written as they are -/
  idempotent : ∀ v w, rewritten v room = .ok w → rewritten w room = .ok w

/-- **A definition comes back from its data in normal form**, and what was read from data comes back as it was. -/
theorem ofJson_normalises (room : ℕ) : Normalises room where
  back := by
    intro d
    refine ⟨d.normalised, Definition.ofJson_toJson d room, rfl, ?_, withBlank_of_notMem⟩
    intro h
    exact congrArg alphabet (Normal.normalised_eq h)
  same_iff := by
    intro d
    rw [Definition.ofJson_toJson, Except.ok.injEq]
    exact normalised_eq_iff
  read_iff := by
    intro d
    constructor
    · rintro ⟨v, hv⟩
      exact normal_of_ofJson hv
    · intro h
      exact ⟨d.toJson, Normal.ofJson_toJson h room⟩
  again := fun v d h => (normal_of_ofJson h).ofJson_toJson room
  idempotent := by
    intro v w h
    obtain ⟨d, hd, rfl⟩ := rewritten_eq_ok h
    rw [rewritten, (normal_of_ofJson hd).ofJson_toJson]
    rfl

/-- the blank symbol joins the alphabet, and a symbol that is listed twice stays -/
example : ofJson (toJson ⟨["a", "a"], ["1", "1"], "_", "a", "", []⟩) =
    .ok ⟨["a", "a"], ["1", "1", "_"], "_", "a", "", []⟩ := by
  rw [Definition.ofJson_toJson]
  decide

end Definition
end TapeMachine
