/-
One run, live or straight to the end, and the evaluation.

All three walk the same path of snapshots. Straight to the end the machine makes the steps that the cap allows, and the
evaluation the same ones; live it makes one for each tick that it is watched for. A machine that has halted stays where
it is, so what halts under the cap halts live as well, after as many ticks at the latest as the cap has steps
(`SetUp.endsAt_live`). Exit code, last panel and last line are read off the last snapshot (`EndsAt`), so they agree
(`oneShot_agrees`).

Only a live run looks at the interval between two steps. A whole number of milliseconds beyond the 64-bit format passes
for a longest interval, but there is no thousandth of it: the run straight to the end goes through with such settings,
and the live run ends in a fault before its first step (`endless_live`).
-/
import TapeMachine.Console.Simulator
import TapeMachine.Proofs.Evaluation
import TapeMachine.Proofs.LiveRun

namespace TapeMachine

/-! ## The console -/

/-- a console that can show every output -/
def Console.ShowsAll (c : Console) : Prop := ∀ o, c.shows o = true

theorem Console.showsAll : ShowsAll {} := by
  intro o
  cases o <;> rfl

theorem Report.on_eq {c : Console} (hall : c.ShowsAll) (r : Report) : r.on c = r := by
  have hnone : r.shown.find? (fun o => !c.shows o) = none := List.find?_eq_none.2 fun o _ => by rw [hall o]; decide
  rw [Report.on, hnone]

namespace Simulator

open Engine

theorem oneShot_eq {c : Config} {g : Given} {h : Host} (hall : h.console.ShowsAll) : oneShot c g h = oneRun c g h :=
  Report.on_eq hall _

/-! ## What a run reports -/

/-- the exit code for a status -/
def exitCode : Status → ℤ
  | .accepted => 0
  | .error => 2
  | _ => 3

/-- the line that is said in the end: of an accepted machine the steps and the output, of one that is stuck the state,
the symbol under the head and the steps, and of any other the steps -/
def closing (s : Summary) (symbol : Option Text) : Output :=
  match s.status with
  | .accepted => .coloured "green" ("Accepted after " ++ toString s.steps ++ " steps. Output: " ++ s.output)
  | .error =>
    let place := "(" ++ s.state ++ ", " ++ (symbol.map Text.quoted).getD "None" ++ ")"
    .coloured "red" ("No transition for " ++ place ++ " after " ++ toString s.steps ++ " steps.")
  | _ => .coloured "yellow" ("Stopped without halting after " ++ toString s.steps ++ " steps.")

theorem verdict_eq {e : Engine} {d : Definition} (hd : e.definition = some d) (input : Option Text) :
    verdict e = (closing (e.snapshot.summary d input) e.snapshot.cell?, exitCode e.snapshot.status) := by
  have hout : e.output = e.snapshot.output (some d.blank) := by simp only [Engine.output, hd]
  cases hs : e.snapshot.status <;> simp only [verdict, closing, exitCode, Snapshot.summary, hs, hout]

/-- the panel that is shown in the end -/
def lastPanel (c : Config) (d : Definition) (input : Text) (q : Snapshot) : Panel :=
  Panel.ofSnapshot q (some d) input (c.intAt "render_window") none

/-- one run of a machine that ends with the snapshot `q`, when it has shown `shown`, and what is reported then -/
structure EndsAt (c : Config) (g : Given) (h : Host) (d : Definition) (input : Text) (shown : List Output)
    (q : Snapshot) : Prop where
  run : ∃ s₀ s₁ s out, shell c g h = .ok s₀ ∧ s₀.load d input = (s₁, out, .ok true) ∧ drive s₁ g = (s, shown, .ok ()) ∧
    s.engine.snapshot = q
  report : ∃ disk, oneShot c g h =
    { exit := some (exitCode q.status)
      shown := shown ++ [.panel (lastPanel c d input q), closing (q.summary d (some input)) q.cell?]
      disk }

section Runs

variable {c : Config} {g : Given} {h : Host} {d : Definition} {input : Text} {journal : Option Journal} {disk : Disk}

/-- a shell with its settings, a definition with an input, and no message -/
structure Holds (c : Config) (d : Definition) (input : Text) (s : Shell) : Prop where
  config : s.config = c
  definition : s.engine.definition = some d
  input : s.engine.input = input
  error : s.error = none

theorem Holds.panel {s : Shell} (hs : Holds c d input s) : s.panel = lastPanel c d input s.engine.snapshot := by
  rw [Shell.panel, Shell.panelOf, Shell.window, hs.config, hs.definition, hs.input, hs.error]
  rfl

theorem Holds.endsAt {s₀ s₁ s : Shell} {out shown : List Output} (hs : Holds c d input s)
    (hall : h.console.ShowsAll) (hsel : selection g h.disk = .ok (d, input)) (hshell : shell c g h = .ok s₀)
    (hload : s₀.load d input = (s₁, out, .ok true)) (hdrive : drive s₁ g = (s, shown, .ok ())) :
    EndsAt c g h d input shown s.engine.snapshot := by
  refine ⟨⟨s₀, s₁, s, out, hshell, hload, hdrive, rfl⟩, s.engine.disk, ?_⟩
  simp only [oneShot_eq hall, oneRun, hsel, hshell, runOnce, hload, hdrive, verdict_eq hs.definition (some input),
    hs.panel]

/-! ## The shell of a run -/

/-- a run that is set up: its settings are accepted, its definition can start, its speed is a number if one is given,
the log takes every entry, and the console shows all that it is given -/
structure SetUp (c : Config) (g : Given) (h : Host) (d : Definition) (input : Text) : Prop where
  config : c.validate = .ok ()
  definition : d.validate = .ok ()
  selected : selection g h.disk = .ok (d, input)
  speed : ∀ got, Arguments.whole? g "speed" ≠ some (.error got)
  logs : ∃ journal disk, Shell.makeJournal c h = .ok (journal, disk) ∧
    ∀ e, Shell.makeEngine c h = .ok e → e.LogsAll
  console : h.console.ShowsAll

theorem SetUp.accepted (hu : SetUp c g h d input) : c.Accepted := c.validate_eq_ok_iff.1 hu.config

theorem SetUp.valid (hu : SetUp c g h d input) : d.Valid := d.validate_ok_iff.1 hu.definition

/-- it takes no more to watch it for longer -/
theorem SetUp.patient (hu : SetUp c g h d input) (patience : ℕ) : SetUp c g { h with patience } d input :=
  ⟨hu.config, hu.definition, hu.selected, hu.speed, hu.logs, hu.console⟩

/-- the speed of a run: the one that is given, in its range, or else the one of the settings -/
def speedOf (c : Config) (g : Given) : Number :=
  match Arguments.whole? g "speed" with
  | some (.ok n) => clampSpeed (.whole n)
  | _ => .whole (c.intAt "default_speed")

/-- the least interval of the settings is not too large for the 64-bit format -/
def FloorFits (c : Config) : Prop := (Seconds.ofMillis? (.whole (c.intAt "min_interval_ms"))).isSome = true

instance (c : Config) : Decidable (FloorFits c) := inferInstanceAs (Decidable (_ = true))

/-- what a run needs beyond its settings: a least interval that fits, and room for the padding -/
def Ready (c : Config) (h : Host) : Prop :=
  FloorFits c ∧ (Padding.cells (c.intAt "tape_buffer")).count h.room = .ok (c.intAt "tape_buffer")

theorem make_of_fits (hc : c.Accepted) (hfits : FloorFits c) (loop : Bool) (disk : Disk) (clock : Clock) :
    Engine.make c loop disk clock = .ok (ofSettings c loop disk clock) := by
  rw [make_of_accepted hc]
  exact if_pos hfits

theorem make_of_not_fits (hc : c.Accepted) (hfits : ¬ FloorFits c) (loop : Bool) (disk : Disk) (clock : Clock) :
    Engine.make c loop disk clock = .error .quotientTooLarge := by
  rw [make_of_accepted hc]
  exact if_neg hfits

theorem makeEngine_eq (hc : c.Accepted) (hfits : FloorFits c) (hj : Shell.makeJournal c h = .ok (journal, disk)) :
    Shell.makeEngine c h = .ok { ofSettings c true disk h.clock with journal, room := h.room } := by
  have hm := make_of_fits hc hfits true disk h.clock
  simp only [Shell.makeEngine, hj, hm, Except.mapError, bind, Except.bind, pure, Except.pure]

/-- the shell of a run, before its machine is loaded -/
def newShell (c : Config) (g : Given) (h : Host) (journal : Option Journal) (disk : Disk) : Shell where
  config := c
  engine := { ofSettings c true disk h.clock with journal, room := h.room }
  speed := speedOf c g
  interrupts := h.interrupts
  patience := h.patience

theorem shell_eq (hc : c.Accepted) (hfits : FloorFits c)
    (hspeed : ∀ got, Arguments.whole? g "speed" ≠ some (.error got))
    (hj : Shell.makeJournal c h = .ok (journal, disk)) : shell c g h = .ok (newShell c g h journal disk) := by
  have hmake := makeEngine_eq hc hfits hj
  unfold shell Shell.make newShell speedOf
  rw [hmake]
  cases hs : Arguments.whole? g "speed" with
  | none => rfl
  | some x =>
    cases x with
    | ok n => rfl
    | error got => exact absurd hs (hspeed got)

theorem SetUp.shell_eq (hu : SetUp c g h d input) (hfits : FloorFits c)
    (hj : Shell.makeJournal c h = .ok (journal, disk)) : shell c g h = .ok (newShell c g h journal disk) :=
  Simulator.shell_eq hu.accepted hfits hu.speed hj

/-- without a least interval there is no engine -/
theorem SetUp.shell_of_not_fits (hu : SetUp c g h d input) (hfits : ¬ FloorFits c) : ∃ f, shell c g h = .error f := by
  obtain ⟨journal, disk, hj, -⟩ := hu.logs
  have hm := make_of_not_fits hu.accepted hfits true disk h.clock
  refine ⟨.operand .quotientTooLarge, ?_⟩
  simp only [shell, Shell.make, Shell.makeEngine, hj, hm, Except.mapError, bind, Except.bind]

/-! ## Runs that end -/

/-- the snapshot that a run starts from -/
def firstSnapshot (c : Config) (d : Definition) (input : Text) : Snapshot :=
  Snapshot.fresh d input (c.intAt "tape_buffer")

/-- the shell of a run with its machine loaded -/
structure Loaded (c : Config) (g : Given) (h : Host) (d : Definition) (input : Text) (s : Shell) : Prop where
  holds : Holds c d input s
  speed : s.speed = speedOf c g
  interrupts : s.interrupts = h.interrupts
  patience : s.patience = h.patience
  snapshot : s.engine.snapshot = firstSnapshot c d input
  cap : s.engine.cap = some (.ok (c.intAt "max_steps"))
  prepared : Prepared (c.intAt "tape_buffer") s.engine
  attended : Attended Mute (c.intAt "tape_buffer") d s.engine

theorem SetUp.loads (hu : SetUp c g h d input) (hready : Ready c h) :
    ∃ s₀ s₁ : Shell, shell c g h = .ok s₀ ∧ s₀.load d input = (s₁, [], .ok true) ∧ Loaded c g h d input s₁ := by
  obtain ⟨journal, disk, hj, hl⟩ := hu.logs
  obtain ⟨hfits, hroom⟩ := hready
  have hm := make_of_fits hu.accepted hfits true disk h.clock
  have hp : Prepared (c.intAt "tape_buffer") (newShell c g h journal disk).engine :=
    prepared_of_make hu.accepted hm hroom (hl _ (makeEngine_eq hu.accepted hfits hj))
  have hmute : Mute (newShell c g h journal disk).engine.subscribers (newShell c g h journal disk).engine.scripts :=
    List.forall_mem_nil _
  have hands := loadDefinition_handsOn Engine.notify hu.valid hp.sound.logs hp.sound.room input
  obtain ⟨e, hload, hsnap, -, hinput, hmake, he⟩ := hands.attended notify_watches hp.sound rfl hmute fun _ hrec =>
    .load d _ _ hu.valid hp.sound.room hrec
  refine ⟨_, { newShell c g h journal disk with engine := e, error := none }, hu.shell_eq hfits hj, ?_, ?_⟩
  · simp only [Shell.load, hload, done]
  · exact ⟨⟨rfl, he.definition, hinput, rfl⟩, rfl, rfl, rfl, hsnap, hmake.cap, hp.sameMake he.sound hmake, he⟩

/-- straight to the end: as many steps as the cap allows -/
theorem Loaded.batch {s : Shell} (hs : Loaded c g h d input s) (hlive : Arguments.isPresent g "live" = false) {m : ℤ}
    (hcap : (Arguments.whole? g "max-steps").or (some (.ok (c.intAt "max_steps"))) = some (.ok m)) :
    ∃ s' : Shell, drive s g = (s', [], .ok ()) ∧ Holds c d input s' ∧
      advanceN d d.table m.toNat (firstSnapshot c d input) = some s'.engine.snapshot := by
  have hsteps : 0 ≤ s.engine.snapshot.steps := by
    rw [hs.snapshot]
    exact le_rfl
  have hsettled : s.engine.snapshot.settled = firstSnapshot c d input := by
    rw [hs.snapshot]
    rfl
  obtain ⟨e, hrun, hadv, hinput, he⟩ := hs.attended.runUntilHalt notify_watches hsteps (by rw [hs.cap]; exact hcap)
  refine ⟨{ s with engine := e }, ?_, ⟨hs.holds.config, he.definition, hinput.trans hs.holds.input, hs.holds.error⟩, ?_⟩
  · simp only [drive, hlive, hrun, done, Except.map, Bool.false_eq_true, if_false]
  · rw [← hsettled, hadv]

/-- live: one step for each tick that the machine is watched for -/
theorem Loaded.live {s : Shell} (hs : Loaded c g h d input s) (hlive : Arguments.isPresent g "live" = true)
    {interval : Seconds} (hi : c.interval (.number (speedOf c g)) = .ok interval)
    (hno : h.interrupts.head?.join = none) :
    ∃ (s' : Shell) (frames : List Panel), drive s g = (s', [.live frames], .ok ()) ∧ Holds c d input s' ∧
      advanceN d d.table h.patience (firstSnapshot c d input).woken = some s'.engine.snapshot := by
  have hr : s.engine.snapshot.status ≠ .running := by
    rw [hs.snapshot]
    intro hr
    cases hr
  have hinterval : s.interval = .ok interval := by
    rw [Shell.interval, hs.holds.config, hs.speed, hi]
    rfl
  obtain ⟨e, frames, hrun, hadv, hinput, hdef⟩ := hs.attended.runOrPause hs.prepared hr hinterval
    (by rw [hs.interrupts]; exact hno)
  rw [hs.patience, hs.snapshot] at hadv
  refine ⟨{ s with engine := e, interrupts := s.interrupts.tail }, frames, ?_,
    ⟨hs.holds.config, hdef, hinput.trans hs.holds.input, hs.holds.error⟩, hadv⟩
  simp only [drive, hlive, hrun, Except.map, if_true]

/-! ## Runs that come to no end -/

/-- the evaluation of the machine of a run, under the same cap and in the same room -/
def evaluation (c : Config) (g : Given) (h : Host) (d : Definition) (input : Text) : Except Fault Summary :=
  evaluate c d (some input) (Arguments.whole? g "max-steps") h.room

theorem count_cells (room : Option ℕ) (k : ℤ) :
    (Padding.cells k).count room = .ok k ∨ ∃ f, (Padding.cells k).count room = .error f := by
  unfold Padding.count Padding.fit
  cases room with
  | none => exact Or.inl rfl
  | some most =>
    simp only
    split_ifs
    · exact Or.inr ⟨_, rfl⟩
    · exact Or.inr ⟨_, rfl⟩
    · exact Or.inl rfl

theorem loadDefinition_of_no_room (notify : Engine → Snapshot → Outcome Unit) {e : Engine} (hd : d.Valid)
    {f : OperandFault} (hn : e.padding.count e.room = .error f) (input : Text) :
    (loadDefinition notify e d input).result = .error (.operand f) := by
  have hv : d.validate = .ok () := d.validate_ok_iff.2 hd
  have hn' : (e.equip d input).padding.count (e.equip d input).room = .error f := hn
  simp only [loadDefinition, hv, hn']
  rfl

/-- without it a run ends in a fault, and so does the evaluation -/
theorem SetUp.not_ready (hu : SetUp c g h d input) (hready : ¬ Ready c h) :
    (∃ f, evaluation c g h d input = .error f) ∧ (oneShot c g h).exit = none := by
  have hsel := hu.selected
  by_cases hfits : FloorFits c
  · obtain ⟨f, hf⟩ := (count_cells h.room (c.intAt "tape_buffer")).resolve_left fun hroom => hready ⟨hfits, hroom⟩
    have hm := make_of_fits hu.accepted hfits false {} Clock.origin
    have hnone : ∀ e : Engine, e.padding = .cells (c.intAt "tape_buffer") → e.room = h.room →
        (loadDefinition Engine.notify e d input).result = .error (.operand f) := by
      intro e hp hr
      refine loadDefinition_of_no_room Engine.notify hu.valid ?_ input
      rw [hp, hr]
      exact hf
    refine ⟨⟨.operand f, ?_⟩, ?_⟩
    · have hload := hnone { ofSettings c false {} Clock.origin with room := h.room } rfl rfl
      simp only [evaluation, evaluate, hm, Except.mapError, bind, Except.bind, Option.getD_some, hload]
    · obtain ⟨journal, disk, hj, -⟩ := hu.logs
      have hload := hnone (newShell c g h journal disk).engine rfl rfl
      simp only [oneShot_eq hu.console, oneRun, hsel, hu.shell_eq hfits hj, runOnce, Shell.load, hload]
  · obtain ⟨f, hshell⟩ := hu.shell_of_not_fits hfits
    have hm := make_of_not_fits hu.accepted hfits false {} Clock.origin
    refine ⟨⟨.operand .quotientTooLarge, ?_⟩, ?_⟩
    · simp only [evaluation, evaluate, hm, Except.mapError, bind, Except.bind]
    · simp only [oneShot_eq hu.console, oneRun, hsel, hshell]

/-- a live run whose interval does not fit ends at its first frame, in a fault -/
theorem SetUp.oneShot_of_no_interval (hu : SetUp c g h d input) (hready : Ready c h)
    (hlive : Arguments.isPresent g "live" = true) {f : OperandFault}
    (hi : c.interval (.number (speedOf c g)) = .error f) :
    (oneShot c g h).exit = none ∧ (oneShot c g h).fault = some (.engine (.operand f)) := by
  obtain ⟨s₀, s₁, hshell, hload, hs₁⟩ := hu.loads hready
  have hinterval : s₁.interval = .error (.operand f) := by
    rw [Shell.interval, hs₁.holds.config, hs₁.speed, hi]
    rfl
  have hreport : oneShot c g h =
      { shown := [.live [s₁.panelOf s₁.engine.snapshot none]]
        fault := some (.engine (.operand f))
        disk := s₁.engine.disk } := by
    simp only [oneShot_eq hu.console, oneRun, hu.selected, hshell, runOnce, hload, drive, hlive, if_true,
      Live.runOrPause, Live.run, hinterval, Except.map]
  rw [hreport]
  exact ⟨rfl, rfl⟩

/-! ## Agreement -/

/-- every live run of a machine that is left to itself, at a speed whose interval fits, ends with the snapshot `q` once
it is watched for long enough -/
def LiveRunsEnd (c : Config) (h : Host) (d : Definition) (input : Text) (q : Snapshot) : Prop :=
  ∀ g, Arguments.isPresent g "live" = true → SetUp c g h d input →
    (∃ i, c.interval (.number (speedOf c g)) = .ok i) → h.interrupts.head?.join = none →
    ∃ bound, ∀ patience, bound ≤ patience → ∃ frames, EndsAt c g { h with patience } d input [.live frames] q

theorem exitCode_eq_zero_iff (q : Status) : exitCode q = 0 ↔ q = .accepted := by
  cases q <;> decide

theorem exitCode_eq_two_iff (q : Status) : exitCode q = 2 ↔ q = .error := by
  cases q <;> decide

theorem exitCode_eq_three_iff (q : Status) : exitCode q = 3 ↔ q ≠ .accepted ∧ q ≠ .error := by
  cases q <;> decide

/-- a machine that has halted stays where it is -/
theorem advanceN_of_le {t : Table} {s q : Snapshot} {k k' : ℕ} (h : advanceN d t k s = some q) (hq : q.halted = true)
    (hle : k ≤ k') : advanceN d t k' s = some q := by
  obtain ⟨i, rfl⟩ := Nat.exists_eq_add_of_le hle
  rw [advanceN_add, h, Option.bind_some, advanceN_of_halted t hq]

/-- a run straight to the end, live runs at every speed, and the evaluation agree -/
structure Agrees (c : Config) (g : Given) (h : Host) (d : Definition) (input : Text) : Prop where
  accepted : (oneShot c g h).exit = some 0 ↔ ∃ s, evaluation c g h d input = .ok s ∧ s.status = .accepted
  stuck : (oneShot c g h).exit = some 2 ↔ ∃ s, evaluation c g h d input = .ok s ∧ s.status = .error
  stopped : (oneShot c g h).exit = some 3 ↔
    ∃ s, evaluation c g h d input = .ok s ∧ s.status ≠ .accepted ∧ s.status ≠ .error
  returns : Ready c h → ∃ s, evaluation c g h d input = .ok s
  /-- what is shown and said is of the snapshot that the evaluation sums up -/
  ends : ∀ s, evaluation c g h d input = .ok s →
    ∃ q, q.summary d (some input) = s ∧ EndsAt c g h d input [] q
  /-- of a machine that halts the same is shown and said after a live run, at every speed whose interval fits, once it
  is watched for long enough -/
  live : (oneShot c g h).exit = some 0 ∨ (oneShot c g h).exit = some 2 →
    ∃ q, q.halted = true ∧ EndsAt c g h d input [] q ∧ LiveRunsEnd c h d input q

theorem agrees_of_not_ready (hready : ¬ Ready c h) {f : Fault} (heval : evaluation c g h d input = .error f)
    (hexit : (oneShot c g h).exit = none) : Agrees c g h d input := by
  have hno : ∀ {P : Summary → Prop}, ¬ ∃ s, evaluation c g h d input = .ok s ∧ P s := by
    rintro P ⟨s, hs, -⟩
    rw [heval] at hs
    cases hs
  have hnone : ∀ {code : ℤ}, ¬ (oneShot c g h).exit = some code := by
    intro code hcode
    rw [hexit] at hcode
    cases hcode
  refine ⟨iff_of_false hnone hno, iff_of_false hnone hno, iff_of_false hnone hno, fun h => absurd h hready, ?_, ?_⟩
  · intro s hs
    rw [heval] at hs
    cases hs
  · rintro (hcode | hcode)
    · exact absurd hcode hnone
    · exact absurd hcode hnone

theorem EndsAt.exit {shown : List Output} {q : Snapshot} (h' : EndsAt c g h d input shown q) :
    (oneShot c g h).exit = some (exitCode q.status) := by
  obtain ⟨disk, hreport⟩ := h'.report
  rw [hreport]

/-- a live run that is watched for as many ticks as the cap has steps, or for more -/
theorem SetUp.endsAt_live {q : Snapshot} {m : ℕ} (hu : SetUp c g h d input) (hready : Ready c h)
    (hq : advanceN d d.table m (firstSnapshot c d input) = some q) (hh : q.halted = true)
    (hlive : Arguments.isPresent g "live" = true) {interval : Seconds}
    (hi : c.interval (.number (speedOf c g)) = .ok interval) (hno : h.interrupts.head?.join = none)
    (hle : m ≤ h.patience) : ∃ frames, EndsAt c g h d input [.live frames] q := by
  obtain ⟨s₀, s₁, hshell, hload, hs₁⟩ := hu.loads hready
  obtain ⟨s, frames, hdrive, hs, hadv⟩ := hs₁.live hlive hi hno
  have hsame : s.engine.snapshot = q := by
    have hwoken := advanceN_woken (advanceN_of_le hq hh hle)
    rw [Snapshot.woken_of_halted hh, ite_self] at hwoken
    exact Option.some.inj (hadv.symm.trans hwoken)
  rw [← hsame]
  exact ⟨frames, hs.endsAt hu.console hu.selected hshell hload hdrive⟩

theorem agrees_of_endsAt {q : Snapshot} (heval : evaluation c g h d input = .ok (q.summary d (some input)))
    (hends : EndsAt c g h d input [] q) (hlive : q.halted = true → LiveRunsEnd c h d input q) :
    Agrees c g h d input := by
  have hcode : ∀ (code : ℤ) (P : Status → Prop), (exitCode q.status = code ↔ P q.status) →
      ((oneShot c g h).exit = some code ↔ ∃ s, evaluation c g h d input = .ok s ∧ P s.status) := by
    intro code P hP
    rw [hends.exit, Option.some_inj, hP]
    constructor
    · intro hp
      exact ⟨_, heval, hp⟩
    · rintro ⟨s, hs, hp⟩
      obtain rfl := Except.ok.inj (heval.symm.trans hs)
      exact hp
  refine ⟨hcode 0 (· = .accepted) (exitCode_eq_zero_iff _), hcode 2 (· = .error) (exitCode_eq_two_iff _),
    hcode 3 (fun st => st ≠ .accepted ∧ st ≠ .error) (exitCode_eq_three_iff _), fun _ => ⟨_, heval⟩, ?_, ?_⟩
  · intro s hs
    exact ⟨q, Except.ok.inj (heval.symm.trans hs), hends⟩
  · intro hexit
    have hh : q.halted = true := by
      rw [hends.exit, Option.some_inj, Option.some_inj, exitCode_eq_zero_iff, exitCode_eq_two_iff] at hexit
      rw [Snapshot.halted]
      rcases hexit with hst | hst <;> rw [hst] <;> rfl
    exact ⟨q, hh, hends, hlive hh⟩

/-- the cap that is given, or else the one of the settings -/
theorem exists_cap (hcap : ∀ got, Arguments.whole? g "max-steps" ≠ some (.error got)) :
    ∃ m, (Arguments.whole? g "max-steps").or (some (.ok (c.intAt "max_steps"))) = some (.ok m) := by
  cases hw : Arguments.whole? g "max-steps" with
  | none => exact ⟨_, rfl⟩
  | some x =>
    cases x with
    | ok m => exact ⟨m, rfl⟩
    | error got => exact absurd hw (hcap got)

/-- **One run, its live run and the evaluation agree**, for settings that are accepted and a definition that can start.
The numbers on the command line are numbers, the log takes every entry, and the console shows all that it is given. -/
theorem oneShot_agrees (hu : SetUp c g h d input) (hlive : Arguments.isPresent g "live" = false)
    (hcap : ∀ got, Arguments.whole? g "max-steps" ≠ some (.error got)) : Agrees c g h d input := by
  by_cases hready : Ready c h
  · obtain ⟨m, hm⟩ := exists_cap (c := c) hcap
    obtain ⟨s₀, s₁, hshell, hload, hs₁⟩ := hu.loads hready
    obtain ⟨s, hdrive, hs, hadv⟩ := hs₁.batch hlive hm
    have hmake := make_of_fits hu.accepted hready.1 false {} Clock.origin
    obtain ⟨q, hq, heval⟩ := evaluate_freshly hu.valid (some input) hmake hready.2 hu.accepted.buffer hm
    obtain rfl : s.engine.snapshot = q := Option.some.inj (hadv.symm.trans hq)
    refine agrees_of_endsAt heval (hs.endsAt hu.console hu.selected hshell hload hdrive) ?_
    rintro hh g' hlive' hu' ⟨i, hi⟩ hno
    exact ⟨m.toNat, fun patience hle => (hu'.patient patience).endsAt_live hready hadv hh hlive' hi hno hle⟩
  · obtain ⟨⟨f, heval⟩, hexit⟩ := hu.not_ready hready
    exact agrees_of_not_ready hready heval hexit

end Runs

/-! ## Runs of the unary addition -/

/-- without a log there is nothing that refuses an entry -/
theorem logs_of_no_log {c : Config} (hc : c.validate = .ok ()) (hfits : FloorFits c) (hlog : c.logs = false)
    (h : Host) :
    ∃ journal disk, Shell.makeJournal c h = .ok (journal, disk) ∧
      ∀ e, Shell.makeEngine c h = .ok e → e.LogsAll := by
  have hj : Shell.makeJournal c h = .ok (none, h.disk) := by
    rw [Shell.makeJournal, hlog]
    rfl
  refine ⟨none, h.disk, hj, ?_⟩
  intro e he
  rw [makeEngine_eq (c.validate_eq_ok_iff.1 hc) hfits hj] at he
  obtain rfl := Except.ok.inj he
  exact logsAll_of_no_journal rfl

/-- the default settings with a single cell of padding, without a log, and with another longest interval -/
def settingsWith (longest : ℤ) : Config :=
  ((Config.defaults.put "tape_buffer" (.ofInt 1)).put "log_enabled" (.bool false)).put "max_interval_ms"
    (.ofInt longest)

/-- an interval that does not fit the 64-bit format, in milliseconds -/
def endless : ℤ := 10 ^ 200 * 10 ^ 200

def adding : Given := [("preset", .text "Unary Addition"), ("input", .text "1_1")]

def addingLive : Given := adding ++ [("live", .present)]

def host (patience : ℕ) : Host := { disk := {}, clock := Engine.bench.clock, patience }

theorem validate_settingsWith : (settingsWith 1000).validate = .ok () := by with_unfolding_all rfl

theorem logs_settingsWith (h : Host) :
    ∃ journal disk, Shell.makeJournal (settingsWith 1000) h = .ok (journal, disk) ∧
      ∀ e, Shell.makeEngine (settingsWith 1000) h = .ok e → e.LogsAll :=
  logs_of_no_log validate_settingsWith (by decide +kernel) (by with_unfolding_all rfl) h

theorem adding_setUp : SetUp (settingsWith 1000) adding (host 20) Preset.unaryAddition "1_1" := by
  refine ⟨validate_settingsWith, by decide, by with_unfolding_all rfl, ?_, logs_settingsWith _, Console.showsAll⟩
  intro got hgot
  cases hgot

theorem adding_agrees :
    let c := settingsWith 1000
    SetUp c adding (host 20) Preset.unaryAddition "1_1" ∧
      (oneShot c adding (host 20)).exit = some 0 ∧ (oneShot c addingLive (host 20)).exit = some 0 ∧
      (∃ i, c.interval (.number (speedOf c addingLive)) = .ok i) ∧
      Agrees c adding (host 20) Preset.unaryAddition "1_1" := by
  have hcap : ∀ got, Arguments.whole? adding "max-steps" ≠ some (.error got) := by
    intro got hgot
    cases hgot
  exact ⟨adding_setUp, by decide +kernel, by decide +kernel, ⟨_, by with_unfolding_all rfl⟩,
    oneShot_agrees adding_setUp rfl hcap⟩

theorem endless_setUp (patience : ℕ) :
    SetUp (settingsWith endless) addingLive (host patience) Preset.unaryAddition "1_1" := by
  have hc : (settingsWith endless).validate = .ok () := by with_unfolding_all rfl
  refine ⟨hc, by decide, by with_unfolding_all rfl, ?_, ?_, Console.showsAll⟩
  · intro got hgot
    cases hgot
  · exact logs_of_no_log hc (by decide +kernel) (by with_unfolding_all rfl) _

/-- **An interval that does not fit lets the run straight to the end through, but not the live run**, however long it is
watched. -/
theorem endless_live :
    let c := settingsWith endless
    (oneShot c adding (host 20)).exit = some 0 ∧
      ∀ patience, SetUp c addingLive (host patience) Preset.unaryAddition "1_1" ∧
        (oneShot c addingLive (host patience)).exit = none := by
  refine ⟨by decide +kernel, fun patience => ?_⟩
  have hready : Ready (settingsWith endless) (host patience) := ⟨by decide +kernel, rfl⟩
  have hi : (settingsWith endless).interval (.number (speedOf (settingsWith endless) addingLive)) =
      .error .quotientTooLarge := by decide +kernel
  exact ⟨endless_setUp patience, ((endless_setUp patience).oneShot_of_no_interval hready rfl hi).1⟩

end Simulator
end TapeMachine
