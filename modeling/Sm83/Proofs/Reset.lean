import Sm83.Bench
import Sm83.Proofs.LogErasure

/-! # Resetting

A machine that is reset cannot be told from a new one.

* **Orders and the log.** What is ordered of a machine without a log is done as with one
  (`Machine.obey_unlogged`).  The setup of a machine never changes (`Machine.setup_obey`), so a
  reset leaves the machine as it was built, its log apart (`Machine.unlogged_reset`).
* **Sights.** `bench.sights handle actions` is what a host sees as it does some things: what it is
  told, the states of the core and of the bus, and the stop line that it has kept.  Benches that
  match show the same (`Matches.sights_eq`).
* **Main statement.** `renewed_of_reaches`: whatever was done to a machine before it is reset, it
  shows what a new machine shows, to a host that has kept its stop line from the beginning. -/

namespace Sm83

variable {δ : Type}

/-! ### Machines -/

theorem Computer.perform_unlogged {α β : Type} (operation : β → Reply β α) (s : Computer β) :
    s.unlogged.perform operation =
      ((s.perform operation).1, (s.perform operation).2.unlogged) := by
  obtain ⟨cpu, board⟩ := s
  simp only [Computer.perform, Computer.unlogged, Computer.mapBoard, board.perform_unlogged]

/-- A run sees the stop line before it does anything else. -/
theorem Computer.run_of_raised {β : Type} [Device β] {s : Computer β}
    (raised : s.board.stopRaised = true) {limit : Option Nat} (asked : limit ≠ some 0)
    (fuel : Nat) :
    s.run (fuel + 1) limit = some (.ok ⟨{}, .interrupted⟩, s.close .interrupted) := by
  have left : limit.any (· ≤ 0) = false := by
    cases limit with
    | none => rfl
    | some k => simpa using asked
  exact (Plays.ended (.interrupted left raised)).runFrom_eq (Nat.succ_pos fuel)

namespace Machine

variable {m t : Machine δ}

/-- The machine with an empty log that keeps nothing. -/
def unlogged (m : Machine δ) : Machine δ := { m with computer := m.computer.unlogged }

theorem mapComputer_unlogged {α : Type} {f : Computer (SystemBus δ) → α × Computer (SystemBus δ)}
    (erases : ∀ s, f s.unlogged = ((f s).1, (f s).2.unlogged)) (m : Machine δ) :
    m.unlogged.mapComputer f = ((m.mapComputer f).1, (m.mapComputer f).2.unlogged) := by
  obtain ⟨setup, computer⟩ := m
  simp only [mapComputer, unlogged, erases computer]

theorem telling_unlogged {α : Type} (tell : α → Told δ) (left : α × Machine δ) :
    telling tell (left.1, left.2.unlogged) =
      ((telling tell left).1, (telling tell left).2.unlogged) := rfl

theorem onBus_unlogged {α : Type} (operation : SystemBus δ → Reply (SystemBus δ) α)
    (m : Machine δ) :
    m.unlogged.onBus operation = ((m.onBus operation).1, (m.onBus operation).2.unlogged) :=
  mapComputer_unlogged (Computer.perform_unlogged operation) m

section devices
variable [Device δ]

theorem run_unlogged (fuel : Nat) (limit : Option Nat) (m : Machine δ) :
    m.unlogged.run fuel limit =
      (m.run fuel limit).map fun left => (left.1, left.2.unlogged) := by
  obtain ⟨setup, computer⟩ := m
  simp only [run, unlogged, computer.run_unlogged]
  cases computer.run fuel limit <;> rfl

theorem run_of_raised (raised : m.computer.board.stopRaised = true) {limit : Option Nat}
    (asked : limit ≠ some 0) (fuel : Nat) :
    m.run (fuel + 1) limit =
      some (.ok ⟨{}, .interrupted⟩, { m with computer := m.computer.close .interrupted }) := by
  rw [run, Computer.run_of_raised raised asked fuel]

theorem nextLine_unlogged (m : Machine δ) :
    m.unlogged.nextLine = (m.nextLine.1, m.nextLine.2.unlogged) := by
  refine mapComputer_unlogged (fun s => ?_) m
  simp only [Computer.cpu_unlogged, Computer.interact_unlogged]

/-- **The log is not looked at**, whatever the host orders. -/
theorem obey_unlogged (m : Machine δ) (order : Order δ) :
    m.unlogged.obey order = (m.obey order).map fun left => (left.1, left.2.unlogged) := by
  cases order with
  | step =>
    have step : m.unlogged.step = (m.step.1, m.step.2.unlogged) :=
      mapComputer_unlogged Computer.step_unlogged m
    simp only [obey, step, telling_unlogged, Option.map_some]
  | run fuel limit =>
    simp only [obey, run_unlogged, Option.map_map]
    rfl
  | resume | setRegs | setIme | setHalted | bank | bankCount | reset => rfl
  | read | write | tick | select | request | attach =>
    simp only [obey, onBus_unlogged, telling_unlogged, Option.map_some]
  | nextLine => simp only [obey, nextLine_unlogged, telling_unlogged, Option.map_some]

theorem setup_obey {order : Order δ} {told : Told δ} (h : m.obey order = some (told, t)) :
    t.setup = m.setup := by
  cases order with
  | run fuel limit =>
    obtain ⟨setup, computer⟩ := m
    simp only [obey, run] at h
    cases returned : computer.run fuel limit with
    | none =>
      rw [returned] at h
      cases h
    | some left =>
      rw [returned] at h
      obtain ⟨-, rfl⟩ := Prod.mk.inj (Option.some.inj h)
      rfl
  | _ =>
    obtain ⟨-, rfl⟩ := Prod.mk.inj (Option.some.inj h)
    rfl

end devices

/-- A reset leaves a machine as it was built. -/
theorem unlogged_reset (m : Machine δ) (threshold : Option Level) :
    m.reset.unlogged = (ofSetup m.setup threshold : Machine δ).unlogged := rfl

theorem setStop_unlogged (value : Bool) (m : Machine δ) :
    m.unlogged.setStop value = (m.setStop value).unlogged := rfl

end Machine

/-! ### Benches -/

namespace Bench

/-- What a host sees after it did something: what it is told, and the state that is left, in which
the stop line is the one that it has kept.  The log is no part of it. -/
structure Sight (δ : Type) where
  told : Machine.Told δ
  cpu : Cpu
  bus : SystemBus δ
  raised : Bool

variable {bench other t : Bench δ} {handle line : Nat}

/-- What a host sees of a bench. -/
def sight (handle : Nat) (told : Machine.Told δ) (bench : Bench δ) : Sight δ where
  told := told
  cpu := bench.machine.computer.cpu
  bus := bench.machine.computer.board.bus
  raised := bench.raised handle

@[simp] theorem raised_line (bench : Bench δ) :
    bench.raised bench.line = bench.machine.computer.board.stopRaised := if_pos rfl

theorem kept_setLine (bench : Bench δ) (value : Bool) :
    (bench.setLine line value).line = bench.line ∧
      (bench.setLine line value).machine.setup = bench.machine.setup := by
  unfold setLine
  split
  · exact ⟨rfl, rfl⟩
  · exact ⟨rfl, rfl⟩

/-- Whether the machines on two benches are the same, logs apart.  They may have different lines. -/
def Matches (bench other : Bench δ) : Prop := bench.machine.unlogged = other.machine.unlogged

namespace Matches

theorem computer (h : bench.Matches other) :
    bench.machine.computer.unlogged = other.machine.computer.unlogged :=
  congrArg Machine.computer h

theorem raised (h : bench.Matches other) :
    bench.raised bench.line = other.raised other.line := by
  obtain ⟨-, -, stop⟩ := Computer.unlogged_eq_iff.mp h.computer
  rw [raised_line, raised_line, stop]

theorem setLine (h : bench.Matches other) (value : Bool) :
    (bench.setLine bench.line value).Matches (other.setLine other.line value) := by
  rw [Matches, Bench.setLine, if_pos rfl, Bench.setLine, if_pos rfl]
  change (bench.machine.setStop value).unlogged = (other.machine.setStop value).unlogged
  rw [← Machine.setStop_unlogged, h, Machine.setStop_unlogged]

theorem sight (h : bench.Matches other) (told : Machine.Told δ) :
    bench.sight bench.line told = other.sight other.line told := by
  obtain ⟨cpu, bus, -⟩ := Computer.unlogged_eq_iff.mp h.computer
  rw [Bench.sight, Bench.sight, cpu, bus, h.raised]

end Matches

variable [Device δ] {action : Action δ} {told : Machine.Told δ}

/-- Whatever is done, the machine keeps its stop line and its setup. -/
theorem kept_act (h : bench.act handle action = some (told, t)) :
    t.line = bench.line ∧ t.machine.setup = bench.machine.setup := by
  cases action with
  | order order =>
    obtain ⟨⟨told', machine⟩, obeyed, left⟩ := Option.map_eq_some_iff.mp h
    obtain ⟨-, rfl⟩ := Prod.mk.inj left
    exact ⟨rfl, Machine.setup_obey obeyed⟩
  | raise | lower =>
    obtain ⟨-, rfl⟩ := Prod.mk.inj (Option.some.inj h)
    exact bench.kept_setLine _
  | look =>
    obtain ⟨-, rfl⟩ := Prod.mk.inj (Option.some.inj h)
    exact ⟨rfl, rfl⟩

/-- The benches that can be reached from a bench, through any handles. -/
inductive Reaches (start : Bench δ) : Bench δ → Prop
  | refl : Reaches start start
  | act {mid t : Bench δ} (handle : Nat) {action : Action δ} {told : Machine.Told δ} :
      Reaches start mid → mid.act handle action = some (told, t) → Reaches start t

theorem Reaches.kept (h : bench.Reaches t) :
    t.line = bench.line ∧ t.machine.setup = bench.machine.setup := by
  induction h with
  | refl => exact ⟨rfl, rfl⟩
  | act handle _ done ih =>
    obtain ⟨line, setup⟩ := kept_act done
    exact ⟨line.trans ih.1, setup.trans ih.2⟩

/-! ### Sights -/

/-- What a host sees as it does some things one after the other.  It sees nothing more once a run
gives up. -/
def sights (handle : Nat) : Bench δ → List (Action δ) → List (Option (Sight δ))
  | _, [] => []
  | bench, action :: rest =>
    match bench.act handle action with
    | none => [none]
    | some (told, bench) => some (bench.sight handle told) :: sights handle bench rest

namespace Matches

/-- Through their own lines, benches that match do the same. -/
theorem act (h : bench.Matches other) (action : Action δ) :
    (bench.act bench.line action = none ∧ other.act other.line action = none) ∨
      ∃ told s t, bench.act bench.line action = some (told, s) ∧
        other.act other.line action = some (told, t) ∧ s.Matches t := by
  cases action with
  | raise | lower => exact .inr ⟨_, _, _, rfl, rfl, h.setLine _⟩
  | look =>
    refine .inr ⟨_, _, _, rfl, ?_, h⟩
    rw [Bench.act, h.raised]
  | order order =>
    have same := (bench.machine.obey_unlogged order).symm.trans
      ((congrArg (·.obey order) h).trans (other.machine.obey_unlogged order))
    cases mine : bench.machine.obey order with
    | none =>
      rw [mine] at same
      have theirs := Option.map_eq_none_iff.mp same.symm
      exact .inl ⟨by rw [Bench.act, mine]; rfl, by rw [Bench.act, theirs]; rfl⟩
    | some left =>
      obtain ⟨told, machine⟩ := left
      rw [mine] at same
      obtain ⟨⟨told', machine'⟩, theirs, alike⟩ := Option.map_eq_some_iff.mp same.symm
      obtain ⟨rfl, machines⟩ := Prod.mk.inj alike
      exact .inr ⟨told', { bench with machine := machine }, { other with machine := machine' },
        by rw [Bench.act, mine]; rfl, by rw [Bench.act, theirs]; rfl, machines.symm⟩

/-- **Matching benches cannot be told apart** through their own lines. -/
theorem sights_eq (h : bench.Matches other) (actions : List (Action δ)) :
    bench.sights bench.line actions = other.sights other.line actions := by
  induction actions generalizing bench other with
  | nil => rfl
  | cons action rest ih =>
    rcases h.act action with ⟨mine, theirs⟩ | ⟨told, s, t, mine, theirs, left⟩
    · rw [sights, sights, mine, theirs]
    · have line := (kept_act mine).1
      have line' := (kept_act theirs).1
      rw [sights, sights, mine, theirs]
      dsimp only
      rw [← line, ← line', left.sight told, ih left]

end Matches

/-! ### Resetting -/

/-- A machine that has been reset, to a host that has kept its line from the beginning. -/
structure Renewed (setup : Setup) (handle : Nat) (bench : Bench δ) : Prop where
  resets : ∀ line, bench.act line (.order .reset) = some (.nothing, bench.reset)
  /-- The machine still has the line that the host has kept, and only this line is lowered. -/
  line : bench.line = handle ∧ bench.reset.line = handle
  lowered : bench.reset.raised handle = false
  others : ∀ line ≠ handle, bench.reset.raised line = bench.raised line
  /-- Core and bus are those of a machine that is built, and show the same ever after. -/
  rebuilt : ∀ threshold line others, bench.reset.Matches (build setup threshold line others)
  sights : ∀ threshold line others actions, bench.reset.sights handle actions =
    (build setup threshold line others).sights line actions
  /-- Raising the line ends the next run at once, whatever was done in between. -/
  controls : ∀ t, bench.reset.Reaches t → ∀ fuel limit, limit ≠ some 0 →
    ∃ u, (t.setLine handle true).act handle (.order (.run (fuel + 1) limit)) =
        some (.result (.ok ⟨{}, .interrupted⟩), u) ∧
      u.machine.computer.cpu = t.machine.computer.cpu ∧ u.raised handle = false

variable {setup : Setup} {threshold : Option Level} {others : Nat → Bool}

/-- A raised line ends a run of the machine that it belongs to. -/
theorem act_run_of_raised (own : bench.line = handle) (fuel : Nat) {limit : Option Nat}
    (asked : limit ≠ some 0) :
    ∃ u, (bench.setLine handle true).act handle (.order (.run (fuel + 1) limit)) =
        some (.result (.ok ⟨{}, .interrupted⟩), u) ∧
      u.machine.computer.cpu = bench.machine.computer.cpu ∧ u.raised handle = false := by
  subst own
  have run := Machine.run_of_raised (m := bench.machine.setStop true) rfl asked fuel
  refine ⟨{ bench with machine := { bench.machine with
    computer := (bench.machine.setStop true).computer.close .interrupted } }, ?_, rfl, ?_⟩
  · rw [setLine, if_pos rfl, act, Machine.obey, run]
    rfl
  · exact raised_line { bench with machine := _ }

/-- **A reset machine is as good as new**: whatever was done to a machine, through any handles,
after a reset it shows what a new machine of the same setup shows, its stop line is low, and it is
still the line that the host has kept. -/
theorem renewed_of_reaches (h : (build setup threshold line others).Reaches bench) :
    Renewed setup line bench := by
  obtain ⟨rfl, rfl⟩ := h.kept
  have rebuilt (threshold : Option Level) (line : Nat) (others : Nat → Bool) :
      bench.reset.Matches (build bench.machine.setup threshold line others) :=
    bench.machine.unlogged_reset threshold
  refine ⟨fun _ => rfl, ⟨rfl, rfl⟩, raised_line bench.reset, fun line foreign => ?_, rebuilt,
    fun threshold line others actions => (rebuilt threshold line others).sights_eq actions,
    fun t later fuel limit asked => act_run_of_raised later.kept.1 fuel asked⟩
  exact (if_neg foreign).trans (if_neg foreign).symm

/-- A machine with a program that enables interrupts. -/
def enabling : Setup := { rom := ⟨#[0xFB, 0x00]⟩, entryPoint := 0 }

/-- The machine that is reset has executed EI and has been told of a request, and its line is
raised. -/
theorem renewed_of_reaches_enabling : ∃ bench : Bench Empty,
    bench.machine.computer.cpu.enableDelay = true ∧
      bench.machine.computer.board.bus.requested = Interrupt.timer.mask ∧ bench.raised 5 = true ∧
      Renewed enabling 5 bench := by
  let start : Bench Empty := build enabling none 5 fun _ => false
  let stepped : Bench Empty := { start with machine := start.machine.step.2 }
  let requested : Bench Empty := { stepped with
    machine := (stepped.machine.onBus fun bus => ⟨(), bus.request .timer, []⟩).2 }
  have step : start.act 5 (.order .step) = some (.cycles start.machine.step.1, stepped) := rfl
  have request : stepped.act 5 (.order (.request .timer)) = some (.nothing, requested) := rfl
  have raise : requested.act 5 .raise = some (.nothing, requested.setLine 5 true) := rfl
  have reached := Reaches.act 5 (.act 5 (.act 5 .refl step) request) raise
  refine ⟨requested.setLine 5 true, ?_, ?_, rfl, renewed_of_reaches reached⟩
  · decide +kernel
  · decide +kernel

end Bench

end Sm83
