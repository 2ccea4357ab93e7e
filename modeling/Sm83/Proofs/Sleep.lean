import Sm83.Proofs.Footprint
import Sm83.Proofs.RunCourse

/-! # Sleep

What a core does while it sleeps, and how it is woken.

* **Two ways.** A core that only steps, runs and resumes is never asleep in both ways at once, on
  whatever boards it does so (`Undisturbed.sleepsOnce`): one step keeps this, and so does a run.
* **Latched registers.** On a bus with `LatchedPolling` cycles that pass leave the two interrupt
  registers as they are, so what was not pending does not become so while the core idles.
* **Sleeping.** With nothing pending a step of a frozen core changes nothing at all (`slot_frozen`),
  and one of a halted core lets four cycles pass (`slot_idle`); any number of steps does this again
  and again (`steps_frozen`, `steps_idle`).
* **Waking.** With something pending a step is that of the core with both ways of sleeping ended
  (`slot_woken`): the entry into the handler (`slot_enabled`), or the instruction at PC
  (`slot_masked`), which alone then writes to the bus (`accesses_masked`).
* **Main statement.** `sleeps_of_undisturbed`: all this on system buses with any devices and on
  flat memory. -/

namespace Sm83

/-! ### The two ways of sleeping -/

/-- The core with the HALT state ended. -/
def Cpu.unhalt (cpu : Cpu) : Cpu := { cpu with halted := false }

theorem Cpu.awake_of_unfrozen {cpu : Cpu} (running : cpu.stopped = false) :
    cpu.awake = cpu.unhalt := by
  obtain ⟨regs, ime, halted, stopped, pending, delay, cycles, instructions⟩ := cpu
  obtain rfl : stopped = false := running
  rfl

/-- Whether a core sleeps in at most one way. -/
def Cpu.SleepsOnce (cpu : Cpu) : Prop := ¬(cpu.halted = true ∧ cpu.stopped = true)

/-- Whatever a slot does, it does not add one way of sleeping to the other. -/
theorem Exec.Course.sleepsOnce {executed : Nat} {cpu after : Cpu} {accesses : List Access}
    {reports : List LogEvent} {outcome : Except StepError Slot}
    (course : Course executed cpu accesses reports outcome after) (once : cpu.SleepsOnce) :
    after.SleepsOnce := by
  rintro ⟨halted, stopped⟩
  cases course with
  | frozen => exact once ⟨halted, stopped⟩
  | entered | faulted => cases halted
  | idled => cases stopped
  | @executed _ _ _ _ _ _ _ _ ins taken left thawed woken masked fetched performed =>
    have control := ensures_perform_control _ _ _ _ _ _ _ performed
    dsimp only at control
    rw [Cpu.halted_finish, control] at halted
    rw [Cpu.stopped_finish, control] at stopped
    have halt := (ins.operation.halted_control rfl).symm.trans halted
    have stop := (ins.operation.stopped_control rfl).symm.trans stopped
    exact absurd ((of_decide_eq_true halt).symm.trans (of_decide_eq_true stop)) nofun

namespace Computer

variable {β : Type} [Device β]

theorem sleepsOnce_slot (executed : Nat) {s : Computer β} (once : s.cpu.SleepsOnce) :
    (s.slot executed).2.cpu.SleepsOnce :=
  (exec_of_ensures (Exec.ensures_slot executed s.cpu)).sleepsOnce once

/-- The search for a reason to end leaves the core alone. -/
theorem cpu_endReason? {limit : Option Nat} {executed : Nat} {s u : Computer β}
    {found : Option RunEnd} (searched : s.endReason? limit executed = (found, u)) :
    u.cpu = s.cpu := by
  obtain ⟨_, search⟩ := search_endReason? limit executed s
  rw [searched] at search
  exact search.cpu_eq

/-- A run does what its slots do. -/
theorem RunsTo.sleepsOnce {limit : Option Nat} {tally : Tally} {s t : Computer β}
    {outcome : Except StepError RunResult} (h : RunsTo limit tally s outcome t)
    (once : s.cpu.SleepsOnce) : t.cpu.SleepsOnce := by
  induction h with
  | ended found =>
    rw [cpu_endReason? found]
    exact once
  | @failed tally s u t e found played =>
    rw [← cpu_endReason? found] at once
    have after := sleepsOnce_slot tally.instructions once
    rw [played] at after
    exact after
  | @slot tally s u v t done outcome found played _ ih =>
    rw [← cpu_endReason? found] at once
    have after := sleepsOnce_slot tally.instructions once
    rw [played] at after
    exact ih after

end Computer

/-- The cores that have only stepped, run and resumed since power-on or the last reset, each time
on any board. -/
inductive Undisturbed : Cpu → Prop
  | boot (state : BootState) (entry : UInt16) : Undisturbed (.boot state entry)
  | step {β : Type} [Device β] (s : Computer β) : Undisturbed s.cpu → Undisturbed s.step.2.cpu
  | run {β : Type} [Device β] {s t : Computer β} {fuel : Nat} {limit : Option Nat}
      {outcome : Except StepError RunResult} :
      s.run fuel limit = some (outcome, t) → Undisturbed s.cpu → Undisturbed t.cpu
  | resume {cpu : Cpu} : Undisturbed cpu → Undisturbed cpu.resume

/-- **One sleep at a time.** -/
theorem Undisturbed.sleepsOnce {cpu : Cpu} (h : Undisturbed cpu) : cpu.SleepsOnce := by
  induction h with
  | boot state entry => exact fun both => absurd both.1 Bool.false_ne_true
  | step s _ ih => exact Computer.sleepsOnce_slot 0 ih
  | run played _ ih => exact (Computer.RunsTo.of_runFrom played).sleepsOnce ih
  | resume => exact fun both => absurd both.2 Bool.false_ne_true

/-! ### Latched registers -/

/-- A bus whose interrupt registers are read without a trace, and stay as they are while cycles
pass. -/
class LatchedPolling (β : Type) [Device β] : Prop extends QuietPolling β where
  enable_tick : ∀ (cycles : Nat) (bus : β),
    byteAt (Device.tick cycles bus).state Interrupt.enableAddress =
      byteAt bus Interrupt.enableAddress
  request_tick : ∀ (cycles : Nat) (bus : β),
    byteAt (Device.tick cycles bus).state Interrupt.requestAddress =
      byteAt bus Interrupt.requestAddress

instance {δ : Type} [Device δ] : LatchedPolling (SystemBus δ) where
  enable_tick _ _ := rfl
  request_tick _ _ := rfl

instance : LatchedPolling FlatMemory where
  enable_tick _ _ := rfl
  request_tick _ _ := rfl

/-- The board after some idle steps of a halted core. -/
def Board.waited {β : Type} [Device β] (board : Board β) : Nat → Board β
  | 0 => board
  | n + 1 => ((board.waited n).perform (Device.tick Slot.haltCost)).2

section waiting
variable {β : Type} [Device β] [LatchedPolling β] (board : Board β) (n : Nat)

theorem Board.enable_waited :
    byteAt (board.waited n).bus Interrupt.enableAddress =
      byteAt board.bus Interrupt.enableAddress := by
  induction n with
  | zero => rfl
  | succ n ih => rw [waited, bus_perform, LatchedPolling.enable_tick, ih]

theorem Board.request_waited :
    byteAt (board.waited n).bus Interrupt.requestAddress =
      byteAt board.bus Interrupt.requestAddress := by
  induction n with
  | zero => rfl
  | succ n ih => rw [waited, bus_perform, LatchedPolling.request_tick, ih]

end waiting

/-! ### The parts of a course -/

/-- Up to the search for interrupts a slot only reads. -/
theorem Thaw.isRead_of_mem_polls {cpu : Cpu} {thaw : List Access} {reports : List LogEvent}
    (thawed : Thaw cpu thaw reports) {enabled requested : UInt8} {access : Access}
    (made : access ∈ thaw ++ pollAccesses enabled requested) : access.isRead = true := by
  rcases List.mem_append.mp made with before | polled
  · exact thawed.isRead_of_mem before
  · exact isRead_of_mem_pollAccesses polled

namespace Exec

theorem path_executeNext_of_fault (executed : Nat) {c : Cpu} {fetch : List Access}
    {reports : List LogEvent} {fault : FetchError}
    (fetched : (Instruction.fetch c.regs.pc).Path fetch reports (.error fault)) :
    ((executeNext executed).run c).Path fetch reports
      (.error ⟨fault, c.regs.pc, executed⟩, c) := by
  refine Interaction.path_of_ensures fun Q ensured => ?_
  replace ensured : Ensures (executeNext executed) c fun accesses reports outcome after =>
    Q accesses reports (outcome, after) := ensured
  exact ensured.faulted fetched

theorem path_executeNext_of_performed (executed : Nat) {c : Cpu} {fetch accesses : List Access}
    {fetchReports reports : List LogEvent} {ins : Instruction} {taken : Bool} {after : Cpu}
    (fetched : (Instruction.fetch c.regs.pc).Path fetch fetchReports (.ok ins))
    (performed : ((perform ins.address ins.operand ins.operation).run
      { c with regs := { c.regs with pc := ins.next } }).Path accesses reports (taken, after)) :
    ((executeNext executed).run c).Path (fetch ++ (accesses ++ [.tick (ins.cost taken)]))
      (fetchReports ++ (.executing ins c.regs :: reports))
      (.ok (.executed ins (ins.cost taken)), after.finish (ins.cost taken)) := by
  refine Interaction.path_of_ensures fun Q ensured => ?_
  replace ensured : Ensures (executeNext executed) c fun accesses reports outcome after =>
    Q accesses reports (outcome, after) := ensured
  exact ensured.executed fetched performed

end Exec

namespace Computer

variable {β : Type} [Device β]

/-- An awake core executes the instruction at PC or faults on it. -/
theorem outcome_executeNext (s : Computer β) :
    (∃ ins cost, (s.exec (Exec.executeNext 0)).1 = .ok (.executed ins cost)) ∨
      ∃ fault, (s.exec (Exec.executeNext 0)).1 = .error ⟨fault, s.cpu.regs.pc, 0⟩ := by
  have tried : Exec.Ensures (Exec.executeNext 0) s.cpu fun _ _ outcome _ =>
      (∃ ins cost, outcome = .ok (.executed ins cost)) ∨
        ∃ fault, outcome = .error ⟨fault, s.cpu.regs.pc, 0⟩ :=
    Exec.ensures_executeNext (fun _ _ fault _ => .inr ⟨fault, rfl⟩)
      fun _ _ ins _ _ _ taken _ _ => .inl ⟨ins, ins.cost taken, rfl⟩
  exact exec_of_ensures tried

/-! ### What sleeping and waking leave -/

/-- The computer with both ways of sleeping ended; leaving the STOP state is reported. -/
def woken (s : Computer β) : Computer β :=
  ⟨s.cpu.awake,
    if s.cpu.stopped then s.board.report (.stopLeft s.cpu.regs.pc) else s.board⟩

/-- The computer after some idle steps of a halted core. -/
def idled (s : Computer β) (n : Nat) : Computer β :=
  ⟨{ s.cpu with cycles := s.cpu.cycles + Slot.haltCost * n }, s.board.waited n⟩

/-! ### Polls -/

/-- The accesses of a poll. -/
def poll (s : Computer β) : List Access :=
  pollAccesses (byteAt s.board.bus Interrupt.enableAddress)
    (byteAt s.board.bus Interrupt.requestAddress)

section polling
variable [QuietPolling β] {s : Computer β}

omit [QuietPolling β] in
theorem read_of_quiet {bus : β} {address : UInt16}
    (quiet : ∃ value, Device.read address bus = ⟨value, bus, []⟩) :
    Device.read address bus = ⟨byteAt bus address, bus, []⟩ := by
  obtain ⟨value, read⟩ := quiet
  rw [byteAt, read]

theorem readEnable (s : Computer β) : Device.read Interrupt.enableAddress s.board.bus =
    ⟨byteAt s.board.bus Interrupt.enableAddress, s.board.bus, []⟩ :=
  read_of_quiet (QuietPolling.read_enable s.board.bus)

theorem readRequest (s : Computer β) : Device.read Interrupt.requestAddress s.board.bus =
    ⟨byteAt s.board.bus Interrupt.requestAddress, s.board.bus, []⟩ :=
  read_of_quiet (QuietPolling.read_request s.board.bus)

theorem pending_eq (s : Computer β) :
    s.pending = pendingOf (byteAt s.board.bus Interrupt.enableAddress)
      (byteAt s.board.bus Interrupt.requestAddress) := by
  rw [pending, interact, run_pendingRequests (readEnable s) (readRequest s)]

/-! ### The parts of a slot -/

/-- The core stays frozen if it is in the STOP state and nothing is pending. -/
theorem exec_staysFrozen_of_frozen (stopped : s.cpu.stopped = true) (quiet : s.pending = 0) :
    s.exec Exec.staysFrozen = (true, s) := by
  rw [Exec.staysFrozen, exec_bind, exec_get, stopped, if_pos rfl, exec_bind, exec_lift,
    interact_pendingRequests, quiet]
  rfl

omit [QuietPolling β] in
theorem exec_staysFrozen_of_running (running : s.cpu.stopped = false) :
    s.exec Exec.staysFrozen = (false, s) := by
  rw [Exec.staysFrozen, exec_bind, exec_get, running, if_neg Bool.false_ne_true]
  rfl

/-- A pending request ends the STOP state, and then the HALT state would be next. -/
theorem exec_staysFrozen_of_pending (pending : s.pending ≠ 0) :
    ∃ u : Computer β, s.exec Exec.staysFrozen = (false, u) ∧ u.board.bus = s.board.bus ∧
      u.cpu.ime = s.cpu.ime ∧ u.mapCpu Cpu.unhalt = s.woken := by
  cases stopped : s.cpu.stopped with
  | false =>
    refine ⟨s, exec_staysFrozen_of_running stopped, rfl, rfl, ?_⟩
    rw [woken, Cpu.awake_of_unfrozen stopped, stopped]
    rfl
  | true =>
    refine ⟨(s.mapBoard (Board.report (.stopLeft s.cpu.regs.pc))).mapCpu Cpu.resume, ?_, rfl, rfl,
      ?_⟩
    · rw [Exec.staysFrozen, exec_bind, exec_get, stopped, if_pos rfl, exec_bind, exec_lift,
        interact_pendingRequests, if_neg (by simpa using pending)]
      rfl
    · rw [woken, stopped]
      rfl

theorem first?_pending_eq_none_iff (s : Computer β) :
    Interrupt.first? s.pending = none ↔ s.pending = 0 := by
  rw [pending_eq, first?_pendingOf_eq_none_iff]

/-- Of the sources that are pending one is the most urgent. -/
theorem exists_first_of_pending (pending : s.pending ≠ 0) :
    ∃ source, Interrupt.first? s.pending = some source :=
  Option.ne_none_iff_exists'.mp (mt (first?_pending_eq_none_iff s).mp pending)

theorem exec_serveInterrupt_of_quiet (quiet : s.pending = 0) :
    s.exec Exec.serveInterrupt = (none, s) := by
  have none_first := (first?_pending_eq_none_iff s).mpr quiet
  rw [Exec.serveInterrupt, exec_bind, exec_lift, interact_pendingRequests]
  dsimp only
  rw [none_first]
  rfl

/-- With interrupts disabled a pending request does no more than end the HALT state. -/
theorem exec_serveInterrupt_of_masked {source : Interrupt}
    (first : Interrupt.first? s.pending = some source) (masked : s.cpu.ime = false) :
    s.exec Exec.serveInterrupt = (none, s.mapCpu Cpu.unhalt) := by
  rw [Exec.serveInterrupt, exec_bind, exec_lift, interact_pendingRequests]
  dsimp only
  rw [first]
  dsimp only
  rw [exec_bind, exec_modify, exec_bind, exec_get]
  dsimp only
  rw [if_neg (by exact ne_true_of_eq_false masked)]
  rfl

/-- With interrupts enabled it ends the HALT state and is entered. -/
theorem exec_serveInterrupt_of_enabled {source : Interrupt}
    (first : Interrupt.first? s.pending = some source) (enabled : s.cpu.ime = true) :
    s.exec Exec.serveInterrupt =
      (some source, ((s.mapCpu Cpu.unhalt).exec (Exec.enterInterrupt source)).2) := by
  rw [Exec.serveInterrupt, exec_bind, exec_lift, interact_pendingRequests]
  dsimp only
  rw [first]
  dsimp only
  rw [exec_bind, exec_modify, exec_bind, exec_get]
  dsimp only
  rw [if_pos (by exact enabled), exec_bind]
  rfl

/-! ### Slots -/

/-- A frozen core does nothing. -/
theorem slot_frozen (stopped : s.cpu.stopped = true) (quiet : s.pending = 0) (executed : Nat) :
    s.slot executed = (.ok (.idle 0), s) := by
  rw [slot, Exec.slot, exec_bind, exec_staysFrozen_of_frozen stopped quiet]
  rfl

/-- A halted core lets four cycles pass. -/
theorem slot_idle (halted : s.cpu.halted = true) (running : s.cpu.stopped = false)
    (quiet : s.pending = 0) (executed : Nat) :
    s.slot executed = (.ok (.idle Slot.haltCost), s.idled 1) := by
  rw [slot, Exec.slot, exec_bind, exec_staysFrozen_of_running running]
  dsimp only
  rw [if_neg Bool.false_ne_true, exec_bind, exec_serveInterrupt_of_quiet quiet]
  dsimp only
  rw [exec_bind, exec_get, halted]
  rfl

omit [Device β] [QuietPolling β] in
theorem bus_woken (s : Computer β) : s.woken.board.bus = s.board.bus := by
  rw [woken]
  split
  · rfl
  · rfl

/-- With interrupts disabled a pending request makes the core go on at PC. -/
theorem slot_masked (pending : s.pending ≠ 0) (masked : s.cpu.ime = false) (executed : Nat) :
    s.slot executed = s.woken.exec (Exec.executeNext executed) := by
  obtain ⟨u, thawed, bus, ime, wakes⟩ := exec_staysFrozen_of_pending pending
  obtain ⟨source, first⟩ := exists_first_of_pending pending
  rw [pending_eq, ← bus, ← pending_eq] at first
  rw [slot, Exec.slot, exec_bind, thawed]
  dsimp only
  rw [if_neg Bool.false_ne_true, exec_bind,
    exec_serveInterrupt_of_masked first (ime.trans masked), wakes]
  dsimp only
  rw [exec_bind, exec_get]
  rfl

/-- With interrupts enabled the most urgent pending request is entered. -/
theorem slot_enabled {source : Interrupt} (first : Interrupt.first? s.pending = some source)
    (enabled : s.cpu.ime = true) (executed : Nat) :
    s.slot executed = (.ok (.interrupt source),
      ((s.woken.exec (Exec.enterInterrupt source)).2.exec (Exec.spend Slot.interruptCost)).2) := by
  have pending : s.pending ≠ 0 := fun quiet => by
    rw [(first?_pending_eq_none_iff s).mpr quiet] at first
    cases first
  obtain ⟨u, thawed, bus, ime, wakes⟩ := exec_staysFrozen_of_pending pending
  rw [pending_eq, ← bus, ← pending_eq] at first
  rw [slot, Exec.slot, exec_bind, thawed]
  dsimp only
  rw [if_neg Bool.false_ne_true, exec_bind,
    exec_serveInterrupt_of_enabled first (ime.trans enabled), wakes]
  dsimp only
  rw [exec_bind]
  rfl

/-- A pending request ends both ways of sleeping before anything else happens. -/
theorem slot_woken (pending : s.pending ≠ 0) (executed : Nat) :
    s.slot executed = s.woken.slot executed := by
  have same : s.woken.pending = s.pending := by
    rw [pending_eq, pending_eq, bus_woken]
  have still : s.woken.pending ≠ 0 := by
    rw [same]
    exact pending
  cases ime : s.cpu.ime with
  | false =>
    rw [slot_masked pending ime, slot_masked still ime]
    rfl
  | true =>
    obtain ⟨source, first⟩ := exists_first_of_pending pending
    have stillFirst : Interrupt.first? s.woken.pending = some source := by
      rw [same]
      exact first
    rw [slot_enabled first ime, slot_enabled stillFirst ime]
    rfl

/-! ### What a slot asks of the bus -/

theorem accesses_frozen (stopped : s.cpu.stopped = true) (quiet : s.pending = 0) :
    s.accesses = s.poll := by
  rw [pending_eq] at quiet
  have answers := (answers_poll_append (readEnable s) (readRequest s) _ _ []).mpr
    ⟨⟨rfl, rfl⟩, trivial⟩
  rw [List.append_nil] at answers
  exact (slot_of_course (.frozen stopped quiet) answers).1

theorem accesses_idle (halted : s.cpu.halted = true) (running : s.cpu.stopped = false)
    (quiet : s.pending = 0) : s.accesses = s.poll ++ [.tick Slot.haltCost] := by
  rw [pending_eq] at quiet
  have answers := (answers_poll_append (readEnable s) (readRequest s) _ _
    [.tick Slot.haltCost]).mpr ⟨⟨rfl, rfl⟩, trivial, trivial⟩
  exact (slot_of_course (.idled (.running running) quiet halted) answers).1

/-- An entry pushes the PC at which the core has slept. -/
theorem accesses_enabled {source : Interrupt} (first : Interrupt.first? s.pending = some source)
    (enabled : s.cpu.ime = true) : ∃ polls acknowledged,
    s.accesses =
        polls ++ (entryAccesses source s.cpu.regs acknowledged ++ [.tick Slot.interruptCost]) ∧
      (∀ access ∈ polls, access.isRead = true) ∧
      (s.slot 0).2.cpu =
        { s.cpu.awake.enter source with cycles := s.cpu.cycles + Slot.interruptCost } := by
  have course := s.course_slot
  have outcome : (s.slot 0).1 = .ok (.interrupt source) := by rw [slot_enabled first enabled]
  rw [outcome] at course
  generalize s.accesses = accesses at course ⊢
  generalize s.reports = reports at course
  generalize (s.slot 0).2.cpu = after at course ⊢
  cases course with
  | entered acknowledged thawed first ime =>
    exact ⟨_, acknowledged, rfl, fun _ => thawed.isRead_of_mem_polls, rfl⟩

/-- With interrupts disabled the bus is asked, after the polls, what the instruction at PC asks of
it. -/
theorem accesses_masked (pending : s.pending ≠ 0) (masked : s.cpu.ime = false) :
    ∃ polls made reports, s.accesses = polls ++ made ∧ (∀ access ∈ polls, access.isRead = true) ∧
      ((Exec.executeNext 0).run s.cpu.awake).Path made reports
        ((s.slot 0).1, (s.slot 0).2.cpu) := by
  have course := s.course_slot
  have outcome := outcome_executeNext s.woken
  rw [← slot_masked pending masked] at outcome
  generalize s.accesses = accesses at course ⊢
  generalize s.reports = reports at course
  generalize (s.slot 0).2.cpu = after at course ⊢
  generalize (s.slot 0).1 = result at course outcome ⊢
  cases course with
  | frozen | entered | idled =>
    rcases outcome with ⟨_, _, told⟩ | ⟨_, told⟩
    · cases told
    · cases told
  | faulted thawed woken masked fetched =>
    exact ⟨_, _, _, rfl, fun _ => thawed.isRead_of_mem_polls,
      Exec.path_executeNext_of_fault 0 (c := s.cpu.awake) fetched⟩
  | executed thawed woken masked fetched performed =>
    exact ⟨_, _, _, rfl, fun _ => thawed.isRead_of_mem_polls,
      Exec.path_executeNext_of_performed 0 (c := s.cpu.awake) fetched performed⟩

end polling

/-! ### Any number of steps -/

/-- The core stays frozen, however many steps are made. -/
theorem steps_frozen [QuietPolling β] {s : Computer β} (stopped : s.cpu.stopped = true)
    (quiet : s.pending = 0) (n : Nat) :
    s.results n = List.replicate n (.ok 0) ∧ s.after n = s := by
  induction n with
  | zero => exact ⟨rfl, rfl⟩
  | succ n ih =>
    obtain ⟨told, same⟩ := ih
    have stepped := step_of_slot_ok (slot_frozen stopped quiet 0)
    rw [results, after, told, same, stepped, List.replicate_succ']
    exact ⟨rfl, rfl⟩

section idling
variable [LatchedPolling β] {s : Computer β}

theorem poll_idled (s : Computer β) (n : Nat) : (s.idled n).poll = s.poll := by
  rw [poll, idled, s.board.enable_waited, s.board.request_waited]
  rfl

theorem pending_idled (s : Computer β) (n : Nat) : (s.idled n).pending = s.pending := by
  rw [pending_eq, idled, s.board.enable_waited, s.board.request_waited, ← pending_eq]

/-- The core stays halted, and time passes. -/
theorem steps_idle (halted : s.cpu.halted = true) (running : s.cpu.stopped = false)
    (quiet : s.pending = 0) (n : Nat) :
    s.results n = List.replicate n (.ok Slot.haltCost) ∧ s.after n = s.idled n := by
  induction n with
  | zero => exact ⟨rfl, rfl⟩
  | succ n ih =>
    obtain ⟨told, same⟩ := ih
    have still : (s.idled n).pending = 0 := (pending_idled s n).trans quiet
    have stepped := step_of_slot_ok (slot_idle (s := s.idled n) halted running still 0)
    rw [results, after, told, same, stepped, List.replicate_succ']
    exact ⟨rfl, rfl⟩

end idling

/-! ### Sleeping and waking -/

/-- The step of a sleeping core that finds something pending. -/
structure Wakes (s : Computer β) : Prop where
  /-- Both ways of sleeping end before anything else happens. -/
  first : s.slot 0 = s.woken.slot 0
  /-- With interrupts enabled the most urgent request is entered, and the PC at which the core has
  slept is pushed. -/
  enters : s.cpu.ime = true → ∃ source polls acknowledged,
    Interrupt.first? s.pending = some source ∧ (s.slot 0).1 = .ok (.interrupt source) ∧
    s.accesses =
      polls ++ (entryAccesses source s.cpu.regs acknowledged ++ [.tick Slot.interruptCost]) ∧
    (∀ access ∈ polls, access.isRead = true) ∧
    (s.slot 0).2.cpu =
      { s.cpu.awake.enter source with cycles := s.cpu.cycles + Slot.interruptCost }
  /-- With interrupts disabled the instruction at PC is executed or faults. -/
  goesOn : s.cpu.ime = false → s.slot 0 = s.woken.exec (Exec.executeNext 0) ∧
    ((∃ ins cost, (s.slot 0).1 = .ok (.executed ins cost)) ∨
      ∃ fault, (s.slot 0).1 = .error ⟨fault, s.cpu.regs.pc, 0⟩)
  /-- Then nothing but the instruction writes to the bus. -/
  instruction : s.cpu.ime = false → ∃ polls made reports,
    s.accesses = polls ++ made ∧ (∀ access ∈ polls, access.isRead = true) ∧
    ((Exec.executeNext 0).run s.cpu.awake).Path made reports ((s.slot 0).1, (s.slot 0).2.cpu)

/-- What a computer does while its core sleeps. -/
structure Sleeps (s : Computer β) : Prop where
  /-- A frozen core changes nothing, and lets no cycles pass. -/
  frozen : s.cpu.stopped = true → s.pending = 0 → ∀ n,
    s.results n = List.replicate n (.ok 0) ∧ s.after n = s ∧ (s.after n).accesses = s.poll
  /-- A halted core lets four cycles pass with each step and counts them, and nothing else. -/
  halted : s.cpu.halted = true → s.cpu.stopped = false → s.pending = 0 → ∀ n,
    s.results n = List.replicate n (.ok 4) ∧
      (s.after n).cpu = { s.cpu with cycles := s.cpu.cycles + 4 * n } ∧
      (s.after n).board = s.board.waited n ∧
      (s.after n).accesses = s.poll ++ [.tick 4]
  wakes : s.cpu.asleep = true → s.pending ≠ 0 → Wakes s

theorem wakes_of_pending [QuietPolling β] {s : Computer β} (pending : s.pending ≠ 0) :
    Wakes s where
  first := slot_woken pending 0
  enters enabled := by
    obtain ⟨source, first⟩ := exists_first_of_pending pending
    obtain ⟨polls, acknowledged, made, reads, after⟩ := accesses_enabled first enabled
    refine ⟨source, polls, acknowledged, first, ?_, made, reads, after⟩
    rw [slot_enabled first enabled]
  goesOn masked := by
    have played := slot_masked pending masked 0
    have outcome := outcome_executeNext s.woken
    rw [← played] at outcome
    exact ⟨played, outcome⟩
  instruction masked := accesses_masked pending masked

theorem sleeps [LatchedPolling β] (s : Computer β) : Sleeps s where
  frozen stopped quiet n := by
    obtain ⟨told, same⟩ := steps_frozen stopped quiet n
    refine ⟨told, same, ?_⟩
    rw [same]
    exact accesses_frozen stopped quiet
  halted halted running quiet n := by
    obtain ⟨told, after⟩ := steps_idle halted running quiet n
    have still : (s.idled n).pending = 0 := (pending_idled s n).trans quiet
    rw [after]
    refine ⟨told, rfl, rfl, ?_⟩
    rw [accesses_idle (s := s.idled n) halted running still, poll_idled]
    rfl
  wakes _ pending := wakes_of_pending pending

end Computer

/-- **Sleep is quiet and ends in time**: a core that has only stepped, run and resumed sleeps in one
way at a time; on a system bus, whatever its devices, and on flat memory it does nothing but let
time pass while it sleeps, and is woken by the first step that finds something pending. -/
theorem sleeps_of_undisturbed {cpu : Cpu} (h : Undisturbed cpu) :
    cpu.SleepsOnce ∧
      (∀ {δ : Type} [Device δ] (board : Board (SystemBus δ)), Computer.Sleeps ⟨cpu, board⟩) ∧
      ∀ board : Board FlatMemory, Computer.Sleeps ⟨cpu, board⟩ :=
  ⟨h.sleepsOnce, fun board => Computer.sleeps ⟨cpu, board⟩,
    fun board => Computer.sleeps ⟨cpu, board⟩⟩

/-- A computer that has enabled interrupts and halted. -/
def dozing : Computer (SystemBus Empty) := (Computer.ofProgram #[0xFB, 0x76]).after 2

/-- The same with a request of the timer. -/
def roused : Computer (SystemBus Empty) :=
  ⟨dozing.cpu, { bus := { dozing.board.bus with requested := 0x04, enabled := 0x04 } }⟩

/-- It idles until it finds a request, and then enters the handler. -/
theorem sleeps_of_undisturbed_dozing :
    dozing.results 3 = [.ok 4, .ok 4, .ok 4] ∧
      (dozing.after 3).cpu = { dozing.cpu with cycles := dozing.cpu.cycles + 12 } ∧
      (roused.slot 0).1 = .ok (.interrupt .timer) := by
  have undisturbed : Undisturbed dozing.cpu := .step _ (.step _ (.boot .zeroed 0))
  have sleeps (board : Board (SystemBus Empty)) : Computer.Sleeps ⟨dozing.cpu, board⟩ :=
    (sleeps_of_undisturbed undisturbed).2.1 board
  have halted : dozing.cpu.halted = true := by decide +kernel
  have running : dozing.cpu.stopped = false := by decide +kernel
  have enabled : dozing.cpu.ime = true := by decide +kernel
  have quiet : dozing.pending = 0 := by decide +kernel
  have first : Interrupt.first? roused.pending = some .timer := by decide +kernel
  have pending : roused.pending ≠ 0 := by decide +kernel
  obtain ⟨told, idled, -⟩ := (sleeps dozing.board).halted halted running quiet 3
  have asleep : roused.cpu.asleep = true := by
    rw [Cpu.asleep, show roused.cpu.halted = true from halted, Bool.true_or]
  have wakes := (sleeps roused.board).wakes asleep pending
  obtain ⟨source, -, -, found, entered, -⟩ := wakes.enters enabled
  obtain rfl : Interrupt.timer = source := Option.some.inj (first.symm.trans found)
  exact ⟨told, idled, entered⟩

end Sm83
