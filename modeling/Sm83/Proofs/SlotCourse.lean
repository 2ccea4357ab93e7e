import Sm83.Proofs.Program

/-! # The courses of a slot

Everything that a slot can do, once and for all.

* **Courses.** `Course executed cpu` lists the five courses that a slot started in `cpu` can take,
  each with its accesses, its events, its outcome and the core it leaves: the core stays frozen,
  enters a handler, idles, fails to fetch, or executes an instruction.
* **Completeness.** Every path of `Exec.slot` is one of them (`ensures_slot`), on any bus.  Facts
  about slots are proved by cases on the course.
* **Possibility.** Each of them is a path of `Exec.slot` (`Course.path`), so a bus that gives its
  answers leads along it.
* **Counters.** A slot adds its cycles and its instruction to the counters (`ensures_slot_tally`).
* **Numbering.** The number passed to a slot shows only in an error (`slot_eq_map`). -/

namespace Sm83

theorem Interrupt.first?_eq_none_iff (bits : UInt8) :
    Interrupt.first? bits = none ↔ bits &&& Interrupt.maskAll = 0 := by
  revert bits
  apply forall_byte
  decide +kernel

@[simp] theorem first?_pendingOf_eq_none_iff (enabled requested : UInt8) :
    Interrupt.first? (pendingOf enabled requested) = none ↔ pendingOf enabled requested = 0 := by
  rw [Interrupt.first?_eq_none_iff, pendingOf, UInt8.and_assoc, UInt8.and_self]

theorem pendingOf_ne_zero {enabled requested : UInt8} {source : Interrupt}
    (h : Interrupt.first? (pendingOf enabled requested) = some source) :
    pendingOf enabled requested ≠ 0 := by
  intro quiet
  rw [(first?_pendingOf_eq_none_iff enabled requested).mpr quiet] at h
  cases h

namespace Cpu

/-- The core with both ways of sleeping ended. -/
def awake (cpu : Cpu) : Cpu := { cpu with halted := false, stopped := false }

/-- The end of an instruction: it is counted and charged, and the delay of EI advances. -/
def finish (cost : Nat) (cpu : Cpu) : Cpu :=
  { cpu with instructions := cpu.instructions + 1, cycles := cpu.cycles + cost }.advanceEnable

/-- The delay of EI advances, and nothing else changes. -/
theorem advanceEnable_eq (cpu : Cpu) :
    cpu.advanceEnable =
      { cpu with
        ime := cpu.advanceEnable.ime
        enablePending := cpu.advanceEnable.enablePending
        enableDelay := cpu.advanceEnable.enableDelay } := by
  unfold advanceEnable
  split
  · rfl
  · split <;> rfl

@[simp] theorem cycles_advanceEnable (cpu : Cpu) : cpu.advanceEnable.cycles = cpu.cycles := by
  rw [advanceEnable_eq]

@[simp] theorem instructions_advanceEnable (cpu : Cpu) :
    cpu.advanceEnable.instructions = cpu.instructions := by
  rw [advanceEnable_eq]

end Cpu

@[simp] theorem Operation.cycles_control (op : Operation) (cpu : Cpu) :
    (op.control cpu).cycles = cpu.cycles := by
  cases op <;> rfl

@[simp] theorem Operation.instructions_control (op : Operation) (cpu : Cpu) :
    (op.control cpu).instructions = cpu.instructions := by
  cases op <;> rfl

/-! ### The parts of a slot -/

/-- What goes before the search for interrupts when the core does not stay frozen: nothing, or the
poll that ends the STOP state. -/
inductive Thaw (cpu : Cpu) : List Access → List LogEvent → Prop
  | running (stopped : cpu.stopped = false) : Thaw cpu [] []
  | left {enabled requested : UInt8} (stopped : cpu.stopped = true)
      (pending : pendingOf enabled requested ≠ 0) :
      Thaw cpu (pollAccesses enabled requested) [.stopLeft cpu.regs.pc]

theorem isRead_of_mem_pollAccesses {enabled requested : UInt8} {access : Access}
    (h : access ∈ pollAccesses enabled requested) : access.isRead = true := by
  simp only [pollAccesses, List.mem_cons, List.not_mem_nil, or_false] at h
  rcases h with rfl | rfl
  · rfl
  · rfl

theorem Thaw.isRead_of_mem {cpu : Cpu} {accesses : List Access} {reports : List LogEvent}
    (thawed : Thaw cpu accesses reports) {access : Access} (h : access ∈ accesses) :
    access.isRead = true := by
  cases thawed with
  | running => cases h
  | left => exact isRead_of_mem_pollAccesses h

section polling
variable {β : Type} [Device β] {bus : β} {enabled requested : UInt8}
  (readEnable : Device.read Interrupt.enableAddress bus = ⟨enabled, bus, []⟩)
  (readRequest : Device.read Interrupt.requestAddress bus = ⟨requested, bus, []⟩)
include readEnable readRequest

theorem answers_poll_append (enabled' requested' : UInt8) (rest : List Access) :
    Answers bus (pollAccesses enabled' requested' ++ rest) ↔
      (enabled = enabled' ∧ requested = requested') ∧ Answers bus rest := by
  simp [pollAccesses, Access.AnsweredBy, Access.operation, readEnable, readRequest, and_assoc]

theorem replay_poll_append (enabled' requested' : UInt8) (rest : List Access) :
    replay (pollAccesses enabled' requested' ++ rest) bus = replay rest bus := by
  simp [pollAccesses, replay, Access.operation, readEnable, readRequest]

/-- Where the interrupt registers can be read without a trace, the beginning of a slot finds what
they hold. -/
theorem Thaw.answers_append {cpu : Cpu} {thaw : List Access} {reports : List LogEvent}
    (thawed : Thaw cpu thaw reports) {enabled' requested' : UInt8} {rest : List Access}
    (answers : Answers bus (thaw ++ pollAccesses enabled' requested' ++ rest)) :
    (enabled = enabled' ∧ requested = requested') ∧ Answers bus rest := by
  rw [List.append_assoc] at answers
  cases thawed with
  | running => exact (answers_poll_append readEnable readRequest _ _ _).mp answers
  | left =>
    have second := ((answers_poll_append readEnable readRequest _ _ _).mp answers).2
    exact (answers_poll_append readEnable readRequest _ _ _).mp second

/-- Where the interrupt registers can be read without a trace, the beginning of a slot leaves
none. -/
theorem Thaw.replay_append {cpu : Cpu} {thaw : List Access} {reports : List LogEvent}
    (thawed : Thaw cpu thaw reports) (enabled' requested' : UInt8) (rest : List Access) :
    replay (thaw ++ pollAccesses enabled' requested' ++ rest) bus = replay rest bus := by
  rw [List.append_assoc]
  cases thawed with
  | running => exact replay_poll_append readEnable readRequest _ _ _
  | left =>
    rw [replay_poll_append readEnable readRequest, replay_poll_append readEnable readRequest]

end polling

namespace Exec

variable {cpu : Cpu}

theorem ensures_staysFrozen {Q : List Access → List LogEvent → Bool → Cpu → Prop}
    (frozen : ∀ enabled requested, cpu.stopped = true → pendingOf enabled requested = 0 →
      Q (pollAccesses enabled requested) [] true cpu)
    (thawed : ∀ accesses reports, Thaw cpu accesses reports →
      Q accesses reports false cpu.resume) : Ensures staysFrozen cpu Q := by
  cases stopped : cpu.stopped with
  | false =>
    have unchanged : cpu.resume = cpu := by rw [Cpu.resume, ← stopped]
    have running := thawed [] [] (.running stopped)
    rw [unchanged] at running
    simpa [staysFrozen, stopped] using running
  | true =>
    simp only [staysFrozen, ensures_bind, ensures_get, stopped, if_true, ensures_lift,
      ensures_pendingRequests]
    intro enabled requested
    by_cases quiet : pendingOf enabled requested = 0
    · simpa [quiet] using frozen enabled requested stopped quiet
    · simpa [quiet] using thawed _ _ (.left stopped quiet)

theorem ensures_serveInterrupt {Q : List Access → List LogEvent → Option Interrupt → Cpu → Prop}
    (quiet : ∀ enabled requested, pendingOf enabled requested = 0 →
      Q (pollAccesses enabled requested) [] none cpu)
    (ignored : ∀ enabled requested, pendingOf enabled requested ≠ 0 → cpu.ime = false →
      Q (pollAccesses enabled requested) [] none { cpu with halted := false })
    (entered : ∀ enabled requested acknowledged source,
      Interrupt.first? (pendingOf enabled requested) = some source → cpu.ime = true →
      Q (pollAccesses enabled requested ++ entryAccesses source cpu.regs acknowledged)
        [.interrupted source cpu.regs.pc (cpu.regs.sp - 2)] (some source)
        ({ cpu with halted := false }.enter source)) :
    Ensures serveInterrupt cpu Q := by
  simp only [serveInterrupt, ensures_bind, ensures_lift, ensures_pendingRequests]
  intro enabled requested
  cases found : Interrupt.first? (pendingOf enabled requested) with
  | none => simpa using quiet enabled requested ((first?_pendingOf_eq_none_iff _ _).mp found)
  | some source =>
    have pending := pendingOf_ne_zero found
    cases ime : cpu.ime with
    | true => simpa [ime] using fun byte => entered enabled requested byte source found ime
    | false => simpa [ime] using ignored enabled requested pending ime

/-! ### Whole slots -/

/-- The courses that a slot can take, each with its accesses, its events, its outcome and the core
it leaves. -/
inductive Course (executed : Nat) (cpu : Cpu) :
    List Access → List LogEvent → Except StepError Slot → Cpu → Prop
  /-- The core is in the STOP state, and nothing is pending. -/
  | frozen {enabled requested : UInt8} (stopped : cpu.stopped = true)
      (quiet : pendingOf enabled requested = 0) :
      Course executed cpu (pollAccesses enabled requested) [] (.ok (.idle 0)) cpu
  /-- Interrupts are enabled, and the most urgent of those pending is entered. -/
  | entered {thaw : List Access} {thawReports : List LogEvent} {enabled requested : UInt8}
      {source : Interrupt} (acknowledged : UInt8) (thawed : Thaw cpu thaw thawReports)
      (first : Interrupt.first? (pendingOf enabled requested) = some source)
      (ime : cpu.ime = true) :
      Course executed cpu
        (thaw ++ pollAccesses enabled requested ++
          (entryAccesses source cpu.regs acknowledged ++ [.tick Slot.interruptCost]))
        (thawReports ++ [.interrupted source cpu.regs.pc (cpu.regs.sp - 2)])
        (.ok (.interrupt source))
        { cpu.awake.enter source with cycles := cpu.cycles + Slot.interruptCost }
  /-- The core is halted, and nothing is pending. -/
  | idled {thaw : List Access} {thawReports : List LogEvent} {enabled requested : UInt8}
      (thawed : Thaw cpu thaw thawReports) (quiet : pendingOf enabled requested = 0)
      (halted : cpu.halted = true) :
      Course executed cpu (thaw ++ pollAccesses enabled requested ++ [.tick Slot.haltCost])
        thawReports (.ok (.idle Slot.haltCost))
        { cpu.resume with cycles := cpu.cycles + Slot.haltCost }
  /-- The core runs or is woken, and there is no instruction at PC. -/
  | faulted {thaw fetch : List Access} {thawReports fetchReports : List LogEvent}
      {enabled requested : UInt8} {fault : FetchError} (thawed : Thaw cpu thaw thawReports)
      (woken : cpu.halted = true → pendingOf enabled requested ≠ 0)
      (masked : pendingOf enabled requested ≠ 0 → cpu.ime = false)
      (fetched : (Instruction.fetch cpu.regs.pc).Path fetch fetchReports (.error fault)) :
      Course executed cpu (thaw ++ pollAccesses enabled requested ++ fetch)
        (thawReports ++ fetchReports) (.error ⟨fault, cpu.regs.pc, executed⟩) cpu.awake
  /-- The core runs or is woken, and executes the instruction at PC. -/
  | executed {thaw fetch accesses : List Access}
      {thawReports fetchReports reports : List LogEvent} {enabled requested : UInt8}
      {ins : Instruction} {taken : Bool} {after : Cpu} (thawed : Thaw cpu thaw thawReports)
      (woken : cpu.halted = true → pendingOf enabled requested ≠ 0)
      (masked : pendingOf enabled requested ≠ 0 → cpu.ime = false)
      (fetched : (Instruction.fetch cpu.regs.pc).Path fetch fetchReports (.ok ins))
      (performed : ((perform ins.address ins.operand ins.operation).run
        { cpu.awake with regs := { cpu.regs with pc := ins.next } }).Path accesses reports
          (taken, after)) :
      Course executed cpu
        (thaw ++ pollAccesses enabled requested ++
          (fetch ++ (accesses ++ [.tick (ins.cost taken)])))
        (thawReports ++ (fetchReports ++ (.executing ins cpu.regs :: reports)))
        (.ok (.executed ins (ins.cost taken))) (after.finish (ins.cost taken))

theorem Course.executed_of_error {executed : Nat} {accesses : List Access}
    {reports : List LogEvent} {e : StepError} {after : Cpu}
    (h : Course executed cpu accesses reports (.error e) after) : e.executed = executed := by
  cases h
  rfl

/-- A slot that fails has only read. -/
theorem Course.isRead_of_error {executed : Nat} {accesses : List Access}
    {reports : List LogEvent} {e : StepError} {after : Cpu}
    (h : Course executed cpu accesses reports (.error e) after) {access : Access}
    (made : access ∈ accesses) : access.isRead = true := by
  cases h with
  | faulted thawed woken masked fetched =>
    cases Instruction.ensures_fetch_fetched _ _ _ _ fetched with
    | refused =>
      rw [List.mem_append, List.mem_append, List.mem_singleton] at made
      obtain (thaw | polled) | rfl := made
      · exact thawed.isRead_of_mem thaw
      · exact isRead_of_mem_pollAccesses polled
      · rfl

theorem ensures_runInstruction (ins : Instruction)
    {Q : List Access → List LogEvent → Slot → Cpu → Prop} :
    Ensures (runInstruction ins) cpu Q ↔
      Ensures (perform ins.address ins.operand ins.operation)
        { cpu with regs := { cpu.regs with pc := ins.next } } fun accesses reports taken after =>
          Q (accesses ++ [.tick (ins.cost taken)]) (.executing ins cpu.regs :: reports)
            (.executed ins (ins.cost taken)) (after.finish (ins.cost taken)) := by
  simp [runInstruction, execute, Cpu.finish]

theorem ensures_executeNext {executed : Nat}
    {Q : List Access → List LogEvent → Except StepError Slot → Cpu → Prop}
    (faulted : ∀ accesses reports fault,
      (Instruction.fetch cpu.regs.pc).Path accesses reports (.error fault) →
      Q accesses reports (.error ⟨fault, cpu.regs.pc, executed⟩) cpu)
    (done : ∀ fetch fetchReports ins,
      (Instruction.fetch cpu.regs.pc).Path fetch fetchReports (.ok ins) →
      ∀ accesses reports taken after,
        ((perform ins.address ins.operand ins.operation).run
          { cpu with regs := { cpu.regs with pc := ins.next } }).Path accesses reports
            (taken, after) →
        Q (fetch ++ (accesses ++ [.tick (ins.cost taken)]))
          (fetchReports ++ (.executing ins cpu.regs :: reports))
          (.ok (.executed ins (ins.cost taken))) (after.finish (ins.cost taken))) :
    Ensures (executeNext executed) cpu Q := by
  simp only [executeNext, ensures_bind, ensures_regs, ensures_lift]
  refine (Interaction.ensures_path _).mono fun fetch fetchReports result fetched => ?_
  cases result with
  | error fault => simpa using faulted _ _ fault fetched
  | ok ins =>
    simp only [ensures_map, ensures_runInstruction]
    exact (Interaction.ensures_path _).mono fun _ _ _ performed =>
      done fetch fetchReports ins fetched _ _ _ _ performed

/-- A core that is awake after the search for interrupts goes on to the instruction at PC. -/
theorem ensures_executeNext_course (executed : Nat) {thaw : List Access}
    {thawReports : List LogEvent} {enabled requested : UInt8}
    (thawed : Thaw cpu thaw thawReports)
    (woken : cpu.halted = true → pendingOf enabled requested ≠ 0)
    (masked : pendingOf enabled requested ≠ 0 → cpu.ime = false) :
    Ensures (executeNext executed) cpu.awake fun accesses reports =>
      Course executed cpu (thaw ++ pollAccesses enabled requested ++ accesses)
        (thawReports ++ reports) :=
  ensures_executeNext (fun _ _ _ fetched => .faulted thawed woken masked fetched)
    fun _ _ _ fetched _ _ _ _ performed => .executed thawed woken masked fetched performed

/-- **The courses are complete**: whatever the bus answers, a slot takes one of its courses. -/
theorem ensures_slot (executed : Nat) (cpu : Cpu) :
    Ensures (slot executed) cpu (Course executed cpu) := by
  unfold slot
  rw [ensures_bind]
  refine ensures_staysFrozen (fun enabled requested stopped quiet => ?_)
    fun thaw thawReports thawed => ?_
  · simpa using Course.frozen stopped quiet
  simp only [Bool.false_eq_true, if_false, ensures_bind]
  refine ensures_serveInterrupt (fun enabled requested quiet => ?_)
    (fun enabled requested pending ime => ?_)
    fun enabled requested acknowledged source first ime => ?_
  · -- Nothing is pending: a halted core idles, a running one goes on.
    cases halted : cpu.halted with
    | true => simpa [Cpu.resume, halted] using Course.idled thawed quiet halted
    | false =>
      have next := ensures_executeNext_course executed thawed
        (fun asleep => absurd asleep (by simp [halted])) (fun pending => absurd quiet pending)
      simpa [Cpu.resume, Cpu.awake, halted] using next
  · -- Something is pending but masked: the core is awake now, and goes on.
    have next := ensures_executeNext_course executed thawed (fun _ => pending) (fun _ => ime)
    simpa [Cpu.resume, Cpu.awake] using next
  · simpa [Cpu.resume, Cpu.awake, Cpu.enter, Cpu.disableInterrupts] using
      Course.entered acknowledged thawed first ime

/-! ### Courses as paths -/

theorem Ensures.frozen {Q : List Access → List LogEvent → Bool → Cpu → Prop}
    (h : Ensures staysFrozen cpu Q) {enabled requested : UInt8} (stopped : cpu.stopped = true)
    (quiet : pendingOf enabled requested = 0) : Q (pollAccesses enabled requested) [] true cpu := by
  simp only [staysFrozen, ensures_bind, ensures_get, stopped, if_true, ensures_lift,
    ensures_pendingRequests] at h
  simpa [quiet] using h enabled requested

theorem Ensures.thawed {Q : List Access → List LogEvent → Bool → Cpu → Prop}
    (h : Ensures staysFrozen cpu Q) {accesses : List Access} {reports : List LogEvent}
    (thawed : Thaw cpu accesses reports) : Q accesses reports false cpu.resume := by
  cases thawed with
  | running stopped =>
    have unchanged : cpu.resume = cpu := by rw [Cpu.resume, ← stopped]
    rw [unchanged]
    simpa [staysFrozen, stopped] using h
  | @left enabled requested stopped pending =>
    simp only [staysFrozen, ensures_bind, ensures_get, stopped, if_true, ensures_lift,
      ensures_pendingRequests] at h
    simpa [pending] using h enabled requested

theorem Ensures.unserved {Q : List Access → List LogEvent → Option Interrupt → Cpu → Prop}
    (h : Ensures serveInterrupt cpu Q) {enabled requested : UInt8}
    (masked : pendingOf enabled requested ≠ 0 → cpu.ime = false) :
    Q (pollAccesses enabled requested) [] none
      (if pendingOf enabled requested = 0 then cpu else { cpu with halted := false }) := by
  simp only [serveInterrupt, ensures_bind, ensures_lift, ensures_pendingRequests] at h
  replace h := h enabled requested
  split
  case isTrue quiet => simpa [(first?_pendingOf_eq_none_iff _ _).mpr quiet] using h
  case isFalse pending =>
    obtain ⟨source, first⟩ := Option.ne_none_iff_exists'.mp
      (mt (first?_pendingOf_eq_none_iff enabled requested).mp pending)
    simpa [first, masked pending] using h

theorem Ensures.entered {Q : List Access → List LogEvent → Option Interrupt → Cpu → Prop}
    (h : Ensures serveInterrupt cpu Q) {enabled requested : UInt8} (acknowledged : UInt8)
    {source : Interrupt} (first : Interrupt.first? (pendingOf enabled requested) = some source)
    (ime : cpu.ime = true) :
    Q (pollAccesses enabled requested ++ entryAccesses source cpu.regs acknowledged)
      [.interrupted source cpu.regs.pc (cpu.regs.sp - 2)] (some source)
      ({ cpu with halted := false }.enter source) := by
  simp only [serveInterrupt, ensures_bind, ensures_lift, ensures_pendingRequests] at h
  replace h := h enabled requested
  simp only [first, ensures_bind, ensures_modify, ensures_get, ime, if_true,
    ensures_enterInterrupt] at h
  simpa [ime] using h acknowledged

theorem Ensures.faulted {executed : Nat}
    {Q : List Access → List LogEvent → Except StepError Slot → Cpu → Prop}
    (h : Ensures (executeNext executed) cpu Q) {fetch : List Access}
    {fetchReports : List LogEvent} {fault : FetchError}
    (fetched : (Instruction.fetch cpu.regs.pc).Path fetch fetchReports (.error fault)) :
    Q fetch fetchReports (.error ⟨fault, cpu.regs.pc, executed⟩) cpu := by
  simp only [executeNext, ensures_bind, ensures_regs, ensures_lift] at h
  simpa using h _ _ _ fetched

theorem Ensures.executed {executed : Nat}
    {Q : List Access → List LogEvent → Except StepError Slot → Cpu → Prop}
    (h : Ensures (executeNext executed) cpu Q) {fetch accesses : List Access}
    {fetchReports reports : List LogEvent} {ins : Instruction} {taken : Bool} {after : Cpu}
    (fetched : (Instruction.fetch cpu.regs.pc).Path fetch fetchReports (.ok ins))
    (performed : ((perform ins.address ins.operand ins.operation).run
      { cpu with regs := { cpu.regs with pc := ins.next } }).Path accesses reports
        (taken, after)) :
    Q (fetch ++ (accesses ++ [.tick (ins.cost taken)]))
      (fetchReports ++ (.executing ins cpu.regs :: reports))
      (.ok (.executed ins (ins.cost taken))) (after.finish (ins.cost taken)) := by
  simp only [executeNext, ensures_bind, ensures_regs, ensures_lift] at h
  have run := h _ _ _ fetched
  simp only [ensures_map, ensures_runInstruction] at run
  simpa using run _ _ _ performed

/-- A core that is not left asleep is awake after the search for interrupts. -/
theorem resume_unserved {enabled requested : UInt8}
    (woken : cpu.halted = true → pendingOf enabled requested ≠ 0) :
    (if pendingOf enabled requested = 0 then cpu.resume else { cpu.resume with halted := false }) =
      cpu.awake := by
  split
  case isTrue quiet =>
    have running : cpu.halted = false := eq_false_of_ne_true fun halted => woken halted quiet
    rw [Cpu.awake, Cpu.resume, ← running]
  case isFalse => rfl

theorem Ensures.goesOn {executed : Nat}
    {Q : List Access → List LogEvent → Except StepError Slot → Cpu → Prop}
    (h : Ensures (slot executed) cpu Q) {thaw : List Access} {thawReports : List LogEvent}
    {enabled requested : UInt8} (thawed : Thaw cpu thaw thawReports)
    (woken : cpu.halted = true → pendingOf enabled requested ≠ 0)
    (masked : pendingOf enabled requested ≠ 0 → cpu.ime = false) :
    Ensures (executeNext executed) cpu.awake fun accesses reports =>
      Q (thaw ++ pollAccesses enabled requested ++ accesses) (thawReports ++ reports) := by
  rw [slot, ensures_bind] at h
  have rest := h.thawed thawed
  simp only [Bool.false_eq_true, if_false, ensures_bind] at rest
  have awake := rest.unserved masked
  rw [resume_unserved woken] at awake
  simp only [ensures_bind, ensures_get] at awake
  simpa [Cpu.awake] using awake

/-- **The courses are possible**: each of them is a path of the slot. -/
theorem Course.path {executed : Nat} {accesses : List Access} {reports : List LogEvent}
    {outcome : Except StepError Slot} {after : Cpu}
    (h : Course executed cpu accesses reports outcome after) :
    ((slot executed).run cpu).Path accesses reports (outcome, after) := by
  refine Interaction.path_of_ensures fun Q ensured => ?_
  replace ensured : Ensures (slot executed) cpu fun accesses reports outcome after =>
    Q accesses reports (outcome, after) := ensured
  cases h with
  | frozen stopped quiet =>
    rw [slot, ensures_bind] at ensured
    simpa using ensured.frozen stopped quiet
  | entered acknowledged thawed first ime =>
    rw [slot, ensures_bind] at ensured
    have rest := ensured.thawed thawed
    simp only [Bool.false_eq_true, if_false, ensures_bind] at rest
    simpa [Cpu.resume, Cpu.awake, Cpu.enter, Cpu.disableInterrupts] using
      rest.entered acknowledged first ime
  | idled thawed quiet halted =>
    rw [slot, ensures_bind] at ensured
    have rest := ensured.thawed thawed
    simp only [Bool.false_eq_true, if_false, ensures_bind] at rest
    have asleep := rest.unserved (absurd quiet)
    simpa [quiet, Cpu.resume, halted] using asleep
  | faulted thawed woken masked fetched =>
    exact (ensured.goesOn thawed woken masked).faulted fetched
  | executed thawed woken masked fetched performed =>
    exact (ensured.goesOn thawed woken masked).executed fetched performed

/-! ### Counters -/

/-- A slot adds its clock cycles to the counter of cycles, and an executed instruction to the
counter of instructions. -/
theorem ensures_slot_tally (executed : Nat) (cpu : Cpu) :
    Ensures (slot executed) cpu fun _ _ outcome after =>
      match outcome with
      | .ok done =>
        after.cycles = cpu.cycles + done.cycles ∧
        after.instructions = cpu.instructions + (if done.isExecuted then 1 else 0)
      | .error _ => after.cycles = cpu.cycles ∧ after.instructions = cpu.instructions := by
  refine (ensures_slot executed cpu).mono fun _ _ _ _ course => ?_
  cases course with
  | frozen => exact ⟨rfl, rfl⟩
  | entered => exact ⟨rfl, rfl⟩
  | idled => exact ⟨rfl, rfl⟩
  | faulted => exact ⟨rfl, rfl⟩
  | executed thawed woken masked fetched performed =>
    have changed := ensures_perform_control _ _ _ _ _ _ _ performed
    dsimp only at changed
    rw [changed]
    simp [Cpu.finish, Cpu.awake, Slot.cycles, Slot.isExecuted]

end Exec

/-! ### The number in an error -/

/-- The error with another number of executed instructions. -/
def StepError.withExecuted (executed : Nat) (e : StepError) : StepError :=
  { e with executed := executed }

/-- The outcome with another number in its error. -/
def renumber {α : Type} (executed : Nat) : Except StepError α → Except StepError α
  | .ok value => .ok value
  | .error e => .error (e.withExecuted executed)

@[simp] theorem renumber_ok {α : Type} (executed : Nat) (value : α) :
    renumber executed (.ok value) = .ok value := rfl

@[simp] theorem renumber_error {α : Type} (executed : Nat) (e : StepError) :
    renumber executed (.error e : Except StepError α) = .error (e.withExecuted executed) := rfl

/-- The number passed to a slot shows in its error and nowhere else. -/
theorem Exec.slot_eq_map (executed : Nat) :
    Exec.slot executed = renumber executed <$> Exec.slot 0 := by
  have next : Exec.executeNext executed =
      renumber executed <$> Exec.executeNext 0 := by
    simp only [Exec.executeNext, map_bind]
    refine bind_congr fun regs => bind_congr fun fetched => ?_
    cases fetched with
    | error fault => simp [StepError.withExecuted]
    | ok ins => simp [Functor.map_map]
  simp only [Exec.slot, map_bind, next]
  refine bind_congr fun frozen => ?_
  cases frozen with
  | true => simp
  | false =>
    simp only [Bool.false_eq_true, if_false, map_bind]
    refine bind_congr fun served => ?_
    cases served with
    | some source => simp
    | none =>
      simp only [map_bind]
      refine bind_congr fun cpu => ?_
      split <;> simp

end Sm83
