import Sm83.Machine
import Sm83.Proofs.Routing
import Sm83.Proofs.RunEnd

/-! # Requests of interrupts

A request stays until its handler is entered, and is then gone.

* **The register.** Only a write to `Interrupt.requestAddress` and a request change the register
  of requests, whatever the devices on the bus do (`SystemBus.requestRegister_replay`).
* **Slots.** A slot that is not an entry keeps the register, and an entry takes back the bit of its
  source and no other (`Exec.Course.requestRegister`), provided that no instruction and no push
  writes it.  Where an entry is made and what else it does is `Entry` (`Exec.Course.entry`).
* **Conservation.** Over any sequence of steps and requests, the entries and the request that is
  left are as many as the request at the start and the requests that found their bit clear
  (`Machine.entries_conserved`). -/

namespace Sm83

/-! ### Bits of sources -/

theorem or_and_distrib (a b c : UInt8) : (a ||| b) &&& c = (a &&& c) ||| (b &&& c) :=
  UInt8.toBitVec_inj.mp BitVec.and_or_distrib_right

namespace Interrupt

theorem mem_all (source : Interrupt) : source ∈ all := by
  cases source <;> decide

/-- The most urgent source is the one of the lowest bit that is set. -/
theorem first?_eq_some_iff (bits : UInt8) (source : Interrupt) :
    first? bits = some source ↔ bits &&& source.mask ≠ 0 ∧
      ∀ other : Interrupt, other.index < source.index → bits &&& other.mask = 0 := by
  have listed : first? bits = some source ↔ bits &&& source.mask ≠ 0 ∧
      ∀ other ∈ all, other.index < source.index → bits &&& other.mask = 0 := by
    revert bits
    apply forall_byte
    cases source <;> decide +kernel
  rw [listed]
  simp only [mem_all, true_implies]

theorem mask_ne_zero (source : Interrupt) : source.mask ≠ 0 := by
  cases source <;> decide

theorem maskAll_and_mask (source : Interrupt) : maskAll &&& source.mask = source.mask := by
  cases source <;> rfl

theorem mask_and_mask (source other : Interrupt) :
    source.mask &&& other.mask = if source = other then other.mask else 0 := by
  cases source <;> cases other <;> rfl

theorem not_mask_and_mask (source other : Interrupt) :
    ~~~source.mask &&& other.mask = if source = other then 0 else other.mask := by
  cases source <;> cases other <;> rfl

/-- The bit of a source in a poll is its bit in both registers. -/
theorem pendingOf_and_mask (enabled requested : UInt8) (source : Interrupt) :
    pendingOf enabled requested &&& source.mask = enabled &&& (requested &&& source.mask) := by
  rw [pendingOf, UInt8.and_assoc, maskAll_and_mask, UInt8.and_assoc]

end Interrupt

/-! ### The register of requests -/

namespace SystemBus

variable {δ : Type}

/-- Whether the bit of a source is set in the register of requests. -/
def requests (source : Interrupt) (bus : SystemBus δ) : Bool :=
  bus.requestRegister &&& source.mask != 0

/-- A request sets the bit of its source and no other. -/
theorem requests_request (source other : Interrupt) (bus : SystemBus δ) :
    (bus.request other).requests source = (bus.requests source || decide (other = source)) := by
  have register : (bus.request other).requestRegister = bus.requestRegister ||| other.mask := by
    rw [requestRegister, requestRegister, UInt8.or_assoc, UInt8.or_comm unusedRequestBits,
      ← UInt8.or_assoc]
    rfl
  rw [requests, requests, register, or_and_distrib, Interrupt.mask_and_mask]
  by_cases same : other = source
  · simp [same, source.mask_ne_zero]
  · simp [same]

/-- Acknowledging a source clears its bit and no other. -/
theorem requests_of_acknowledged {bus after : SystemBus δ} {source : Interrupt}
    (h : after.requestRegister = bus.requestRegister &&& ~~~source.mask) (other : Interrupt) :
    after.requests other = (bus.requests other && decide (source ≠ other)) := by
  rw [requests, requests, h, UInt8.and_assoc, Interrupt.not_mask_and_mask]
  by_cases same : source = other
  · simp [same]
  · simp [same]

/-- Writing back the register without the bit of a source acknowledges it. -/
theorem requestRegister_acknowledge (requested : UInt8) (source : Interrupt) :
    ((requested ||| unusedRequestBits) &&& ~~~source.mask &&& Interrupt.maskAll) |||
        unusedRequestBits = (requested ||| unusedRequestBits) &&& ~~~source.mask := by
  revert requested
  apply forall_byte
  cases source <;> decide +kernel

section device
variable [Device δ]

theorem requestRegister_read (address : UInt16) (bus : SystemBus δ) :
    (Device.read address bus).state.requestRegister = bus.requestRegister := by
  change (SystemBus.read address bus).state.requestRegister = _
  unfold SystemBus.read
  split <;> rfl

theorem requestRegister_write {address : UInt16} (apart : address ≠ Interrupt.requestAddress)
    (value : UInt8) (bus : SystemBus δ) :
    (Device.write address value bus).state.requestRegister = bus.requestRegister := by
  change (SystemBus.write address value bus).state.requestRegister = _
  unfold SystemBus.write
  split
  case h_5 owner => exact absurd (route_eq_interruptRequest_iff.mp owner) apart
  all_goals rfl

theorem requestRegister_tick (cycles : Nat) (bus : SystemBus δ) :
    (Device.tick cycles bus).state.requestRegister = bus.requestRegister := rfl

/-- Accesses that do not write the register keep it. -/
theorem requestRegister_replay {accesses : List Access}
    (kept : ∀ value, Access.write Interrupt.requestAddress value ∉ accesses) (bus : SystemBus δ) :
    (replay accesses bus).state.requestRegister = bus.requestRegister := by
  induction accesses generalizing bus with
  | nil => rfl
  | cons access rest ih =>
    rw [state_replay_cons, ih fun value written => kept value (List.mem_cons_of_mem _ written)]
    cases access with
    | read address value => exact requestRegister_read address bus
    | write address value =>
      refine requestRegister_write ?_ value bus
      rintro rfl
      exact kept value List.mem_cons_self
    | tick cycles => exact requestRegister_tick cycles bus

/-- An entry whose pushes do not write the register takes back one bit of what it holds. -/
theorem requestRegister_entryAccesses {bus : SystemBus δ} {source : Interrupt} {regs : Registers}
    {found : UInt8} (high : regs.sp - 1 ≠ Interrupt.requestAddress)
    (low : regs.sp - 2 ≠ Interrupt.requestAddress)
    (answers : Answers bus (entryAccesses source regs found)) :
    found = bus.requestRegister ∧
      (replay (entryAccesses source regs found) bus).state.requestRegister =
        bus.requestRegister &&& ~~~source.mask := by
  obtain ⟨-, -, answered, -⟩ := answers
  -- The two pushes come before the register is read.
  have pushed := (requestRegister_write low (lowByte regs.pc) _).trans
    (requestRegister_write high (highByte regs.pc) bus)
  have same : found = bus.requestRegister := answered.symm.trans pushed
  refine ⟨same, ?_⟩
  rw [same]
  exact requestRegister_acknowledge bus.requested source

end device

end SystemBus

/-! ### Slots on a system bus -/

/-- The source whose handler a slot entered. -/
def entered? : Except StepError Slot → Option Interrupt
  | .ok (.interrupt source) => some source
  | _ => none

/-- Whether nothing writes the register of requests in a slot but the acknowledgement of an
entry. -/
structure KeepsRequests (cpu : Cpu) (accesses : List Access)
    (outcome : Except StepError Slot) : Prop where
  executed : ∀ ins cost, outcome = .ok (.executed ins cost) →
    ∀ value, Access.write Interrupt.requestAddress value ∉ accesses
  pushed : ∀ source, entered? outcome = some source →
    cpu.regs.sp - 1 ≠ Interrupt.requestAddress ∧ cpu.regs.sp - 2 ≠ Interrupt.requestAddress

/-- Where a handler is entered, and what entering it does. -/
structure Entry {δ : Type} (source : Interrupt) (cpu : Cpu) (bus : SystemBus δ)
    (accesses : List Access) (after : Cpu) (busAfter : SystemBus δ) : Prop where
  ime : cpu.ime = true
  enabled : bus.enabled &&& source.mask ≠ 0
  pending : pendingOf bus.enabled bus.requestRegister &&& source.mask ≠ 0
  /-- No more urgent source is pending. -/
  lowest : ∀ other : Interrupt, other.index < source.index →
    pendingOf bus.enabled bus.requestRegister &&& other.mask = 0
  /-- The bit of the source is taken back, and no other bit changes. -/
  acknowledged : busAfter.requestRegister = bus.requestRegister &&& ~~~source.mask
  /-- PC is pushed high byte first, before the acknowledgement. -/
  writes : accesses.filter Access.isWrite =
    [.write (cpu.regs.sp - 1) (highByte cpu.regs.pc),
      .write (cpu.regs.sp - 2) (lowByte cpu.regs.pc),
      .write Interrupt.requestAddress (bus.requestRegister &&& ~~~source.mask)]
  regs : after.regs =
    { cpu.regs with pc := UInt16.ofNat (0x40 + 8 * source.index), sp := cpu.regs.sp - 2 }
  disabled : after.ime = false

/-- A handler is entered only for a request. -/
theorem Entry.requested {δ : Type} {source : Interrupt} {cpu after : Cpu}
    {bus busAfter : SystemBus δ} {accesses : List Access}
    (h : Entry source cpu bus accesses after busAfter) : bus.requests source = true := by
  rw [SystemBus.requests, bne_iff_ne]
  intro clear
  have pending := h.pending
  rw [Interrupt.pendingOf_and_mask, clear, UInt8.and_zero] at pending
  exact pending rfl

namespace Exec

variable {δ : Type} [Device δ] {executed : Nat} {cpu after : Cpu} {accesses : List Access}
  {reports : List LogEvent} {outcome : Except StepError Slot} {bus : SystemBus δ}

/-- An entry is made where interrupts are enabled and for the most urgent source, and it does what
`Entry` says. -/
theorem Course.entry {source : Interrupt}
    (course : Course executed cpu accesses reports outcome after) (answers : Answers bus accesses)
    (kept : KeepsRequests cpu accesses outcome) (served : entered? outcome = some source) :
    Entry source cpu bus accesses after (replay accesses bus).state := by
  obtain ⟨high, low⟩ := kept.pushed source served
  cases course with
  | frozen | idled | faulted | executed => cases served
  | @entered thaw _ enabled requested _ found thawed first ime =>
    cases served
    obtain ⟨⟨rfl, rfl⟩, rest⟩ := thawed.answers_append bus.read_enable bus.read_request answers
    have entry := ((answers_append _ _ _).mp rest).1
    obtain ⟨rfl, register⟩ := SystemBus.requestRegister_entryAccesses high low entry
    obtain ⟨pending, lowest⟩ := (Interrupt.first?_eq_some_iff _ _).mp first
    have enabled : bus.enabled &&& source.mask ≠ 0 := by
      intro disabled
      refine pending ?_
      rw [Interrupt.pendingOf_and_mask, UInt8.and_comm bus.requestRegister, ← UInt8.and_assoc,
        disabled, UInt8.zero_and]
    refine ⟨ime, enabled, pending, lowest, ?_, ?_, ?_, rfl⟩
    · rw [thawed.replay_append bus.read_enable bus.read_request, state_replay_append]
      exact register
    · have none : thaw.filter Access.isWrite = [] := by
        cases thawed with
        | running => rfl
        | left => rfl
      rw [List.filter_append, List.filter_append, none]
      rfl
    · have vector : source.vector = UInt16.ofNat (0x40 + 8 * source.index) := by
        rw [← source.vector_eq, UInt16.ofNat_toNat]
      rw [← vector]
      rfl

/-- A slot keeps the register of requests but for the bit of a source that it enters. -/
theorem Course.requestRegister (course : Course executed cpu accesses reports outcome after)
    (answers : Answers bus accesses) (kept : KeepsRequests cpu accesses outcome) :
    (replay accesses bus).state.requestRegister =
      (entered? outcome).elim bus.requestRegister fun source =>
        bus.requestRegister &&& ~~~source.mask := by
  have whole := course
  cases course with
  | frozen => rfl
  | entered => exact (whole.entry answers kept rfl).acknowledged
  | idled thawed =>
    rw [thawed.replay_append bus.read_enable bus.read_request]
    rfl
  | faulted =>
    refine SystemBus.requestRegister_replay (fun value written => ?_) bus
    cases whole.isRead_of_error written
  | executed => exact SystemBus.requestRegister_replay (kept.executed _ _ rfl) bus

end Exec

/-! ### Sequences of steps and requests -/

namespace Machine

/-- What the owner of a machine asks of it. -/
inductive Call where
  | step
  | request (source : Interrupt)
deriving DecidableEq, Repr

variable {δ : Type}

/-- Requests an interrupt. -/
def request (source : Interrupt) (m : Machine δ) : Machine δ :=
  (m.mapComputer (Computer.perform fun bus => ⟨(), bus.request source, []⟩)).2

/-- Whether the bit of a source is set in the register of requests. -/
def requests (source : Interrupt) (m : Machine δ) : Bool := m.computer.board.bus.requests source

theorem requests_request (source other : Interrupt) (m : Machine δ) :
    (m.request other).requests source = (m.requests source || decide (other = source)) :=
  SystemBus.requests_request source other m.computer.board.bus

variable [Device δ]

/-- The machine after a call. -/
def call (m : Machine δ) : Call → Machine δ
  | .step => m.step.2
  | .request source => m.request source

/-- The machine after some calls. -/
def calls (m : Machine δ) : List Call → Machine δ
  | [] => m
  | first :: rest => (m.call first).calls rest

/-- The calls, each with the machine it is made to. -/
def history (m : Machine δ) : List Call → List (Machine δ × Call)
  | [] => []
  | first :: rest => (m, first) :: (m.call first).history rest

/-- Whether a call to a machine is a step that enters the handler of a source. -/
def enters (source : Interrupt) : Machine δ × Call → Bool
  | (m, .step) => decide (entered? (m.computer.slot 0).1 = some source)
  | (_, .request _) => false

omit [Device δ] in
/-- Whether a call to a machine is a request for a source whose bit is clear. -/
def requestsAnew (source : Interrupt) : Machine δ × Call → Bool
  | (_, .step) => false
  | (m, .request other) => decide (other = source) && !m.requests source

/-- Whether a step of a machine keeps the register of requests but for its acknowledgement. -/
def StepKeepsRequests (m : Machine δ) : Prop :=
  KeepsRequests m.computer.cpu m.computer.accesses (m.computer.slot 0).1

/-- Entering a handler by a step of a machine. -/
def StepEntry (source : Interrupt) (m : Machine δ) : Prop :=
  Entry source m.computer.cpu m.computer.board.bus m.computer.accesses m.step.2.computer.cpu
    m.step.2.computer.board.bus

theorem requestRegister_step {m : Machine δ} (kept : m.StepKeepsRequests) :
    m.step.2.computer.board.bus.requestRegister =
      (entered? (m.computer.slot 0).1).elim m.computer.board.bus.requestRegister fun source =>
        m.computer.board.bus.requestRegister &&& ~~~source.mask := by
  have register := m.computer.course_slot.requestRegister m.computer.answers_slot kept
  rw [← Computer.bus_slot] at register
  exact register

theorem stepEntry_of_enters {source : Interrupt} {m : Machine δ} (kept : m.StepKeepsRequests)
    (h : enters source (m, .step) = true) : m.StepEntry source := by
  have served := of_decide_eq_true h
  have entry := m.computer.course_slot.entry m.computer.answers_slot kept served
  rw [← Computer.bus_slot] at entry
  exact entry

/-- One call moves a request from the register to its entry, or puts a new one there. -/
theorem requests_call (source : Interrupt) (m : Machine δ) (call : Call)
    (kept : call = .step → m.StepKeepsRequests) :
    (enters source (m, call)).toNat + ((m.call call).requests source).toNat =
      (m.requests source).toNat + (requestsAnew source (m, call)).toNat := by
  cases call with
  | request other =>
    show false.toNat + ((m.request other).requests source).toNat = _
    rw [requests_request, requestsAnew]
    cases m.requests source <;> cases decide (other = source) <;> rfl
  | step =>
    have register := requestRegister_step (kept rfl)
    show _ + (m.step.2.requests source).toNat = (m.requests source).toNat + 0
    cases served : entered? (m.computer.slot 0).1 with
    | none =>
      rw [served] at register
      have same : m.step.2.requests source = m.requests source := by
        rw [requests, requests, SystemBus.requests, SystemBus.requests, register]
        rfl
      have none : enters source (m, .step) = false := by
        rw [enters, served]
        rfl
      rw [same, none]
      exact Nat.zero_add _
    | some other =>
      rw [served] at register
      have left : m.step.2.requests source = (m.requests source && decide (other ≠ source)) :=
        SystemBus.requests_of_acknowledged register source
      have one : enters source (m, .step) = decide (other = source) := by
        rw [enters, served]
        simp
      rw [left, one]
      by_cases same : other = source
      · subst same
        have requested := (stepEntry_of_enters (kept rfl) (one.trans (by simp))).requested
        rw [requests, requested]
        simp
      · simp [same]

/-- Over a sequence of calls, requests are neither lost nor served twice. -/
theorem countP_enters (source : Interrupt) (m : Machine δ) (calls : List Call)
    (kept : ∀ past ∈ m.history calls, past.2 = .step → past.1.StepKeepsRequests) :
    (m.history calls).countP (enters source) + ((m.calls calls).requests source).toNat =
      (m.requests source).toNat + (m.history calls).countP (requestsAnew source) := by
  induction calls generalizing m with
  | nil => exact Nat.add_comm _ _
  | cons call rest ih =>
    obtain ⟨now, later⟩ := List.forall_mem_cons.mp kept
    have first := requests_call source m call now
    have others := ih (m.call call) later
    rw [history, Machine.calls, countP_cons_toNat, countP_cons_toNat]
    omega

/-- The calls of a sequence that are entries are what `StepEntry` says. -/
theorem stepEntry_of_mem_history {source : Interrupt} {m : Machine δ} {calls : List Call}
    (kept : ∀ past ∈ m.history calls, past.2 = .step → past.1.StepKeepsRequests)
    {past : Machine δ × Call} (made : past ∈ m.history calls)
    (entered : enters source past = true) : past.1.StepEntry source := by
  obtain ⟨n, call⟩ := past
  cases call with
  | step => exact stepEntry_of_enters (kept _ made rfl) entered
  | request other => cases entered

/-- **Requests are conserved**: over any sequence of steps and requests, every request that found
its bit clear is entered once or left in the register, and only such requests are entered, each in
the way that `Entry` says. -/
theorem entries_conserved (m : Machine δ) (calls : List Call) (source : Interrupt)
    (kept : ∀ past ∈ m.history calls, past.2 = .step → past.1.StepKeepsRequests) :
    (m.history calls).countP (enters source) + ((m.calls calls).requests source).toNat =
        (m.requests source).toNat + (m.history calls).countP (requestsAnew source) ∧
      ∀ past ∈ m.history calls, enters source past = true → past.1.StepEntry source :=
  ⟨countP_enters source m calls kept,
    fun _ made entered => stepEntry_of_mem_history kept made entered⟩

/-- A machine that listens to one source, and that has no program. -/
def listening (source : Interrupt) : Machine Empty :=
  { setup := { rom := ⟨#[]⟩ }
    computer :=
      { cpu := { Cpu.boot .zeroed 0 with ime := true }
        board := { bus := { SystemBus.ofImage ⟨#[]⟩ .romOnly 0 with enabled := source.mask } } } }

/-- A request is entered by the step after it. -/
theorem entries_conserved_listening :
    ((listening .vBlank).history [.request .vBlank, .step]).countP (enters .vBlank) = 1 ∧
      ((listening .vBlank).request .vBlank).StepEntry .vBlank := by
  have kept : ∀ past ∈ (listening .vBlank).history [.request .vBlank, .step],
      past.2 = .step → past.1.StepKeepsRequests := by
    intro past made stepped
    simp only [history, List.mem_cons, List.not_mem_nil, or_false] at made
    obtain rfl | rfl := made
    · cases stepped
    · exact ⟨fun _ _ executed => (by cases executed), fun _ _ => by decide⟩
  obtain ⟨count, entries⟩ := entries_conserved (listening .vBlank) _ .vBlank kept
  exact ⟨count, entries _ (List.mem_cons_of_mem _ List.mem_cons_self) rfl⟩

end Machine

end Sm83
