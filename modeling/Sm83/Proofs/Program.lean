import Sm83.Cpu.Slot
import Sm83.Proofs.Path

/-! # Programs of the core along their paths

`Ensures program cpu Q` says that `Q` holds of the accesses, the events, the value and the final
core on every path of a program started in `cpu`.

* **Laws.** Each primitive of the core has an equation for `Ensures`, and so has composition
  (`ensures_bind`); a program of primitives is worked out by rewriting.
* **Specifications.** The same for the stack (`ensures_push`, `ensures_pop`), the poll
  (`ensures_pendingRequests`), the entry into a handler (`ensures_enterInterrupt`) and fetching
  (`ensures_fetch`).  Callers use these and never open the programs.
* **Frames.** All but five operations are made of reads, writes and changes of registers
  (`within_perform`); what holds of these and is kept by composition holds of such operations.
  A relation that only some changes of registers are in is `Cumulative`, and the same family of
  lemmas treats a program as soon as its own changes are (`Allows`).
* **Control.** An operation changes, apart from the registers, only what `Operation.control` says
  (`ensures_perform_control`): those five operations touch the control state, and none a counter. -/

namespace Sm83

namespace Exec

variable {α γ : Type}

/-- Whether `Q` holds of the accesses, the events, the value and the final core on every path of
a program. -/
def Ensures (program : Exec α) (cpu : Cpu)
    (Q : List Access → List LogEvent → α → Cpu → Prop) : Prop :=
  (StateT.run program cpu).Ensures fun accesses reports result =>
    Q accesses reports result.1 result.2

theorem Ensures.mono {program : Exec α} {cpu : Cpu}
    {Q R : List Access → List LogEvent → α → Cpu → Prop} (h : Ensures program cpu Q)
    (imp : ∀ accesses reports value after, Q accesses reports value after →
      R accesses reports value after) : Ensures program cpu R :=
  Interaction.Ensures.mono h fun _ _ _ => imp _ _ _ _

/-! ### Laws -/

section laws
variable {cpu : Cpu}

@[simp] theorem ensures_pure (value : α) {Q : List Access → List LogEvent → α → Cpu → Prop} :
    Ensures (pure value) cpu Q ↔ Q [] [] value cpu := by
  simp [Ensures]

@[simp] theorem ensures_bind (program : Exec α) (f : α → Exec γ)
    {Q : List Access → List LogEvent → γ → Cpu → Prop} :
    Ensures (program >>= f) cpu Q ↔ Ensures program cpu fun accesses reports value after =>
      Ensures (f value) after fun accesses' reports' =>
        Q (accesses ++ accesses') (reports ++ reports') := by
  simp [Ensures, StateT.run_bind]

@[simp] theorem ensures_map (f : α → γ) (program : Exec α)
    {Q : List Access → List LogEvent → γ → Cpu → Prop} :
    Ensures (f <$> program) cpu Q ↔
      Ensures program cpu fun accesses reports value => Q accesses reports (f value) := by
  simp [Ensures]

@[simp] theorem ensures_lift (t : Interaction α)
    {Q : List Access → List LogEvent → α → Cpu → Prop} :
    Ensures (StateT.lift t) cpu Q ↔
      t.Ensures fun accesses reports value => Q accesses reports value cpu := by
  simp [Ensures]

@[simp] theorem ensures_get {Q : List Access → List LogEvent → Cpu → Cpu → Prop} :
    Ensures get cpu Q ↔ Q [] [] cpu cpu := by
  simp [Ensures]

@[simp] theorem ensures_modify (f : Cpu → Cpu)
    {Q : List Access → List LogEvent → Unit → Cpu → Prop} :
    Ensures (modify f) cpu Q ↔ Q [] [] () (f cpu) := by
  simp [Ensures]

@[simp] theorem ensures_read (address : UInt16)
    {Q : List Access → List LogEvent → UInt8 → Cpu → Prop} :
    Ensures (read address) cpu Q ↔ ∀ byte, Q [.read address byte] [] byte cpu := by
  simp [read, Interaction.readByte]

@[simp] theorem ensures_write (address : UInt16) (byte : UInt8)
    {Q : List Access → List LogEvent → Unit → Cpu → Prop} :
    Ensures (write address byte) cpu Q ↔ Q [.write address byte] [] () cpu := by
  simp [write, Interaction.writeByte]

@[simp] theorem ensures_note (event : LogEvent)
    {Q : List Access → List LogEvent → Unit → Cpu → Prop} :
    Ensures (report event) cpu Q ↔ Q [] [event] () cpu := by
  simp [report, Interaction.note]

@[simp] theorem ensures_regs {Q : List Access → List LogEvent → Registers → Cpu → Prop} :
    Ensures regs cpu Q ↔ Q [] [] cpu.regs cpu := by
  simp [regs]

@[simp] theorem ensures_updateRegs (f : Registers → Registers)
    {Q : List Access → List LogEvent → Unit → Cpu → Prop} :
    Ensures (updateRegs f) cpu Q ↔ Q [] [] () { cpu with regs := f cpu.regs } := by
  simp [updateRegs]

@[simp] theorem ensures_flags {Q : List Access → List LogEvent → Flags → Cpu → Prop} :
    Ensures flags cpu Q ↔ Q [] [] cpu.regs.flags cpu := by
  simp [flags]

@[simp] theorem ensures_updateFlags (f : Flags → Flags)
    {Q : List Access → List LogEvent → Unit → Cpu → Prop} :
    Ensures (updateFlags f) cpu Q ↔
      Q [] [] () { cpu with regs := { cpu.regs with flags := f cpu.regs.flags } } := by
  simp [updateFlags]

@[simp] theorem ensures_jump (address : UInt16)
    {Q : List Access → List LogEvent → Unit → Cpu → Prop} :
    Ensures (jump address) cpu Q ↔
      Q [] [] () { cpu with regs := { cpu.regs with pc := address } } := by
  simp [jump]

@[simp] theorem ensures_spend (cycles : Nat)
    {Q : List Access → List LogEvent → Unit → Cpu → Prop} :
    Ensures (spend cycles) cpu Q ↔
      Q [.tick cycles] [] () { cpu with cycles := cpu.cycles + cycles } := by
  simp [spend, Interaction.elapse]

end laws

/-! ### The stack and the operands -/

section specifications
variable {cpu : Cpu}

/-- A word is pushed high byte first, below the stack pointer. -/
@[simp] theorem ensures_push (value : UInt16)
    {Q : List Access → List LogEvent → Unit → Cpu → Prop} :
    Ensures (push value) cpu Q ↔
      Q [.write (cpu.regs.sp - 1) (highByte value), .write (cpu.regs.sp - 2) (lowByte value)] [] ()
        { cpu with regs := { cpu.regs with sp := cpu.regs.sp - 2 } } := by
  have twice : cpu.regs.sp - 1 - 1 = cpu.regs.sp - 2 := by grind
  simp [push, twice]

/-- A word is popped low byte first, at the stack pointer. -/
@[simp] theorem ensures_pop {Q : List Access → List LogEvent → UInt16 → Cpu → Prop} :
    Ensures pop cpu Q ↔ ∀ low high,
      Q [.read cpu.regs.sp low, .read (cpu.regs.sp + 1) high] [] (word high low)
        { cpu with regs := { cpu.regs with sp := cpu.regs.sp + 2 } } := by
  simp [pop]

/-- Only an operand in memory is read off the bus. -/
theorem ensures_operandRead (imm : UInt16) (operand : Operand)
    {Q : List Access → List LogEvent → UInt8 → Cpu → Prop} :
    Ensures (operand.read imm) cpu Q ↔
      match operand.place imm cpu.regs with
      | .register r => Q [] [] (cpu.regs.getByte r) { cpu with regs := operand.step cpu.regs }
      | .immediate value => Q [] [] value { cpu with regs := operand.step cpu.regs }
      | .memory address => ∀ byte,
        Q [.read address byte] [] byte { cpu with regs := operand.step cpu.regs } := by
  simp only [Operand.read, ensures_bind, ensures_regs]
  cases operand.place imm cpu.regs <;> simp

/-- Only an operand in memory is written to the bus. -/
theorem ensures_operandWrite (imm : UInt16) (operand : Operand) (value : UInt8)
    {Q : List Access → List LogEvent → Unit → Cpu → Prop} :
    Ensures (operand.write imm value) cpu Q ↔
      match operand.place imm cpu.regs with
      | .register r =>
        Q [] [] () { cpu with regs := operand.step (cpu.regs.setByte r value) }
      | .immediate _ => Q [] [] () { cpu with regs := operand.step cpu.regs }
      | .memory address =>
        Q [.write address value] [] () { cpu with regs := operand.step cpu.regs } := by
  simp only [Operand.write, ensures_bind, ensures_regs]
  cases operand.place imm cpu.regs <;> simp

end specifications

end Exec

/-! ### Interrupts -/

/-- The accesses of a poll that finds these bytes in the two interrupt registers. -/
def pollAccesses (enabled requested : UInt8) : List Access :=
  [.read Interrupt.enableAddress enabled, .read Interrupt.requestAddress requested]

/-- The sources that are both enabled and requested by these bytes. -/
def pendingOf (enabled requested : UInt8) : UInt8 := enabled &&& requested &&& Interrupt.maskAll

@[simp] theorem ensures_pendingRequests {Q : List Access → List LogEvent → UInt8 → Prop} :
    pendingRequests.Ensures Q ↔ ∀ enabled requested,
      Q (pollAccesses enabled requested) [] (pendingOf enabled requested) := by
  simp [pendingRequests, Interaction.readByte, pollAccesses, pendingOf]

/-- The core at the start of the handler of an interrupt. -/
def Cpu.enter (source : Interrupt) (cpu : Cpu) : Cpu :=
  { cpu.disableInterrupts with
    regs := { cpu.regs with sp := cpu.regs.sp - 2, pc := source.vector } }

/-- The accesses of entering a handler: the old PC is pushed, and the request taken back from what
the register then holds. -/
def entryAccesses (source : Interrupt) (regs : Registers) (requested : UInt8) : List Access :=
  [.write (regs.sp - 1) (highByte regs.pc), .write (regs.sp - 2) (lowByte regs.pc),
    .read Interrupt.requestAddress requested,
    .write Interrupt.requestAddress (requested &&& ~~~source.mask)]

@[simp] theorem Exec.ensures_enterInterrupt (source : Interrupt) {cpu : Cpu}
    {Q : List Access → List LogEvent → Unit → Cpu → Prop} :
    Exec.Ensures (Exec.enterInterrupt source) cpu Q ↔ ∀ requested,
      Q (entryAccesses source cpu.regs requested)
        [.interrupted source cpu.regs.pc (cpu.regs.sp - 2)] () (cpu.enter source) := by
  simp [Exec.enterInterrupt, entryAccesses, Cpu.enter, Cpu.disableInterrupts]

/-! ### Fetching -/

/-- Fetching reads the first byte, and no more unless it begins an instruction that ends in
time. -/
theorem Instruction.ensures_fetch (address : UInt16)
    {Q : List Access → List LogEvent → Except FetchError Instruction → Prop} :
    (Instruction.fetch address).Ensures Q ↔ ∀ opcode,
      if (decode opcode).isUnassigned then
        Q [.read address opcode] [] (.error (.unassigned opcode))
      else if address.toNat + (decode opcode).length > 0x10000 then
        Q [.read address opcode] [] (.error (.truncated opcode))
      else
        (Instruction.fetchRest address (decode opcode)).Ensures fun accesses reports ins =>
          Q (.read address opcode :: accesses) reports (.ok ins) := by
  simp only [Instruction.fetch, Interaction.ensures_bind, Interaction.readByte,
    Interaction.ensures_read, Interaction.ensures_done]
  refine forall_congr' fun opcode => ?_
  split
  · simp
  · split <;> simp

/-- Why a byte at an address begins no instruction there. -/
inductive Instruction.Refused (address : UInt16) (opcode : UInt8) : FetchError → Prop
  | unassigned (hole : (decode opcode).isUnassigned = true) :
      Refused address opcode (.unassigned opcode)
  | truncated (assigned : (decode opcode).isUnassigned = false)
      (late : address.toNat + (decode opcode).length > 0x10000) :
      Refused address opcode (.truncated opcode)

theorem Instruction.Refused.unique {address : UInt16} {opcode : UInt8} {fault other : FetchError}
    (h : Refused address opcode fault) (h' : Refused address opcode other) : fault = other := by
  cases h with
  | unassigned hole =>
    cases h' with
    | unassigned => rfl
    | truncated assigned => cases hole.symm.trans assigned
  | truncated assigned late =>
    cases h' with
    | unassigned hole => cases hole.symm.trans assigned
    | truncated => rfl

/-- What fetching does: it begins with the first byte, and reads no more if that is refused. -/
inductive Instruction.Fetched (address : UInt16) :
    List Access → List LogEvent → Except FetchError Instruction → Prop
  | refused {opcode : UInt8} {fault : FetchError} (refused : Refused address opcode fault) :
      Fetched address [.read address opcode] [] (.error fault)
  | accepted {opcode : UInt8} {rest : List Access} {reports : List LogEvent} {ins : Instruction}
      (accepted : ∀ fault, ¬ Refused address opcode fault) :
      Fetched address (.read address opcode :: rest) reports (.ok ins)

theorem Instruction.ensures_fetch_fetched (address : UInt16) :
    (Instruction.fetch address).Ensures (Fetched address) := by
  rw [Instruction.ensures_fetch]
  intro opcode
  split
  case isTrue hole => exact .refused (.unassigned hole)
  case isFalse assigned =>
    split
    case isTrue late => exact .refused (.truncated (eq_false_of_ne_true assigned) late)
    case isFalse inTime =>
      intro accesses reports ins path
      refine .accepted fun fault refused => ?_
      cases refused with
      | unassigned hole => exact assigned hole
      | truncated _ late => exact inTime late

/-- Fetching only reads. -/
theorem Instruction.ensures_fetch_isRead (address : UInt16) :
    (Instruction.fetch address).Ensures fun accesses _ _ =>
      ∀ access ∈ accesses, access.isRead = true := by
  rw [Instruction.ensures_fetch]
  intro opcode
  have one : ∀ access ∈ [Access.read address opcode], access.isRead = true := by
    simp [Access.isRead]
  split
  · exact one
  · split
    · exact one
    · unfold Instruction.fetchRest
      split
      · simp [Interaction.readByte, Access.isRead]
      · split <;> simp [Interaction.readByte, Access.isRead]

/-! ### What an operation does to the control state -/

/-- The control state after an operation. -/
def Operation.control : Operation → Cpu → Cpu
  | .stop, cpu => { cpu with stopped := true, halted := false }
  | .halt, cpu => { cpu with halted := true }
  | .di, cpu => cpu.disableInterrupts
  | .ei, cpu => { cpu with enablePending := true }
  | .reti, cpu => { cpu with ime := true }
  | _, cpu => cpu

/-- Whether an operation changes the control state. -/
def Operation.isControl : Operation → Bool
  | .stop | .halt | .di | .ei | .reti => true
  | _ => false

theorem Operation.control_of_not_isControl {op : Operation} (plain : op.isControl = false)
    (cpu : Cpu) : op.control cpu = cpu := by
  cases op with
  | stop | halt | di | ei | reti => cases plain
  | _ => rfl

namespace Exec

variable {α γ : Type}

/-- A relation between the core before a program, its accesses, and the core after it, that holds of
whatever is made of reads, writes and changes of registers. -/
structure Frame (R : Cpu → List Access → Cpu → Prop) : Prop where
  regs : ∀ (cpu : Cpu) (regs : Registers), R cpu [] { cpu with regs := regs }
  read : ∀ (cpu : Cpu) (address : UInt16) (byte : UInt8), R cpu [.read address byte] cpu
  write : ∀ (cpu : Cpu) (address : UInt16) (byte : UInt8), R cpu [.write address byte] cpu
  append : ∀ {cpu mid after : Cpu} {first last : List Access},
    R cpu first mid → R mid last after → R cpu (first ++ last) after

/-- A relation between the core before a program, its accesses, and the core after it, that holds of
reads and writes and is kept by composition.  Unlike in a frame, not every change of registers need
be in it. -/
structure Cumulative (R : Cpu → List Access → Cpu → Prop) : Prop where
  refl : ∀ cpu : Cpu, R cpu [] cpu
  read : ∀ (cpu : Cpu) (address : UInt16) (byte : UInt8), R cpu [.read address byte] cpu
  write : ∀ (cpu : Cpu) (address : UInt16) (byte : UInt8), R cpu [.write address byte] cpu
  append : ∀ {cpu mid after : Cpu} {first last : List Access},
    R cpu first mid → R mid last after → R cpu (first ++ last) after

theorem Frame.cumulative {R : Cpu → List Access → Cpu → Prop} (frame : Frame R) :
    Cumulative R where
  refl cpu := frame.regs cpu cpu.regs
  read := frame.read
  write := frame.write
  append := frame.append

/-- Whether a relation holds of every path of a program. -/
def Within (R : Cpu → List Access → Cpu → Prop) (program : Exec α) : Prop :=
  ∀ cpu, Ensures program cpu fun accesses _ _ after => R cpu accesses after

/-- Whether a relation holds of a change of registers. -/
def Allows (R : Cpu → List Access → Cpu → Prop) (f : Registers → Registers) : Prop :=
  ∀ cpu, R cpu [] { cpu with regs := f cpu.regs }

section cumulative
variable {R : Cpu → List Access → Cpu → Prop} (cumulative : Cumulative R)
include cumulative

theorem Within.bind {program : Exec α} {f : α → Exec γ} (first : Within R program)
    (rest : ∀ value, Within R (f value)) : Within R (program >>= f) := by
  intro cpu
  rw [ensures_bind]
  refine (first cpu).mono fun _ _ value after related => ?_
  exact (rest value after).mono fun _ _ _ _ related' => cumulative.append related related'

theorem within_pure (value : α) : Within R (pure value) := by
  simp [Within, cumulative.refl]

theorem within_regs : Within R regs := by
  simp [Within, cumulative.refl]

theorem within_flags : Within R flags := by
  simp [Within, cumulative.refl]

theorem within_read (address : UInt16) : Within R (read address) := by
  simp [Within, cumulative.read]

theorem within_write (address : UInt16) (byte : UInt8) : Within R (write address byte) := by
  simp [Within, cumulative.write]

omit cumulative in
theorem within_updateRegs {f : Registers → Registers} (allowed : Allows R f) :
    Within R (updateRegs f) :=
  fun cpu => (ensures_updateRegs f).mpr (allowed cpu)

theorem within_push (sp : ∀ f : UInt16 → UInt16, Allows R fun regs => { regs with sp := f regs.sp })
    (value : UInt16) : Within R (push value) :=
  (within_updateRegs (sp (· - 1))).bind cumulative fun _ => (within_regs cumulative).bind cumulative
    fun _ => (within_write cumulative _ _).bind cumulative fun _ =>
    (within_updateRegs (sp (· - 1))).bind cumulative fun _ =>
    (within_regs cumulative).bind cumulative fun _ => within_write cumulative _ _

theorem within_pop
    (sp : ∀ f : UInt16 → UInt16, Allows R fun regs => { regs with sp := f regs.sp }) :
    Within R pop :=
  (within_regs cumulative).bind cumulative fun _ => (within_read cumulative _).bind cumulative
    fun _ => (within_read cumulative _).bind cumulative fun _ =>
    (within_updateRegs (sp (· + 2))).bind cumulative fun _ => within_pure cumulative _

theorem within_call (sp : ∀ f : UInt16 → UInt16, Allows R fun regs => { regs with sp := f regs.sp })
    (pc : ∀ address, Allows R fun regs => { regs with pc := address }) (address : UInt16) :
    Within R (call address) :=
  (within_regs cumulative).bind cumulative fun _ =>
    (within_push cumulative sp _).bind cumulative fun _ => within_updateRegs (pc address)

theorem within_ret (sp : ∀ f : UInt16 → UInt16, Allows R fun regs => { regs with sp := f regs.sp })
    (pc : ∀ address, Allows R fun regs => { regs with pc := address }) : Within R ret :=
  (within_pop cumulative sp).bind cumulative fun address => within_updateRegs (pc address)

theorem within_operandRead (imm : UInt16) {operand : Operand} (step : Allows R operand.step) :
    Within R (operand.read imm) := by
  intro cpu
  rw [ensures_operandRead]
  split
  · exact step cpu
  · exact step cpu
  · exact fun byte => cumulative.append (cumulative.read cpu _ byte) (step cpu)

theorem within_operandWrite (imm : UInt16) {operand : Operand} {value : UInt8}
    (step : Allows R operand.step)
    (store : ∀ r, operand = .reg r → Allows R fun regs => regs.setByte r value) :
    Within R (operand.write imm value) := by
  intro cpu
  rw [ensures_operandWrite]
  split
  case h_1 r place =>
    have register : operand = .reg r := by
      cases operand <;> cases place
      rfl
    exact cumulative.append (store r register cpu) (step _)
  case h_2 => exact step cpu
  case h_3 => exact cumulative.append (cumulative.write cpu _ value) (step cpu)

theorem within_operandUpdate (imm : UInt16) {operand : Operand}
    {f : UInt8 → Flags → UInt8 × Flags} (step : Allows R operand.step)
    (flags : ∀ value, Allows R fun regs => { regs with flags := (f value regs.flags).2 })
    (store : ∀ value r, operand = .reg r → Allows R fun regs => regs.setByte r value) :
    Within R (operand.update imm f) := by
  refine (within_operandRead cumulative imm step).bind cumulative fun value cpu => ?_
  rw [ensures_bind, ensures_flags, ensures_bind, ensures_updateFlags]
  refine (within_operandWrite cumulative imm step (store _) _).mono fun _ _ _ _ related => ?_
  exact cumulative.append (flags value cpu) related

theorem Within.transfer {body : Exec Unit} (kept : Within R body)
    (condition : Option Condition) : Within R (transfer condition body) := by
  refine (within_flags cumulative).bind cumulative fun flags => ?_
  split
  · exact kept.bind cumulative fun _ => within_pure cumulative true
  · exact within_pure cumulative false

theorem Within.plain {body : Exec Unit} (kept : Within R body) : Within R (plain body) :=
  kept.bind cumulative fun _ => within_pure cumulative false

end cumulative

/-- Leaving a view of the registers as it was is a cumulative relation. -/
theorem cumulative_view (view : Registers → γ) :
    Cumulative fun cpu _ after => view after.regs = view cpu.regs where
  refl _ := rfl
  read _ _ _ := rfl
  write _ _ _ := rfl
  append kept kept' := kept'.trans kept

/-- Every operation that leaves the control state alone is made of reads, writes and changes of
registers. -/
theorem within_perform {R : Cpu → List Access → Cpu → Prop} (frame : Frame R)
    (address imm : UInt16) {op : Operation} (plain : op.isControl = false) :
    Within R (perform address imm op) := by
  have cumulative := frame.cumulative
  have any (f : Registers → Registers) : Allows R f := fun cpu => frame.regs cpu _
  have update {f : Registers → Registers} : Within R (updateRegs f) := within_updateRegs (any f)
  have read (operand : Operand) : Within R (operand.read imm) :=
    within_operandRead cumulative imm (any _)
  have call (address : UInt16) : Within R (call address) :=
    within_call cumulative (fun _ => any _) (fun _ => any _) address
  cases op with
  | stop | halt | di | ei | reti => cases plain
  | nop | extension | unassigned => exact (within_pure cumulative ()).plain cumulative
  | load dst src =>
    exact ((read src).bind cumulative fun _ =>
      within_operandWrite cumulative imm (any _) fun _ _ => any _).plain cumulative
  | storeSp =>
    exact ((within_regs cumulative).bind cumulative fun _ =>
      (within_write cumulative _ _).bind cumulative fun _ =>
      within_write cumulative _ _).plain cumulative
  | loadHlSp => exact ((within_regs cumulative).bind cumulative fun _ => update).plain cumulative
  | alu op src => exact ((read src).bind cumulative fun _ => update).plain cumulative
  | inc target | dec target | shift kind target | res index target | set index target =>
    exact (within_operandUpdate cumulative imm (any _) (fun _ => any _)
      fun _ _ _ => any _).plain cumulative
  | bit index target => exact ((read target).bind cumulative fun _ => update).plain cumulative
  | loadWord pair | incWord pair | decWord pair | addHl pair | loadSpHl | addSp | rotateA kind
  | daa | cpl | scf | ccf => exact update.plain cumulative
  | jump condition => exact Within.transfer cumulative update condition
  | jumpHl => exact ((within_regs cumulative).bind cumulative fun _ => update).plain cumulative
  | jumpBy condition =>
    exact ((within_regs cumulative).bind cumulative fun _ => update).transfer cumulative condition
  | call condition => exact (call imm).transfer cumulative condition
  | ret condition =>
    exact (within_ret cumulative (fun _ => any _) fun _ => any _).transfer cumulative condition
  | restart vector => exact (call _).plain cumulative
  | push pair =>
    exact ((within_regs cumulative).bind cumulative fun _ =>
      within_push cumulative (fun _ => any _) _).plain cumulative
  | pop pair =>
    exact ((within_pop cumulative fun _ => any _).bind cumulative fun _ => update).plain cumulative

/-- Reads, writes and changes of registers leave the control state alone. -/
theorem frame_control : Frame fun cpu _ after => after = { cpu with regs := after.regs } where
  regs _ _ := rfl
  read _ _ _ := rfl
  write _ _ _ := rfl
  append changed changed' := by rw [changed', changed]

/-- **The frame of an instruction**: apart from the registers, an operation changes what
`Operation.control` says. -/
theorem ensures_perform_control (address imm : UInt16) (op : Operation) (cpu : Cpu) :
    Ensures (perform address imm op) cpu fun _ _ _ after =>
      after = { op.control cpu with regs := after.regs } := by
  cases plain : op.isControl with
  | false =>
    rw [op.control_of_not_isControl plain]
    exact within_perform frame_control address imm plain cpu
  | true =>
    cases op with
    | stop | halt | di | ei => simp [perform, Exec.plain, Operation.control, Cpu.disableInterrupts]
    | reti => simp [perform, Exec.plain, ret, Operation.control]
    | _ => cases plain

end Exec

end Sm83
