import Sm83.Proofs.Encoding
import Sm83.Proofs.FlatMirror
import Sm83.Proofs.Requests

/-! # Servicing interrupts

Handlers that return at once are not noticed by the program that they interrupt.

* **Rounds.** With `RETI` at every vector and a stack in RAM (`Ready`), a round of two slots enters
  the most urgent pending source and comes back (`serviced_round`).  It takes back the request,
  writes the two bytes below the stack pointer, and leaves everything else as it was.
* **Composition.** `Serviced bits count s t` says what `count` rounds for the sources in `bits` have
  done; rounds compose (`Serviced.trans`).
* **Main statement.** `serviced_of_ready`: when as many rounds have gone by as sources were pending,
  each of them has been entered once, the most urgent first. -/

namespace Sm83

/-! ### Pending sources -/

/-- The number of bits that are set in a byte. -/
def bitCount (bits : UInt8) : Nat := (List.range 8).countP bits.toNat.testBit

namespace Interrupt

/-- The sources whose bits are set, the most urgent first. -/
def among (bits : UInt8) : List Interrupt := all.filter fun source => bits &&& source.mask != 0

/-- The first source goes, and the others stay. -/
theorem among_eq (bits : UInt8) :
    among bits = (first? bits).elim [] fun source => source :: among (bits &&& ~~~source.mask) := by
  revert bits
  apply forall_byte
  decide +kernel

theorem length_among (bits : UInt8) : (among bits).length = bitCount (bits &&& maskAll) := by
  revert bits
  apply forall_byte
  decide +kernel

theorem first?_of_among {bits : UInt8} {source : Interrupt} {others : List Interrupt}
    (sources : among bits = source :: others) :
    first? bits = some source ∧ among (bits &&& ~~~source.mask) = others := by
  rw [among_eq] at sources
  cases first : first? bits with
  | none =>
    rw [first] at sources
    cases sources
  | some other =>
    rw [first] at sources
    obtain ⟨rfl, rest⟩ := List.cons.inj sources
    exact ⟨rfl, rest⟩

theorem first?_of_among_nil {bits : UInt8} (sources : among bits = []) : first? bits = none := by
  rw [among_eq] at sources
  cases first : first? bits with
  | none => rfl
  | some other =>
    rw [first] at sources
    cases sources

theorem mask_or_of_and_mask {bits : UInt8} {source : Interrupt} (set : bits &&& source.mask ≠ 0) :
    source.mask ||| bits = bits := by
  revert bits
  apply forall_byte
  cases source <;> decide +kernel

end Interrupt

/-- Taking bits back one after the other takes them back together. -/
theorem and_not_and_not (register first others : UInt8) :
    register &&& ~~~first &&& ~~~others = register &&& ~~~(first ||| others) := by
  apply UInt8.toBitVec_inj.mp
  ext i
  simp [Bool.and_assoc]

theorem pendingOf_and_not (enabled requested bits : UInt8) :
    pendingOf enabled (requested &&& ~~~bits) = pendingOf enabled requested &&& ~~~bits := by
  rw [pendingOf, pendingOf, ← UInt8.and_assoc, UInt8.and_assoc _ (~~~bits),
    UInt8.and_comm (~~~bits), ← UInt8.and_assoc]

theorem or_and_not (bits others : UInt8) : bits ||| (others &&& ~~~bits) = bits ||| others := by
  apply UInt8.toBitVec_inj.mp
  ext i
  simp only [UInt8.toBitVec_or, UInt8.toBitVec_and, UInt8.toBitVec_not, BitVec.getElem_or,
    BitVec.getElem_and, BitVec.getElem_not]
  cases bits.toBitVec[i] <;> simp

/-! ### Buses -/

/-- Whether the two bytes below a stack pointer are in RAM. -/
def PushesToRam (sp : UInt16) : Prop := (0xC002 ≤ sp ∧ sp ≤ 0xE000) ∨ 0xFF82 ≤ sp

/-- Whether an address shows one of the two bytes below a stack pointer, or the register of
requests. -/
def TouchedBelow (sp address : UInt16) : Prop :=
  cell address = cell (sp - 1) ∨ cell address = cell (sp - 2) ∨
    address = Interrupt.requestAddress

theorem PushesToRam.confined {sp : UInt16} (ram : PushesToRam sp) (value : UInt8) :
    (Access.write (sp - 1) value).Confined ∧ (Access.write (sp - 2) value).Confined := by
  unfold PushesToRam at ram
  unfold Access.Confined
  grind

theorem PushesToRam.kept {sp : UInt16} (ram : PushesToRam sp) :
    Kept (sp - 1) ∧ Kept (sp - 2) := by
  unfold PushesToRam at ram
  unfold Kept
  grind

theorem PushesToRam.cell_eq {sp : UInt16} (ram : PushesToRam sp) :
    cell (sp - 1) = sp - 1 ∧ cell (sp - 2) = sp - 2 := by
  unfold PushesToRam at ram
  exact ⟨cell_of_not_echo (by grind), cell_of_not_echo (by grind)⟩

theorem PushesToRam.untouched {sp address : UInt16} (ram : PushesToRam sp)
    (elsewhere : address ≤ 0xBFFF ∨ address = 0xFFFF) : ¬ TouchedBelow sp address := by
  obtain ⟨high, low⟩ := ram.cell_eq
  have own : cell address = address := cell_of_not_echo (by grind)
  rw [TouchedBelow, high, low, own, Interrupt.requestAddress]
  unfold PushesToRam at ram
  grind

namespace SystemBus

variable {δ : Type} [Device δ] {bus : SystemBus δ}

/-- A confined write is seen at the addresses of its cell only. -/
theorem Backed.peek_write_apart (h : bus.Backed) {address other : UInt16} {value : UInt8}
    (confined : (Access.write address value).Confined) (elsewhere : cell address ≠ cell other) :
    (bus.call (.write address value)).peek other = bus.peek other := by
  have cartridge : (bus.call (.write address value)).cartridge = bus.cartridge :=
    cartridge_write_of_confined confined bus
  by_cases inside : 0xA000 ≤ other ∧ other ≤ 0xBFFF
  · have owner := route_of_cartridgeRam inside.1 inside.2
    rw [peek_of_cartridgeRam owner, peek_of_cartridgeRam owner, cartridge]
  · refine h.peek_apart value elsewhere inside fun _ => ?_
    rw [bank, bank, cartridge]

/-- The sources that are enabled and requested. -/
def pending (bus : SystemBus δ) : UInt8 :=
  pendingOf (bus.peek Interrupt.enableAddress) (bus.peek Interrupt.requestAddress)

/-- The bus after an entry. -/
def entered (bus : SystemBus δ) (source : Interrupt) (regs : Registers) : SystemBus δ :=
  bus.calls [.write Interrupt.requestAddress (bus.requestRegister &&& ~~~source.mask),
    .write (regs.sp - 2) (lowByte regs.pc), .write (regs.sp - 1) (highByte regs.pc)]

theorem Backed.entered (h : bus.Backed) (source : Interrupt) (regs : Registers) :
    (bus.entered source regs).Backed :=
  h.calls _

/-- Nothing else is seen of an entry. -/
theorem Backed.peek_entered (h : bus.Backed) (source : Interrupt) {regs : Registers}
    (ram : PushesToRam regs.sp) {address : UInt16} (apart : ¬ TouchedBelow regs.sp address) :
    (bus.entered source regs).peek address = bus.peek address := by
  obtain ⟨notHigh, rest⟩ := not_or.mp apart
  obtain ⟨notLow, notRequest⟩ := not_or.mp rest
  have confined := ram.confined
  have written (value : UInt8) : (Access.write Interrupt.requestAddress value).Confined :=
    .inr (.inr (.inr (by decide)))
  have request : cell Interrupt.requestAddress ≠ cell address := by
    intro same
    have own := route_eq_interruptRequest_iff.mp ((route_eq_of_cell same).symm.trans rfl)
    exact notRequest own
  rw [SystemBus.entered, SystemBus.calls,
    (h.calls _).peek_write_apart (written _) request, SystemBus.calls,
    (h.calls _).peek_write_apart (confined _).2 (Ne.symm notLow), SystemBus.calls,
    (h.calls _).peek_write_apart (confined _).1 (Ne.symm notHigh)]
  rfl

/-- The old PC lies below the stack pointer after an entry. -/
theorem Backed.peek_entered_pushed (h : bus.Backed) (source : Interrupt) {regs : Registers}
    (ram : PushesToRam regs.sp) :
    (bus.entered source regs).peek (regs.sp - 1) = highByte regs.pc ∧
      (bus.entered source regs).peek (regs.sp - 2) = lowByte regs.pc := by
  obtain ⟨high, low⟩ := ram.cell_eq
  obtain ⟨keptHigh, keptLow⟩ := ram.kept
  have request : cell Interrupt.requestAddress = Interrupt.requestAddress := rfl
  have apart : regs.sp - 2 ≠ regs.sp - 1 := by grind
  have other : Interrupt.requestAddress ≠ regs.sp - 1 ∧
      Interrupt.requestAddress ≠ regs.sp - 2 := by
    unfold PushesToRam at ram
    grind [Interrupt.requestAddress]
  rw [SystemBus.entered, h.peek_calls keptHigh, h.peek_calls keptLow]
  constructor
  · simp [latest, BusCall.writes?, high, low, request, other.1, apart]
  · simp [latest, BusCall.writes?, low, request, other.2]

/-- An entry takes back the request of its source. -/
theorem requestRegister_entered (bus : SystemBus δ) (source : Interrupt) (regs : Registers) :
    (bus.entered source regs).requestRegister = bus.requestRegister &&& ~~~source.mask :=
  requestRegister_acknowledge bus.requested source

/-- The accesses of an entry lead to the bus after it, and are answered. -/
theorem Backed.replay_entry (h : bus.Backed) (source : Interrupt) {regs : Registers}
    (ram : PushesToRam regs.sp) :
    Answers bus (entryAccesses source regs bus.requestRegister) ∧
      (replay (entryAccesses source regs bus.requestRegister) bus).state =
        bus.entered source regs := by
  have other : regs.sp - 1 ≠ Interrupt.requestAddress ∧
      regs.sp - 2 ≠ Interrupt.requestAddress := by
    unfold PushesToRam at ram
    grind [Interrupt.requestAddress]
  have pushed : (bus.calls [.write (regs.sp - 2) (lowByte regs.pc),
      .write (regs.sp - 1) (highByte regs.pc)]).Backed := h.calls _
  have kept : (bus.calls [.write (regs.sp - 2) (lowByte regs.pc),
      .write (regs.sp - 1) (highByte regs.pc)]).requestRegister = bus.requestRegister :=
    (requestRegister_write other.2 _ _).trans (requestRegister_write other.1 _ _)
  have asked := pushed.read Interrupt.requestAddress
  refine ⟨⟨trivial, trivial, kept, trivial, trivial⟩, ?_⟩
  exact congrArg (fun reply : Reply (SystemBus δ) UInt8 =>
    (Device.write Interrupt.requestAddress (bus.requestRegister &&& ~~~source.mask)
      reply.state).state) asked

end SystemBus

/-! ### Slots -/

theorem Cpu.awake_of_running {cpu : Cpu} (halted : cpu.halted = false)
    (stopped : cpu.stopped = false) : cpu.awake = cpu := by
  obtain ⟨regs, ime, asleep, frozen, pending, delay, cycles, instructions⟩ := cpu
  obtain rfl : asleep = false := halted
  obtain rfl : frozen = false := stopped
  rfl

namespace Computer

variable {δ : Type} [Device δ] {s : Computer (SystemBus δ)}

/-- A slot enters the most urgent pending source. -/
theorem slot_entered (backed : s.board.bus.Backed) (ram : PushesToRam s.cpu.regs.sp)
    (ime : s.cpu.ime = true) {source : Interrupt}
    (first : Interrupt.first? s.board.bus.pending = some source) :
    (s.slot 0).1 = .ok (.interrupt source) ∧
      (s.slot 0).2.cpu =
        { s.cpu.awake.enter source with cycles := s.cpu.cycles + Slot.interruptCost } ∧
      (s.slot 0).2.board.bus = s.board.bus.entered source s.cpu.regs := by
  have readEnable := s.board.bus.read_enable
  have readRequest := s.board.bus.read_request
  obtain ⟨answered, state⟩ := backed.replay_entry source ram
  have entry : Answers s.board.bus
      (entryAccesses source s.cpu.regs s.board.bus.requestRegister ++
        [.tick Slot.interruptCost]) :=
    (answers_append _ _ _).mpr ⟨answered, trivial, trivial⟩
  have polled := (answers_poll_append readEnable readRequest _ _ _).mpr ⟨⟨rfl, rfl⟩, entry⟩
  obtain ⟨thaw, reports, thawed, answers⟩ : ∃ thaw reports, Thaw s.cpu thaw reports ∧
      Answers s.board.bus (thaw ++ pollAccesses s.board.bus.enabled s.board.bus.requestRegister ++
        (entryAccesses source s.cpu.regs s.board.bus.requestRegister ++
          [.tick Slot.interruptCost])) := by
    cases stopped : s.cpu.stopped with
    | false => exact ⟨[], [], .running stopped, polled⟩
    | true =>
      refine ⟨_, _, .left stopped (pendingOf_ne_zero first), ?_⟩
      rw [List.append_assoc]
      exact (answers_poll_append readEnable readRequest _ _ _).mpr ⟨⟨rfl, rfl⟩, polled⟩
  obtain ⟨made, outcome, cpu⟩ := slot_of_course (.entered _ thawed first ime) answers
  refine ⟨outcome, cpu, ?_⟩
  rw [bus_slot, made, thawed.replay_append readEnable readRequest, state_replay_append, state]
  exact (backed.entered source s.cpu.regs).tick _

end Computer

/-- Fetching where there is a return reads one byte. -/
theorem path_fetch_reti {address : UInt16} (inTime : address.toNat < 0xFFFF) :
    (Instruction.fetch address).Path [.read address 0xD9] []
      (.ok ⟨address, decode 0xD9, 0⟩) := by
  refine Interaction.path_of_ensures fun Q ensured => ?_
  rw [Instruction.ensures_fetch] at ensured
  have found := ensured 0xD9
  have length : (decode 0xD9).length = 1 := rfl
  rw [if_neg (by decide), if_neg (by rw [length]; omega)] at found
  exact (Interaction.ensures_done _).mp found

/-- A return from a handler pops PC and enables interrupts. -/
theorem path_perform_reti (address operand : UInt16) (cpu : Cpu) (low high : UInt8) :
    ((Exec.perform address operand .reti).run cpu).Path
      [.read cpu.regs.sp low, .read (cpu.regs.sp + 1) high] []
      (false, { cpu with
        regs := { cpu.regs with sp := cpu.regs.sp + 2, pc := word high low }
        ime := true }) := by
  refine Interaction.path_of_ensures fun Q ensured => ?_
  replace ensured : Exec.Ensures (Exec.perform address operand .reti) cpu
    fun accesses reports taken after => Q accesses reports (taken, after) := ensured
  simp only [Exec.perform, Exec.plain, Exec.ret, Exec.ensures_bind, Exec.ensures_pop,
    Exec.ensures_jump, Exec.ensures_modify, Exec.ensures_pure] at ensured
  exact ensured low high

namespace Computer

variable {δ : Type} [Device δ] {s : Computer (SystemBus δ)}

/-- A slot at a return from a handler comes back. -/
theorem slot_returned (backed : s.board.bus.Backed) (ime : s.cpu.ime = false)
    (halted : s.cpu.halted = false) (stopped : s.cpu.stopped = false)
    (inTime : s.cpu.regs.pc.toNat < 0xFFFF)
    (handler : s.board.bus.peek s.cpu.regs.pc = 0xD9) :
    (s.slot 0).1 = .ok (.executed ⟨s.cpu.regs.pc, decode 0xD9, 0⟩ 16) ∧
      (s.slot 0).2.cpu = Cpu.finish 16 { s.cpu with
        regs := { s.cpu.regs with
          sp := s.cpu.regs.sp + 2
          pc := word (s.board.bus.peek (s.cpu.regs.sp + 1)) (s.board.bus.peek s.cpu.regs.sp) }
        ime := true } ∧
      (s.slot 0).2.board.bus = s.board.bus := by
  have quiet : QuietReads s.board.bus := backed.plain.quietReads
  have awake := Cpu.awake_of_running halted stopped
  have readEnable := s.board.bus.read_enable
  have readRequest := s.board.bus.read_request
  have polled (rest : List Access) (answered : Answers s.board.bus rest) :=
    (answers_poll_append readEnable readRequest _ _ _).mpr ⟨⟨rfl, rfl⟩, answered⟩
  have course : Exec.Course 0 s.cpu _ _ _ _ :=
    .executed (.running stopped)
      (fun asleep => absurd (halted.symm.trans asleep) Bool.false_ne_true)
      (fun _ : pendingOf s.board.bus.enabled s.board.bus.requestRegister ≠ 0 => ime)
      (path_fetch_reti inTime)
      (path_perform_reti s.cpu.regs.pc 0 _ (s.board.bus.peek s.cpu.regs.sp)
        (s.board.bus.peek (s.cpu.regs.sp + 1)))
  have answers : Answers s.board.bus _ := polled
    ([.read s.cpu.regs.pc 0xD9] ++
      ([.read s.cpu.regs.sp (s.board.bus.peek s.cpu.regs.sp),
        .read (s.cpu.regs.sp + 1) (s.board.bus.peek (s.cpu.regs.sp + 1))] ++ [.tick 16])) (by
    rw [List.singleton_append, List.cons_append, List.singleton_append, quiet.answers_cons,
      quiet.answers_cons, quiet.answers_cons]
    exact ⟨handler, rfl, rfl, trivial, trivial⟩)
  obtain ⟨made, outcome, cpu⟩ := slot_of_course course answers
  refine ⟨outcome, ?_, ?_⟩
  · rw [cpu, awake]
    rfl
  · have reads (first : Access) (others : List Access) (made : ∀ access ∈ first :: others,
        access.isRead = true) : replay (first :: others) s.board.bus = ⟨(), s.board.bus, []⟩ :=
      replay_of_reads quiet made
    rw [bus_slot, made, List.nil_append, replay_poll_append readEnable readRequest,
      ← List.append_assoc, state_replay_append, List.singleton_append,
      reads _ _ (by simp [Access.isRead])]
    exact backed.tick _

/-! ### Rounds -/

/-- Whether all handlers return at once, and entries find a stack in RAM. -/
structure Ready (s : Computer (SystemBus δ)) : Prop where
  backed : s.board.bus.Backed
  handlers : ∀ source : Interrupt, s.board.bus.peek source.vector = 0xD9
  ime : s.cpu.ime = true
  ram : PushesToRam s.cpu.regs.sp

/-- What has been done when the sources in some bits have been entered and have come back. -/
structure Serviced (bits : UInt8) (count : Nat) (s t : Computer (SystemBus δ)) : Prop where
  regs : t.cpu.regs = s.cpu.regs
  ime : t.cpu.ime = true
  halted : t.cpu.halted = false
  stopped : t.cpu.stopped = false
  enablePending : t.cpu.enablePending = false
  enableDelay : t.cpu.enableDelay = false
  cycles : t.cpu.cycles = s.cpu.cycles + 36 * count
  instructions : t.cpu.instructions = s.cpu.instructions + count
  /-- Exactly the bits of these sources are taken back. -/
  requests : t.board.bus.peek Interrupt.requestAddress =
    s.board.bus.peek Interrupt.requestAddress &&& ~~~bits
  /-- No byte changes but those below the stack pointer and the register of requests. -/
  memory : ∀ address, ¬ TouchedBelow s.cpu.regs.sp address →
    t.board.bus.peek address = s.board.bus.peek address

theorem Serviced.trans {bits others : UInt8} {count more : Nat} {s t u : Computer (SystemBus δ)}
    (first : Serviced bits count s t) (later : Serviced others more t u) :
    Serviced (bits ||| others) (count + more) s u where
  regs := later.regs.trans first.regs
  ime := later.ime
  halted := later.halted
  stopped := later.stopped
  enablePending := later.enablePending
  enableDelay := later.enableDelay
  cycles := by
    rw [later.cycles, first.cycles]
    omega
  instructions := by
    rw [later.instructions, first.instructions]
    omega
  requests := by rw [later.requests, first.requests, and_not_and_not]
  memory address apart := by
    have there : ¬ TouchedBelow t.cpu.regs.sp address := by
      rw [first.regs]
      exact apart
    rw [later.memory address there, first.memory address apart]

/-- What is serviced stays ready. -/
theorem Serviced.ready {bits : UInt8} {count : Nat} {s t : Computer (SystemBus δ)}
    (serviced : Serviced bits count s t) (ready : s.Ready) (backed : t.board.bus.Backed) :
    t.Ready where
  backed := backed
  handlers source := by
    have apart : ¬ TouchedBelow s.cpu.regs.sp source.vector :=
      ready.ram.untouched (.inl (by cases source <;> decide))
    rw [serviced.memory _ apart, ready.handlers]
  ime := serviced.ime
  ram := by
    rw [serviced.regs]
    exact ready.ram

/-- The other sources stay pending. -/
theorem Serviced.pending {bits : UInt8} {count : Nat} {s t : Computer (SystemBus δ)}
    (serviced : Serviced bits count s t) (ram : PushesToRam s.cpu.regs.sp) :
    t.board.bus.pending = s.board.bus.pending &&& ~~~bits := by
  have enabled := serviced.memory Interrupt.enableAddress (ram.untouched (.inr rfl))
  rw [SystemBus.pending, enabled, serviced.requests, pendingOf_and_not]
  rfl

/-- What the next steps do. -/
def slots (s : Computer (SystemBus δ)) : Nat → List (Except StepError Slot)
  | 0 => []
  | k + 1 => s.slots k ++ [((s.after k).slot 0).1]

/-- The slots of a round for a source. -/
def roundOf (source : Interrupt) : List (Except StepError Slot) :=
  [.ok (.interrupt source), .ok (.executed ⟨source.vector, decode 0xD9, 0⟩ 16)]

/-- The core after a round. -/
theorem cpu_finish_round (cpu : Cpu) (source : Interrupt) {high low : UInt8}
    (highByte : high = highByte cpu.regs.pc) (lowByte : low = lowByte cpu.regs.pc) :
    Cpu.finish 16
        { cpu.awake.enter source with
          cycles := cpu.cycles + Slot.interruptCost
          regs := { (cpu.awake.enter source).regs with
            sp := (cpu.awake.enter source).regs.sp + 2
            pc := word high low }
          ime := true } =
      { cpu.awake.disableInterrupts with
        ime := true
        cycles := cpu.cycles + 36
        instructions := cpu.instructions + 1 } := by
  have sp : cpu.regs.sp - 2 + 2 = cpu.regs.sp := UInt16.sub_add_cancel _ _
  rw [highByte, lowByte, word_highByte_lowByte]
  simp [Cpu.finish, Cpu.advanceEnable, Cpu.enter, Cpu.awake, Cpu.disableInterrupts, sp,
    Slot.interruptCost]

/-- **A round**: the most urgent pending source is entered and comes back. -/
theorem serviced_round (ready : s.Ready) {source : Interrupt}
    (first : Interrupt.first? s.board.bus.pending = some source) :
    s.slots 2 = roundOf source ∧ Serviced source.mask 1 s (s.after 2) ∧
      (s.after 2).board.bus.Backed := by
  obtain ⟨entered, cpu, bus⟩ := slot_entered ready.backed ready.ram ready.ime first
  replace cpu : (s.after 1).cpu = _ := cpu
  replace bus : (s.after 1).board.bus = s.board.bus.entered source s.cpu.regs := bus
  have backed : (s.after 1).board.bus.Backed := by
    rw [bus]
    exact ready.backed.entered source s.cpu.regs
  -- The handler is the return, and finds the old PC on the stack.
  have pc : (s.after 1).cpu.regs.pc = source.vector := congrArg (fun cpu => cpu.regs.pc) cpu
  have sp : (s.after 1).cpu.regs.sp = s.cpu.regs.sp - 2 := congrArg (fun cpu => cpu.regs.sp) cpu
  have handler : (s.after 1).board.bus.peek (s.after 1).cpu.regs.pc = 0xD9 := by
    have untouched : ¬ TouchedBelow s.cpu.regs.sp source.vector :=
      ready.ram.untouched (.inl (by cases source <;> decide))
    rw [pc, bus, ready.backed.peek_entered source ready.ram untouched, ready.handlers]
  obtain ⟨pushedHigh, pushedLow⟩ := ready.backed.peek_entered_pushed source ready.ram
  have low : (s.after 1).board.bus.peek (s.after 1).cpu.regs.sp = lowByte s.cpu.regs.pc := by
    rw [bus, sp, pushedLow]
  have high : (s.after 1).board.bus.peek ((s.after 1).cpu.regs.sp + 1) =
      highByte s.cpu.regs.pc := by
    have above : s.cpu.regs.sp - 2 + 1 = s.cpu.regs.sp - 1 := by grind
    rw [bus, sp, above, pushedHigh]
  obtain ⟨returned, cpu', bus'⟩ := slot_returned backed
    (congrArg Cpu.ime cpu) (congrArg Cpu.halted cpu) (congrArg Cpu.stopped cpu)
    (by rw [pc]; cases source <;> decide) handler
  replace cpu' : (s.after 2).cpu = _ := cpu'
  replace bus' : (s.after 2).board.bus = (s.after 1).board.bus := bus'
  rw [low, high, cpu, cpu_finish_round s.cpu source rfl rfl] at cpu'
  refine ⟨?_, ?_, ?_⟩
  · rw [pc] at returned
    rw [slots, slots, slots, List.nil_append, roundOf, returned]
    exact congrArg (fun outcome => [outcome, _]) entered
  · exact {
      regs := (congrArg Cpu.regs cpu').trans rfl
      ime := congrArg Cpu.ime cpu'
      halted := congrArg Cpu.halted cpu'
      stopped := congrArg Cpu.stopped cpu'
      enablePending := congrArg Cpu.enablePending cpu'
      enableDelay := congrArg Cpu.enableDelay cpu'
      cycles := congrArg Cpu.cycles cpu'
      instructions := congrArg Cpu.instructions cpu'
      requests := by
        rw [bus', bus]
        exact s.board.bus.requestRegister_entered source s.cpu.regs
      memory := fun address apart => by
        rw [bus', bus, ready.backed.peek_entered source ready.ram apart] }
  · rw [bus']
    exact backed

/-! ### Runs -/

theorem after_add (s : Computer (SystemBus δ)) (m n : Nat) :
    s.after (m + n) = (s.after m).after n := by
  induction n with
  | zero => rfl
  | succ n ih => rw [← Nat.add_assoc, after, after, ih]

theorem slots_add (s : Computer (SystemBus δ)) (m n : Nat) :
    s.slots (m + n) = s.slots m ++ (s.after m).slots n := by
  induction n with
  | zero => exact (List.append_nil _).symm
  | succ n ih => rw [← Nat.add_assoc, slots, slots, ih, after_add, List.append_assoc]

/-- As many rounds as there are pending sources enter each of them. -/
theorem serviced_of_among (ready : s.Ready) {source : Interrupt} {others : List Interrupt}
    (sources : Interrupt.among s.board.bus.pending = source :: others) :
    s.slots (2 * (source :: others).length) = (source :: others).flatMap roundOf ∧
      Serviced s.board.bus.pending (source :: others).length s
        (s.after (2 * (source :: others).length)) := by
  induction others generalizing s source with
  | nil =>
    obtain ⟨first, rest⟩ := Interrupt.first?_of_among sources
    obtain ⟨slots, round, -⟩ := serviced_round ready first
    -- Nothing else is pending.
    rw [← round.pending ready.ram] at rest
    have none : (s.after 2).board.bus.pending = 0 :=
      (first?_pendingOf_eq_none_iff _ _).mp (Interrupt.first?_of_among_nil rest)
    have all : s.board.bus.pending = source.mask := by
      have set := ((Interrupt.first?_eq_some_iff _ _).mp first).1
      rw [← Interrupt.mask_or_of_and_mask set, ← or_and_not, ← round.pending ready.ram, none,
        UInt8.or_zero]
    rw [all]
    exact ⟨slots, round⟩
  | cons next others ih =>
    obtain ⟨first, rest⟩ := Interrupt.first?_of_among sources
    obtain ⟨slots, round, backed⟩ := serviced_round ready first
    have pending := round.pending ready.ram
    rw [← pending] at rest
    obtain ⟨laterSlots, later⟩ := ih (round.ready ready backed) rest
    have set := ((Interrupt.first?_eq_some_iff _ _).mp first).1
    have all : source.mask ||| (s.after 2).board.bus.pending = s.board.bus.pending := by
      rw [pending, or_and_not, Interrupt.mask_or_of_and_mask set]
    have steps : 2 * (source :: next :: others).length = 2 + 2 * (next :: others).length := by
      rw [List.length_cons]
      omega
    have whole := round.trans later
    rw [all, Nat.add_comm 1] at whole
    rw [steps, slots_add, after_add, slots, laterSlots]
    exact ⟨rfl, whole⟩

/-- What the steps tell are the costs of the slots. -/
theorem results_eq_map_slots (s : Computer (SystemBus δ)) (k : Nat) :
    s.results k = (s.slots k).map (Except.map Slot.cycles) := by
  induction k with
  | zero => rfl
  | succ k ih =>
    rw [results, slots, List.map_append, ih]
    rfl

/-- **Servicing is transparent**: with handlers that return at once and a stack in RAM, two steps for
each pending source succeed and enter all of them, the most urgent first; and they leave everything
as it was but the requests, the counters, and the two bytes below the stack pointer. -/
theorem serviced_of_ready (ready : s.Ready) (pending : s.board.bus.pending ≠ 0) :
    s.results (2 * bitCount s.board.bus.pending) =
        (Interrupt.among s.board.bus.pending).flatMap (fun _ => [.ok 20, .ok 16]) ∧
      s.slots (2 * bitCount s.board.bus.pending) =
        (Interrupt.among s.board.bus.pending).flatMap roundOf ∧
      Serviced s.board.bus.pending (bitCount s.board.bus.pending) s
        (s.after (2 * bitCount s.board.bus.pending)) := by
  have count : (Interrupt.among s.board.bus.pending).length = bitCount s.board.bus.pending := by
    rw [Interrupt.length_among, SystemBus.pending, pendingOf, UInt8.and_assoc, UInt8.and_self]
  obtain ⟨source, others, sources⟩ : ∃ source others,
      Interrupt.among s.board.bus.pending = source :: others := by
    cases sources : Interrupt.among s.board.bus.pending with
    | nil =>
      have none := Interrupt.first?_of_among_nil sources
      exact absurd ((first?_pendingOf_eq_none_iff _ _).mp none) pending
    | cons source others => exact ⟨source, others, rfl⟩
  obtain ⟨slots, serviced⟩ := serviced_of_among ready sources
  rw [← sources, count] at slots serviced
  refine ⟨?_, slots, serviced⟩
  rw [results_eq_map_slots, slots, List.map_flatMap]
  rfl

/-- A halted core that two sources wake, with a return at every address of its ROM. -/
def wakened : Computer (SystemBus Empty) where
  cpu := { regs := { sp := 0xE000, pc := 0x0150 }, ime := true, halted := true }
  board :=
    { bus := { SystemBus.ofImage ⟨Array.replicate 0x100 0xD9⟩ .romOnly 0 with
        enabled := 0xFF
        requested := 0x05 } }

theorem serviced_of_ready_wakened :
    wakened.slots 4 = roundOf .vBlank ++ roundOf .timer ∧
      Serviced 0x05 2 wakened (wakened.after 4) := by
  have backed : (SystemBus.ofImage ⟨Array.replicate 0x100 0xD9⟩ .romOnly 0 :
      SystemBus Empty).Backed := SystemBus.backed_ofImage _ _ _
  have ready : wakened.Ready := {
    backed := backed
    handlers := fun source => by cases source <;> decide +kernel
    ime := rfl
    ram := .inl (by decide) }
  have pending : wakened.board.bus.pending = 0x05 := by decide +kernel
  obtain ⟨-, slots, serviced⟩ := serviced_of_ready ready (by rw [pending]; decide)
  have count : bitCount 0x05 = 2 := by decide +kernel
  rw [pending, count] at slots serviced
  exact ⟨slots, serviced⟩

end Computer

end Sm83
