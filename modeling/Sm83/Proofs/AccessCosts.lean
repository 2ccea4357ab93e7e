import Sm83.Proofs.ClockTicks
import Sm83.Proofs.FetchedBytes
import Sm83.Proofs.Footprint
import Sm83.Proofs.OperationTraffic
import Sm83.Proofs.Readback

/-! # Costs and accesses

The clock cycles of an instruction, and the accesses that they are spent on.

* **Accesses.** Fetching reads the bytes of an instruction, and performing it makes
  `op.dataAccesses flags` accesses more.  Each of them takes four cycles.
* **Idling.** What is left of the cost of an operation are idle cycles, in which the core works on
  its own: `op.idleAccesses flags` times four of them (`Operation.charge_eq`).
* **Main statement.** `metered_of_executed`: a step that executes an instruction other than STOP
  takes four cycles for each access that fetching and performing it make, and up to eight more; and
  none more for the operations that only move or combine bytes. -/

namespace Sm83

/-! ### The costs of operations -/

namespace Operation

/-- How often an operation idles for as long as an access takes. -/
def idleAccesses (flags : Flags) : Operation → Nat
  | .loadSpHl | .loadHlSp | .incWord _ | .decWord _ | .addHl _ | .push _ | .restart _ | .reti
  | .ret none => 1
  | .addSp => 2
  | .jump condition | .jumpBy condition | .call condition =>
    if condition.all (Condition.holds flags) then 1 else 0
  | .ret (some condition) => if condition.holds flags then 2 else 1
  | .nop | .stop | .halt | .di | .ei | .load _ _ | .loadWord _ | .storeSp | .alu _ _ | .inc _
  | .dec _ | .rotateA _ | .daa | .cpl | .scf | .ccf | .jumpHl | .pop _ | .shift _ _ | .bit _ _
  | .res _ _ | .set _ _ | .extension | .unassigned => 0

/-- Whether an operation takes no cycles but those of its accesses: it moves or combines bytes, or
is a transfer that is not taken. -/
def onlyAccesses (flags : Flags) : Operation → Bool
  | .load _ _ | .loadWord _ | .storeSp | .alu _ _ | .inc _ | .dec _ | .pop _ | .shift _ _ | .bit _ _
  | .res _ _ | .set _ _ => true
  | .jump condition | .jumpBy condition | .call condition =>
    !condition.all (Condition.holds flags)
  | _ => false

/-- What an operation costs with these flags. -/
def charge (flags : Flags) (op : Operation) : Nat :=
  if op.transfers flags then op.timing.taken else op.timing.untaken

theorem idleAccesses_le (op : Operation) (flags : Flags) : op.idleAccesses flags ≤ 2 := by
  cases op with
  | jump condition | jumpBy condition | call condition =>
    rw [idleAccesses]
    split <;> omega
  | ret condition =>
    cases condition with
    | none => exact Nat.le_succ 1
    | some condition =>
      rw [idleAccesses]
      split <;> omega
  | _ => exact Nat.le_of_ble_eq_true rfl

theorem idleAccesses_of_onlyAccesses {op : Operation} {flags : Flags}
    (only : op.onlyAccesses flags = true) : op.idleAccesses flags = 0 := by
  cases op with
  | jump condition | jumpBy condition | call condition =>
    exact if_neg (by simpa [onlyAccesses] using only)
  | load | loadWord | storeSp | alu | inc | dec | pop | shift | bit | res | set => rfl
  | _ => cases only

end Operation

/-- An operand is charged for its bytes in the instruction and for its cell. -/
theorem Operand.accessCycles_eq (operand : Operand) :
    operand.accessCycles = 4 * (operand.byteCount + operand.cellCount) := by
  cases operand <;> rfl

theorem Operand.byteCount_of_isNumbered {operand : Operand} (numbered : operand.isNumbered = true) :
    operand.byteCount = 0 := by
  cases operand with
  | reg | indirect => rfl
  | _ => cases numbered

namespace Operation

/-- Whether an operation is one that takes time to be executed: the first byte of an extended
instruction is none, and no more is a hole. -/
def isExecutable (op : Operation) : Bool := op != .extension && op != .unassigned

/-- **The balance of costs**: each byte of an instruction and each access takes four cycles, and so
does each time of idling.  STOP is not charged for its second byte. -/
theorem charge_eq {op : Operation} (regular : op.isRegular = true)
    (executable : op.isExecutable = true) (clocked : op ≠ .stop) (flags : Flags) :
    op.charge flags = 4 * (op.length + op.dataAccesses flags) + 4 * op.idleAccesses flags := by
  cases op with
  | stop => exact absurd rfl clocked
  | extension | unassigned => cases executable
  | load dst src =>
    have source := src.accessCycles_eq
    have target := dst.accessCycles_eq
    show 4 + dst.accessCycles + src.accessCycles =
      4 * (1 + dst.byteCount + src.byteCount + (src.cellCount + dst.cellCount)) + 4 * 0
    omega
  | alu kind src =>
    have source := src.accessCycles_eq
    show 4 + src.accessCycles = 4 * (1 + src.byteCount + src.cellCount) + 4 * 0
    omega
  | inc target | dec target =>
    have cell := target.accessCycles_eq
    rw [Operand.byteCount_of_isNumbered regular] at cell
    show 4 + 2 * target.accessCycles = 4 * (1 + 2 * target.cellCount) + 4 * 0
    omega
  | shift kind target | res index target | set index target =>
    have cell := target.accessCycles_eq
    rw [Operand.byteCount_of_isNumbered regular] at cell
    show 8 + 2 * target.accessCycles = 4 * (2 + 2 * target.cellCount) + 4 * 0
    omega
  | bit index target =>
    have cell := target.accessCycles_eq
    rw [Operand.byteCount_of_isNumbered regular] at cell
    show 8 + target.accessCycles = 4 * (2 + target.cellCount) + 4 * 0
    omega
  | jump condition | jumpBy condition | call condition | ret condition =>
    cases condition with
    | none => rfl
    | some condition =>
      cases holds : condition.holds flags <;>
        simp [charge, transfers, timing, length, dataAccesses, idleAccesses, holds]
  | _ => rfl

/-- STOP has two bytes, and costs one access. -/
example (flags : Flags) : charge flags .stop = 4 ∧ stop.length = 2 := ⟨rfl, rfl⟩

end Operation

/-! ### Fetching -/

theorem isExecutable_decodeExtended (opcode : UInt8) :
    (decodeExtended opcode).operation.isExecutable = true := by
  revert opcode
  apply forall_byte
  decide +kernel

namespace Instruction

theorem isExecutable_decode {opcode : UInt8} (assigned : (decode opcode).isUnassigned = false)
    (plain : opcode ≠ Opcode.extension) : (decode opcode).operation.isExecutable = true := by
  have notExtension : (decode opcode).operation ≠ .extension := fun same =>
    plain ((isExtension_decode_iff opcode).mp (decide_eq_true same))
  have notHole : (decode opcode).operation ≠ .unassigned := of_decide_eq_false assigned
  rw [Operation.isExecutable, bne_iff_ne.mpr notExtension, bne_iff_ne.mpr notHole]
  rfl

theorem readsFrom_length (address : UInt16) (bytes : List UInt8) :
    (readsFrom address bytes).length = bytes.length := by
  induction bytes generalizing address with
  | nil => rfl
  | cons byte rest ih => rw [readsFrom, List.length_cons, ih, List.length_cons]

variable {address : UInt16} {bytes : List UInt8} {ins : Instruction}

theorem Encoded.length_operation (h : Encoded address bytes ins) :
    bytes.length = ins.operation.length := by
  rw [← h.length_eq]
  cases h <;> rfl

theorem Encoded.isExecutable (h : Encoded address bytes ins) :
    ins.operation.isExecutable = true := by
  cases h with
  | extended opcode => exact isExecutable_decodeExtended opcode
  | @single opcode assigned length =>
    refine isExecutable_decode assigned ?_
    rintro rfl
    cases length
  | @double opcode plain length low =>
    exact isExecutable_decode (isUnassigned_of_length (by omega)) plain
  | @triple opcode length low high =>
    refine isExecutable_decode (isUnassigned_of_length (by omega)) ?_
    rintro rfl
    cases length

/-- The charge for an instruction, over its bytes and its accesses. -/
theorem Encoded.charge_eq (h : Encoded address bytes ins) (clocked : ins.operation ≠ .stop)
    (flags : Flags) :
    ins.operation.charge flags =
      4 * (bytes.length + ins.operation.dataAccesses flags) +
        4 * ins.operation.idleAccesses flags := by
  rw [h.length_operation]
  exact Operation.charge_eq h.isRegular h.isExecutable clocked flags

end Instruction

/-- Whether a transfer was taken decides the charge, and the flags decide whether it is. -/
theorem Exec.ensures_perform_charge (address operand : UInt16) {ins : Instruction} {cpu : Cpu}
    (timing : ins.entry.timing = ins.operation.timing) :
    Ensures (perform address operand ins.operation) cpu fun _ _ taken _ =>
      ins.cost taken = ins.operation.charge cpu.regs.flags := by
  cases transfers : ins.operation.transfers cpu.regs.flags with
  | false =>
    refine (ensures_perform_onward address operand transfers).mono ?_
    rintro _ _ taken _ ⟨rfl, -⟩
    rw [Operation.charge, transfers, ← timing]
    rfl
  | true =>
    refine (ensures_perform_arrives address operand transfers).mono fun _ _ taken _ arrives => ?_
    rw [Instruction.cost_of_transfers timing arrives.1, Operation.charge, transfers, ← timing]
    rfl

/-! ### Steps -/

namespace Computer

variable {β : Type} [Device β] {s : Computer β}

/-- The cost of a step that executes an instruction, and its accesses: those that search for
interrupts, those that fetch the instruction, and those that perform it. -/
structure Metered (s : Computer β) (ins : Instruction) (cost : Nat)
    (polls fetch made : List Access) : Prop where
  told : s.step.1 = .ok cost
  accesses : s.accesses = polls ++ (fetch ++ (made ++ [.tick cost]))
  /-- The core searches once, and once more to leave the STOP state. -/
  polled : polls.map Access.readAt? =
    (if s.cpu.stopped then [0xFFFF, 0xFF0F, 0xFFFF, 0xFF0F] else [0xFFFF, 0xFF0F]).map some
  fetched : fetch =
    (Instruction.fetch s.cpu.regs.pc).accesses (replay polls s.board.bus).state
  performed : made = ((Exec.perform ins.address ins.operand ins.operation).run
    { s.cpu.awake with regs := { s.cpu.regs with pc := ins.next } }).accesses
      (replay (polls ++ fetch) s.board.bus).state
  /-- The clock is no access that is counted. -/
  silent : ticks (fetch ++ made) = []
  least : 4 * (fetch ++ made).length ≤ cost
  most : cost ≤ 4 * (fetch ++ made).length + 8
  exact : ins.operation.onlyAccesses s.cpu.regs.flags = true → cost = 4 * (fetch ++ made).length

theorem map_readAt?_thaw_poll {cpu : Cpu} {thaw : List Access} {reports : List LogEvent}
    (thawed : Thaw cpu thaw reports) (enabled requested : UInt8) :
    (thaw ++ pollAccesses enabled requested).map Access.readAt? =
      (if cpu.stopped then [0xFFFF, 0xFF0F, 0xFFFF, 0xFF0F] else [0xFFFF, 0xFF0F]).map some := by
  cases thawed with
  | running stopped =>
    rw [stopped]
    rfl
  | left stopped =>
    rw [stopped]
    rfl

/-- **Costs**: a step that executes an instruction takes four cycles for each access that fetching
and performing it make, and up to eight more; and none more where the instruction does nothing
besides. -/
theorem metered_of_executed {ins : Instruction} {cost : Nat}
    (executes : (s.slot 0).1 = .ok (.executed ins cost)) (clocked : ins.operation ≠ .stop) :
    ∃ polls fetch made, s.Metered ins cost polls fetch made := by
  have told : s.step.1 = .ok cost := by
    rw [step_eq, executes]
    rfl
  have course := s.course_slot
  have answers := s.answers_slot
  rw [executes] at course
  generalize asked : s.accesses = accesses at course answers
  generalize s.reports = reports at course
  generalize (s.slot 0).2.cpu = after at course
  cases course with
  | @executed thaw fetch made _ fetchReports _ enabled requested _ taken mid thawed woken masked
      fetching performing =>
    obtain ⟨-, bytes, row, encoded, -⟩ := Instruction.ensures_fetch_encoded _ _ _ _ fetching
    have count := (Exec.ensures_perform_traffic _ _ _ _ _ _ _ performing).1
    have charged := Exec.ensures_perform_charge _ _ encoded.timing_eq _ _ _ performing
    have balance := encoded.charge_eq clocked s.cpu.regs.flags
    have total : (fetch ++ made).length =
        bytes.length + ins.operation.dataAccesses s.cpu.regs.flags := by
      rw [List.length_append, row, Instruction.readsFrom_length, count]
    -- What is left of the cost is idling.
    have idled : ins.cost taken =
        4 * (fetch ++ made).length + 4 * ins.operation.idleAccesses s.cpu.regs.flags := by
      rw [total, ← balance]
      exact charged
    have few := ins.operation.idleAccesses_le s.cpu.regs.flags
    obtain ⟨-, onward⟩ := (answers_append _ _ _).mp answers
    obtain ⟨whileFetching, later⟩ := (answers_append _ _ _).mp onward
    obtain ⟨whilePerforming, -⟩ := (answers_append _ _ _).mp later
    generalize polls : thaw ++ pollAccesses enabled requested = polled at *
    refine ⟨polled, fetch, made, told, asked, ?_, ?_, ?_, ?_, ?_, ?_, fun only => ?_⟩
    · rw [← polls]
      exact map_readAt?_thaw_poll thawed enabled requested
    · have answers : Answers (Board.mk (replay polled s.board.bus).state false {}).bus fetch :=
        whileFetching
      exact (fetching.taken answers).1.symm
    · rw [← state_replay_append] at whilePerforming
      have answers :
          Answers (Board.mk (replay (polled ++ fetch) s.board.bus).state false {}).bus made :=
        whilePerforming
      exact (performing.taken answers).1.symm
    · rw [ticks_append, ticks_of_reads (Instruction.ensures_fetch_isRead _ _ _ _ fetching)]
      exact Exec.ticks_perform _ _ _ _ _ _ _ performing
    · omega
    · omega
    · rw [idled, Operation.idleAccesses_of_onlyAccesses only]
      rfl

/-- A call that is taken idles once: it reads three bytes and writes two. -/
theorem metered_of_executed_call : ∃ polls fetch made,
    (ofProgram #[0xC4, 0x34, 0x12]).Metered ⟨0, decode 0xC4, 0x1234⟩ 24 polls fetch made := by
  have told : ((ofProgram #[0xC4, 0x34, 0x12]).slot 0).1.toOption =
      some (.executed ⟨0, decode 0xC4, 0x1234⟩ 24) := by decide +kernel
  cases outcome : ((ofProgram #[0xC4, 0x34, 0x12]).slot 0).1 with
  | error e =>
    rw [outcome] at told
    cases told
  | ok done =>
    rw [outcome] at told
    obtain rfl := Option.some.inj told
    exact metered_of_executed outcome (by decide)

end Computer

end Sm83
