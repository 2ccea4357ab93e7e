import Sm83.Proofs.Transfers

/-! # What performing an operation asks of the board

* **Accesses.** `op.dataAccesses flags` says how often an operation reads or writes through the bus
  when it is performed with these flags.  The bytes of its instruction are not among these accesses:
  they have been read before.
* **Reports.** `op.performReports address` are the events that it reports: entering one of the
  sleeping states, and nothing else.
* **Main statement.** `ensures_perform_traffic`: performing an operation makes that many accesses
  and reports those events, whatever the bus answers. -/

namespace Sm83

/-- The accesses that it takes to read an operand, or to write it. -/
def Operand.cellCount : Operand → Nat
  | .reg _ | .imm => 0
  | .indirect _ | .hlInc | .hlDec | .absolute | .highImm | .highC => 1

namespace Operation

/-- The accesses that it takes to perform an operation. -/
def dataAccesses (flags : Flags) : Operation → Nat
  | .load dst src => src.cellCount + dst.cellCount
  | .alu _ src | .bit _ src => src.cellCount
  | .inc target | .dec target | .shift _ target | .res _ target | .set _ target =>
    2 * target.cellCount
  | .storeSp | .push _ | .pop _ | .restart _ | .reti => 2
  | .call condition | .ret condition =>
    if condition.all (Condition.holds flags) then 2 else 0
  | .nop | .stop | .halt | .di | .ei | .loadWord _ | .loadSpHl | .loadHlSp | .incWord _ | .decWord _
  | .addHl _ | .addSp | .rotateA _ | .daa | .cpl | .scf | .ccf | .jump _ | .jumpHl | .jumpBy _
  | .extension | .unassigned => 0

/-- What performing an operation reports. -/
def performReports (address : UInt16) : Operation → List LogEvent
  | .stop => [.stopEntered address]
  | .halt => [.haltEntered address]
  | _ => []

end Operation

namespace Exec

variable {cpu : Cpu}

theorem ensures_operandRead_traffic (imm : UInt16) (source : Operand) :
    Ensures (source.read imm) cpu fun accesses reports _ _ =>
      accesses.length = source.cellCount ∧ reports = [] := by
  rw [ensures_operandRead]
  cases source with
  | reg | imm => exact ⟨rfl, rfl⟩
  | indirect | hlInc | hlDec | absolute | highImm | highC => exact fun _ => ⟨rfl, rfl⟩

theorem ensures_operandWrite_traffic (imm : UInt16) (target : Operand) (value : UInt8) :
    Ensures (target.write imm value) cpu fun accesses reports _ _ =>
      accesses.length = target.cellCount ∧ reports = [] := by
  rw [ensures_operandWrite]
  cases target <;> exact ⟨rfl, rfl⟩

theorem ensures_operandUpdate_traffic (imm : UInt16) (target : Operand)
    (f : UInt8 → Flags → UInt8 × Flags) :
    Ensures (target.update imm f) cpu fun accesses reports _ _ =>
      accesses.length = 2 * target.cellCount ∧ reports = [] := by
  rw [Operand.update, ensures_bind]
  refine (ensures_operandRead_traffic imm target).mono fun first _ value mid read => ?_
  rw [ensures_bind, ensures_flags, ensures_bind, ensures_updateFlags]
  refine (ensures_operandWrite_traffic imm target _).mono fun last _ _ _ written => ?_
  obtain ⟨reads, rfl⟩ := read
  obtain ⟨writes, rfl⟩ := written
  refine ⟨?_, rfl⟩
  rw [List.length_append, List.nil_append, List.nil_append, reads, writes, Nat.two_mul]

/-- **Performing** an operation makes as many accesses as it is said to, and reports what it is said
to. -/
theorem ensures_perform_traffic (address operand : UInt16) (op : Operation) (cpu : Cpu) :
    Ensures (perform address operand op) cpu fun accesses reports _ _ =>
      accesses.length = op.dataAccesses cpu.regs.flags ∧ reports = op.performReports address := by
  cases op with
  | load dst src =>
    rw [perform, ensures_plain, ensures_bind]
    refine (ensures_operandRead_traffic operand src).mono fun first _ value mid read => ?_
    refine (ensures_operandWrite_traffic operand dst value).mono fun last _ _ _ written => ?_
    obtain ⟨reads, rfl⟩ := read
    obtain ⟨writes, rfl⟩ := written
    refine ⟨?_, rfl⟩
    rw [List.length_append, reads, writes]
    rfl
  | alu kind src | bit index src =>
    rw [perform, ensures_plain, ensures_bind]
    refine (ensures_operandRead_traffic operand src).mono fun first _ value mid read => ?_
    obtain ⟨reads, rfl⟩ := read
    simpa [Operation.dataAccesses, Operation.performReports] using reads
  | inc target | dec target | shift kind target | res index target | set index target =>
    rw [perform, ensures_plain]
    exact ensures_operandUpdate_traffic operand target _
  | jump condition | jumpBy condition | call condition | ret condition =>
    cases holds : condition.all (Condition.holds cpu.regs.flags) <;>
      simp [perform, transfer, holds, call, ret, Operation.dataAccesses, Operation.performReports]
  | nop | stop | halt | di | ei | loadWord | storeSp | loadSpHl | loadHlSp | incWord | decWord
  | addHl | addSp | rotateA | daa | cpl | scf | ccf | jumpHl | reti | restart | push | pop
  | extension | unassigned =>
    simp [perform, plain, call, ret, Operation.dataAccesses, Operation.performReports]

end Exec

end Sm83
