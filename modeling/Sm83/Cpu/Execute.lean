import Sm83.Cpu.State

/-! # Executing instructions

* **Operands.** An addressing mode resolves to a `Place`: a register, a byte of the instruction,
  or a cell of memory.  Reading or writing through HL+ and HL- moves HL afterwards.
* **The stack.** It grows downwards; the high byte of a word is stored above its low byte.
* **Effects.** `Exec.perform` performs everything an instruction does except moving PC past
  it, charging its cycles, and the delay of EI.  It tells whether a transfer was taken. -/

namespace Sm83

/-- Where a byte operand is found once the registers are known. -/
inductive Place where
  | register (r : ByteReg)
  | immediate (value : UInt8)
  | memory (address : UInt16)
deriving DecidableEq, Repr

namespace Operand

/-- The place of an operand; `imm` is the word that came with the instruction. -/
def place (imm : UInt16) (regs : Registers) : Operand → Place
  | .reg r => .register r
  | .imm => .immediate (lowByte imm)
  | .indirect pair => .memory (regs.getWord pair)
  | .hlInc | .hlDec => .memory regs.hl
  | .absolute => .memory imm
  | .highImm => .memory (highPage (lowByte imm))
  | .highC => .memory (highPage regs.c)

/-- The registers after an access through an operand. -/
def step (regs : Registers) : Operand → Registers
  | .hlInc => regs.setHl (regs.hl + 1)
  | .hlDec => regs.setHl (regs.hl - 1)
  | _ => regs

/-- Reads the byte of an operand. -/
def read (imm : UInt16) (operand : Operand) : Exec UInt8 := do
  let regs ← Exec.regs
  let value ←
    match operand.place imm regs with
    | .register r => pure (regs.getByte r)
    | .immediate value => pure value
    | .memory address => Exec.read address
  Exec.updateRegs operand.step
  return value

/-- Writes the byte of an operand; a byte of the instruction itself is never written. -/
def write (imm : UInt16) (operand : Operand) (value : UInt8) : Exec Unit := do
  let regs ← Exec.regs
  match operand.place imm regs with
  | .register r => Exec.updateRegs fun regs => regs.setByte r value
  | .immediate _ => pure ()
  | .memory address => Exec.write address value
  Exec.updateRegs operand.step

/-- Replaces the byte of an operand by a function of it and the flags. -/
def update (imm : UInt16) (operand : Operand) (f : UInt8 → Flags → UInt8 × Flags) :
    Exec Unit := do
  let value ← operand.read imm
  let (value, flags) := f value (← Exec.flags)
  Exec.updateFlags fun _ => flags
  operand.write imm value

end Operand

namespace Exec

/-- Pushes a word on the stack. -/
def push (value : UInt16) : Exec Unit := do
  updateRegs fun regs => { regs with sp := regs.sp - 1 }
  write (← regs).sp (highByte value)
  updateRegs fun regs => { regs with sp := regs.sp - 1 }
  write (← regs).sp (lowByte value)

/-- Pops a word off the stack. -/
def pop : Exec UInt16 := do
  let sp := (← regs).sp
  let low ← read sp
  let high ← read (sp + 1)
  updateRegs fun regs => { regs with sp := regs.sp + 2 }
  return word high low

/-- Continues at an address. -/
def jump (address : UInt16) : Exec Unit := updateRegs fun regs => { regs with pc := address }

/-- Pushes the address of the next instruction and continues at an address. -/
def call (address : UInt16) : Exec Unit := do
  push (← regs).pc
  jump address

/-- Continues at the address on the stack. -/
def ret : Exec Unit := do jump (← pop)

/-- Performs a transfer if its condition holds; tells whether it did. -/
def transfer (condition : Option Condition) (body : Exec Unit) : Exec Bool := do
  if condition.all (Condition.holds (← flags)) then
    body
    return true
  else
    return false

/-- Performs an effect that is no transfer. -/
def plain (body : Exec Unit) : Exec Bool := do
  body
  return false

/-- Performs an operation; tells whether a transfer was taken.  `address` is where the
instruction stands and `imm` the word that came with it. -/
def perform (address imm : UInt16) : Operation → Exec Bool
  | .nop => plain (pure ())
  | .stop => plain do
    report (.stopEntered address)
    modify fun cpu => { cpu with stopped := true, halted := false }
  | .halt => plain do
    report (.haltEntered address)
    modify fun cpu => { cpu with halted := true }
  | .di => plain (modify Cpu.disableInterrupts)
  | .ei => plain (modify fun cpu => { cpu with enablePending := true })
  | .load dst src => plain do dst.write imm (← src.read imm)
  | .loadWord pair => plain (updateRegs fun regs => regs.setWord pair imm)
  | .storeSp => plain do
    let sp := (← regs).sp
    write imm (lowByte sp)
    write (imm + 1) (highByte sp)
  | .loadSpHl => plain (updateRegs fun regs => { regs with sp := regs.hl })
  | .loadHlSp => plain do
    let (sum, flags) := addSigned (← regs).sp (lowByte imm)
    updateRegs fun regs => { regs with flags := flags }.setHl sum
  | .alu op src => plain do
    let value ← src.read imm
    updateRegs fun regs =>
      let (a, flags) := op.apply regs.a value regs.flags
      { regs with a := a, flags := flags }
  | .inc target => plain (target.update imm increment)
  | .dec target => plain (target.update imm decrement)
  | .incWord pair => plain (updateRegs fun regs => regs.setWord pair (regs.getWord pair + 1))
  | .decWord pair => plain (updateRegs fun regs => regs.setWord pair (regs.getWord pair - 1))
  | .addHl pair => plain <| updateRegs fun regs =>
    let (sum, flags) := addWords regs.hl (regs.getWord pair) regs.flags
    { regs with flags := flags }.setHl sum
  | .addSp => plain <| updateRegs fun regs =>
    let (sum, flags) := addSigned regs.sp (lowByte imm)
    { regs with sp := sum, flags := flags }
  | .rotateA kind => plain <| updateRegs fun regs =>
    let (a, flags) := kind.apply regs.a regs.flags
    { regs with a := a, flags := { flags with zero := false } }
  | .daa => plain <| updateRegs fun regs =>
    let (a, flags) := decimalAdjust regs.a regs.flags
    { regs with a := a, flags := flags }
  | .cpl => plain <| updateRegs fun regs =>
    { regs with a := ~~~regs.a, flags := { regs.flags with subtract := true, halfCarry := true } }
  | .scf => plain <| updateFlags fun flags =>
    { flags with subtract := false, halfCarry := false, carry := true }
  | .ccf => plain <| updateFlags fun flags =>
    { flags with subtract := false, halfCarry := false, carry := !flags.carry }
  | .jump condition => transfer condition (jump imm)
  | .jumpHl => plain do jump (← regs).hl
  | .jumpBy condition => transfer condition do
    jump ((← regs).pc + signExtend (lowByte imm))
  | .call condition => transfer condition (call imm)
  | .ret condition => transfer condition ret
  | .reti => plain do
    ret
    modify fun cpu => { cpu with ime := true }
  | .restart vector => plain (call (word 0 vector))
  | .push pair => plain do push ((← regs).getWord pair)
  | .pop pair => plain do
    let value ← pop
    updateRegs fun regs => regs.setWord pair value
  | .shift kind target => plain (target.update imm kind.apply)
  | .bit index target => plain do
    let value ← target.read imm
    updateFlags (testBit index value)
  | .res index target => plain <|
    target.update imm fun value flags => (value &&& ~~~bitMask index, flags)
  | .set index target => plain <|
    target.update imm fun value flags => (value ||| bitMask index, flags)
  | .extension => plain (pure ())
  | .unassigned => plain (pure ())

/-- Performs an instruction; tells its cost in clock cycles. -/
def execute (ins : Instruction) : Exec Nat :=
  ins.cost <$> perform ins.address ins.operand ins.operation

end Exec

end Sm83
