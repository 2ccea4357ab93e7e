import Sm83.Arithmetic
import Sm83.Registers

/-! # Operations

The instruction set without its encoding: what an instruction does, how many bytes it takes, and
how many clock cycles.

* **Operands.** An `Operand` says where a byte lives: in a register, in the instruction itself, or
  in memory under one of the addressing modes.
* **Operations.** `Operation` has one constructor per family of instructions.  A control transfer
  carries an optional condition; without one it is always taken.
* **Length.** `Operation.length` counts the opcode, the extension byte if there is one, and the
  bytes of the operands.
* **Timing.** `Operation.timing` gives two costs, which differ exactly for conditional transfers
  (`timing_taken_eq_iff`).  A memory operand costs four cycles for each access it makes, the bytes
  of its address included. -/

namespace Sm83

/-- Where a byte operand lives. -/
inductive Operand where
  /-- A register. -/
  | reg (r : ByteReg)
  /-- The byte after the opcode. -/
  | imm
  /-- The cell a register pair points at. -/
  | indirect (pair : WordReg)
  /-- The cell HL points at; HL moves up afterwards. -/
  | hlInc
  /-- The cell HL points at; HL moves down afterwards. -/
  | hlDec
  /-- The cell at the address after the opcode. -/
  | absolute
  /-- The cell of the high page at the offset after the opcode. -/
  | highImm
  /-- The cell of the high page at the offset in C. -/
  | highC
deriving DecidableEq, Repr

namespace Operand

/-- The number of instruction bytes an operand takes after the opcode. -/
def byteCount : Operand → Nat
  | .imm | .highImm => 1
  | .absolute => 2
  | _ => 0

/-- The clock cycles of one access to an operand. -/
def accessCycles : Operand → Nat
  | .reg _ => 0
  | .imm | .indirect _ | .hlInc | .hlDec | .highC => 4
  | .highImm => 8
  | .absolute => 12

end Operand

/-- The conditions of control transfers; each reads one flag. -/
inductive Condition where
  | notZero | zero | notCarry | carry
deriving DecidableEq, Repr

namespace Condition

/-- The assembler name of a condition. -/
def name : Condition → String
  | .notZero => "NZ"
  | .zero => "Z"
  | .notCarry => "NC"
  | .carry => "C"

/-- Whether a condition holds. -/
def holds (flags : Flags) : Condition → Bool
  | .notZero => !flags.zero
  | .zero => flags.zero
  | .notCarry => !flags.carry
  | .carry => flags.carry

end Condition

/-- The assembler name of an accumulator operation. -/
def AccOp.name : AccOp → String
  | .add => "ADD" | .adc => "ADC" | .sub => "SUB" | .sbc => "SBC"
  | .and => "AND" | .xor => "XOR" | .or => "OR" | .cp => "CP"

/-- The assembler name of a shift. -/
def Shift.name : Shift → String
  | .rlc => "RLC" | .rrc => "RRC" | .rl => "RL" | .rr => "RR"
  | .sla => "SLA" | .sra => "SRA" | .swap => "SWAP" | .srl => "SRL"

/-- What an instruction does. -/
inductive Operation where
  | nop
  /-- Freezes the clock until an enabled interrupt is requested. -/
  | stop
  /-- Idles until an enabled interrupt is requested. -/
  | halt
  /-- Disables interrupts. -/
  | di
  /-- Enables interrupts after the next instruction. -/
  | ei
  /-- Copies a byte. -/
  | load (dst src : Operand)
  /-- Loads a register pair or SP with the word in the instruction. -/
  | loadWord (pair : WordReg)
  /-- Stores SP at the address in the instruction. -/
  | storeSp
  /-- Copies HL into SP. -/
  | loadSpHl
  /-- Loads HL with SP plus a displacement. -/
  | loadHlSp
  /-- Operates on the accumulator. -/
  | alu (op : AccOp) (src : Operand)
  | inc (target : Operand)
  | dec (target : Operand)
  | incWord (pair : WordReg)
  | decWord (pair : WordReg)
  /-- Adds a word to HL. -/
  | addHl (pair : WordReg)
  /-- Adds a displacement to SP. -/
  | addSp
  /-- Rotates the accumulator, clearing the zero flag. -/
  | rotateA (kind : Shift)
  /-- Adjusts the accumulator to packed decimal. -/
  | daa
  /-- Complements the accumulator. -/
  | cpl
  /-- Sets the carry. -/
  | scf
  /-- Complements the carry. -/
  | ccf
  | jump (condition : Option Condition)
  /-- Jumps to the address in HL. -/
  | jumpHl
  | jumpBy (condition : Option Condition)
  | call (condition : Option Condition)
  | ret (condition : Option Condition)
  /-- Returns and enables interrupts at once. -/
  | reti
  /-- Calls one of the fixed addresses of the first page. -/
  | restart (vector : UInt8)
  | push (pair : WordReg)
  | pop (pair : WordReg)
  /-- Announces an instruction of the second opcode table. -/
  | extension
  | shift (kind : Shift) (target : Operand)
  /-- Tests a bit. -/
  | bit (index : UInt8) (target : Operand)
  /-- Clears a bit. -/
  | res (index : UInt8) (target : Operand)
  /-- Sets a bit. -/
  | set (index : UInt8) (target : Operand)
  /-- An unassigned opcode. -/
  | unassigned
deriving DecidableEq, Repr

/-- The clock cycles of an instruction, when its transfer is not taken and when it is. -/
structure Timing where
  untaken : Nat
  taken : Nat
deriving DecidableEq, Repr

/-- The same cost either way. -/
def Timing.fixed (cycles : Nat) : Timing := ⟨cycles, cycles⟩

namespace Operation

/-- The assembler name of an operation. -/
def mnemonic : Operation → String
  | .nop => "NOP"
  | .stop => "STOP"
  | .halt => "HALT"
  | .di => "DI"
  | .ei => "EI"
  | .load dst src => if dst = .highImm ∨ src = .highImm then "LDH" else "LD"
  | .loadWord _ | .storeSp | .loadSpHl | .loadHlSp => "LD"
  | .alu op _ => op.name
  | .inc _ | .incWord _ => "INC"
  | .dec _ | .decWord _ => "DEC"
  | .addHl _ | .addSp => "ADD"
  | .rotateA .rlc => "RLCA"
  | .rotateA .rrc => "RRCA"
  | .rotateA .rl => "RLA"
  | .rotateA .rr => "RRA"
  | .rotateA kind => kind.name
  | .daa => "DAA"
  | .cpl => "CPL"
  | .scf => "SCF"
  | .ccf => "CCF"
  | .jump _ | .jumpHl => "JP"
  | .jumpBy _ => "JR"
  | .call _ => "CALL"
  | .ret _ => "RET"
  | .reti => "RETI"
  | .restart _ => "RST"
  | .push _ => "PUSH"
  | .pop _ => "POP"
  | .extension => "PREFIX"
  | .shift kind _ => kind.name
  | .bit _ _ => "BIT"
  | .res _ _ => "RES"
  | .set _ _ => "SET"
  | .unassigned => "ILLEGAL"

/-- Whether an operation is a transfer that may or may not be taken. -/
def isConditional : Operation → Bool
  | .jump (some _) | .jumpBy (some _) | .call (some _) | .ret (some _) => true
  | _ => false

/-- The number of bytes of an instruction. -/
def length : Operation → Nat
  | .load dst src => 1 + dst.byteCount + src.byteCount
  | .alu _ src => 1 + src.byteCount
  | .loadWord _ | .storeSp | .jump _ | .call _ => 3
  | .loadHlSp | .addSp | .jumpBy _ | .stop | .extension
  | .shift _ _ | .bit _ _ | .res _ _ | .set _ _ => 2
  | _ => 1

/-- The clock cycles of an instruction. -/
def timing : Operation → Timing
  | .nop | .stop | .halt | .di | .ei | .rotateA _ | .daa | .cpl | .scf | .ccf | .jumpHl
  | .extension => .fixed 4
  | .load dst src => .fixed (4 + dst.accessCycles + src.accessCycles)
  | .loadWord _ => .fixed 12
  | .storeSp => .fixed 20
  | .loadSpHl => .fixed 8
  | .loadHlSp => .fixed 12
  | .alu _ src => .fixed (4 + src.accessCycles)
  | .inc target | .dec target => .fixed (4 + 2 * target.accessCycles)
  | .incWord _ | .decWord _ | .addHl _ => .fixed 8
  | .addSp => .fixed 16
  | .jump none => .fixed 16
  | .jump (some _) => ⟨12, 16⟩
  | .jumpBy none => .fixed 12
  | .jumpBy (some _) => ⟨8, 12⟩
  | .call none => .fixed 24
  | .call (some _) => ⟨12, 24⟩
  | .ret none => .fixed 16
  | .ret (some _) => ⟨8, 20⟩
  | .reti | .restart _ | .push _ => .fixed 16
  | .pop _ => .fixed 12
  | .shift _ target | .res _ target | .set _ target => .fixed (8 + 2 * target.accessCycles)
  | .bit _ target => .fixed (8 + target.accessCycles)
  | .unassigned => .fixed 0

theorem length_pos (op : Operation) : 0 < op.length := by
  cases op <;> simp only [length] <;> omega

/-- The two costs differ exactly for conditional transfers. -/
theorem timing_taken_eq_iff (op : Operation) :
    op.timing.taken = op.timing.untaken ↔ op.isConditional = false := by
  cases op with
  | jump condition => cases condition <;> simp [timing, isConditional, Timing.fixed]
  | jumpBy condition => cases condition <;> simp [timing, isConditional, Timing.fixed]
  | call condition => cases condition <;> simp [timing, isConditional, Timing.fixed]
  | ret condition => cases condition <;> simp [timing, isConditional, Timing.fixed]
  | _ => simp [timing, isConditional, Timing.fixed]

end Operation

end Sm83
