import Sm83.Isa.Operation

/-! # Opcodes

Two tables give every byte a meaning: the base table for the first byte of an instruction, and the
extended table for the byte after the extension opcode.

* **Fields.** An opcode is read as three fields: `x` (bits 7 and 6), `y` (bits 5 to 3) and `z`
  (bits 2 to 0).  Operands, conditions and operations are numbered in them.
* **Totality.** `decode` and `decodeExtended` are defined on every byte.  Eleven bytes of the base
  table are unassigned (`isUnassigned_decode_iff`); the extended table has no holes
  (`isUnassigned_decodeExtended`). -/

namespace Sm83

/-- What the tables say about one opcode. -/
structure OpcodeEntry where
  /-- The opcode; for an extended instruction, its second byte. -/
  opcode : UInt8
  /-- Whether the opcode belongs to the extended table. -/
  extended : Bool
  operation : Operation
  /-- The number of bytes of the whole instruction. -/
  length : Nat
  timing : Timing
deriving DecidableEq, Repr

namespace OpcodeEntry

/-- The entry of an operation under a given opcode. -/
def of (opcode : UInt8) (extended : Bool) (operation : Operation) : OpcodeEntry :=
  ⟨opcode, extended, operation, operation.length, operation.timing⟩

/-- Whether the opcode is unassigned. -/
def isUnassigned (entry : OpcodeEntry) : Bool := entry.operation = .unassigned

/-- Whether the opcode announces an extended instruction. -/
def isExtension (entry : OpcodeEntry) : Bool := entry.operation = .extension

/-- Whether the instruction is a transfer that may or may not be taken. -/
def isConditional (entry : OpcodeEntry) : Bool := entry.operation.isConditional

end OpcodeEntry

namespace Opcode

/-- The first byte of every extended instruction. -/
def extension : UInt8 := 0xCB

/-- Byte operands by number. -/
def operandAt : Nat → Operand
  | 0 => .reg .b
  | 1 => .reg .c
  | 2 => .reg .d
  | 3 => .reg .e
  | 4 => .reg .h
  | 5 => .reg .l
  | 6 => .indirect .hl
  | _ => .reg .a

/-- Register pairs by number, with SP as the last. -/
def pairAt : Nat → WordReg
  | 0 => .bc
  | 1 => .de
  | 2 => .hl
  | _ => .sp

/-- Register pairs by number as the stack instructions see them, with AF as the last. -/
def stackPairAt : Nat → WordReg
  | 0 => .bc
  | 1 => .de
  | 2 => .hl
  | _ => .af

/-- Conditions by number. -/
def conditionAt : Nat → Condition
  | 0 => .notZero
  | 1 => .zero
  | 2 => .notCarry
  | _ => .carry

/-- Accumulator operations by number. -/
def aluAt : Nat → AccOp
  | 0 => .add
  | 1 => .adc
  | 2 => .sub
  | 3 => .sbc
  | 4 => .and
  | 5 => .xor
  | 6 => .or
  | _ => .cp

/-- Shifts by number. -/
def shiftAt : Nat → Shift
  | 0 => .rlc
  | 1 => .rrc
  | 2 => .rl
  | 3 => .rr
  | 4 => .sla
  | 5 => .sra
  | 6 => .swap
  | _ => .srl

/-- The memory operands of the accumulator transfers, by number. -/
def pointerAt : Nat → Operand
  | 0 => .indirect .bc
  | 1 => .indirect .de
  | 2 => .hlInc
  | _ => .hlDec

/-- Operations without operands on the accumulator and the flags, by number. -/
def accumulatorAt : Nat → Operation
  | 0 => .rotateA .rlc
  | 1 => .rotateA .rrc
  | 2 => .rotateA .rl
  | 3 => .rotateA .rr
  | 4 => .daa
  | 5 => .cpl
  | 6 => .scf
  | _ => .ccf

/-- The first quarter of the base table: relative jumps, word arithmetic, transfers through
pointers, increments and immediate loads. -/
def firstQuarter (y z : Nat) : Operation :=
  let p := y / 2
  let even := y % 2 == 0
  match z with
  | 0 =>
    match y with
    | 0 => .nop
    | 1 => .storeSp
    | 2 => .stop
    | 3 => .jumpBy none
    | _ => .jumpBy (some (conditionAt (y - 4)))
  | 1 => if even then .loadWord (pairAt p) else .addHl (pairAt p)
  | 2 => if even then .load (pointerAt p) (.reg .a) else .load (.reg .a) (pointerAt p)
  | 3 => if even then .incWord (pairAt p) else .decWord (pairAt p)
  | 4 => .inc (operandAt y)
  | 5 => .dec (operandAt y)
  | 6 => .load (operandAt y) .imm
  | _ => accumulatorAt y

/-- The last quarter of the base table: transfers of control, the stack, the high page, and the
accumulator operations on an immediate byte. -/
def lastQuarter (y z : Nat) : Operation :=
  let p := y / 2
  let even := y % 2 == 0
  match z with
  | 0 =>
    match y with
    | 4 => .load .highImm (.reg .a)
    | 5 => .addSp
    | 6 => .load (.reg .a) .highImm
    | 7 => .loadHlSp
    | _ => .ret (some (conditionAt y))
  | 1 =>
    if even then .pop (stackPairAt p)
    else
      match p with
      | 0 => .ret none
      | 1 => .reti
      | 2 => .jumpHl
      | _ => .loadSpHl
  | 2 =>
    match y with
    | 4 => .load .highC (.reg .a)
    | 5 => .load .absolute (.reg .a)
    | 6 => .load (.reg .a) .highC
    | 7 => .load (.reg .a) .absolute
    | _ => .jump (some (conditionAt y))
  | 3 =>
    match y with
    | 0 => .jump none
    | 1 => .extension
    | 6 => .di
    | 7 => .ei
    | _ => .unassigned
  | 4 => if y < 4 then .call (some (conditionAt y)) else .unassigned
  | 5 => if even then .push (stackPairAt p) else if p = 0 then .call none else .unassigned
  | 6 => .alu (aluAt y) .imm
  | _ => .restart (UInt8.ofNat (8 * y))

/-- The base table. -/
def base (opcode : UInt8) : Operation :=
  let y := opcode.toNat / 8 % 8
  let z := opcode.toNat % 8
  match opcode.toNat / 64 with
  | 0 => firstQuarter y z
  | 1 => if y = 6 ∧ z = 6 then .halt else .load (operandAt y) (operandAt z)
  | 2 => .alu (aluAt y) (operandAt z)
  | _ => lastQuarter y z

/-- The extended table. -/
def extended (opcode : UInt8) : Operation :=
  let y := opcode.toNat / 8 % 8
  let target := operandAt (opcode.toNat % 8)
  match opcode.toNat / 64 with
  | 0 => .shift (shiftAt y) target
  | 1 => .bit (UInt8.ofNat y) target
  | 2 => .res (UInt8.ofNat y) target
  | _ => .set (UInt8.ofNat y) target

/-- The bytes without a meaning in the base table. -/
def unassigned : List UInt8 :=
  [0xD3, 0xDB, 0xDD, 0xE3, 0xE4, 0xEB, 0xEC, 0xED, 0xF4, 0xFC, 0xFD]

end Opcode

/-- The meaning of the first byte of an instruction. -/
def decode (opcode : UInt8) : OpcodeEntry := .of opcode false (Opcode.base opcode)

/-- The meaning of the byte after the extension opcode. -/
def decodeExtended (opcode : UInt8) : OpcodeEntry := .of opcode true (Opcode.extended opcode)

theorem isUnassigned_decode_iff (opcode : UInt8) :
    (decode opcode).isUnassigned = true ↔ opcode ∈ Opcode.unassigned := by
  revert opcode
  apply forall_byte
  decide +kernel

theorem isExtension_decode_iff (opcode : UInt8) :
    (decode opcode).isExtension = true ↔ opcode = Opcode.extension := by
  revert opcode
  apply forall_byte
  decide +kernel

theorem isUnassigned_decodeExtended (opcode : UInt8) :
    (decodeExtended opcode).isUnassigned = false := by
  revert opcode
  apply forall_byte
  decide +kernel

theorem length_decodeExtended (opcode : UInt8) : (decodeExtended opcode).length = 2 := by
  revert opcode
  apply forall_byte
  decide +kernel

end Sm83
