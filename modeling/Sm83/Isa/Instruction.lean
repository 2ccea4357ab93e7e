import Sm83.Isa.Assembly

/-! # Instructions

An `Instruction` is an operation at an address together with its operand; a `FetchError` is the
reason why the bytes at an address are none.

* **Operands.** The operand is kept as a word.  It is zero when the encoding has none, and a
  one-byte operand stands in its low byte.
* **Faults.** Either the first byte is unassigned, or the bytes would run past the last address. -/

namespace Sm83

/-- A decoded instruction. -/
structure Instruction where
  address : UInt16
  entry : OpcodeEntry
  operand : UInt16
deriving DecidableEq, Repr

namespace Instruction

/-- The operation the instruction performs. -/
abbrev operation (ins : Instruction) : Operation := ins.entry.operation

/-- The number of bytes of the instruction. -/
def length (ins : Instruction) : Nat := ins.entry.length

/-- The address of the byte after the instruction. -/
def next (ins : Instruction) : UInt16 := ins.address + UInt16.ofNat ins.length

/-- The clock cycles of the instruction, by whether its transfer was taken. -/
def cost (ins : Instruction) (taken : Bool) : Nat :=
  if taken then ins.entry.timing.taken else ins.entry.timing.untaken

/-- The text of the instruction in a listing. -/
def text (ins : Instruction) : String := ins.operation.listing ins.operand ins.next

end Instruction

/-- Why the bytes at an address form no instruction; each reason keeps the first byte. -/
inductive FetchError where
  /-- The first byte is unassigned. -/
  | unassigned (opcode : UInt8)
  /-- The instruction would run past the last address. -/
  | truncated (opcode : UInt8)
deriving DecidableEq, Repr

namespace FetchError

/-- The byte at which decoding failed. -/
def opcode : FetchError → UInt8
  | .unassigned opcode | .truncated opcode => opcode

/-- The fault in words. -/
def message : FetchError → String
  | .unassigned opcode => "illegal opcode 0x" ++ hexByte opcode
  | .truncated opcode => "truncated instruction 0x" ++ hexByte opcode

end FetchError

end Sm83
