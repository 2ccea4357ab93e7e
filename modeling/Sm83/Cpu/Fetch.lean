import Sm83.Bus.Interaction

/-! # Fetching and disassembling

* **Fetching.** `Instruction.fetch` reads the first byte, decides from it whether there is an
  instruction and whether it ends at or before the last address, and only then reads the bytes
  that follow, each once and in order.
* **Disassembling.** `disassemble` fetches and renders.  Bytes that form no instruction are shown
  as a single byte of data, so a listing always moves on. -/

namespace Sm83

namespace Instruction

/-- The bytes after an assigned first byte: the extension, or an operand of the given length. -/
def fetchRest (address : UInt16) (entry : OpcodeEntry) : Interaction Instruction :=
  if entry.isExtension then do
    let second ← Interaction.readByte (address + 1)
    return ⟨address, decodeExtended second, 0⟩
  else
    match entry.length with
    | 2 => do
      let low ← Interaction.readByte (address + 1)
      return ⟨address, entry, word 0 low⟩
    | 3 => do
      let low ← Interaction.readByte (address + 1)
      let high ← Interaction.readByte (address + 2)
      return ⟨address, entry, word high low⟩
    | _ => return ⟨address, entry, 0⟩

/-- Reads and decodes the instruction at an address. -/
def fetch (address : UInt16) : Interaction (Except FetchError Instruction) := do
  let opcode ← Interaction.readByte address
  let entry := decode opcode
  if entry.isUnassigned then
    return .error (.unassigned opcode)
  else if address.toNat + entry.length > 0x10000 then
    return .error (.truncated opcode)
  else
    return .ok (← fetchRest address entry)

end Instruction

/-- A line of a listing: its text, and the number of bytes it covers. -/
structure Line where
  text : String
  length : Nat
deriving DecidableEq, Repr

/-- The line for what was fetched. -/
def Line.of : Except FetchError Instruction → Line
  | .ok ins => ⟨ins.text, ins.length⟩
  | .error fault => ⟨"DB $" ++ hexByte fault.opcode, 1⟩

/-- Reads and renders the instruction at an address. -/
def disassemble (address : UInt16) : Interaction Line :=
  Line.of <$> Instruction.fetch address

end Sm83
