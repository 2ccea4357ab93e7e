import Sm83.Isa.Instruction

/-! # Errors of the core

The core refuses to go on only when the bytes at PC form no instruction.  An error keeps the
fault, the place, and how many instructions the current run had executed. -/

namespace Sm83

/-- A refusal to execute the bytes at `pc`. -/
structure StepError where
  fault : FetchError
  pc : UInt16
  /-- The instructions executed by the run before the fault; zero for a single step. -/
  executed : Nat
deriving DecidableEq, Repr

namespace StepError

/-- The byte at which decoding failed. -/
def opcode (e : StepError) : UInt8 := e.fault.opcode

/-- The error in words. -/
def message (e : StepError) : String :=
  let place := "0x" ++ hexByte e.opcode ++ " at PC=0x" ++ hexWord e.pc
  let history := " (after " ++ e.executed.repr ++ " instructions)"
  match e.fault with
  | .unassigned _ => "unknown opcode " ++ place ++ history
  | .truncated _ => "malformed instruction " ++ place ++ ": operands run past 0xFFFF" ++ history

end StepError

end Sm83
