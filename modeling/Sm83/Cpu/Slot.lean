import Sm83.Cpu.Execute
import Sm83.Cpu.Fetch

/-! # Scheduling slots

The core works in slots.  Each slot does one of three things: it enters an interrupt, it idles, or
it executes an instruction.

* **Interrupts.** The enabled requests are read off the bus.  Any of them wakes the core; the most
  urgent one is entered if `ime` is set, by acknowledging it, pushing PC, and continuing at its
  vector.
* **Sleeping.** A frozen core does nothing at all, not even let cycles pass, until a request wakes
  it; a halted core lets four cycles pass.
* **Executing.** Fetching may fail, and then the slot has changed nothing but perhaps woken the
  core: PC still points at the instruction. -/

namespace Sm83

/-- What a slot did. -/
inductive Slot where
  | executed (ins : Instruction) (cost : Nat)
  | interrupt (source : Interrupt)
  | idle (cost : Nat)
deriving DecidableEq, Repr

namespace Slot

/-- The clock cycles of entering an interrupt. -/
def interruptCost : Nat := 20

/-- The clock cycles of idling in the HALT state. -/
def haltCost : Nat := 4

/-- The clock cycles of a slot. -/
def cycles : Slot → Nat
  | executed _ cost => cost
  | interrupt _ => interruptCost
  | idle cost => cost

/-- Whether a slot executed an instruction. -/
def isExecuted : Slot → Bool
  | executed _ _ => true
  | _ => false

end Slot

/-- The sources of interrupts that are both enabled and requested. -/
def pendingRequests : Interaction UInt8 := do
  let enabled ← .readByte Interrupt.enableAddress
  let requested ← .readByte Interrupt.requestAddress
  return enabled &&& requested &&& Interrupt.maskAll

namespace Exec

/-- Enters the handler of an interrupt. -/
def enterInterrupt (source : Interrupt) : Exec Unit := do
  modify Cpu.disableInterrupts
  let pc := (← regs).pc
  push pc
  let requested ← read Interrupt.requestAddress
  write Interrupt.requestAddress (requested &&& ~~~source.mask)
  jump source.vector
  report (.interrupted source pc (← regs).sp)

/-- Wakes the core if an interrupt is pending, and enters it if interrupts are enabled. -/
def serveInterrupt : Exec (Option Interrupt) := do
  let pending ← StateT.lift pendingRequests
  match Interrupt.first? pending with
  | none => return none
  | some source =>
    modify fun cpu => { cpu with halted := false }
    if (← get).ime then
      enterInterrupt source
      return some source
    else
      return none

/-- Whether the core stays frozen: it is in the STOP state and no interrupt is pending.
Otherwise the STOP state ends. -/
def staysFrozen : Exec Bool := do
  if (← get).stopped then
    if (← StateT.lift pendingRequests) == 0 then
      return true
    else
      report (.stopLeft (← regs).pc)
      modify Cpu.resume
      return false
  else
    return false

/-- Executes a fetched instruction: moves PC past it, performs it, charges it, and advances the
delay of EI. -/
def runInstruction (ins : Instruction) : Exec Slot := do
  report (.executing ins (← regs))
  jump ins.next
  let cost ← execute ins
  modify fun cpu => { cpu with instructions := cpu.instructions + 1 }
  spend cost
  modify Cpu.advanceEnable
  return .executed ins cost

/-- Fetches and executes the instruction at PC. -/
def executeNext (executed : Nat) : Exec (Except StepError Slot) := do
  let pc := (← regs).pc
  match ← StateT.lift (Instruction.fetch pc) with
  | .error fault => return .error ⟨fault, pc, executed⟩
  | .ok ins => .ok <$> runInstruction ins

/-- One slot.  `executed` is the number of instructions to report in an error. -/
def slot (executed : Nat) : Exec (Except StepError Slot) := do
  if ← staysFrozen then
    return .ok (.idle 0)
  else
    match ← serveInterrupt with
    | some source =>
      spend Slot.interruptCost
      return .ok (.interrupt source)
    | none =>
      if (← get).halted then
        spend Slot.haltCost
        return .ok (.idle Slot.haltCost)
      else
        executeNext executed

end Exec

end Sm83
