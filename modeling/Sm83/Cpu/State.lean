import Sm83.Bus.Interaction

/-! # The state of the core

* **Control state.** Besides the registers the core has the master interrupt enable `ime`, the
  two sleeping states, and the delay of EI.
* **The delay of EI.** EI takes effect after the instruction that follows it.  `enablePending`
  says that the last instruction was EI; `enableDelay` that the one before it was, so that `ime`
  is set when the current one ends.
* **Counters.** `cycles` counts clock cycles, `instructions` counts executed instructions;
  entering an interrupt or idling is not an instruction.
* **Core programs.** An `Exec` transforms the state of the core while interacting with the bus. -/

namespace Sm83

/-- The core without its bus. -/
structure Cpu where
  regs : Registers := {}
  /-- The master interrupt enable. -/
  ime : Bool := false
  /-- Idling until an enabled interrupt is requested. -/
  halted : Bool := false
  /-- Frozen until an enabled interrupt is requested. -/
  stopped : Bool := false
  enablePending : Bool := false
  enableDelay : Bool := false
  /-- The clock cycles since the last reset. -/
  cycles : Nat := 0
  /-- The instructions executed since the last reset. -/
  instructions : Nat := 0
deriving DecidableEq, Repr

/-- The register values from which the core starts. -/
inductive BootState where
  /-- The values that the boot program of the machine leaves behind. -/
  | dmg
  /-- Zero everywhere except in SP. -/
  | zeroed
deriving DecidableEq, Repr

/-- The byte registers and flags of a boot state. -/
def BootState.registers : BootState → Registers
  | .dmg =>
    { a := 0x01, flags := .decode 0xB0, b := 0x00, c := 0x13, d := 0x00, e := 0xD8, h := 0x01,
      l := 0x4D }
  | .zeroed => {}

namespace Cpu

/-- The core after power-on, about to execute the instruction at `entry`. -/
def boot (state : BootState) (entry : UInt16) : Cpu :=
  { regs := { state.registers with sp := 0xFFFE, pc := entry } }

/-- Puts a boot state into the registers, to go on at `entry` with interrupts disabled. -/
def applyBoot (state : BootState) (entry : UInt16) (cpu : Cpu) : Cpu :=
  { cpu with regs := { state.registers with sp := 0xFFFE, pc := entry }, ime := false }

/-- Restarts the core: the control state and the counters are cleared one by one, and the registers
take their boot values. -/
def reset (state : BootState) (entry : UInt16) (cpu : Cpu) : Cpu :=
  { cpu with
    ime := false
    halted := false
    stopped := false
    enablePending := false
    enableDelay := false
    cycles := 0
    instructions := 0 }.applyBoot state entry

/-- What a core was before it is restarted does not show. -/
@[simp] theorem reset_eq_boot (state : BootState) (entry : UInt16) (cpu : Cpu) :
    cpu.reset state entry = .boot state entry := rfl

/-- Ends the STOP state without waiting for an interrupt. -/
def resume (cpu : Cpu) : Cpu := { cpu with stopped := false }

/-- Whether the core sleeps in either way. -/
def asleep (cpu : Cpu) : Bool := cpu.halted || cpu.stopped

/-- The end of an instruction in the delay of EI: an EI before the current instruction takes
effect, an EI that was the current instruction is taken down for the next one. -/
def advanceEnable (cpu : Cpu) : Cpu :=
  if cpu.enableDelay then { cpu with ime := true, enableDelay := false }
  else if cpu.enablePending then { cpu with enablePending := false, enableDelay := true }
  else cpu

/-- Disables interrupts, dropping an EI that has not taken effect. -/
def disableInterrupts (cpu : Cpu) : Cpu :=
  { cpu with ime := false, enablePending := false, enableDelay := false }

end Cpu

/-- A program of the core. -/
abbrev Exec := StateT Cpu Interaction

namespace Exec

/-- Reads the byte at an address. -/
def read (address : UInt16) : Exec UInt8 := StateT.lift (.readByte address)

/-- Writes a byte to an address. -/
def write (address : UInt16) (value : UInt8) : Exec Unit :=
  StateT.lift (.writeByte address value)

/-- Reports an event. -/
def report (event : LogEvent) : Exec Unit := StateT.lift (.note event)

/-- The register file. -/
def regs : Exec Registers := return (← get).regs

/-- Changes the register file. -/
def updateRegs (f : Registers → Registers) : Exec Unit :=
  modify fun cpu => { cpu with regs := f cpu.regs }

/-- The flags. -/
def flags : Exec Flags := return (← regs).flags

/-- Changes the flags. -/
def updateFlags (f : Flags → Flags) : Exec Unit :=
  updateRegs fun regs => { regs with flags := f regs.flags }

/-- Lets clock cycles pass, on the core's counter and on the bus. -/
def spend (cycles : Nat) : Exec Unit := do
  modify fun cpu => { cpu with cycles := cpu.cycles + cycles }
  StateT.lift (.elapse cycles)

end Exec

end Sm83
