import Sm83.Bus.SystemBus
import Sm83.Computer

/-! # Machines

A machine is a core on a system bus, together with the setup it was built from.

* **Building.** `Machine.ofSetup` puts the cartridge in, plain memory behind every region, and
  the core into its boot state; it reports the machine.
* **Resetting.** `Machine.reset` brings the core and the bus back to that state and lowers the
  stop line.  Peripherals are replaced by plain memory; the log goes on. -/

namespace Sm83

/-- Everything needed to build a machine. -/
structure Setup where
  rom : ByteArray
  entryPoint : UInt16 := 0x0100
  bootState : BootState := .dmg
  mapper : Mapper := .mbc1
  /-- The number of external RAM banks behind a controller. -/
  ramBanks : UInt8 := 0

namespace Setup

/-- The bus of a machine as it is built. -/
def bus {δ : Type} (setup : Setup) : SystemBus δ :=
  .ofImage setup.rom setup.mapper setup.ramBanks.toNat

/-- The core of a machine as it is built. -/
def cpu (setup : Setup) : Cpu := .boot setup.bootState setup.entryPoint

/-- The report on a machine that is built. -/
def event (setup : Setup) : LogEvent :=
  .machineBuilt setup.rom.size setup.mapper setup.ramBanks setup.entryPoint

end Setup

/-- A machine whose peripherals are of type `δ`. -/
structure Machine (δ : Type) where
  setup : Setup
  computer : Computer (SystemBus δ)

namespace Machine

variable {δ α : Type}

/-- Builds a machine that keeps the events at a threshold and above. -/
def ofSetup (setup : Setup) (threshold : Option Level) : Machine δ where
  setup := setup
  computer := ⟨setup.cpu, { bus := setup.bus, log := Log.add setup.event { threshold } }⟩

/-- Applies a function to the computer. -/
def mapComputer (f : Computer (SystemBus δ) → α × Computer (SystemBus δ)) (m : Machine δ) :
    α × Machine δ :=
  match m with
  | ⟨setup, computer⟩ =>
    match f computer with
    | (value, computer) => (value, ⟨setup, computer⟩)

/-- Brings a machine back to the state in which it was built. -/
def reset (m : Machine δ) : Machine δ :=
  match m with
  | ⟨setup, computer⟩ =>
    match computer.reset setup.bootState setup.entryPoint with
    | ⟨cpu, board⟩ => ⟨setup, ⟨cpu, { board with bus := setup.bus }⟩⟩

/-- Plays one slot and tells its clock cycles. -/
def step [Device δ] (m : Machine δ) : Except StepError Nat × Machine δ :=
  m.mapComputer Computer.step

/-- Runs within a limit of instructions and a number of slots. -/
def run [Device δ] (fuel : Nat) (limit : Option Nat) (m : Machine δ) :
    Option (Except StepError RunResult × Machine δ) :=
  match m with
  | ⟨setup, computer⟩ =>
    match computer.run fuel limit with
    | some (outcome, computer) => some (outcome, ⟨setup, computer⟩)
    | none => none

/-- Disassembles the instruction at PC. -/
def nextLine [Device δ] (m : Machine δ) : String × Machine δ :=
  m.mapComputer fun s =>
    match s.interact (disassemble s.cpu.regs.pc) with
    | (line, s) => (line.text, s)

end Machine

end Sm83
