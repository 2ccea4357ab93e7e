import Sm83.Machine

/-! # The bench

A machine as its host sees it.

* **Orders.** `Machine.Order` is what a host can order a machine to do; some orders change the core
  or go to the bus directly.  `Machine.obey` does it.
* **Stop lines.** Every machine is built with a stop line of its own.  A host keeps a line by its
  number, and may raise, lower or look at it at any time, whatever was done to the machine since.
* **The bench.** A `Bench` is a machine, the number of its line, and all other lines. -/

namespace Sm83

namespace Machine

/-- What a host can order a machine to do. -/
inductive Order (δ : Type) where
  | step
  /-- A run that gives up after a number of slots. -/
  | run (fuel : Nat) (limit : Option Nat)
  | resume
  | setRegs (regs : Registers)
  | setIme (enabled : Bool)
  | setHalted (halted : Bool)
  | read (address : UInt16)
  | write (address : UInt16) (value : UInt8)
  | tick (cycles : Nat)
  | select (requested : UInt16)
  | bank
  | bankCount
  | request (source : Interrupt)
  | attach (region : Region) (device : Backing δ)
  | nextLine
  | reset

/-- What a host is told. -/
inductive Told (δ : Type) where
  | nothing
  | cycles (outcome : Except StepError Nat)
  | result (outcome : Except StepError RunResult)
  | byte (value : UInt8)
  | bank (number : UInt16)
  | device (old : Backing δ)
  | text (line : String)
  | raised (value : Bool)

variable {δ α : Type}

/-- Applies a function to the core. -/
def mapCpu (f : Cpu → Cpu) (m : Machine δ) : Machine δ :=
  match m with
  | ⟨setup, computer⟩ => ⟨setup, computer.mapCpu f⟩

/-- Performs an operation on the bus. -/
def onBus (operation : SystemBus δ → Reply (SystemBus δ) α) (m : Machine δ) : α × Machine δ :=
  m.mapComputer (Computer.perform operation)

/-- Raises or lowers the stop line. -/
def setStop (value : Bool) (m : Machine δ) : Machine δ :=
  match m with
  | ⟨setup, computer⟩ =>
    ⟨setup, computer.mapBoard fun board => { board with stopRaised := value }⟩

/-- What a host is told of a value. -/
def telling (tell : α → Told δ) : α × Machine δ → Told δ × Machine δ
  | (value, m) => (tell value, m)

/-- Does what a host orders; nothing is told of a run that gives up. -/
def obey [Device δ] (m : Machine δ) : Order δ → Option (Told δ × Machine δ)
  | .step => some (telling .cycles m.step)
  | .run fuel limit => (m.run fuel limit).map (telling .result)
  | .resume => some (.nothing, m.mapCpu Cpu.resume)
  | .setRegs regs => some (.nothing, m.mapCpu fun cpu => { cpu with regs := regs })
  | .setIme enabled => some (.nothing, m.mapCpu fun cpu => { cpu with ime := enabled })
  | .setHalted halted => some (.nothing, m.mapCpu fun cpu => { cpu with halted := halted })
  | .read address => some (telling .byte (m.onBus (Device.read address)))
  | .write address value =>
    some (telling (fun _ => .nothing) (m.onBus (Device.write address value)))
  | .tick cycles => some (telling (fun _ => .nothing) (m.onBus (Device.tick cycles)))
  | .select requested => some (telling .bank (m.onBus (SystemBus.selectBank requested)))
  | .bank => some (.bank m.computer.board.bus.bank, m)
  | .bankCount => some (.bank m.computer.board.bus.bankCount, m)
  | .request source =>
    some (telling (fun _ => .nothing) (m.onBus fun bus => ⟨(), bus.request source, []⟩))
  | .attach region device => some (telling .device (m.onBus (SystemBus.attach region device)))
  | .nextLine => some (telling .text m.nextLine)
  | .reset => some (.nothing, m.reset)

end Machine

/-- A machine with the number of its stop line, and all other stop lines. -/
structure Bench (δ : Type) where
  machine : Machine δ
  line : Nat
  others : Nat → Bool

namespace Bench

variable {δ : Type}

/-- Builds a machine with a stop line of its own. -/
def build (setup : Setup) (threshold : Option Level) (line : Nat) (others : Nat → Bool) : Bench δ :=
  ⟨.ofSetup setup threshold, line, others⟩

/-- Whether a stop line is raised; the machine's own is on its board. -/
def raised (bench : Bench δ) (line : Nat) : Bool :=
  if line = bench.line then bench.machine.computer.board.stopRaised else bench.others line

/-- Raises or lowers a stop line. -/
def setLine (line : Nat) (value : Bool) (bench : Bench δ) : Bench δ :=
  if line = bench.line then { bench with machine := bench.machine.setStop value }
  else { bench with others := fun other => if other = line then value else bench.others other }

/-- What a host can do that has kept a stop line. -/
inductive Action (δ : Type) where
  | order (order : Machine.Order δ)
  | raise
  | lower
  | look

/-- Does something for a host that has kept the stop line of this number. -/
def act [Device δ] (handle : Nat) (bench : Bench δ) : Action δ → Option (Machine.Told δ × Bench δ)
  | .order order =>
    (bench.machine.obey order).map fun left => (left.1, { bench with machine := left.2 })
  | .raise => some (.nothing, bench.setLine handle true)
  | .lower => some (.nothing, bench.setLine handle false)
  | .look => some (.raised (bench.raised handle), bench)

/-- Resets the machine. -/
def reset (bench : Bench δ) : Bench δ := { bench with machine := bench.machine.reset }

end Bench

end Sm83
