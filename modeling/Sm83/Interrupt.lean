/-! # Interrupts

Five sources, numbered in order of priority.

* **Registers.** A request is a bit of the register at `requestAddress`; whether it may be served
  is the same bit of the register at `enableAddress`.  The bit of source number `i` is `1 <<< i`.
* **Vectors.** The handler of source `i` starts at `0x40 + 8 * i`.
* **Priority.** `Interrupt.first?` picks the source of the lowest bit that is set. -/

namespace Sm83

/-- The sources of interrupts, the most urgent first. -/
inductive Interrupt where
  | vBlank
  | lcdStat
  | timer
  | serial
  | joypad
deriving DecidableEq, Repr

namespace Interrupt

/-- The address of the register of enabled sources. -/
def enableAddress : UInt16 := 0xFFFF

/-- The address of the register of requested sources. -/
def requestAddress : UInt16 := 0xFF0F

/-- The sources, the most urgent first. -/
def all : List Interrupt := [vBlank, lcdStat, timer, serial, joypad]

/-- The number of a source. -/
def index : Interrupt → Nat
  | vBlank => 0
  | lcdStat => 1
  | timer => 2
  | serial => 3
  | joypad => 4

/-- The bit of a source in both registers. -/
def mask : Interrupt → UInt8
  | vBlank => 0x01
  | lcdStat => 0x02
  | timer => 0x04
  | serial => 0x08
  | joypad => 0x10

/-- The address of the handler of a source. -/
def vector : Interrupt → UInt16
  | vBlank => 0x40
  | lcdStat => 0x48
  | timer => 0x50
  | serial => 0x58
  | joypad => 0x60

/-- The name of a source. -/
def name : Interrupt → String
  | vBlank => "VBlank"
  | lcdStat => "LcdStat"
  | timer => "Timer"
  | serial => "Serial"
  | joypad => "Joypad"

/-- The bits of all sources. -/
def maskAll : UInt8 := 0x1F

/-- The most urgent source among the bits that are set. -/
def first? (bits : UInt8) : Option Interrupt := all.find? fun i => bits &&& i.mask != 0

theorem vector_eq (i : Interrupt) : i.vector.toNat = 0x40 + 8 * i.index := by
  cases i <;> rfl

end Interrupt

end Sm83
