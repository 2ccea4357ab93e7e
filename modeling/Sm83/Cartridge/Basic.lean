import Sm83.Cartridge.Mbc1

/-! # Cartridges

A cartridge owns the ROM area and the RAM area of the bus.  ROM bytes never change: a write to the
ROM area reaches the bank controller, if there is one. -/

namespace Sm83

/-- A cartridge with its bank controller. -/
inductive Cartridge where
  | romOnly (rom : BankedRom)
  | mbc1 (m : Mbc1)

namespace Cartridge

/-- A cartridge as it is put in.  RAM banks need a controller. -/
def ofImage (image : ByteArray) (mapper : Mapper) (ramBanks : Nat) : Cartridge :=
  match mapper with
  | .romOnly => .romOnly (.ofImage image)
  | .mbc1 => .mbc1 (.ofRom (.ofImage image) ramBanks)

/-- The ROM of a cartridge. -/
def rom : Cartridge → BankedRom
  | romOnly rom => rom
  | mbc1 m => m.rom

/-- Selects a ROM bank by its number and tells which bank is shown. -/
def select (requested : UInt16) : Cartridge → Reply Cartridge UInt16
  | romOnly rom => (rom.select requested).mapState romOnly
  | mbc1 m => (m.select requested).mapState mbc1

/-- Takes a write to the ROM area. -/
def command (address : UInt16) (value : UInt8) : Cartridge → Reply Cartridge Unit
  | romOnly rom => ⟨(), romOnly rom, []⟩
  | mbc1 m => (m.command address value).mapState mbc1

/-- The byte at an address of the RAM area. -/
def readRam (address : UInt16) : Cartridge → UInt8
  | romOnly _ => 0xFF
  | mbc1 m => m.readRam address

/-- Stores a byte at an address of the RAM area. -/
def writeRam (address : UInt16) (value : UInt8) : Cartridge → Cartridge
  | romOnly rom => romOnly rom
  | mbc1 m => mbc1 (m.writeRam address value)

end Cartridge

end Sm83
