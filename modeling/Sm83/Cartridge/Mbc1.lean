import Sm83.Cartridge.Rom

/-! # The MBC1 controller

A bank controller takes writes to the ROM area as commands.

* **Registers.** The low register has five bits and never holds zero; the high register has two
  bits.  Together they request a ROM bank after each write to either.
* **Direct selection.** `Mbc1.select` requests a bank by its number and stores the bank that was
  found in both registers.
* **External RAM.** It consists of banks of 8 KiB, all `0xFF` at first.  While it is disabled, or
  if there is none, it reads `0xFF` and ignores writes.  The high register selects its bank while
  RAM banking is on, and the last bank stands in for numbers past it; otherwise bank zero is
  shown. -/

namespace Sm83

/-- An MBC1 cartridge. -/
structure Mbc1 where
  rom : BankedRom
  ram : Array UInt8
  ramBanks : Nat
  low : UInt8 := 1
  high : UInt8 := 0
  ramEnabled : Bool := false
  ramBanking : Bool := false

namespace Mbc1

/-- The number of bytes of a RAM bank. -/
def ramBankSize : Nat := 0x2000

/-- A cartridge as it is put in. -/
def ofRom (rom : BankedRom) (ramBanks : Nat) : Mbc1 where
  rom := rom
  ram := Array.replicate (ramBanks * ramBankSize) 0xFF
  ramBanks := ramBanks

/-- The value of the low register for a number: its five low bits, with zero replaced by one. -/
def lowOf (value : UInt8) : UInt8 := if value &&& 0x1F = 0 then 1 else value &&& 0x1F

/-- Requests the bank that the registers name. -/
def apply (m : Mbc1) : Reply Mbc1 Unit :=
  ((m.rom.select (m.high.toUInt16 <<< 5 ||| m.low.toUInt16)).mapState
    fun rom => { m with rom := rom }).ignore

/-- Selects a ROM bank by its number and stores it in the registers. -/
def select (requested : UInt16) (m : Mbc1) : Reply Mbc1 UInt16 :=
  match m.rom.select requested with
  | ⟨bank, rom, effects⟩ =>
    ⟨bank,
      { m with rom := rom, low := lowOf (lowByte bank), high := lowByte (bank >>> 5) &&& 0x03 },
      effects⟩

/-- Takes a write to the ROM area as a command. -/
def command (address : UInt16) (value : UInt8) (m : Mbc1) : Reply Mbc1 Unit :=
  match address.toNat / 0x2000 with
  | 0 => ⟨(), { m with ramEnabled := value &&& 0x0F == 0x0A }, []⟩
  | 1 => apply { m with low := lowOf value }
  | 2 => apply { m with high := value &&& 0x03 }
  | 3 => ⟨(), { m with ramBanking := value &&& 0x01 == 1 }, []⟩
  | _ => ⟨(), m, []⟩

/-- The RAM bank that is shown. -/
def ramBank (m : Mbc1) : Nat := if m.ramBanking then min m.high.toNat (m.ramBanks - 1) else 0

/-- The number of the RAM cell at an address of the RAM area, if there is one. -/
def ramIndex? (m : Mbc1) (address : UInt16) : Option Nat :=
  if m.ramEnabled ∧ m.ramBanks ≠ 0 then
    some (m.ramBank * ramBankSize + address.toNat % ramBankSize)
  else
    none

/-- The byte at an address of the RAM area. -/
def readRam (m : Mbc1) (address : UInt16) : UInt8 :=
  match m.ramIndex? address with
  | some index => m.ram.getD index 0xFF
  | none => 0xFF

/-- Stores a byte at an address of the RAM area. -/
def writeRam (address : UInt16) (value : UInt8) (m : Mbc1) : Mbc1 :=
  match m.ramIndex? address with
  | some index => { m with ram := m.ram.setIfInBounds index value }
  | none => m

end Mbc1

end Sm83
