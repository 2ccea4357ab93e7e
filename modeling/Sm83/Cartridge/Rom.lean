import Sm83.Bus.Device

/-! # Banked ROM

A ROM image is divided into banks of 16 KiB, numbered from zero.

* **Windows.** Addresses below `0x4000` show bank zero; the rest of the ROM area shows the
  switchable bank.  Bytes past the end of the image read `0xFF`.
* **Selection.** A requested number wraps at the number of banks, and bank zero becomes bank one:
  the switchable window never shows bank zero.  A change of bank is reported.
* **Counting.** An image is given two banks at least.  The number of banks is a word, so it is exact
  for images of fewer than 65536 banks; of larger ones it is what is left of whole turns, which may
  be one, or none at all.
* **Faults.** To wrap a number is to divide by the number of banks.  Where none are counted a
  selection divides by zero, which ends the program.  The ROM keeps a mark of that: a state with the
  mark stands for the end, and no program goes on from it. -/

namespace Sm83

/-- A ROM image and the bank shown in its switchable window. -/
structure BankedRom where
  image : ByteArray
  bankCount : UInt16
  bank : UInt16 := 1
  /-- Whether a selection has divided by zero. -/
  faulted : Bool := false

namespace BankedRom

/-- The number of bytes of a bank. -/
def bankSize : Nat := 0x4000

/-- An image with bank one in the switchable window. -/
def ofImage (image : ByteArray) : BankedRom where
  image := image
  bankCount := UInt16.ofNat (max 2 ((image.size + (bankSize - 1)) / bankSize))

/-- The bank that a requested number stands for, if there are banks to divide by. -/
def resolve? (rom : BankedRom) (requested : UInt16) : Option UInt16 :=
  if rom.bankCount = 0 then none
  else some (if requested % rom.bankCount = 0 then 1 else requested % rom.bankCount)

/-- Shows a bank in the switchable window and tells which one it is, or faults. -/
def select (requested : UInt16) (rom : BankedRom) : Reply BankedRom UInt16 :=
  match rom.resolve? requested with
  | some bank =>
    ⟨bank, { rom with bank := bank },
      if bank = rom.bank then [] else [.report (.bankSwitched rom.bank bank requested)]⟩
  | none => ⟨rom.bank, { rom with faulted := true }, []⟩

/-- The offset in the image of the byte shown at an address of the ROM area. -/
def offset (rom : BankedRom) (address : UInt16) : Nat :=
  (if address < 0x4000 then 0 else rom.bank.toNat) * bankSize + address.toNat % bankSize

/-- The byte shown at an address of the ROM area. -/
def read (rom : BankedRom) (address : UInt16) : UInt8 :=
  if h : rom.offset address < rom.image.size then rom.image[rom.offset address] else 0xFF

end BankedRom

end Sm83
