import Sm83.Word

/-! # The flags

Four flags record what the last arithmetic operation saw: whether its result was zero, whether it
subtracted, and whether it carried out of the low nibble or out of the whole value.

* **Storage.** The flags are kept as four truth values.  Only `encode` and `decode` know where
  they stand in the register F.
* **The codec.** `decode` ignores the low nibble and `encode` leaves it clear, so `decode` undoes
  `encode` (`decode_encode`) and `encode` after `decode` clears the low nibble
  (`encode_decode`). -/

namespace Sm83

/-- The flags by name. -/
inductive Flag where
  | zero
  | subtract
  | halfCarry
  | carry
deriving DecidableEq, Repr

/-- The bit of the register F that holds a flag. -/
def Flag.mask : Flag → UInt8
  | .zero => 0x80
  | .subtract => 0x40
  | .halfCarry => 0x20
  | .carry => 0x10

/-- The four flags; all clear unless given. -/
structure Flags where
  zero : Bool := false
  subtract : Bool := false
  halfCarry : Bool := false
  carry : Bool := false
deriving DecidableEq, Repr

namespace Flags

/-- The flags with one of them set or cleared. -/
def set (flags : Flags) : Flag → Bool → Flags
  | .zero, on => { flags with zero := on }
  | .subtract, on => { flags with subtract := on }
  | .halfCarry, on => { flags with halfCarry := on }
  | .carry, on => { flags with carry := on }

/-- The flags as the byte in F. -/
def encode (flags : Flags) : UInt8 :=
  (if flags.zero then Flag.zero.mask else 0) |||
  (if flags.subtract then Flag.subtract.mask else 0) |||
  (if flags.halfCarry then Flag.halfCarry.mask else 0) |||
  (if flags.carry then Flag.carry.mask else 0)

/-- The flags held in a byte of F. -/
def decode (f : UInt8) : Flags where
  zero := f &&& Flag.zero.mask != 0
  subtract := f &&& Flag.subtract.mask != 0
  halfCarry := f &&& Flag.halfCarry.mask != 0
  carry := f &&& Flag.carry.mask != 0

@[simp] theorem decode_encode (flags : Flags) : decode flags.encode = flags := by
  obtain ⟨z, n, h, c⟩ := flags
  cases z <;> cases n <;> cases h <;> cases c <;> rfl

theorem encode_decode (f : UInt8) : (decode f).encode = f &&& 0xF0 := by
  revert f
  apply forall_byte
  decide +kernel

end Flags

end Sm83
