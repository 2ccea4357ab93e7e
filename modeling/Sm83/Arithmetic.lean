import Sm83.Flags

/-! # The arithmetic unit

Every operation is a function from operands and flags to a result and flags; none of them knows
where its operands live.

* **Adding and subtracting.** `addBytes` and `subBytes` are the eight-bit adder and subtracter
  with an incoming carry.  The half carry is the carry out of (the borrow into) the low nibble.
* **The accumulator.** `AccOp.apply` performs one of the eight operations on A.  A comparison is
  a subtraction that keeps A.
* **Decimal adjustment.** `decimalAdjust` turns the sum or difference of two packed decimal
  bytes back into packed decimal, guided by the flags which that operation left.
* **Words.** `addWords` is the sixteen-bit adder, `addSigned` adds a displacement; the flags of
  the latter are those of the unsigned addition of the low bytes.
* **Shifts.** `Shift.apply` covers the rotations through and around the carry, the shifts, and
  the exchange of nibbles. -/

namespace Sm83

/-- The operations on the accumulator. -/
inductive AccOp where
  | add | adc | sub | sbc | and | xor | or | cp
deriving DecidableEq, Repr

/-- The rotations and shifts. -/
inductive Shift where
  | rlc | rrc | rl | rr | sla | sra | swap | srl
deriving DecidableEq, Repr

/-- The sum of two bytes and a carry. -/
def addBytes (x y : UInt8) (carry : Bool) : UInt8 × Flags :=
  let sum := x + y + carry.toUInt8
  (sum,
    { zero := sum == 0
      subtract := false
      halfCarry := x.toNat % 16 + y.toNat % 16 + carry.toNat > 15
      carry := x.toNat + y.toNat + carry.toNat > 255 })

/-- The difference of two bytes and a borrow. -/
def subBytes (x y : UInt8) (borrow : Bool) : UInt8 × Flags :=
  let difference := x - y - borrow.toUInt8
  (difference,
    { zero := difference == 0
      subtract := true
      halfCarry := x.toNat % 16 < y.toNat % 16 + borrow.toNat
      carry := x.toNat < y.toNat + borrow.toNat })

/-- The accumulator and the flags after an operation with operand `y`. -/
def AccOp.apply (op : AccOp) (a y : UInt8) (flags : Flags) : UInt8 × Flags :=
  match op with
  | .add => addBytes a y false
  | .adc => addBytes a y flags.carry
  | .sub => subBytes a y false
  | .sbc => subBytes a y flags.carry
  | .and => (a &&& y, { zero := a &&& y == 0, halfCarry := true })
  | .xor => (a ^^^ y, { zero := a ^^^ y == 0 })
  | .or => (a ||| y, { zero := a ||| y == 0 })
  | .cp => (a, (subBytes a y false).2)

/-- The next byte; the carry is kept. -/
def increment (x : UInt8) (flags : Flags) : UInt8 × Flags :=
  (x + 1,
    { flags with zero := x + 1 == 0, subtract := false, halfCarry := x.toNat % 16 == 15 })

/-- The previous byte; the carry is kept. -/
def decrement (x : UInt8) (flags : Flags) : UInt8 × Flags :=
  (x - 1,
    { flags with zero := x - 1 == 0, subtract := true, halfCarry := x.toNat % 16 == 0 })

/-- The amount by which a decimal adjustment moves the accumulator: six for each nibble that
overflowed or, after an addition, is not a digit. -/
def decimalCorrection (a : UInt8) (flags : Flags) : UInt8 :=
  (if flags.halfCarry || (!flags.subtract && a.toNat % 16 > 9) then 0x06 else 0) |||
  (if flags.carry || (!flags.subtract && a > 0x99) then 0x60 else 0)

/-- The accumulator adjusted to packed decimal. -/
def decimalAdjust (a : UInt8) (flags : Flags) : UInt8 × Flags :=
  let correction := decimalCorrection a flags
  let adjusted := if flags.subtract then a - correction else a + correction
  (adjusted,
    { zero := adjusted == 0
      subtract := flags.subtract
      halfCarry := false
      carry := correction ≥ 0x60 })

/-- The sum of two words; zero is kept, and the half carry is the carry out of bit 11. -/
def addWords (x y : UInt16) (flags : Flags) : UInt16 × Flags :=
  (x + y,
    { flags with
      subtract := false
      halfCarry := x.toNat % 0x1000 + y.toNat % 0x1000 > 0xFFF
      carry := x.toNat + y.toNat > 0xFFFF })

/-- A word moved by a signed displacement. -/
def addSigned (base : UInt16) (displacement : UInt8) : UInt16 × Flags :=
  (base + signExtend displacement,
    { halfCarry := base.toNat % 16 + displacement.toNat % 16 > 15
      carry := base.toNat % 256 + displacement.toNat > 255 })

/-- The byte moved and the bit that leaves it. -/
def Shift.move (kind : Shift) (x : UInt8) (carry : Bool) : UInt8 × Bool :=
  let top := x ≥ 0x80
  let bottom := x % 2 == 1
  match kind with
  | .rlc => (x <<< 1 ||| x >>> 7, top)
  | .rrc => (x >>> 1 ||| x <<< 7, bottom)
  | .rl => (x <<< 1 ||| carry.toUInt8, top)
  | .rr => (x >>> 1 ||| carry.toUInt8 <<< 7, bottom)
  | .sla => (x <<< 1, top)
  | .sra => (x >>> 1 ||| x &&& 0x80, bottom)
  | .swap => (x <<< 4 ||| x >>> 4, false)
  | .srl => (x >>> 1, bottom)

/-- A shift with its flags; the incoming carry is that of `flags`. -/
def Shift.apply (kind : Shift) (x : UInt8) (flags : Flags) : UInt8 × Flags :=
  let (moved, out) := kind.move x flags.carry
  (moved, { zero := moved == 0, carry := out })

/-- The byte with a single bit set. -/
def bitMask (index : UInt8) : UInt8 := 1 <<< index

/-- The flags after a bit test; the carry is kept. -/
def testBit (index x : UInt8) (flags : Flags) : Flags :=
  { flags with zero := x &&& bitMask index == 0, subtract := false, halfCarry := true }

@[simp] theorem subtract_addBytes (x y : UInt8) (carry : Bool) :
    (addBytes x y carry).2.subtract = false := rfl

@[simp] theorem subtract_subBytes (x y : UInt8) (borrow : Bool) :
    (subBytes x y borrow).2.subtract = true := rfl

@[simp] theorem carry_increment (x : UInt8) (flags : Flags) :
    (increment x flags).2.carry = flags.carry := rfl

@[simp] theorem carry_decrement (x : UInt8) (flags : Flags) :
    (decrement x flags).2.carry = flags.carry := rfl

@[simp] theorem zero_addWords (x y : UInt16) (flags : Flags) :
    (addWords x y flags).2.zero = flags.zero := rfl

@[simp] theorem subtract_decimalAdjust (a : UInt8) (flags : Flags) :
    (decimalAdjust a flags).2.subtract = flags.subtract := rfl

@[simp] theorem carry_testBit (index x : UInt8) (flags : Flags) :
    (testBit index x flags).carry = flags.carry := rfl

end Sm83
