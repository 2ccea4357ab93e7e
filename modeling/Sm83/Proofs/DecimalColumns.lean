import Sm83.Proofs.BinaryColumns

/-! # Decimal sums and differences of any length

Packed decimal numbers are added and subtracted like binary ones, with an adjustment after each
column.

* **Adjustments.** A correction is six for the low digit and six for the high digit
  (`toNat_decimalCorrection`), each where the digits overflow or are too small (`corrects_sum`,
  `corrects_difference`).  So the adjusted byte is packed again, and the column balances in base 100
  (`adjusted_sum`, `adjusted_difference`).
* **Numbers.** A ripple of adjusted columns is a sum (`IsDecimalSum`) or a difference
  (`IsDecimalDifference`) modulo a power of 100.
* **Main statement.** `exactDecimals`: ADC and SBC, each followed by DAA, chain to decimal sums and
  differences. -/

namespace Sm83

/-! ### Packed decimals -/

/-- Whether both nibbles of a byte are decimal digits. -/
def IsPacked (b : UInt8) : Prop := b.toNat / 16 ≤ 9 ∧ b.toNat % 16 ≤ 9

/-- The number that the two nibbles of a byte stand for. -/
def unpack (b : UInt8) : Nat := 10 * (b.toNat / 16) + b.toNat % 16

/-- Two decimal digits in a byte. -/
structure Packed where
  byte : UInt8
  isPacked : IsPacked byte

theorem unpack_lt {b : UInt8} (packed : IsPacked b) : unpack b < 100 := by
  obtain ⟨high, low⟩ := packed
  unfold unpack
  omega

/-- The number whose packed bytes stand in a list, the least significant first. -/
def decimal {α : Type} (byte : α → UInt8) (columns : List α) : Nat :=
  valueIn 100 (fun column => unpack (byte column)) columns

/-! ### Adjustments -/

/-- Whether the low digit is to be corrected. -/
def correctsLow (a : UInt8) (flags : Flags) : Bool :=
  flags.halfCarry || (!flags.subtract && a.toNat % 16 > 9)

/-- Whether the high digit is to be corrected. -/
def correctsHigh (a : UInt8) (flags : Flags) : Bool :=
  flags.carry || (!flags.subtract && a > 0x99)

theorem toNat_decimalCorrection (a : UInt8) (flags : Flags) :
    (decimalCorrection a flags).toNat =
      6 * (correctsLow a flags).toNat + 96 * (correctsHigh a flags).toNat := by
  unfold decimalCorrection correctsLow correctsHigh
  generalize (flags.halfCarry || (!flags.subtract && a.toNat % 16 > 9)) = low
  generalize (flags.carry || (!flags.subtract && a > 0x99)) = high
  cases low <;> cases high <;> rfl

theorem carry_decimalAdjust (a : UInt8) (flags : Flags) :
    (decimalAdjust a flags).2.carry = correctsHigh a flags := by
  have correction := toNat_decimalCorrection a flags
  have low := Bool.toNat_le (correctsLow a flags)
  have told : (decimalAdjust a flags).2.carry = decide (0x60 ≤ decimalCorrection a flags) := rfl
  rw [told]
  cases high : correctsHigh a flags with
  | false =>
    rw [high, Bool.toNat_false] at correction
    refine decide_eq_false fun large => ?_
    have := UInt8.le_iff_toNat_le.mp large
    simp at this
    omega
  | true =>
    rw [high, Bool.toNat_true] at correction
    refine decide_eq_true (UInt8.le_iff_toNat_le.mpr ?_)
    rw [correction]
    simp

theorem toNat_decimalAdjust_sum {a : UInt8} {flags : Flags} (sum : flags.subtract = false) :
    (decimalAdjust a flags).1.toNat =
      (a.toNat + 6 * (correctsLow a flags).toNat + 96 * (correctsHigh a flags).toNat) % 256 := by
  rw [Nat.add_assoc, ← toNat_decimalCorrection]
  simp [decimalAdjust, sum]

theorem toNat_decimalAdjust_difference {a : UInt8} {flags : Flags}
    (difference : flags.subtract = true) :
    (decimalAdjust a flags).1.toNat =
      (a.toNat + 256 - (6 * (correctsLow a flags).toNat + 96 * (correctsHigh a flags).toNat)) %
        256 := by
  rw [← toNat_decimalCorrection]
  have := (decimalCorrection a flags).toNat_lt
  simp only [decimalAdjust, difference, if_true, UInt8.toNat_sub]
  omega

section adjusted
variable {x y : UInt8} (packed : IsPacked x) (packed' : IsPacked y) (carry : Bool)
include packed packed'

/-- After a sum, a digit is corrected if the digits up to its place overflow. -/
theorem corrects_sum :
    correctsLow (addBytes x y carry).1 (addBytes x y carry).2 =
        decide (x.toNat % 16 + y.toNat % 16 + carry.toNat > 9) ∧
      correctsHigh (addBytes x y carry).1 (addBytes x y carry).2 =
        decide (unpack x + unpack y + carry.toNat > 99) := by
  obtain ⟨xHigh, xLow⟩ := packed
  obtain ⟨yHigh, yLow⟩ := packed'
  have total := total_addBytes x y carry
  have small := (addBytes x y carry).1.toNat_lt
  have := Bool.toNat_le carry
  have := Bool.toNat_le (addBytes x y carry).2.carry
  have half : (addBytes x y carry).2.halfCarry =
      decide (x.toNat % 16 + y.toNat % 16 + carry.toNat > 15) := rfl
  have out : (addBytes x y carry).2.carry = decide (x.toNat + y.toNat + carry.toNat > 255) := rfl
  have above : (addBytes x y carry).1 > 0x99 ↔ (addBytes x y carry).1.toNat > 0x99 :=
    UInt8.lt_iff_toNat_lt
  constructor
  · rw [correctsLow, half, subtract_addBytes, Bool.eq_iff_iff]
    simp only [Bool.not_false, Bool.true_and, Bool.or_eq_true, decide_eq_true_eq]
    omega
  · rw [correctsHigh, out, subtract_addBytes, Bool.eq_iff_iff]
    simp only [Bool.not_false, Bool.true_and, Bool.or_eq_true, decide_eq_true_eq, above]
    unfold unpack
    omega

theorem adjusted_sum :
    IsPacked (decimalAdjust (addBytes x y carry).1 (addBytes x y carry).2).1 ∧
      unpack x + unpack y + carry.toNat =
        unpack (decimalAdjust (addBytes x y carry).1 (addBytes x y carry).2).1 +
          100 * (decimalAdjust (addBytes x y carry).1 (addBytes x y carry).2).2.carry.toNat := by
  have adjusted : (decimalAdjust (addBytes x y carry).1 (addBytes x y carry).2).1.toNat = _ :=
    toNat_decimalAdjust_sum (subtract_addBytes x y carry)
  obtain ⟨low, high⟩ := corrects_sum packed packed' carry
  obtain ⟨xHigh, xLow⟩ := packed
  obtain ⟨yHigh, yLow⟩ := packed'
  have total := total_addBytes x y carry
  have small := (addBytes x y carry).1.toNat_lt
  have := Bool.toNat_le carry
  have := Bool.toNat_le (addBytes x y carry).2.carry
  rw [low, high] at adjusted
  rw [carry_decimalAdjust, high]
  unfold IsPacked
  unfold unpack at *
  -- Each digit may be corrected or not.
  by_cases lowOver : x.toNat % 16 + y.toNat % 16 + carry.toNat > 9 <;>
    by_cases highOver : 10 * (x.toNat / 16) + x.toNat % 16 +
      (10 * (y.toNat / 16) + y.toNat % 16) + carry.toNat > 99
  all_goals
    simp only [lowOver, highOver, decide_true, decide_false, Bool.toNat_true, Bool.toNat_false]
      at adjusted ⊢
    omega

/-- Forty-five and thirty-eight make eighty-three. -/
example : (decimalAdjust (addBytes 0x45 0x38 false).1 (addBytes 0x45 0x38 false).2).1 = 0x83 := by
  decide

/-- After a difference, a digit is corrected if it is too small. -/
theorem corrects_difference :
    correctsLow (subBytes x y carry).1 (subBytes x y carry).2 =
        decide (x.toNat % 16 < y.toNat % 16 + carry.toNat) ∧
      correctsHigh (subBytes x y carry).1 (subBytes x y carry).2 =
        decide (unpack x < unpack y + carry.toNat) := by
  obtain ⟨xHigh, xLow⟩ := packed
  obtain ⟨yHigh, yLow⟩ := packed'
  have := Bool.toNat_le carry
  have half : (subBytes x y carry).2.halfCarry =
      decide (x.toNat % 16 < y.toNat % 16 + carry.toNat) := rfl
  have out : (subBytes x y carry).2.carry = decide (x.toNat < y.toNat + carry.toNat) := rfl
  constructor
  · rw [correctsLow, half, subtract_subBytes, Bool.not_true, Bool.false_and, Bool.or_false]
  · rw [correctsHigh, out, subtract_subBytes, Bool.not_true, Bool.false_and, Bool.or_false]
    unfold unpack
    exact decide_eq_decide.mpr (by omega)

theorem adjusted_difference :
    IsPacked (decimalAdjust (subBytes x y carry).1 (subBytes x y carry).2).1 ∧
      unpack (decimalAdjust (subBytes x y carry).1 (subBytes x y carry).2).1 + unpack y +
          carry.toNat =
        unpack x +
          100 * (decimalAdjust (subBytes x y carry).1 (subBytes x y carry).2).2.carry.toNat := by
  have adjusted : (decimalAdjust (subBytes x y carry).1 (subBytes x y carry).2).1.toNat = _ :=
    toNat_decimalAdjust_difference (subtract_subBytes x y carry)
  obtain ⟨low, high⟩ := corrects_difference packed packed' carry
  obtain ⟨xHigh, xLow⟩ := packed
  obtain ⟨yHigh, yLow⟩ := packed'
  have total := total_subBytes x y carry
  have small := (subBytes x y carry).1.toNat_lt
  have := Bool.toNat_le carry
  have := Bool.toNat_le (subBytes x y carry).2.carry
  rw [low, high] at adjusted
  rw [carry_decimalAdjust, high]
  unfold IsPacked
  unfold unpack at *
  by_cases lowShort : x.toNat % 16 < y.toNat % 16 + carry.toNat <;>
    by_cases highShort : 10 * (x.toNat / 16) + x.toNat % 16 <
      10 * (y.toNat / 16) + y.toNat % 16 + carry.toNat
  all_goals
    simp only [lowShort, highShort, decide_true, decide_false, Bool.toNat_true, Bool.toNat_false]
      at adjusted ⊢
    omega

end adjusted

/-! ### Numbers -/

/-- Whether an adjustment left a packed byte; `left` is what was there before the adjustment and
what was there after it. -/
structure Adjusted (left : (UInt8 × Flags) × UInt8 × Flags) : Prop where
  packed : IsPacked left.2.1
  halfCarry : left.2.2.halfCarry = false
  subtract : left.2.2.subtract = left.1.2.subtract

/-- A column of a decimal sum. -/
structure DecimalSumColumn (pair : Packed × Packed) (carry : Bool)
    (left : (UInt8 × Flags) × UInt8 × Flags) (out : Bool) : Prop where
  total : unpack pair.1.byte + unpack pair.2.byte + carry.toNat =
    unpack left.2.1 + 100 * out.toNat
  adjusted : Adjusted left

/-- A column of a decimal difference. -/
structure DecimalDifferenceColumn (pair : Packed × Packed) (borrow : Bool)
    (left : (UInt8 × Flags) × UInt8 × Flags) (out : Bool) : Prop where
  total : unpack left.2.1 + unpack pair.2.byte + borrow.toNat =
    unpack pair.1.byte + 100 * out.toNat
  adjusted : Adjusted left

/-- What is left by adding the pairs of packed bytes in some columns, with a carry. -/
structure IsDecimalSum (pairs : List (Packed × Packed)) (carry : Bool)
    (lefts : List ((UInt8 × Flags) × UInt8 × Flags)) (out : Bool) : Prop where
  length_eq : lefts.length = pairs.length
  adjusted : ∀ left ∈ lefts, Adjusted left
  value : decimal (·.2.1) lefts =
    (decimal (·.1.byte) pairs + decimal (·.2.byte) pairs + carry.toNat) % 100 ^ pairs.length
  out : out = decide
    (100 ^ pairs.length ≤ decimal (·.1.byte) pairs + decimal (·.2.byte) pairs + carry.toNat)

/-- What is left by subtracting in some columns, with a borrow. -/
structure IsDecimalDifference (pairs : List (Packed × Packed)) (borrow : Bool)
    (lefts : List ((UInt8 × Flags) × UInt8 × Flags)) (out : Bool) : Prop where
  length_eq : lefts.length = pairs.length
  adjusted : ∀ left ∈ lefts, Adjusted left
  value : (decimal (·.2.1) lefts : Int) =
    (decimal (·.1.byte) pairs - decimal (·.2.byte) pairs - borrow.toNat) % 100 ^ pairs.length
  out : out = decide
    (decimal (·.1.byte) pairs < decimal (·.2.byte) pairs + borrow.toNat)

theorem decimal_lt {lefts : List ((UInt8 × Flags) × UInt8 × Flags)}
    (adjusted : ∀ left ∈ lefts, Adjusted left) :
    decimal (·.2.1) lefts < 100 ^ lefts.length :=
  valueIn_lt (by decide) fun left made => unpack_lt (adjusted left made).packed

section ripples
variable {pairs : List (Packed × Packed)} {lefts : List ((UInt8 × Flags) × UInt8 × Flags)}
  {carry out : Bool}

theorem isDecimalSum_of_ripple (h : Ripple DecimalSumColumn pairs carry lefts out) :
    IsDecimalSum pairs carry lefts out := by
  have adjusted := h.of_mem fun _ _ _ _ column => column.adjusted
  have small := decimal_lt adjusted
  rw [h.length_eq] at small
  have balanced := h.sum fun _ _ _ _ column => column.total
  obtain ⟨value, out⟩ := mod_of_balance balanced small
  exact ⟨h.length_eq, adjusted, value, out⟩

theorem isDecimalDifference_of_ripple (h : Ripple DecimalDifferenceColumn pairs carry lefts out) :
    IsDecimalDifference pairs carry lefts out := by
  have adjusted := h.of_mem fun _ _ _ _ column => column.adjusted
  have small := decimal_lt adjusted
  rw [h.length_eq] at small
  have balanced := h.difference fun _ _ _ _ column => column.total
  obtain ⟨value, out⟩ := emod_of_balance balanced small
  exact ⟨h.length_eq, adjusted, mod_cast value, out⟩

end ripples

/-! ### Programs -/

namespace Exec

/-- Performs an operation on two packed bytes and adjusts the result; tells A and the flags before
the adjustment and after it. -/
def operateDecimal (op : AccOp) (pair : Packed × Packed) :
    Exec ((UInt8 × Flags) × UInt8 × Flags) := do
  let before ← operate op (pair.1.byte, pair.2.byte)
  let _ ← perform 0 0 .daa
  let after ← accumulator
  return (before, after)

theorem treats_operateDecimal {column : Packed × Packed → Bool →
    (UInt8 × Flags) × UInt8 × Flags → Bool → Prop} {op : AccOp} {pair : Packed × Packed}
    {carry : Bool} {cpu : Cpu} {left : UInt8 × Flags}
    (result : op.apply pair.1.byte pair.2.byte cpu.regs.flags = left)
    (made : column pair carry (left, decimalAdjust left.1 left.2)
      (decimalAdjust left.1 left.2).2.carry) :
    Treats column pair carry (operateDecimal op pair) cpu := by
  simp only [Treats, operateDecimal, ensures_bind, ensures_operate, ensures_daa,
    ensures_accumulator, ensures_pure, Registers.calculate, result]
  exact made

theorem treats_adc_daa (pair : Packed × Packed) (cpu : Cpu) :
    Treats DecimalSumColumn pair cpu.regs.flags.carry (operateDecimal .adc pair) cpu := by
  obtain ⟨packed, total⟩ := adjusted_sum pair.1.isPacked pair.2.isPacked cpu.regs.flags.carry
  exact treats_operateDecimal rfl ⟨total, packed, rfl, rfl⟩

theorem treats_sbc_daa (pair : Packed × Packed) (cpu : Cpu) :
    Treats DecimalDifferenceColumn pair cpu.regs.flags.carry (operateDecimal .sbc pair) cpu := by
  obtain ⟨packed, total⟩ := adjusted_difference pair.1.isPacked pair.2.isPacked cpu.regs.flags.carry
  exact treats_operateDecimal rfl ⟨total, packed, rfl, rfl⟩

end Exec

namespace Computer

variable {β : Type} [Device β]

/-- What the adjusted operations make of packed decimal numbers of any length. -/
structure ExactDecimals (s : Computer β) (pairs : List (Packed × Packed)) : Prop where
  adc : s.Yields IsDecimalSum pairs s.cpu.regs.flags.carry
    (Exec.columns (Exec.operateDecimal .adc) (Exec.operateDecimal .adc) pairs)
  sbc : s.Yields IsDecimalDifference pairs s.cpu.regs.flags.carry
    (Exec.columns (Exec.operateDecimal .sbc) (Exec.operateDecimal .sbc) pairs)

/-- **Decimal arithmetic** byte by byte is exact, from every state, on every bus, and for packed
numbers of any length. -/
theorem exactDecimals (s : Computer β) (pairs : List (Packed × Packed)) :
    s.ExactDecimals pairs where
  adc := isDecimalSum_of_ripple
    (yields_of_treats (Exec.treats_columns Exec.treats_adc_daa pairs s.cpu))
  sbc := isDecimalDifference_of_ripple
    (yields_of_treats (Exec.treats_columns Exec.treats_sbc_daa pairs s.cpu))

end Computer

end Sm83
