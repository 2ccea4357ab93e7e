/-! # Bytes and words

The core moves bytes (`UInt8`) and words (`UInt16`); both wrap.

* **Halves.** `highByte` and `lowByte` split a word and `word` joins two bytes.  The three are
  inverse to each other (`word_highByte_lowByte`, `highByte_word`, `lowByte_word`), so a register
  pair can be stored as its halves.
* **Displacements.** `signExtend` reads a byte as a two's complement number and widens it;
  adding the result wraps exactly as adding the signed number would. -/

namespace Sm83

/-- A statement about every byte, checked by counting through the bytes. -/
theorem forall_byte {p : UInt8 → Prop} (h : ∀ n < 256, p (UInt8.ofNat n)) (b : UInt8) : p b := by
  simpa using h b.toNat b.toNat_lt

/-- The more significant byte of a word. -/
def highByte (w : UInt16) : UInt8 := (w / 256).toUInt8

/-- The less significant byte of a word. -/
def lowByte (w : UInt16) : UInt8 := w.toUInt8

/-- The word with the given halves. -/
def word (high low : UInt8) : UInt16 := high.toUInt16 * 256 + low.toUInt16

theorem toNat_highByte (w : UInt16) : (highByte w).toNat = w.toNat / 256 := by
  have := w.toNat_lt
  simp only [highByte, UInt16.toNat_toUInt8, UInt16.toNat_div, UInt16.reduceToNat]
  omega

theorem toNat_lowByte (w : UInt16) : (lowByte w).toNat = w.toNat % 256 := by
  simp [lowByte]

theorem toNat_word (high low : UInt8) : (word high low).toNat = 256 * high.toNat + low.toNat := by
  have := high.toNat_lt
  have := low.toNat_lt
  simp only [word, UInt16.toNat_add, UInt16.toNat_mul, UInt8.toNat_toUInt16, UInt16.reduceToNat]
  omega

@[simp] theorem highByte_word (high low : UInt8) : highByte (word high low) = high := by
  have := low.toNat_lt
  apply UInt8.toNat_inj.mp
  rw [toNat_highByte, toNat_word]
  omega

@[simp] theorem lowByte_word (high low : UInt8) : lowByte (word high low) = low := by
  have := low.toNat_lt
  apply UInt8.toNat_inj.mp
  rw [toNat_lowByte, toNat_word]
  omega

@[simp] theorem word_highByte_lowByte (w : UInt16) : word (highByte w) (lowByte w) = w := by
  apply UInt16.toNat_inj.mp
  rw [toNat_word, toNat_highByte, toNat_lowByte]
  omega

/-- A byte read as a two's complement number and widened to a word. -/
def signExtend (b : UInt8) : UInt16 := if b < 0x80 then b.toUInt16 else b.toUInt16 + 0xFF00

/-- The address of cell `offset` of the page `0xFF00`. -/
def highPage (offset : UInt8) : UInt16 := 0xFF00 + offset.toUInt16

@[simp] theorem lowByte_signExtend (b : UInt8) : lowByte (signExtend b) = b := by
  have := b.toNat_lt
  apply UInt8.toNat_inj.mp
  rw [toNat_lowByte]
  unfold signExtend
  split
  · simp
  · simp only [UInt16.toNat_add, UInt8.toNat_toUInt16, UInt16.reduceToNat]
    omega

theorem toNat_highPage (offset : UInt8) : (highPage offset).toNat = 0xFF00 + offset.toNat := by
  have := offset.toNat_lt
  simp only [highPage, UInt16.toNat_add, UInt8.toNat_toUInt16, UInt16.reduceToNat]
  omega

end Sm83
