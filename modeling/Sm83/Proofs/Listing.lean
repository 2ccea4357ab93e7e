import Sm83.Cpu.Fetch

/-! # Texts of instructions

What can be read off a line of a listing.

* **Code units.** `codeUnits text` are the bytes of a text.  The text of an instruction begins with
  its mnemonic, so that its first two code units are never those of a line of data
  (`listing_ne_data`).
* **Numbers.** `readHex? digits` reads a number back that was written in hexadecimal
  (`readHex?_hexByteDigits`, `readHex?_hexWordDigits`).  `digitsIn text` are the characters after the
  dollar sign of a text, which is where a listing shows a number. -/

namespace Sm83

/-! ### Code units -/

/-- The bytes of a text. -/
def codeUnits (text : String) : List UInt8 := text.toByteArray.data.toList

@[simp] theorem codeUnits_append (first last : String) :
    codeUnits (first ++ last) = codeUnits first ++ codeUnits last := by
  rw [codeUnits, String.toByteArray_append, ByteArray.data_append, Array.toList_append]
  rfl

/-- The first two code units of a text. -/
def headUnits (text : String) : List UInt8 := (codeUnits text).take 2

theorem headUnits_append {first : String} (long : (headUnits first).length = 2) (last : String) :
    headUnits (first ++ last) = headUnits first := by
  rw [headUnits, List.length_take] at long
  rw [headUnits, codeUnits_append, List.take_append_of_le_length (by omega)]
  rfl

/-- A mnemonic has two letters or more, and never begins as a line of data does. -/
theorem Operation.headUnits_mnemonic (op : Operation) :
    (headUnits op.mnemonic).length = 2 ∧ headUnits op.mnemonic ≠ [0x44, 0x42] := by
  cases op with
  | load dst src =>
    rw [mnemonic]
    split
    · decide
    · decide
  | alu kind _ =>
    rw [mnemonic]
    cases kind <;> decide
  | rotateA kind => cases kind <;> decide
  | shift kind _ =>
    rw [mnemonic]
    cases kind <;> decide
  | _ =>
    rw [mnemonic]
    decide

theorem Operation.headUnits_listing (op : Operation) (operand next : UInt16) :
    headUnits (op.listing operand next) = headUnits op.mnemonic :=
  headUnits_append op.headUnits_mnemonic.1 _

/-- **Instructions and data**: no instruction has the text of a line of data. -/
theorem Operation.listing_ne_data (op : Operation) (operand next : UInt16) (byte : UInt8) :
    op.listing operand next ≠ "DB $" ++ hexByte byte := by
  intro same
  apply op.headUnits_mnemonic.2
  rw [← op.headUnits_listing operand next, same]
  exact headUnits_append rfl _

/-! ### Numbers -/

/-- The value of a hexadecimal digit. -/
def hexValue? (c : Char) : Option Nat :=
  if '0' ≤ c ∧ c ≤ '9' then some (c.toNat - '0'.toNat)
  else if 'A' ≤ c ∧ c ≤ 'F' then some (c.toNat - 'A'.toNat + 10)
  else none

/-- The number that some digits write in hexadecimal, the most significant digit first. -/
def readHex? (digits : List Char) : Option Nat :=
  digits.foldlM (fun value c => (16 * value + ·) <$> hexValue? c) 0

/-- What follows the first dollar sign of a text. -/
def digitsIn (text : String) : List Char := (text.toList.dropWhile (· ≠ '$')).drop 1

theorem hexValue?_hexDigit {n : Nat} (small : n < 16) : hexValue? (hexDigit n) = some n := by
  have table : ∀ n < 16, hexValue? (hexDigit n) = some n := by decide
  exact table n small

theorem readHex?_hexByteDigits (b : UInt8) : readHex? (hexByteDigits b) = some b.toNat := by
  have inside := b.toNat_lt
  have high : hexValue? (hexDigit (b.toNat / 16)) = some (b.toNat / 16) :=
    hexValue?_hexDigit (by omega)
  have low : hexValue? (hexDigit (b.toNat % 16)) = some (b.toNat % 16) :=
    hexValue?_hexDigit (by omega)
  have halves : 16 * (b.toNat / 16) + b.toNat % 16 = b.toNat := by omega
  simp [readHex?, hexByteDigits, high, low, halves]

theorem readHex?_hexWordDigits (w : UInt16) :
    readHex? (hexByteDigits (highByte w) ++ hexByteDigits (lowByte w)) = some w.toNat := by
  have high := readHex?_hexByteDigits (highByte w)
  have inside := (lowByte w).toNat_lt
  have first : hexValue? (hexDigit ((lowByte w).toNat / 16)) = some ((lowByte w).toNat / 16) :=
    hexValue?_hexDigit (by omega)
  have second : hexValue? (hexDigit ((lowByte w).toNat % 16)) = some ((lowByte w).toNat % 16) :=
    hexValue?_hexDigit (by omega)
  have halves : 16 * (16 * (highByte w).toNat + (lowByte w).toNat / 16) + (lowByte w).toNat % 16 =
      w.toNat := by
    rw [toNat_highByte, toNat_lowByte]
    omega
  unfold readHex? at high ⊢
  rw [List.foldlM_append, high]
  simp [hexByteDigits, first, second, halves]

/-- What follows the dollar sign does not depend on the words in front of it. -/
theorem digitsIn_append {front : String} (plain : '$' ∉ front.toList) (digits : String) :
    digitsIn (front ++ ("$" ++ digits)) = digits.toList := by
  have apart : ∀ c ∈ front.toList, (decide (c ≠ '$')) = true := by
    intro c inside
    exact decide_eq_true fun same => plain (same ▸ inside)
  rw [digitsIn, String.toList_append, List.dropWhile_append_of_pos apart, String.toList_append]
  rfl

end Sm83
