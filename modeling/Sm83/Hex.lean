import Sm83.Word

/-! # Hexadecimal text

Bytes are written with two digits and words with four, in upper case and most significant digit
first.  A fixed width makes the text of a value readable back wherever it stands: `hexByte` and
`hexWord` are injective (`hexByte_inj`, `hexWord_inj`).  `padRight` fills a column with blanks. -/

namespace Sm83

/-- The digit of a value below sixteen. -/
def hexDigit : Nat → Char
  | 0 => '0' | 1 => '1' | 2 => '2' | 3 => '3'
  | 4 => '4' | 5 => '5' | 6 => '6' | 7 => '7'
  | 8 => '8' | 9 => '9' | 10 => 'A' | 11 => 'B'
  | 12 => 'C' | 13 => 'D' | 14 => 'E' | _ => 'F'

theorem hexDigit_inj {m n : Nat} (hm : m < 16) (hn : n < 16) (h : hexDigit m = hexDigit n) :
    m = n := by
  have table : ∀ m < 16, ∀ n < 16, hexDigit m = hexDigit n → m = n := by decide
  exact table m hm n hn h

/-- The two digits of a byte. -/
def hexByteDigits (b : UInt8) : List Char := [hexDigit (b.toNat / 16), hexDigit (b.toNat % 16)]

/-- A byte in two digits. -/
def hexByte (b : UInt8) : String := String.ofList (hexByteDigits b)

/-- A word in four digits. -/
def hexWord (w : UInt16) : String := hexByte (highByte w) ++ hexByte (lowByte w)

@[simp] theorem length_hexByteDigits (b : UInt8) : (hexByteDigits b).length = 2 := rfl

@[simp] theorem toList_hexByte (b : UInt8) : (hexByte b).toList = hexByteDigits b := by
  simp [hexByte]

@[simp] theorem toList_hexWord (w : UInt16) :
    (hexWord w).toList = hexByteDigits (highByte w) ++ hexByteDigits (lowByte w) := by
  simp [hexWord]

theorem hexByteDigits_inj {a b : UInt8} : hexByteDigits a = hexByteDigits b ↔ a = b := by
  refine ⟨fun h => ?_, fun h => h ▸ rfl⟩
  have := a.toNat_lt
  have := b.toNat_lt
  simp only [hexByteDigits, List.cons.injEq, and_true] at h
  have high := hexDigit_inj (by omega) (by omega) h.1
  have low := hexDigit_inj (by omega) (by omega) h.2
  apply UInt8.toNat_inj.mp
  omega

theorem hexByte_inj {a b : UInt8} : hexByte a = hexByte b ↔ a = b := by
  rw [← hexByteDigits_inj, ← toList_hexByte, ← toList_hexByte, String.toList_inj]

theorem hexWord_inj {a b : UInt16} : hexWord a = hexWord b ↔ a = b := by
  refine ⟨fun h => ?_, fun h => h ▸ rfl⟩
  have digits := congrArg String.toList h
  rw [toList_hexWord, toList_hexWord] at digits
  obtain ⟨high, low⟩ := List.append_inj digits rfl
  rw [← word_highByte_lowByte a, ← word_highByte_lowByte b, hexByteDigits_inj.mp high,
    hexByteDigits_inj.mp low]

/-- A text filled with blanks on the right up to `width` characters; longer text is kept whole. -/
def padRight (width : Nat) (text : String) : String :=
  text ++ String.ofList (List.replicate (width - text.length) ' ')

end Sm83
