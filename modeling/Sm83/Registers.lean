import Sm83.Flags

/-! # The register file

Seven byte registers, the flags, the stack pointer and the program counter.

* **Two views.** `getByte`/`setByte` see single bytes; `getWord`/`setWord` see the pairs AF, BC,
  DE and HL and the stack pointer.  A pair is its two halves, the first register being the high
  byte, so the views never disagree.
* **F.** The register F has no storage of its own: it is the encoding of the flags, and storing
  into it drops the low nibble. -/

namespace Sm83

/-- The byte registers. -/
inductive ByteReg where
  | a | f | b | c | d | e | h | l
deriving DecidableEq, Repr

/-- The word registers: four pairs and the stack pointer. -/
inductive WordReg where
  | af | bc | de | hl | sp
deriving DecidableEq, Repr

/-- The assembler name of a byte register. -/
def ByteReg.name : ByteReg → String
  | .a => "A" | .f => "F" | .b => "B" | .c => "C"
  | .d => "D" | .e => "E" | .h => "H" | .l => "L"

/-- The assembler name of a word register. -/
def WordReg.name : WordReg → String
  | .af => "AF" | .bc => "BC" | .de => "DE" | .hl => "HL" | .sp => "SP"

/-- The register file; everything is zero unless given. -/
structure Registers where
  a : UInt8 := 0
  b : UInt8 := 0
  c : UInt8 := 0
  d : UInt8 := 0
  e : UInt8 := 0
  h : UInt8 := 0
  l : UInt8 := 0
  flags : Flags := {}
  sp : UInt16 := 0
  pc : UInt16 := 0
deriving DecidableEq, Repr

namespace Registers

/-- The byte in a register. -/
def getByte (regs : Registers) : ByteReg → UInt8
  | .a => regs.a
  | .f => regs.flags.encode
  | .b => regs.b
  | .c => regs.c
  | .d => regs.d
  | .e => regs.e
  | .h => regs.h
  | .l => regs.l

/-- Stores a byte; F keeps only the flags in it. -/
def setByte (regs : Registers) : ByteReg → UInt8 → Registers
  | .a, v => { regs with a := v }
  | .f, v => { regs with flags := .decode v }
  | .b, v => { regs with b := v }
  | .c, v => { regs with c := v }
  | .d, v => { regs with d := v }
  | .e, v => { regs with e := v }
  | .h, v => { regs with h := v }
  | .l, v => { regs with l := v }

/-- The word in a pair or in the stack pointer. -/
def getWord (regs : Registers) : WordReg → UInt16
  | .af => word regs.a regs.flags.encode
  | .bc => word regs.b regs.c
  | .de => word regs.d regs.e
  | .hl => word regs.h regs.l
  | .sp => regs.sp

/-- Stores a word into both halves of a pair, or into the stack pointer. -/
def setWord (regs : Registers) : WordReg → UInt16 → Registers
  | .af, v => { regs with a := highByte v, flags := .decode (lowByte v) }
  | .bc, v => { regs with b := highByte v, c := lowByte v }
  | .de, v => { regs with d := highByte v, e := lowByte v }
  | .hl, v => { regs with h := highByte v, l := lowByte v }
  | .sp, v => { regs with sp := v }

/-- The pair HL, the usual pointer into memory. -/
abbrev hl (regs : Registers) : UInt16 := regs.getWord .hl

/-- Stores into the pair HL. -/
abbrev setHl (regs : Registers) (v : UInt16) : Registers := regs.setWord .hl v

@[simp] theorem getByte_setByte_self (regs : Registers) {r : ByteReg} (hr : r ≠ .f) (v : UInt8) :
    (regs.setByte r v).getByte r = v := by
  cases r <;> simp_all [setByte, getByte]

theorem getByte_setByte_f (regs : Registers) (v : UInt8) :
    (regs.setByte .f v).getByte .f = v &&& 0xF0 :=
  Flags.encode_decode v

theorem getByte_setByte_of_ne (regs : Registers) {r s : ByteReg} (h : s ≠ r) (v : UInt8) :
    (regs.setByte r v).getByte s = regs.getByte s := by
  cases r <;> cases s <;> simp_all [setByte, getByte]

@[simp] theorem setByte_getByte (regs : Registers) (r : ByteReg) :
    regs.setByte r (regs.getByte r) = regs := by
  cases r <;> simp [setByte, getByte]

@[simp] theorem setWord_getWord (regs : Registers) (p : WordReg) :
    regs.setWord p (regs.getWord p) = regs := by
  cases p <;> simp [setWord, getWord]

@[simp] theorem getWord_setWord_self (regs : Registers) {p : WordReg} (hp : p ≠ .af) (v : UInt16) :
    (regs.setWord p v).getWord p = v := by
  cases p <;> simp_all [setWord, getWord]

@[simp] theorem pc_setByte (regs : Registers) (r : ByteReg) (v : UInt8) :
    (regs.setByte r v).pc = regs.pc := by
  cases r <;> rfl

@[simp] theorem pc_setWord (regs : Registers) (p : WordReg) (v : UInt16) :
    (regs.setWord p v).pc = regs.pc := by
  cases p <;> rfl

@[simp] theorem sp_setByte (regs : Registers) (r : ByteReg) (v : UInt8) :
    (regs.setByte r v).sp = regs.sp := by
  cases r <;> rfl

end Registers

end Sm83
