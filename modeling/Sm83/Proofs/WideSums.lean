import Sm83.Proofs.LongShifts

/-! # Sums of words

The adders of words and the adder of bytes keep the same conventions.

* **Two columns.** The sum of two words is what the byte adder makes of their low bytes and then,
  with the carry, of their high bytes (`addWords_eq`).  The half carry out of bit 11 is the half
  carry of the second column.
* **Displacements.** A displacement is added as a signed number (`toNat_addSigned`), but the flags
  are those of the byte adder on the low bytes (`flags_addSigned`).
* **Main statement.** `wideSums`: ADD HL is ADD and then ADC, for every pair; ADD SP and LD HL,SP
  move the stack pointer by a signed byte, with the flags of ADD. -/

namespace Sm83

/-- The flags after a sum of words: N is cleared, and the carries are those of a column. -/
def wordFlags (zero : Bool) (column : UInt8 × Flags) : Flags where
  zero := zero
  subtract := false
  halfCarry := column.2.halfCarry
  carry := column.2.carry

/-! ### Two columns -/

section columns
variable (h l : UInt8) (v : UInt16)

/-- The column of the low bytes. -/
def lowColumn : UInt8 × Flags := addBytes l (lowByte v) false

/-- The column of the high bytes. -/
def highColumn : UInt8 × Flags := addBytes h (highByte v) (lowColumn l v).2.carry

theorem total_lowColumn :
    l.toNat + v.toNat % 256 = (lowColumn l v).1.toNat + 256 * (lowColumn l v).2.carry.toNat := by
  have total := total_addBytes l (lowByte v) false
  rwa [toNat_lowByte, Bool.toNat_false, Nat.add_zero] at total

theorem total_highColumn :
    h.toNat + v.toNat / 256 + (lowColumn l v).2.carry.toNat =
      (highColumn h l v).1.toNat + 256 * (highColumn h l v).2.carry.toNat := by
  have total := total_addBytes h (highByte v) (lowColumn l v).2.carry
  rwa [toNat_highByte] at total

/-- The two columns balance as one sum of words. -/
theorem total_columns : (word h l).toNat + v.toNat =
    (word (highColumn h l v).1 (lowColumn l v).1).toNat +
      0x10000 * (highColumn h l v).2.carry.toNat := by
  have low := total_lowColumn l v
  have high := total_highColumn h l v
  rw [toNat_word, toNat_word]
  omega

/-- The carry out of bit 11 is the one between the nibbles of the high bytes. -/
theorem halfCarry_highColumn : (highColumn h l v).2.halfCarry =
    decide ((word h l).toNat % 0x1000 + v.toNat % 0x1000 > 0xFFF) := by
  have nibbles : (highColumn h l v).2.halfCarry = decide
      (h.toNat % 16 + (highByte v).toNat % 16 + (lowColumn l v).2.carry.toNat > 15) := rfl
  have low := total_lowColumn l v
  have small := (lowColumn l v).1.toNat_lt
  have small' := l.toNat_lt
  rw [nibbles, toNat_highByte, toNat_word]
  exact decide_eq_decide.mpr (by omega)

/-- **Two columns** make the sum of two words. -/
theorem addWords_eq (flags : Flags) : addWords (word h l) v flags =
    (word (highColumn h l v).1 (lowColumn l v).1, wordFlags flags.zero (highColumn h l v)) := by
  have total := total_columns h l v
  have small := (word (highColumn h l v).1 (lowColumn l v).1).toNat_lt
  obtain ⟨value, out⟩ := mod_of_balance total small
  have sum : word h l + v = word (highColumn h l v).1 (lowColumn l v).1 := by
    apply UInt16.toNat_inj.mp
    rw [UInt16.toNat_add, value]
  rw [addWords, sum, wordFlags, halfCarry_highColumn, out]
  rfl

end columns

/-! ### Displacements -/

/-- A displacement is widened with its sign. -/
theorem toNat_signExtend (d : UInt8) :
    ((signExtend d).toNat : Int) = signed 1 d.toNat % 0x10000 := by
  revert d
  apply forall_byte
  decide +kernel

section displacements
variable (base : UInt16) (d : UInt8)

/-- A word is moved by a signed number. -/
theorem toNat_addSigned :
    ((addSigned base d).1.toNat : Int) = (base.toNat + signed 1 d.toNat) % 0x10000 := by
  have widened := toNat_signExtend d
  have sum : (addSigned base d).1.toNat = (base.toNat + (signExtend d).toNat) % 0x10000 :=
    UInt16.toNat_add _ _
  omega

/-- The flags do not know of the sign. -/
theorem flags_addSigned :
    (addSigned base d).2 = wordFlags false (addBytes (lowByte base) d false) := by
  have half : base.toNat % 256 % 16 = base.toNat % 16 := Nat.mod_mod_of_dvd _ (by decide)
  simp only [addSigned, wordFlags, addBytes, toNat_lowByte, half, Bool.toNat_false, Nat.add_zero]

/-- One below zero, no byte has carried. -/
example : addSigned 0x0000 0xFF = (0xFFFF, {}) := by decide

end displacements

/-! ### Programs -/

namespace Exec

variable {cpu : Cpu}

theorem ensures_addHl (address operand : UInt16) (pair : WordReg)
    {Q : List Access → List LogEvent → Bool → Cpu → Prop} :
    Ensures (perform address operand (.addHl pair)) cpu Q ↔
      let column := highColumn cpu.regs.h cpu.regs.l (cpu.regs.getWord pair)
      Q [] [] false { cpu with regs :=
        { cpu.regs with
          h := column.1
          l := (lowColumn cpu.regs.l (cpu.regs.getWord pair)).1
          flags := wordFlags cpu.regs.flags.zero column } } := by
  simp [perform, plain, Registers.getWord, Registers.setWord, addWords_eq]

theorem ensures_addSp (address operand : UInt16)
    {Q : List Access → List LogEvent → Bool → Cpu → Prop} :
    Ensures (perform address operand .addSp) cpu Q ↔
      Q [] [] false { cpu with regs :=
        { cpu.regs with
          sp := (addSigned cpu.regs.sp (lowByte operand)).1
          flags := (addSigned cpu.regs.sp (lowByte operand)).2 } } := by
  simp [perform, plain]

theorem ensures_loadHlSp (address operand : UInt16)
    {Q : List Access → List LogEvent → Bool → Cpu → Prop} :
    Ensures (perform address operand .loadHlSp) cpu Q ↔
      Q [] [] false { cpu with regs :=
        { cpu.regs with
          h := highByte (addSigned cpu.regs.sp (lowByte operand)).1
          l := lowByte (addSigned cpu.regs.sp (lowByte operand)).1
          flags := (addSigned cpu.regs.sp (lowByte operand)).2 } } := by
  simp [perform, plain, Registers.setWord]

end Exec

namespace Computer

variable {β : Type} [Device β]

/-- The byte adder on its own. -/
theorem exec_operate_add (s : Computer β) (x y : UInt8) :
    (s.exec (Exec.operate .add (x, y))).1 = addBytes x y false :=
  exec_of_ensures (Q := fun _ _ left _ => left = addBytes x y false)
    ((Exec.ensures_operate .add (x, y)).mpr rfl)

/-- What the adders of words make, told by the adder of bytes. -/
structure WideSums (s : Computer β) : Prop where
  /-- ADD HL is ADD of the low bytes and then ADC of the high ones, but that it keeps A and Z. -/
  addHl : ∀ address operand pair, ∃ low high,
    (s.exec (Exec.columns (Exec.operate .add) (Exec.operate .adc)
      [(s.cpu.regs.l, lowByte (s.cpu.regs.getWord pair)),
        (s.cpu.regs.h, highByte (s.cpu.regs.getWord pair))])).1 = [low, high] ∧
    (s.exec (Exec.perform address operand (.addHl pair))).2.cpu.regs =
      { s.cpu.regs with
        h := high.1
        l := low.1
        flags := wordFlags s.cpu.regs.flags.zero high }
  /-- ADD SP adds a signed byte; its carries are those of ADD. -/
  addSp : ∀ address operand, ∃ sum : UInt16,
    (sum.toNat : Int) =
      (s.cpu.regs.sp.toNat + signed 1 (lowByte operand).toNat) % 0x10000 ∧
    (s.exec (Exec.perform address operand .addSp)).2.cpu.regs =
      { s.cpu.regs with
        sp := sum
        flags := wordFlags false
          (s.exec (Exec.operate .add (lowByte s.cpu.regs.sp, lowByte operand))).1 }
  /-- LD HL,SP does the same to HL and keeps the stack pointer. -/
  loadHlSp : ∀ address operand, ∃ sum : UInt16,
    (sum.toNat : Int) =
      (s.cpu.regs.sp.toNat + signed 1 (lowByte operand).toNat) % 0x10000 ∧
    (s.exec (Exec.perform address operand .loadHlSp)).2.cpu.regs =
      { s.cpu.regs with
        h := highByte sum
        l := lowByte sum
        flags := wordFlags false
          (s.exec (Exec.operate .add (lowByte s.cpu.regs.sp, lowByte operand))).1 }

/-- **Sums of words** follow the sums of bytes, from every state and on every bus. -/
theorem wideSums (s : Computer β) : s.WideSums where
  addHl address operand pair := by
    refine ⟨lowColumn s.cpu.regs.l (s.cpu.regs.getWord pair),
      highColumn s.cpu.regs.h s.cpu.regs.l (s.cpu.regs.getWord pair), ?_, ?_⟩
    · refine exec_of_ensures (Q := fun _ _ lefts _ => lefts = _) ?_
      simp only [Exec.columns, Exec.ensures_bind, Exec.ensures_operate, Exec.ensures_pure]
      rfl
    · exact exec_of_ensures (Q := fun _ _ _ after => after.regs = _)
        ((Exec.ensures_addHl address operand pair).mpr rfl)
  addSp address operand := by
    refine ⟨_, toNat_addSigned s.cpu.regs.sp (lowByte operand), ?_⟩
    rw [s.exec_operate_add, ← flags_addSigned]
    exact exec_of_ensures (Q := fun _ _ _ after => after.regs = _)
      ((Exec.ensures_addSp address operand).mpr rfl)
  loadHlSp address operand := by
    refine ⟨_, toNat_addSigned s.cpu.regs.sp (lowByte operand), ?_⟩
    rw [s.exec_operate_add, ← flags_addSigned]
    exact exec_of_ensures (Q := fun _ _ _ after => after.regs = _)
      ((Exec.ensures_loadHlSp address operand).mpr rfl)

end Computer

end Sm83
