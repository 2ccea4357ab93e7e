import Sm83.Proofs.Columns
import Sm83.Proofs.Steps

/-! # Sums and differences of any length

Adding and subtracting byte by byte is exact, whatever the number of bytes.

* **Columns.** `SumColumn` and `DifferenceColumn` tell what the adder and the subtracter do to a
  column: the byte and the carry balance, and the flags are those of the byte and of its nibbles.
* **Numbers.** A ripple of such columns is a sum (`IsSum`) or a difference (`IsDifference`) modulo
  a power of 256, and the carry that is left says whether it was reduced.
* **Main statement.** `exactColumns`: ADC and SBC chain to sums and differences, ADD and SUB begin
  such chains as if the carry flag were clear, and CP leaves the flags of SUB. -/

namespace Sm83

theorem toNat_toUInt8 (carry : Bool) : carry.toUInt8.toNat = carry.toNat := by
  cases carry <;> rfl

/-- The sum and its carry make up what was added. -/
theorem total_addBytes (x y : UInt8) (carry : Bool) :
    x.toNat + y.toNat + carry.toNat =
      (addBytes x y carry).1.toNat + 256 * (addBytes x y carry).2.carry.toNat := by
  have := x.toNat_lt
  have := y.toNat_lt
  have := Bool.toNat_le carry
  have sum : (addBytes x y carry).1.toNat = (x.toNat + y.toNat + carry.toNat) % 256 := by
    simp [addBytes, toNat_toUInt8]
  have out : (addBytes x y carry).2.carry = decide (x.toNat + y.toNat + carry.toNat > 255) := rfl
  by_cases wraps : x.toNat + y.toNat + carry.toNat > 255
  · rw [out, decide_eq_true wraps, Bool.toNat_true]
    omega
  · rw [out, decide_eq_false wraps, Bool.toNat_false]
    omega

/-- The difference and what was taken make up what it was taken from and the borrow. -/
theorem total_subBytes (x y : UInt8) (borrow : Bool) :
    (subBytes x y borrow).1.toNat + y.toNat + borrow.toNat =
      x.toNat + 256 * (subBytes x y borrow).2.carry.toNat := by
  have := x.toNat_lt
  have := y.toNat_lt
  have := Bool.toNat_le borrow
  have difference : (subBytes x y borrow).1.toNat =
      (x.toNat + 512 - (y.toNat + borrow.toNat)) % 256 := by
    simp only [subBytes, UInt8.toNat_sub, toNat_toUInt8]
    omega
  have out : (subBytes x y borrow).2.carry = decide (x.toNat < y.toNat + borrow.toNat) := rfl
  by_cases short : x.toNat < y.toNat + borrow.toNat
  · rw [out, decide_eq_true short, Bool.toNat_true]
    omega
  · rw [out, decide_eq_false short, Bool.toNat_false]
    omega

/-! ### Columns -/

/-- A column of a sum: the byte and the flags that it leaves. -/
structure SumColumn (pair : UInt8 × UInt8) (carry : Bool) (left : UInt8 × Flags) (out : Bool) :
    Prop where
  total : pair.1.toNat + pair.2.toNat + carry.toNat = left.1.toNat + 256 * out.toNat
  flags : left.2 =
    { zero := decide (left.1 = 0)
      subtract := false
      halfCarry := decide (pair.1.toNat % 16 + pair.2.toNat % 16 + carry.toNat > 15)
      carry := out }

/-- A column of a difference: the byte and the flags that it leaves. -/
structure DifferenceColumn (pair : UInt8 × UInt8) (borrow : Bool) (left : UInt8 × Flags)
    (out : Bool) : Prop where
  total : left.1.toNat + pair.2.toNat + borrow.toNat = pair.1.toNat + 256 * out.toNat
  flags : left.2 =
    { zero := decide (left.1 = 0)
      subtract := true
      halfCarry := decide ((pair.1.toNat % 16 : Int) - pair.2.toNat % 16 - borrow.toNat < 0)
      carry := out }

theorem sumColumn_addBytes (x y : UInt8) (carry : Bool) :
    SumColumn (x, y) carry (addBytes x y carry) (addBytes x y carry).2.carry :=
  ⟨total_addBytes x y carry, rfl⟩

theorem differenceColumn_subBytes (x y : UInt8) (borrow : Bool) :
    DifferenceColumn (x, y) borrow (subBytes x y borrow) (subBytes x y borrow).2.carry := by
  refine ⟨total_subBytes x y borrow, ?_⟩
  have half : decide ((x.toNat % 16 : Int) - y.toNat % 16 - borrow.toNat < 0) =
      decide (x.toNat % 16 < y.toNat % 16 + borrow.toNat) :=
    decide_eq_decide.mpr (by omega)
  rw [half]
  rfl

/-! ### Numbers -/

/-- The number whose bytes stand in a list, the least significant first. -/
def binary {α : Type} (byte : α → UInt8) (columns : List α) : Nat :=
  valueIn 256 (fun column => (byte column).toNat) columns

theorem binary_lt {α : Type} (byte : α → UInt8) (columns : List α) :
    binary byte columns < 256 ^ columns.length :=
  valueIn_lt (by decide) fun column _ => (byte column).toNat_lt

/-- The bytes and flags left by adding the pairs of bytes in some columns, with a carry. -/
structure IsSum (pairs : List (UInt8 × UInt8)) (carry : Bool) (lefts : List (UInt8 × Flags))
    (out : Bool) : Prop where
  columns : Ripple SumColumn pairs carry lefts out
  value : binary Prod.fst lefts =
    (binary Prod.fst pairs + binary Prod.snd pairs + carry.toNat) % 256 ^ pairs.length
  out : out = decide
    (256 ^ pairs.length ≤ binary Prod.fst pairs + binary Prod.snd pairs + carry.toNat)

/-- The bytes and flags left by subtracting in some columns, with a borrow. -/
structure IsDifference (pairs : List (UInt8 × UInt8)) (borrow : Bool)
    (lefts : List (UInt8 × Flags)) (out : Bool) : Prop where
  columns : Ripple DifferenceColumn pairs borrow lefts out
  value : (binary Prod.fst lefts : Int) =
    (binary Prod.fst pairs - binary Prod.snd pairs - borrow.toNat) % 256 ^ pairs.length
  out : out = decide (binary Prod.fst pairs < binary Prod.snd pairs + borrow.toNat)

section ripples
variable {pairs : List (UInt8 × UInt8)} {lefts : List (UInt8 × Flags)} {carry out : Bool}

theorem isSum_of_ripple (h : Ripple SumColumn pairs carry lefts out) :
    IsSum pairs carry lefts out := by
  have small := binary_lt Prod.fst lefts
  rw [h.length_eq] at small
  have balanced := h.sum fun _ _ _ _ column => column.total
  obtain ⟨value, out⟩ := mod_of_balance balanced small
  exact ⟨h, value, out⟩

theorem isDifference_of_ripple (h : Ripple DifferenceColumn pairs carry lefts out) :
    IsDifference pairs carry lefts out := by
  have small := binary_lt Prod.fst lefts
  rw [h.length_eq] at small
  have balanced := h.difference fun _ _ _ _ column => column.total
  obtain ⟨value, out⟩ := emod_of_balance balanced small
  exact ⟨h, mod_cast value, out⟩

end ripples

/-! ### Programs -/

namespace Exec

/-- Puts the first of two bytes in A, and performs an operation with the second. -/
def operate (op : AccOp) (pair : UInt8 × UInt8) : Exec (UInt8 × Flags) := do
  let _ ← loadA pair.1
  let _ ← perform 0 (word 0 pair.2) (.alu op .imm)
  accumulator

theorem ensures_operate (op : AccOp) (pair : UInt8 × UInt8) {cpu : Cpu}
    {Q : List Access → List LogEvent → UInt8 × Flags → Cpu → Prop} :
    Ensures (operate op pair) cpu Q ↔
      Q [] [] (op.apply pair.1 pair.2 cpu.regs.flags)
        { cpu with regs :=
          { cpu.regs with
            a := (op.apply pair.1 pair.2 cpu.regs.flags).1
            flags := (op.apply pair.1 pair.2 cpu.regs.flags).2 } } := by
  simp [operate, Registers.calculate]

theorem treats_adc (pair : UInt8 × UInt8) (cpu : Cpu) :
    Treats SumColumn pair cpu.regs.flags.carry (operate .adc pair) cpu :=
  (ensures_operate .adc pair).mpr (sumColumn_addBytes _ _ _)

theorem treats_sbc (pair : UInt8 × UInt8) (cpu : Cpu) :
    Treats DifferenceColumn pair cpu.regs.flags.carry (operate .sbc pair) cpu :=
  (ensures_operate .sbc pair).mpr (differenceColumn_subBytes _ _ _)

theorem treats_add (pair : UInt8 × UInt8) (cpu : Cpu) :
    Treats SumColumn pair false (operate .add pair) cpu :=
  (ensures_operate .add pair).mpr (sumColumn_addBytes _ _ _)

theorem treats_sub (pair : UInt8 × UInt8) (cpu : Cpu) :
    Treats DifferenceColumn pair false (operate .sub pair) cpu :=
  (ensures_operate .sub pair).mpr (differenceColumn_subBytes _ _ _)

end Exec

namespace Computer

variable {β : Type} [Device β]

/-- Whether what a program tells, and the carry flag that it leaves, are as a relation demands when
a carry comes in. -/
def Yields {α γ : Type} (s : Computer β) (column : α → Bool → γ → Bool → Prop) (given : α)
    (carry : Bool) (program : Exec γ) : Prop :=
  column given carry (s.exec program).1 (s.exec program).2.cpu.regs.flags.carry

theorem yields_of_treats {α γ : Type} {s : Computer β} {column : α → Bool → γ → Bool → Prop}
    {given : α} {carry : Bool} {program : Exec γ}
    (h : Exec.Treats column given carry program s.cpu) : s.Yields column given carry program :=
  exec_of_ensures h

/-- What the eight-bit operations make of numbers of any length. -/
structure ExactColumns (s : Computer β) : Prop where
  adc : ∀ pairs, s.Yields IsSum pairs s.cpu.regs.flags.carry
    (Exec.columns (Exec.operate .adc) (Exec.operate .adc) pairs)
  sbc : ∀ pairs, s.Yields IsDifference pairs s.cpu.regs.flags.carry
    (Exec.columns (Exec.operate .sbc) (Exec.operate .sbc) pairs)
  /-- The carry flag does not matter to a sum that begins with ADD. -/
  add : ∀ pair pairs, s.Yields IsSum (pair :: pairs) false
    (Exec.columns (Exec.operate .add) (Exec.operate .adc) (pair :: pairs))
  sub : ∀ pair pairs, s.Yields IsDifference (pair :: pairs) false
    (Exec.columns (Exec.operate .sub) (Exec.operate .sbc) (pair :: pairs))
  /-- A comparison leaves A as it is and the flags of a subtraction. -/
  cp : ∀ pair, (s.exec (Exec.operate .cp pair)).1 =
    (pair.1, (s.exec (Exec.operate .sub pair)).1.2)

/-- **Binary arithmetic** byte by byte is exact, from every state, on every bus, and for numbers of
any length. -/
theorem exactColumns (s : Computer β) : s.ExactColumns where
  adc pairs := isSum_of_ripple (yields_of_treats (Exec.treats_columns Exec.treats_adc pairs s.cpu))
  sbc pairs :=
    isDifference_of_ripple (yields_of_treats (Exec.treats_columns Exec.treats_sbc pairs s.cpu))
  add pair pairs := isSum_of_ripple
    (yields_of_treats (Exec.treats_columns_cons Exec.treats_adc (Exec.treats_add pair s.cpu) pairs))
  sub pair pairs := isDifference_of_ripple
    (yields_of_treats (Exec.treats_columns_cons Exec.treats_sbc (Exec.treats_sub pair s.cpu) pairs))
  cp pair := by
    have result (op : AccOp) :
        (s.exec (Exec.operate op pair)).1 = op.apply pair.1 pair.2 s.cpu.regs.flags :=
      exec_of_ensures (Q := fun _ _ left _ => left = op.apply pair.1 pair.2 s.cpu.regs.flags)
        ((Exec.ensures_operate op pair).mpr rfl)
    rw [result, result]
    rfl

end Computer

end Sm83
