import Mathlib.Data.Nat.Digits.Defs
import Sm83.Proofs.Program

/-! # Calculations column by column

A number that does not fit into a byte is treated one byte at a time.  All that passes from one
column to the next is the carry flag.

* **Ripples.** `Ripple column` chains columns by their carries, the least significant first.
* **Balance.** What holds of the digits of every column, up to carries, holds of the numbers that
  they form (`Ripple.balance`).  The corollaries `Ripple.sum` and `Ripple.difference` speak about
  sums and differences, `mod_of_balance` and `emod_of_balance` draw the conclusions.
* **Programs.** `Exec.columns` treats one column after the other.  A program that treats each column
  as a relation demands makes a ripple of them (`treats_columns`), and so it does when the first
  column starts from a carry of its own (`treats_columns_cons`).
* **Columns of A.** The instructions that calculate with A and the flags are functions of them
  (`ensures_alu`, `ensures_daa`, `ensures_shiftA`, `ensures_rotateA`). -/

namespace Sm83

variable {α γ : Type}

/-! ### Ripples -/

/-- Columns one after the other.  `column given carry left out` says that `given` becomes `left` in
a column that a carry comes into and another one leaves. -/
inductive Ripple (column : α → Bool → γ → Bool → Prop) : List α → Bool → List γ → Bool → Prop
  | nil {carry : Bool} : Ripple column [] carry [] carry
  | cons {given : α} {givens : List α} {left : γ} {lefts : List γ} {carry mid out : Bool}
      (first : column given carry left mid) (rest : Ripple column givens mid lefts out) :
      Ripple column (given :: givens) carry (left :: lefts) out

namespace Ripple

variable {column : α → Bool → γ → Bool → Prop} {givens : List α} {lefts : List γ}
  {carry out : Bool}

theorem length_eq (h : Ripple column givens carry lefts out) : lefts.length = givens.length := by
  induction h with
  | nil => rfl
  | cons _ _ ih => rw [List.length_cons, List.length_cons, ih]

theorem of_mem (h : Ripple column givens carry lefts out) {p : γ → Prop}
    (each : ∀ given carry left out, column given carry left out → p left) :
    ∀ left ∈ lefts, p left := by
  induction h with
  | nil =>
    intro left made
    cases made
  | cons first _ ih => exact List.forall_mem_cons.mpr ⟨each _ _ _ _ first, ih⟩

theorem concat (h : Ripple column givens carry lefts out) {given : α} {left : γ} {last : Bool}
    (final : column given out left last) :
    Ripple column (givens ++ [given]) carry (lefts ++ [left]) last := by
  induction h with
  | nil => exact .cons final .nil
  | cons first _ ih => exact .cons first (ih final)

/-- A ripple read backwards: what was given is left, and the carries go the other way. -/
theorem reverse (h : Ripple column givens carry lefts out) :
    Ripple (fun left carry given out => column given out left carry) lefts.reverse out
      givens.reverse carry := by
  induction h with
  | nil => exact .nil
  | cons first _ ih =>
    rw [List.reverse_cons, List.reverse_cons]
    exact ih.concat first

end Ripple

/-! ### Numbers -/

/-- The number whose digits in a base stand in a list, the least significant first. -/
def valueIn (base : Nat) (digit : α → Nat) (digits : List α) : Nat :=
  Nat.ofDigits base (digits.map digit)

section numbers
variable {base : Nat} {digit : α → Nat}

@[simp] theorem valueIn_nil : valueIn base digit [] = 0 := rfl

@[simp] theorem valueIn_cons (first : α) (rest : List α) :
    valueIn base digit (first :: rest) = digit first + base * valueIn base digit rest :=
  Nat.ofDigits_cons

@[simp] theorem valueIn_zero (digits : List α) : valueIn base (fun _ => 0) digits = 0 := by
  induction digits with
  | nil => rfl
  | cons _ _ ih => rw [valueIn_cons, ih, Nat.mul_zero]

theorem valueIn_add {other : α → Nat} (digits : List α) :
    valueIn base (fun a => digit a + other a) digits =
      valueIn base digit digits + valueIn base other digits := by
  induction digits with
  | nil => rfl
  | cons first rest ih =>
    simp only [valueIn_cons, ih]
    ring

theorem valueIn_lt (large : 1 < base) {digits : List α} (small : ∀ a ∈ digits, digit a < base) :
    valueIn base digit digits < base ^ digits.length := by
  have bound := Nat.ofDigits_lt_base_pow_length large (List.forall_mem_map.mpr small)
  rwa [List.length_map] at bound

end numbers

namespace Ripple

variable {column : α → Bool → γ → Bool → Prop} {givens : List α} {lefts : List γ}
  {carry out : Bool} {base : Nat}

/-- **Balance**: what holds of the digits of every column, up to carries, holds of the numbers. -/
theorem balance {x y : α → Nat} {v w : γ → Nat}
    (balanced : ∀ given carry left out, column given carry left out →
      x given + v left + carry.toNat = y given + w left + base * out.toNat)
    (h : Ripple column givens carry lefts out) :
    valueIn base x givens + valueIn base v lefts + carry.toNat =
      valueIn base y givens + valueIn base w lefts + base ^ givens.length * out.toNat := by
  induction h with
  | nil => simp
  | @cons given givens left lefts carry mid out first rest ih =>
    have here := balanced _ _ _ _ first
    have there := congrArg (base * ·) ih
    simp only [Nat.mul_add] at there
    simp only [valueIn_cons, List.length_cons, Nat.pow_succ', Nat.mul_assoc]
    omega

/-- What is left is the sum of what was given. -/
theorem sum {x y : α → Nat} {z : γ → Nat}
    (balanced : ∀ given carry left out, column given carry left out →
      x given + y given + carry.toNat = z left + base * out.toNat)
    (h : Ripple column givens carry lefts out) :
    valueIn base x givens + valueIn base y givens + carry.toNat =
      valueIn base z lefts + base ^ givens.length * out.toNat := by
  have whole : valueIn base (fun given => x given + y given) givens +
      valueIn base (fun _ => 0) lefts + carry.toNat =
        valueIn base (fun _ => 0) givens + valueIn base z lefts +
          base ^ givens.length * out.toNat :=
    h.balance fun given carry left out made => by simpa using balanced given carry left out made
  simpa [valueIn_add] using whole

/-- What is left is the difference of what was given. -/
theorem difference {x y : α → Nat} {z : γ → Nat}
    (balanced : ∀ given carry left out, column given carry left out →
      z left + y given + carry.toNat = x given + base * out.toNat)
    (h : Ripple column givens carry lefts out) :
    valueIn base z lefts + valueIn base y givens + carry.toNat =
      valueIn base x givens + base ^ givens.length * out.toNat := by
  have whole : valueIn base y givens + valueIn base z lefts + carry.toNat =
      valueIn base x givens + valueIn base (fun _ => 0) lefts +
        base ^ givens.length * out.toNat :=
    h.balance fun given carry left out made => by
      simpa [Nat.add_comm] using balanced given carry left out made
  rwa [valueIn_zero, Nat.add_zero, Nat.add_comm (valueIn base y givens)] at whole

end Ripple

section conclusions
variable {bound left : Nat} {carry : Bool}

theorem mod_of_balance {total : Nat} (balanced : total = left + bound * carry.toNat)
    (small : left < bound) : left = total % bound ∧ carry = decide (bound ≤ total) := by
  subst balanced
  cases carry with
  | false => simp [Nat.mod_eq_of_lt small, small]
  | true => simp [Nat.mod_eq_of_lt small]

theorem emod_of_balance {minuend subtrahend borrow : Nat}
    (balanced : left + subtrahend + borrow = minuend + bound * carry.toNat)
    (small : left < bound) :
    (left : Int) = (minuend - subtrahend - borrow) % bound ∧
      carry = decide (minuend < subtrahend + borrow) := by
  have reduced : (left : Int) % bound = left := Int.emod_eq_of_lt (by omega) (by omega)
  cases carry with
  | false =>
    rw [Bool.toNat_false, Nat.mul_zero] at balanced
    have same : (minuend : Int) - subtrahend - borrow = left := by omega
    have enough : ¬ minuend < subtrahend + borrow := by omega
    exact ⟨by rw [same, reduced], (decide_eq_false enough).symm⟩
  | true =>
    rw [Bool.toNat_true, Nat.mul_one] at balanced
    have same : (minuend : Int) - subtrahend - borrow = left - bound := by omega
    have short : minuend < subtrahend + borrow := by omega
    exact ⟨by rw [same, Int.sub_emod_right, reduced], (decide_eq_true short).symm⟩

end conclusions

/-! ### Programs -/

namespace Exec

/-- The columns of a calculation one after the other; the first is treated in a way of its own. -/
def columns (first rest : α → Exec γ) : List α → Exec (List γ)
  | [] => pure []
  | given :: givens => do
    let left ← first given
    let lefts ← columns rest rest givens
    return left :: lefts

/-- Whether a program treats a column as a relation demands when a carry comes in. -/
def Treats (column : α → Bool → γ → Bool → Prop) (given : α) (carry : Bool) (program : Exec γ)
    (cpu : Cpu) : Prop :=
  Ensures program cpu fun _ _ left after => column given carry left after.regs.flags.carry

variable {column : α → Bool → γ → Bool → Prop} {first rest : α → Exec γ}

/-- A column and then a ripple. -/
theorem Treats.cons {given : α} {givens : List α} {carry : Bool} {cpu : Cpu}
    (starts : Treats column given carry (first given) cpu)
    (ripples : ∀ cpu, Treats (Ripple column) givens cpu.regs.flags.carry
      (columns rest rest givens) cpu) :
    Treats (Ripple column) (given :: givens) carry (columns first rest (given :: givens)) cpu := by
  rw [Treats, columns, ensures_bind]
  refine starts.mono fun _ _ left mid made => ?_
  rw [ensures_bind]
  refine (ripples mid).mono fun _ _ lefts after rippled => ?_
  rw [ensures_pure]
  exact .cons made rippled

section treated
variable (treats : ∀ given cpu, Treats column given cpu.regs.flags.carry (rest given) cpu)
include treats

/-- Columns that all start from the carry flag make a ripple. -/
theorem treats_columns (givens : List α) (cpu : Cpu) :
    Treats (Ripple column) givens cpu.regs.flags.carry (columns rest rest givens) cpu := by
  induction givens generalizing cpu with
  | nil =>
    rw [Treats, columns, ensures_pure]
    exact .nil
  | cons given givens ih => exact (treats given cpu).cons ih

/-- The first column may start from another carry. -/
theorem treats_columns_cons {given : α} {carry : Bool} {cpu : Cpu}
    (starts : Treats column given carry (first given) cpu) (givens : List α) :
    Treats (Ripple column) (given :: givens) carry (columns first rest (given :: givens)) cpu :=
  starts.cons (treats_columns treats givens)

end treated

end Exec

/-! ### Columns of A -/

/-- The registers after a calculation on A and the flags. -/
def Registers.calculate (f : UInt8 → Flags → UInt8 × Flags) (regs : Registers) : Registers :=
  { regs with a := (f regs.a regs.flags).1, flags := (f regs.a regs.flags).2 }

namespace Exec

/-- Puts a byte in A. -/
def loadA (x : UInt8) : Exec Bool := perform 0 (word 0 x) (.load (.reg .a) .imm)

/-- A and the flags. -/
def accumulator : Exec (UInt8 × Flags) := do
  let regs ← regs
  return (regs.a, regs.flags)

section accumulator
variable {cpu : Cpu}

@[simp] theorem ensures_loadA (x : UInt8) {Q : List Access → List LogEvent → Bool → Cpu → Prop} :
    Ensures (loadA x) cpu Q ↔ Q [] [] false { cpu with regs := { cpu.regs with a := x } } := by
  simp [loadA, perform, plain, ensures_operandRead, ensures_operandWrite, Operand.place,
    Operand.step, Registers.setByte]

@[simp] theorem ensures_accumulator
    {Q : List Access → List LogEvent → UInt8 × Flags → Cpu → Prop} :
    Ensures accumulator cpu Q ↔ Q [] [] (cpu.regs.a, cpu.regs.flags) cpu := by
  simp [accumulator]

@[simp] theorem ensures_alu (address : UInt16) (op : AccOp) (y : UInt8)
    {Q : List Access → List LogEvent → Bool → Cpu → Prop} :
    Ensures (perform address (word 0 y) (.alu op .imm)) cpu Q ↔
      Q [] [] false { cpu with regs := cpu.regs.calculate fun a flags => op.apply a y flags } := by
  simp [perform, plain, ensures_operandRead, Operand.place, Operand.step, Registers.calculate]

@[simp] theorem ensures_daa (address operand : UInt16)
    {Q : List Access → List LogEvent → Bool → Cpu → Prop} :
    Ensures (perform address operand .daa) cpu Q ↔
      Q [] [] false { cpu with regs := cpu.regs.calculate decimalAdjust } := by
  simp [perform, plain, Registers.calculate]

@[simp] theorem ensures_shiftA (address operand : UInt16) (kind : Shift)
    {Q : List Access → List LogEvent → Bool → Cpu → Prop} :
    Ensures (perform address operand (.shift kind (.reg .a))) cpu Q ↔
      Q [] [] false { cpu with regs := cpu.regs.calculate kind.apply } := by
  simp [perform, plain, Operand.update, ensures_operandRead, ensures_operandWrite, Operand.place,
    Operand.step, Registers.setByte, Registers.getByte, Registers.calculate]

@[simp] theorem ensures_rotateA (address operand : UInt16) (kind : Shift)
    {Q : List Access → List LogEvent → Bool → Cpu → Prop} :
    Ensures (perform address operand (.rotateA kind)) cpu Q ↔
      Q [] [] false { cpu with regs := cpu.regs.calculate fun a flags =>
        ((kind.apply a flags).1, { (kind.apply a flags).2 with zero := false }) } := by
  simp [perform, plain, Registers.calculate]

end accumulator

end Exec

end Sm83
