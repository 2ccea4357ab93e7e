import Sm83.Proofs.BinaryColumns

/-! # Shifts of any length

Shifting a number byte by byte through the carry flag doubles or halves it exactly.

* **Columns.** To the left, a byte and the incoming bit are doubled (`LeftColumn`); to the right,
  the incoming bit stands above the byte and both are halved (`RightColumn`).  The shifts that
  ignore the carry flag are the rotations through it with a bit of their own.
* **Numbers.** A ripple to the left doubles a number (`Doubles`).  A ripple to the right goes from
  the most significant byte down, which is a doubling read backwards, and halves it (`Halves`).
* **Main statement.** `exactShifts`: the programs that begin with SLA, RL, SRL, RR and SRA double
  and halve numbers without and with a sign; and the rotations of A are those of any operand, but
  that they clear Z. -/

namespace Sm83

/-! ### Columns -/

/-- The flags after a shift that left a byte and a bit. -/
def shiftFlags (left : UInt8) (out : Bool) : Flags where
  zero := decide (left = 0)
  subtract := false
  halfCarry := false
  carry := out

theorem shiftFlags_carry {left : UInt8 × Flags} {out : Bool}
    (flags : left.2 = shiftFlags left.1 out) : left.2 = shiftFlags left.1 left.2.carry := by
  rw [flags]
  rfl

/-- A column of a shift to the left. -/
structure LeftColumn (x : UInt8) (carry : Bool) (left : UInt8 × Flags) (out : Bool) : Prop where
  total : x.toNat + x.toNat + carry.toNat = left.1.toNat + 256 * out.toNat
  flags : left.2 = shiftFlags left.1 out

/-- A column of a shift to the right. -/
structure RightColumn (x : UInt8) (carry : Bool) (left : UInt8 × Flags) (out : Bool) : Prop where
  total : left.1.toNat + left.1.toNat + out.toNat = x.toNat + 256 * carry.toNat
  flags : left.2 = shiftFlags left.1 out

theorem total_rl (x : UInt8) (carry : Bool) :
    x.toNat + x.toNat + carry.toNat =
      (Shift.rl.move x carry).1.toNat + 256 * (Shift.rl.move x carry).2.toNat := by
  revert x
  apply forall_byte
  cases carry <;> decide +kernel

theorem total_rr (x : UInt8) (carry : Bool) :
    (Shift.rr.move x carry).1.toNat + (Shift.rr.move x carry).1.toNat +
        (Shift.rr.move x carry).2.toNat =
      x.toNat + 256 * carry.toNat := by
  revert x
  apply forall_byte
  cases carry <;> decide +kernel

/-- A zero is shifted in from the right. -/
theorem move_sla (x : UInt8) (carry : Bool) : Shift.sla.move x carry = Shift.rl.move x false := by
  exact congrArg (·, decide (x ≥ 0x80)) (UInt8.or_zero).symm

/-- A zero is shifted in from the left. -/
theorem move_srl (x : UInt8) (carry : Bool) : Shift.srl.move x carry = Shift.rr.move x false := by
  exact congrArg (·, x % 2 == 1) (UInt8.or_zero).symm

/-- The sign is shifted in from the left. -/
theorem move_sra (x : UInt8) (carry : Bool) :
    Shift.sra.move x carry = Shift.rr.move x (decide (x.toNat ≥ 128)) := by
  revert x
  apply forall_byte
  cases carry <;> decide +kernel

section columns
variable {kind : Shift} {x : UInt8} {flags : Flags} {carry : Bool}

theorem leftColumn_apply (same : kind.move x flags.carry = Shift.rl.move x carry) :
    LeftColumn x carry (kind.apply x flags) (kind.apply x flags).2.carry := by
  refine ⟨?_, rfl⟩
  rw [total_rl x carry, ← same]
  rfl

theorem rightColumn_apply (same : kind.move x flags.carry = Shift.rr.move x carry) :
    RightColumn x carry (kind.apply x flags) (kind.apply x flags).2.carry := by
  refine ⟨?_, rfl⟩
  rw [← total_rr x carry, ← same]
  rfl

end columns

/-! ### Numbers -/

/-- What is left by shifting the bytes of a number to the left with a bit that comes in. -/
structure Doubles (bytes : List UInt8) (carry : Bool) (lefts : List (UInt8 × Flags)) (out : Bool) :
    Prop where
  length_eq : lefts.length = bytes.length
  flags : ∀ left ∈ lefts, left.2 = shiftFlags left.1 left.2.carry
  value : binary Prod.fst lefts = (2 * binary id bytes + carry.toNat) % 256 ^ bytes.length
  /-- The bit that goes out is the topmost. -/
  out : out = (binary id bytes).testBit (8 * bytes.length - 1)

/-- What is left by shifting the bytes of a number to the right with a bit that comes in.  What is
left is told from the most significant byte on. -/
structure Halves (bytes : List UInt8) (carry : Bool) (lefts : List (UInt8 × Flags)) (out : Bool) :
    Prop where
  length_eq : lefts.length = bytes.length
  flags : ∀ left ∈ lefts, left.2 = shiftFlags left.1 left.2.carry
  /-- The bit that comes in becomes the topmost. -/
  value : binary Prod.fst lefts.reverse =
    binary id bytes / 2 + 2 ^ (8 * bytes.length - 1) * carry.toNat
  out : out = decide (binary id bytes % 2 = 1)

/-- A number read as a two's complement number of some bytes. -/
def signed (bytes value : Nat) : Int := Int.bmod value (256 ^ bytes)

theorem pow_bytes {n : Nat} (positive : 0 < n) : 256 ^ n = 2 * 2 ^ (8 * n - 1) := by
  have bits : 8 * n = (8 * n - 1) + 1 := by omega
  calc 256 ^ n = 2 ^ (8 * n) := by rw [Nat.pow_mul]
    _ = 2 ^ ((8 * n - 1) + 1) := by rw [← bits]
    _ = 2 * 2 ^ (8 * n - 1) := Nat.pow_succ'

/-- The topmost bit of a number tells whether it is in the upper half of its range. -/
theorem testBit_eq_decide {value k : Nat} (small : value < 2 * 2 ^ k) :
    value.testBit k = decide (2 ^ k ≤ value) := by
  rw [Nat.testBit_eq_decide_div_mod_eq]
  by_cases upper : 2 ^ k ≤ value
  · have one : value / 2 ^ k = 1 := Nat.div_eq_of_lt_le (by omega) (by omega)
    rw [one, decide_eq_true upper]
    rfl
  · rw [Nat.div_eq_of_lt (Nat.lt_of_not_le upper), decide_eq_false upper]
    rfl

/-- A number that is doubled, up to a bit that is lost, is the half of the other. -/
theorem halve_of_balance {value left high : Nat} {out : Bool}
    (balanced : left + left + out.toNat = value + 2 * high) :
    left = value / 2 + high ∧ out = decide (value % 2 = 1) := by
  cases out with
  | false =>
    rw [Bool.toNat_false] at balanced
    have even : ¬ value % 2 = 1 := by omega
    exact ⟨by omega, (decide_eq_false even).symm⟩
  | true =>
    rw [Bool.toNat_true] at balanced
    have odd : value % 2 = 1 := by omega
    exact ⟨by omega, (decide_eq_true odd).symm⟩

/-- A number in the upper half of its range is negative. -/
theorem signed_eq {n value : Nat} (positive : 0 < n) (small : value < 256 ^ n) :
    signed n value =
      if 2 ^ (8 * n - 1) ≤ value then (value : Int) - (256 ^ n : Nat) else value := by
  have whole := pow_bytes positive
  have reduced : (value : Int) % (256 ^ n : Nat) = value := Int.emod_eq_of_lt (by omega) (by omega)
  rw [signed, Int.bmod, reduced, whole]
  split <;> split <;> omega

theorem binary_concat (lower : List UInt8) (top : UInt8) :
    binary id (lower ++ [top]) = binary id lower + 256 ^ lower.length * top.toNat := by
  simp [binary, valueIn, Nat.ofDigits_append]

/-- The sign of a number is that of its topmost byte. -/
theorem topmost_iff (lower : List UInt8) (top : UInt8) :
    2 ^ (8 * (lower ++ [top]).length - 1) ≤ binary id (lower ++ [top]) ↔ 128 ≤ top.toNat := by
  have small := binary_lt id lower
  have whole := pow_bytes (List.length_pos_iff.mpr (List.concat_ne_nil top lower))
  rw [List.length_append, List.length_singleton, Nat.pow_succ] at whole
  rw [binary_concat, List.length_append, List.length_singleton]
  constructor
  · intro upper
    by_contra small
    have := Nat.mul_le_mul_left (256 ^ lower.length) (show top.toNat ≤ 127 by omega)
    omega
  · intro upper
    have := Nat.mul_le_mul_left (256 ^ lower.length) upper
    omega

section ripples
variable {bytes : List UInt8} {lefts : List (UInt8 × Flags)} {carry out : Bool}

theorem doubles_of_ripple (nonempty : bytes ≠ [])
    (h : Ripple LeftColumn bytes carry lefts out) : Doubles bytes carry lefts out := by
  have whole := pow_bytes (List.length_pos_iff.mpr nonempty)
  have small := binary_lt Prod.fst lefts
  rw [h.length_eq] at small
  have small' := binary_lt id bytes
  have balanced : binary id bytes + binary id bytes + carry.toNat =
      binary Prod.fst lefts + 256 ^ bytes.length * out.toNat :=
    h.sum fun _ _ _ _ column => column.total
  rw [← Nat.two_mul] at balanced
  obtain ⟨value, out⟩ := mod_of_balance balanced small
  refine ⟨h.length_eq, h.of_mem fun _ _ _ _ column => shiftFlags_carry column.flags, value, ?_⟩
  have := Bool.toNat_le carry
  rw [whole] at small'
  rw [out, testBit_eq_decide small']
  exact decide_eq_decide.mpr (by omega)

theorem halves_of_ripple (nonempty : bytes ≠ [])
    (h : Ripple RightColumn bytes.reverse carry lefts out) : Halves bytes carry lefts out := by
  have whole := pow_bytes (List.length_pos_iff.mpr nonempty)
  have length := h.length_eq
  rw [List.length_reverse] at length
  have balanced : binary Prod.fst lefts.reverse + binary Prod.fst lefts.reverse + out.toNat =
      binary id bytes.reverse.reverse + 256 ^ lefts.reverse.length * carry.toNat :=
    h.reverse.sum fun _ _ _ _ column => column.total
  rw [List.reverse_reverse, List.length_reverse, length, whole, Nat.mul_assoc] at balanced
  obtain ⟨value, out⟩ := halve_of_balance balanced
  exact ⟨length, h.of_mem fun _ _ _ _ column => shiftFlags_carry column.flags, value, out⟩

/-- A bit that repeats the sign halves the number with its sign. -/
theorem signed_of_halves (nonempty : bytes ≠ [])
    (h : Halves bytes (decide (2 ^ (8 * bytes.length - 1) ≤ binary id bytes)) lefts out) :
    signed bytes.length (binary Prod.fst lefts.reverse) =
      signed bytes.length (binary id bytes) / 2 := by
  have positive := List.length_pos_iff.mpr nonempty
  have whole := pow_bytes positive
  have small := binary_lt id bytes
  have small' := binary_lt Prod.fst lefts.reverse
  rw [List.length_reverse, h.length_eq] at small'
  have value := h.value
  rw [signed_eq positive small, signed_eq positive small']
  by_cases upper : 2 ^ (8 * bytes.length - 1) ≤ binary id bytes
  · rw [decide_eq_true upper, Bool.toNat_true, Nat.mul_one] at value
    rw [if_pos upper, if_pos (by omega), whole]
    omega
  · rw [decide_eq_false upper, Bool.toNat_false, Nat.mul_zero, Nat.add_zero] at value
    rw [if_neg upper, if_neg (by omega)]
    omega

end ripples

/-! ### Programs -/

namespace Exec

/-- Puts a byte in A and shifts it. -/
def shiftA (kind : Shift) (x : UInt8) : Exec (UInt8 × Flags) := do
  let _ ← loadA x
  let _ ← perform 0 0 (.shift kind (.reg .a))
  accumulator

theorem treats_shiftA {column : UInt8 → Bool → UInt8 × Flags → Bool → Prop} {kind : Shift}
    {x : UInt8} {carry : Bool} {cpu : Cpu}
    (made : column x carry (kind.apply x cpu.regs.flags) (kind.apply x cpu.regs.flags).2.carry) :
    Treats column x carry (shiftA kind x) cpu := by
  simp only [Treats, shiftA, ensures_bind, ensures_loadA, ensures_shiftA, ensures_accumulator,
    Registers.calculate]
  exact made

theorem treats_rl (x : UInt8) (cpu : Cpu) :
    Treats LeftColumn x cpu.regs.flags.carry (shiftA .rl x) cpu :=
  treats_shiftA (leftColumn_apply rfl)

theorem treats_rr (x : UInt8) (cpu : Cpu) :
    Treats RightColumn x cpu.regs.flags.carry (shiftA .rr x) cpu :=
  treats_shiftA (rightColumn_apply rfl)

end Exec

namespace Computer

variable {β : Type} [Device β]

section shifts
variable {s : Computer β} {kind : Shift} {carry : Bool}

/-- A shift that moves the first byte as RL does with some bit begins a doubling. -/
theorem yields_doubles {bottom : UInt8} {others : List UInt8}
    (same : kind.move bottom s.cpu.regs.flags.carry = Shift.rl.move bottom carry) :
    s.Yields Doubles (bottom :: others) carry
      (Exec.columns (Exec.shiftA kind) (Exec.shiftA .rl) (bottom :: others)) :=
  doubles_of_ripple (List.cons_ne_nil bottom others)
    (yields_of_treats (Exec.treats_columns_cons Exec.treats_rl
      (Exec.treats_shiftA (leftColumn_apply same)) others))

/-- A shift that moves the last byte as RR does with some bit begins a halving. -/
theorem yields_halves {top : UInt8} {lower : List UInt8}
    (same : kind.move top s.cpu.regs.flags.carry = Shift.rr.move top carry) :
    s.Yields Halves (lower ++ [top]) carry
      (Exec.columns (Exec.shiftA kind) (Exec.shiftA .rr) (lower ++ [top]).reverse) := by
  refine halves_of_ripple (List.concat_ne_nil top lower) ?_
  rw [List.reverse_concat]
  exact yields_of_treats (Exec.treats_columns_cons Exec.treats_rr
    (Exec.treats_shiftA (rightColumn_apply same)) lower.reverse)

/-- The rotations of A are those of an operand, but that they clear Z. -/
theorem regs_rotateA (s : Computer β) (address operand : UInt16) (kind : Shift) :
    (s.exec (Exec.perform address operand (.rotateA kind))).2.cpu.regs =
      let shifted := (s.exec (Exec.perform address operand (.shift kind (.reg .a)))).2.cpu.regs
      { shifted with flags := { shifted.flags with zero := false } } := by
  have rotated := exec_of_ensures (s := s) (Q := fun _ _ _ after => after = _)
    ((Exec.ensures_rotateA address operand kind).mpr rfl)
  have shifted := exec_of_ensures (s := s) (Q := fun _ _ _ after => after = _)
    ((Exec.ensures_shiftA address operand kind).mpr rfl)
  rw [rotated, shifted]
  rfl

end shifts

/-- What the shifts make of a number of any length. -/
structure ExactShifts (s : Computer β) (bytes : List UInt8) : Prop where
  sla : s.Yields Doubles bytes false (Exec.columns (Exec.shiftA .sla) (Exec.shiftA .rl) bytes)
  rl : s.Yields Doubles bytes s.cpu.regs.flags.carry
    (Exec.columns (Exec.shiftA .rl) (Exec.shiftA .rl) bytes)
  srl : s.Yields Halves bytes false
    (Exec.columns (Exec.shiftA .srl) (Exec.shiftA .rr) bytes.reverse)
  rr : s.Yields Halves bytes s.cpu.regs.flags.carry
    (Exec.columns (Exec.shiftA .rr) (Exec.shiftA .rr) bytes.reverse)
  /-- The sign is kept. -/
  sra : s.Yields Halves bytes (decide (2 ^ (8 * bytes.length - 1) ≤ binary id bytes))
    (Exec.columns (Exec.shiftA .sra) (Exec.shiftA .rr) bytes.reverse)
  signed_sra : signed bytes.length (binary Prod.fst
      (s.exec (Exec.columns (Exec.shiftA .sra) (Exec.shiftA .rr) bytes.reverse)).1.reverse) =
    signed bytes.length (binary id bytes) / 2
  rotateA : ∀ address operand kind,
    (s.exec (Exec.perform address operand (.rotateA kind))).2.cpu.regs =
      let shifted := (s.exec (Exec.perform address operand (.shift kind (.reg .a)))).2.cpu.regs
      { shifted with flags := { shifted.flags with zero := false } }

/-- **Shifts** byte by byte double and halve, from every state, on every bus, and numbers of any
length. -/
theorem exactShifts (s : Computer β) {bytes : List UInt8} (nonempty : bytes ≠ []) :
    s.ExactShifts bytes := by
  have left {kind : Shift} {carry : Bool}
      (same : ∀ x, kind.move x s.cpu.regs.flags.carry = Shift.rl.move x carry) :
      s.Yields Doubles bytes carry
        (Exec.columns (Exec.shiftA kind) (Exec.shiftA .rl) bytes) := by
    obtain ⟨bottom, others, rfl⟩ := List.exists_cons_of_ne_nil nonempty
    exact yields_doubles (same bottom)
  obtain ⟨lower, top, rfl⟩ : ∃ lower top, bytes = lower ++ [top] :=
    ⟨_, _, (List.dropLast_concat_getLast nonempty).symm⟩
  have sign : decide (2 ^ (8 * (lower ++ [top]).length - 1) ≤ binary id (lower ++ [top])) =
      decide (top.toNat ≥ 128) := decide_eq_decide.mpr (topmost_iff lower top)
  have sra : s.Yields Halves (lower ++ [top]) (decide (top.toNat ≥ 128))
      (Exec.columns (Exec.shiftA .sra) (Exec.shiftA .rr) (lower ++ [top]).reverse) :=
    yields_halves (move_sra top _)
  rw [← sign] at sra
  exact ⟨left fun x => move_sla x _, left fun _ => rfl, yields_halves (move_srl top _),
    yields_halves rfl, sra, signed_of_halves nonempty sra, s.regs_rotateA⟩

/-- The number -256 in two bytes. -/
theorem exactShifts_negative : (ofProgram #[]).ExactShifts [0x00, 0xFF] ∧
    signed 2 (binary id [0x00, 0xFF]) = -256 :=
  ⟨exactShifts _ (by decide), by decide⟩

end Computer

end Sm83
