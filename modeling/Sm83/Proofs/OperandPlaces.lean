import Sm83.Proofs.Footprint

/-! # Operands in different places

An operation does the same to a byte wherever the byte lives.

* **Encodings.** `kind.code n` are the bytes that ask for a byte operation on operand number `n`,
  written down apart from the tables.  What is fetched from there is that operation
  (`ByteOperation.operation_of_encoded`).
* **Places.** `place.byteIn regs memory` is the byte at a place.  On a plain memory an operation
  leaves flags, A and a byte at its place that are functions of what was there before
  (`leaves_on`), and a load leaves the byte of its source at its destination (`leaves_load`).
* **Main statement.** `blindToPlaces`: what a step leaves that executes an operation is told by the
  byte, the flags and A, so two of them that find the same give the same, whatever their operands;
  and the sixty-three loads copy a byte from one numbered place to another. -/

namespace Sm83

/-! ### Encodings -/

/-- The operations on a byte operand. -/
inductive ByteOperation where
  | alu (op : AccOp)
  | inc
  | dec
  | shift (kind : Shift)
  | bit (index : Fin 8)
  | res (index : Fin 8)
  | set (index : Fin 8)
deriving DecidableEq, Repr

/-- The operations on the accumulator in the order of their codes. -/
def AccOp.number : AccOp → Nat
  | .add => 0 | .adc => 1 | .sub => 2 | .sbc => 3 | .and => 4 | .xor => 5 | .or => 6 | .cp => 7

/-- The shifts in the order of their codes. -/
def Shift.number : Shift → Nat
  | .rlc => 0 | .rrc => 1 | .rl => 2 | .rr => 3 | .sla => 4 | .sra => 5 | .swap => 6 | .srl => 7

/-- The operands in the order of their codes. -/
def Operand.numbered : List Operand :=
  [.reg .b, .reg .c, .reg .d, .reg .e, .reg .h, .reg .l, .indirect .hl, .reg .a]

namespace ByteOperation

/-- The operation on an operand. -/
def on (x : Operand) : ByteOperation → Operation
  | alu op => .alu op x
  | inc => .inc x
  | dec => .dec x
  | shift kind => .shift kind x
  | bit index => .bit (UInt8.ofNat index) x
  | res index => .res (UInt8.ofNat index) x
  | set index => .set (UInt8.ofNat index) x

/-- Whether an operation is in the extended table. -/
def isExtended : ByteOperation → Bool
  | alu _ | inc | dec => false
  | shift _ | bit _ | res _ | set _ => true

/-- Whether an operation is on the accumulator. -/
def isAlu : ByteOperation → Bool
  | alu _ => true
  | _ => false

/-- Whether an operation puts a byte back where it found one. -/
def writesBack : ByteOperation → Bool
  | alu _ | bit _ => false
  | inc | dec | shift _ | res _ | set _ => true

/-- The opcode of an operation on a numbered operand. -/
def opcode (n : Nat) : ByteOperation → UInt8
  | alu op => UInt8.ofNat (0x80 + 8 * op.number + n)
  | inc => UInt8.ofNat (0x04 + 8 * n)
  | dec => UInt8.ofNat (0x05 + 8 * n)
  | shift kind => UInt8.ofNat (8 * kind.number + n)
  | bit index => UInt8.ofNat (0x40 + 8 * index + n)
  | res index => UInt8.ofNat (0x80 + 8 * index + n)
  | set index => UInt8.ofNat (0xC0 + 8 * index + n)

/-- The bytes that ask for an operation on a numbered operand. -/
def code (n : Nat) (kind : ByteOperation) : List UInt8 :=
  if kind.isExtended then [0xCB, kind.opcode n] else [kind.opcode n]

/-- The bytes that ask for an operation on an operand. -/
inductive Code : ByteOperation → Operand → List UInt8 → Prop
  | numbered (kind : ByteOperation) {n : Nat} {x : Operand}
      (found : Operand.numbered[n]? = some x) : Code kind x (kind.code n)
  | immediate (op : AccOp) (byte : UInt8) :
      Code (alu op) .imm [UInt8.ofNat (0xC6 + 8 * op.number), byte]

end ByteOperation

/-- The tables number the operands in the same order. -/
theorem Operand.numbered_getElem? {n : Nat} {x : Operand} (found : numbered[n]? = some x) :
    n < 8 ∧ Opcode.operandAt n = x := by
  obtain ⟨inside, rfl⟩ := List.getElem?_eq_some_iff.mp found
  have table : ∀ n (inside : n < 8), Opcode.operandAt n = numbered[n] := by decide
  exact ⟨inside, table n inside⟩

theorem Operand.isNumbered_of_getElem? {n : Nat} {x : Operand} (found : numbered[n]? = some x) :
    x.isNumbered = true := by
  obtain ⟨inside, rfl⟩ := numbered_getElem? found
  have table : ∀ n < 8, (Opcode.operandAt n).isNumbered = true := by decide
  exact table n inside

namespace ByteOperation

/-- The tables agree with the opcodes. -/
theorem decode_opcode (kind : ByteOperation) {n : Nat} (inside : n < 8) :
    if kind.isExtended then
      (decodeExtended (kind.opcode n)).operation = kind.on (Opcode.operandAt n)
    else
      kind.opcode n ≠ Opcode.extension ∧
        (decode (kind.opcode n)).operation = kind.on (Opcode.operandAt n) := by
  revert n
  cases kind with
  | alu op => cases op <;> decide
  | inc | dec => decide
  | shift kind => cases kind <;> decide
  | bit index | res index | set index =>
    revert index
    decide

theorem decode_immediate (op : AccOp) :
    UInt8.ofNat (0xC6 + 8 * op.number) ≠ Opcode.extension ∧
      decode (UInt8.ofNat (0xC6 + 8 * op.number)) =
        .of (UInt8.ofNat (0xC6 + 8 * op.number)) false ((alu op).on .imm) := by
  cases op <;> decide

end ByteOperation

namespace Instruction

variable {address : UInt16} {opcode : UInt8} {rest : List UInt8} {ins : Instruction}

/-- The first byte decides what an instruction of the base table is. -/
theorem Encoded.entry_eq (h : Encoded address (opcode :: rest) ins)
    (plain : opcode ≠ Opcode.extension) : ins.entry = decode opcode := by
  cases h with
  | extended => exact absurd rfl plain
  | single => rfl
  | double => rfl
  | triple => rfl

/-- The byte after the extension decides what an extended instruction is. -/
theorem Encoded.extended_entry (h : Encoded address (Opcode.extension :: rest) ins) :
    ∃ second, rest = [second] ∧ ins.entry = decodeExtended second := by
  cases h with
  | extended second => exact ⟨second, rfl, rfl⟩
  | single _ length => exact absurd length (by decide)
  | double plain => exact absurd rfl plain
  | triple length => exact absurd length (by decide)

/-- A byte after the opcode is the low byte of the operand. -/
theorem Encoded.lowByte_operand {low : UInt8} (h : Encoded address (opcode :: low :: rest) ins)
    (plain : opcode ≠ Opcode.extension) : lowByte ins.operand = low := by
  cases h with
  | extended => exact absurd rfl plain
  | double => exact lowByte_word 0 _
  | triple => exact lowByte_word _ _

theorem Encoded.exists_cons {bytes : List UInt8} (h : Encoded address bytes ins) :
    ∃ opcode rest, bytes = opcode :: rest := by
  cases h with
  | extended | single | double | triple => exact ⟨_, _, rfl⟩

end Instruction

namespace FlatMemory

/-- Whether some bytes stand one after the other in a memory. -/
def Shows (memory : FlatMemory) (address : UInt16) (bytes : List UInt8) : Prop :=
  ∀ k (inside : k < bytes.length), memory.get (address + UInt16.ofNat k) = bytes[k]

variable {memory : FlatMemory} {address : UInt16} {byte next : UInt8} {rest : List UInt8}

theorem Shows.first (h : memory.Shows address (byte :: rest)) : memory.get address = byte := by
  simpa using h 0 (Nat.zero_lt_succ _)

theorem Shows.second (h : memory.Shows address (byte :: next :: rest)) :
    memory.get (address + 1) = next :=
  h 1 (Nat.succ_lt_succ (Nat.zero_lt_succ _))

end FlatMemory

/-- The operands that an operation is encoded with. -/
theorem ByteOperation.Code.allowed {kind : ByteOperation} {x : Operand} {code : List UInt8}
    (asked : Code kind x code) : x.isNumbered = true ∨ kind.isAlu = true ∧ x = .imm := by
  cases asked with
  | numbered _ found => exact .inl (Operand.isNumbered_of_getElem? found)
  | immediate => exact .inr ⟨rfl, rfl⟩

/-- What is fetched from the code of an operation on an operand. -/
theorem ByteOperation.operation_of_encoded {kind : ByteOperation} {x : Operand}
    {code bytes : List UInt8} {memory : FlatMemory} {address : UInt16} {ins : Instruction}
    (asked : Code kind x code) (stands : memory.Shows address code)
    (encoded : Instruction.Encoded address bytes ins) (read : memory.Shows address bytes) :
    ins.operation = kind.on x ∧ (x = .imm → lowByte ins.operand = memory.get (address + 1)) := by
  obtain ⟨opcode, rest, rfl⟩ := encoded.exists_cons
  have first := read.first
  cases asked with
  | numbered kind found =>
    obtain ⟨inside, rfl⟩ := Operand.numbered_getElem? found
    have table := kind.decode_opcode inside
    have numbered := Operand.isNumbered_of_getElem? found
    rw [ByteOperation.code] at stands
    refine ⟨?_, fun same => by rw [same] at numbered; cases numbered⟩
    split at stands
    case isTrue extended =>
      rw [if_pos extended] at table
      obtain rfl : opcode = Opcode.extension := first.symm.trans stands.first
      obtain ⟨second, rfl, entry⟩ := encoded.extended_entry
      rw [Instruction.operation, entry, ← table, ← stands.second, ← read.second]
    case isFalse base =>
      rw [if_neg base] at table
      obtain rfl : opcode = kind.opcode _ := first.symm.trans stands.first
      rw [Instruction.operation, encoded.entry_eq table.1, table.2]
  | immediate op byte =>
    obtain ⟨plain, entry⟩ := decode_immediate op
    obtain rfl := first.symm.trans stands.first
    have length := encoded.length_decode
    rw [entry] at length
    obtain ⟨low, rfl⟩ := List.length_eq_one_iff.mp (Nat.succ.inj length).symm
    refine ⟨?_, fun _ => (encoded.lowByte_operand plain).trans read.second.symm⟩
    rw [Instruction.operation, encoded.entry_eq plain, entry]
    rfl

/-! ### Places -/

namespace Place

/-- The byte at a place. -/
def byteIn (regs : Registers) (cells : FlatMemory) : Place → UInt8
  | register r => regs.getByte r
  | immediate value => value
  | memory address => cells.get address

/-- The program counter is no place. -/
theorem byteIn_pc (place : Place) (regs : Registers) (cells : FlatMemory) (pc : UInt16) :
    place.byteIn { regs with pc := pc } cells = place.byteIn regs cells := by
  cases place with
  | register r => cases r <;> rfl
  | _ => rfl

/-- The registers after a byte was put at a place. -/
def regsWith (value : UInt8) (regs : Registers) : Place → Registers
  | register r => regs.setByte r value
  | _ => regs

/-- The memory after a byte was put at a place. -/
def memoryWith (value : UInt8) (cells : FlatMemory) : Place → FlatMemory
  | memory address => cells.set address value
  | _ => cells

/-- Whether a place keeps a byte that is put there. -/
def Keeps (place : Place) : Prop := ∀ value, place ≠ immediate value ∧ place ≠ register .f

variable {place : Place} (keeps : place.Keeps) (value : UInt8) (regs : Registers)
include keeps

theorem byteIn_with (cells : FlatMemory) :
    place.byteIn (place.regsWith value regs) (place.memoryWith value cells) = value := by
  cases place with
  | register r => exact regs.getByte_setByte_self (fun same => (keeps 0).2 (same ▸ rfl)) value
  | immediate byte => exact absurd rfl (keeps byte).1
  | memory address => exact (cells.get_set address address value).trans (if_pos rfl)

theorem flags_regsWith : (place.regsWith value regs).flags = regs.flags := by
  cases place with
  | register r =>
    cases r with
    | f => exact absurd rfl (keeps 0).2
    | _ => rfl
  | _ => rfl

end Place

namespace Operand

variable {x : Operand} (numbered : x.isNumbered = true) (imm : UInt16) (regs : Registers)
include numbered

theorem keeps_place : (x.place imm regs).Keeps := by
  intro value
  cases x with
  | reg r =>
    have apart : r ≠ .f := by simpa [isNumbered] using numbered
    simp [place, apart]
  | indirect => simp [place]
  | _ => cases numbered

theorem step_of_numbered : x.step regs = regs := by
  cases x with
  | reg | indirect => rfl
  | _ => cases numbered

/-- The place of a numbered operand is not moved by flags. -/
theorem place_flags (flags : Flags) :
    x.place imm { regs with flags := flags } = x.place imm regs := by
  cases x with
  | reg r => rfl
  | indirect pair =>
    obtain rfl : pair = .hl := eq_of_beq numbered
    rfl
  | _ => cases numbered

end Operand

namespace ByteOperation

/-- What an operation makes of a byte and the flags and leaves in the place of the byte, unless it
only looks at the byte. -/
def change? : ByteOperation → Option (UInt8 → Flags → UInt8 × Flags)
  | alu _ | bit _ => none
  | inc => some increment
  | dec => some decrement
  | shift kind => some kind.apply
  | res index => some fun value flags => (value &&& ~~~bitMask (UInt8.ofNat index), flags)
  | set index => some fun value flags => (value ||| bitMask (UInt8.ofNat index), flags)

/-- The flags that an operation makes of a byte, the flags and A. -/
def flagsOf (a value : UInt8) (flags : Flags) : ByteOperation → Flags
  | alu op => (op.apply a value flags).2
  | bit index => testBit (UInt8.ofNat index) value flags
  | kind => (kind.change?.map fun f => (f value flags).2).getD flags

theorem exists_change? {kind : ByteOperation} (back : kind.writesBack = true) :
    ∃ f, kind.change? = some f := by
  cases kind with
  | alu | bit => cases back
  | inc | dec | shift | res | set => exact ⟨_, rfl⟩

theorem flagsOf_of_change? {kind : ByteOperation} {f : UInt8 → Flags → UInt8 × Flags}
    (h : kind.change? = some f) (a value : UInt8) (flags : Flags) :
    kind.flagsOf a value flags = (f value flags).2 := by
  cases kind with
  | alu | bit => cases h
  | inc | dec | shift | res | set =>
    cases h
    rfl

/-- Only an operation on the accumulator looks at A. -/
theorem flagsOf_congr {kind : ByteOperation} {a b : UInt8} (same : kind.isAlu = true → a = b)
    (value : UInt8) (flags : Flags) : kind.flagsOf a value flags = kind.flagsOf b value flags := by
  cases kind with
  | alu op => rw [same rfl]
  | inc | dec | shift | bit | res | set => rfl

/-- What an operation has done to the byte at a place, the flags and A. -/
structure Did (kind : ByteOperation) (place : Place) (before : Registers) (memory : FlatMemory)
    (after : Registers) (left : FlatMemory) : Prop where
  flags : after.flags = kind.flagsOf before.a (place.byteIn before memory) before.flags
  accumulator : ∀ op, kind = .alu op →
    after.a = (op.apply before.a (place.byteIn before memory) before.flags).1
  written : ∀ f, kind.change? = some f →
    place.byteIn after left = (f (place.byteIn before memory) before.flags).1

end ByteOperation

/-! ### Programs on a plain memory -/

namespace Exec

variable {α γ : Type}

/-- Whether `Q` holds of what a program leaves in a core and in a plain memory. -/
def Leaves (program : Exec α) (cpu : Cpu) (memory : FlatMemory)
    (Q : α → Cpu → FlatMemory → Prop) : Prop :=
  Ensures program cpu fun accesses _ value after =>
    Answers memory accesses → Q value after (replay accesses memory).state

section leaves
variable {cpu : Cpu} {memory : FlatMemory}

theorem Leaves.mono {program : Exec α} {Q R : α → Cpu → FlatMemory → Prop}
    (h : Leaves program cpu memory Q)
    (imp : ∀ value after left, Q value after left → R value after left) :
    Leaves program cpu memory R :=
  Ensures.mono h fun _ _ _ _ left answers => imp _ _ _ (left answers)

theorem Leaves.bind {program : Exec α} {f : α → Exec γ} {Q : γ → Cpu → FlatMemory → Prop}
    (h : Leaves program cpu memory fun value mid left => Leaves (f value) mid left Q) :
    Leaves (program >>= f) cpu memory Q := by
  rw [Leaves, ensures_bind]
  refine Ensures.mono h fun accesses reports value mid first => ?_
  intro accesses' reports' result path answers
  rw [answers_append] at answers
  rw [state_replay_append]
  exact first answers.1 _ _ _ path answers.2

theorem Leaves.plain {body : Exec Unit} {Q : Cpu → FlatMemory → Prop}
    (h : Leaves body cpu memory fun _ => Q) :
    Leaves (Exec.plain body) cpu memory fun _ => Q :=
  Leaves.bind (h.mono fun _ _ _ left => (ensures_pure false).mpr fun _ => left)

theorem leaves_flags {Q : Flags → Cpu → FlatMemory → Prop} :
    Leaves flags cpu memory Q ↔ Q cpu.regs.flags cpu memory := by
  simp [Leaves]

theorem leaves_updateRegs (f : Registers → Registers) {Q : Unit → Cpu → FlatMemory → Prop} :
    Leaves (updateRegs f) cpu memory Q ↔ Q () { cpu with regs := f cpu.regs } memory := by
  simp [Leaves]

/-- A read gives the byte at the place of an operand. -/
theorem leaves_operandRead (imm : UInt16) (x : Operand) {Q : UInt8 → Cpu → FlatMemory → Prop} :
    Leaves (x.read imm) cpu memory Q ↔
      Q ((x.place imm cpu.regs).byteIn cpu.regs memory) { cpu with regs := x.step cpu.regs }
        memory := by
  rw [Leaves, ensures_operandRead]
  cases x.place imm cpu.regs with
  | register | immediate => simp [Place.byteIn]
  | memory address =>
    constructor
    · exact fun all => all (memory.get address) ⟨rfl, trivial⟩
    · rintro given byte ⟨rfl, -⟩
      exact given

/-- A write puts a byte at the place of an operand. -/
theorem leaves_operandWrite (imm : UInt16) (x : Operand) (value : UInt8)
    {Q : Unit → Cpu → FlatMemory → Prop} :
    Leaves (x.write imm value) cpu memory Q ↔
      Q () { cpu with regs := x.step ((x.place imm cpu.regs).regsWith value cpu.regs) }
        ((x.place imm cpu.regs).memoryWith value memory) := by
  rw [Leaves, ensures_operandWrite]
  cases x.place imm cpu.regs with
  | register | immediate => simp [Place.regsWith, Place.memoryWith]
  | memory address => exact ⟨fun given => given ⟨trivial, trivial⟩, fun given _ => given⟩

variable (address imm : UInt16)

/-- An operation that changes a byte leaves the new one where the old one was. -/
theorem leaves_operandUpdate {x : Operand} (numbered : x.isNumbered = true)
    (f : UInt8 → Flags → UInt8 × Flags) :
    Leaves (x.update imm f) cpu memory fun _ after left =>
      after.regs.flags = (f ((x.place imm cpu.regs).byteIn cpu.regs memory) cpu.regs.flags).2 ∧
        (x.place imm cpu.regs).byteIn after.regs left =
          (f ((x.place imm cpu.regs).byteIn cpu.regs memory) cpu.regs.flags).1 := by
  have keeps := x.keeps_place numbered imm cpu.regs
  refine .bind ((leaves_operandRead imm x).mpr (.bind (leaves_flags.mpr (.bind ?_))))
  rw [updateFlags, leaves_updateRegs, leaves_operandWrite]
  simp only [x.step_of_numbered numbered, x.place_flags numbered]
  exact ⟨Place.flags_regsWith keeps _ _, Place.byteIn_with keeps _ _ _⟩

theorem leaves_alu (op : AccOp) {x : Operand} (allowed : x.isNumbered = true ∨ x = .imm) :
    Leaves (perform address imm (.alu op x)) cpu memory fun _ after left =>
      (ByteOperation.alu op).Did (x.place imm cpu.regs) cpu.regs memory after.regs left := by
  have still : x.step cpu.regs = cpu.regs := by
    rcases allowed with numbered | rfl
    · exact x.step_of_numbered numbered cpu.regs
    · rfl
  refine .plain (.bind ((leaves_operandRead imm x).mpr ?_))
  rw [leaves_updateRegs, still]
  refine ⟨rfl, fun other same => ?_, nofun⟩
  cases same
  rfl

theorem leaves_bit (index : Fin 8) {x : Operand} (numbered : x.isNumbered = true) :
    Leaves (perform address imm (.bit (UInt8.ofNat index) x)) cpu memory fun _ after left =>
      (ByteOperation.bit index).Did (x.place imm cpu.regs) cpu.regs memory after.regs left := by
  refine .plain (.bind ((leaves_operandRead imm x).mpr ?_))
  rw [updateFlags, leaves_updateRegs, x.step_of_numbered numbered]
  refine ⟨rfl, fun op same => ?_, fun f same => ?_⟩
  · cases same
  · cases same

/-- **Byte operations** look at nothing but the byte at the place of their operand, the flags and
A. -/
theorem leaves_on {kind : ByteOperation} {x : Operand}
    (allowed : x.isNumbered = true ∨ kind.isAlu = true ∧ x = .imm) :
    Leaves (perform address imm (kind.on x)) cpu memory fun _ after left =>
      kind.Did (x.place imm cpu.regs) cpu.regs memory after.regs left := by
  cases change : kind.change? with
  | some f =>
    have other : kind.isAlu = false := by cases kind <;> first | rfl | cases change
    have numbered : x.isNumbered = true :=
      allowed.resolve_right fun alu => by rw [other] at alu; cases alu.1
    have update : perform address imm (kind.on x) = plain (x.update imm f) := by
      cases kind <;> cases change <;> rfl
    rw [update]
    refine .plain ((leaves_operandUpdate imm numbered f).mono fun _ after left done => ?_)
    refine ⟨done.1.trans (ByteOperation.flagsOf_of_change? change _ _ _).symm, ?_, ?_⟩
    · rintro op rfl
      cases other
    · intro g same
      cases change.symm.trans same
      exact done.2
  | none =>
    cases kind with
    | alu op => exact leaves_alu address imm op (allowed.imp_right And.right)
    | bit index =>
      exact leaves_bit address imm index (allowed.resolve_right fun alu => nomatch alu.1)
    | inc | dec | shift | res | set => cases change

/-- A load copies a byte from one place to another. -/
theorem leaves_load {dst src : Operand} (numbered : dst.isNumbered = true)
    (numbered' : src.isNumbered = true) :
    Leaves (perform address imm (.load dst src)) cpu memory fun _ after left =>
      (dst.place imm cpu.regs).byteIn after.regs left =
        (src.place imm cpu.regs).byteIn cpu.regs memory := by
  refine .plain (.bind ((leaves_operandRead imm src).mpr ?_))
  rw [leaves_operandWrite, src.step_of_numbered numbered', dst.step_of_numbered numbered]
  exact Place.byteIn_with (dst.keeps_place numbered imm cpu.regs) _ _ _

end leaves
end Exec

/-! ### Steps -/

namespace ByteOperation

/-- The program counter has no part in an operation. -/
theorem Did.of_pc {kind : ByteOperation} {place : Place} {before after : Registers} {pc : UInt16}
    {memory left : FlatMemory} (h : kind.Did place { before with pc := pc } memory after left) :
    kind.Did place before memory after left := by
  obtain ⟨flags, accumulator, written⟩ := h
  rw [place.byteIn_pc] at flags accumulator written
  exact ⟨flags, accumulator, written⟩

end ByteOperation

namespace Instruction

/-- The loads between numbered operands, HALT in their midst apart. -/
theorem decode_load {opcode : UInt8} (above : 0x40 ≤ opcode) (below : opcode ≤ 0x7F)
    (apart : opcode ≠ 0x76) :
    opcode ≠ Opcode.extension ∧ (decode opcode).operation =
      .load (Opcode.operandAt (opcode.toNat / 8 % 8)) (Opcode.operandAt (opcode.toNat % 8)) := by
  revert above below apart
  revert opcode
  apply forall_byte
  decide +kernel

end Instruction

namespace Computer

/-- Whether the next step executes an instruction. -/
def Executing (s : Computer FlatMemory) : Prop :=
  ∃ ins cost, (s.slot 0).1 = .ok (.executed ins cost)

/-- The place of an operand of the next instruction, which has its byte in second place if it has
one. -/
def place (s : Computer FlatMemory) (x : Operand) : Place :=
  x.place (word 0 (s.board.bus.get (s.cpu.regs.pc + 1))) s.cpu.regs

/-- The byte that the core sees at a place. -/
def byteOf (s : Computer FlatMemory) (place : Place) : UInt8 :=
  place.byteIn s.cpu.regs s.board.bus

/-- Whether the memory asks for an operation on an operand at PC. -/
def Asks (s : Computer FlatMemory) (kind : ByteOperation) (x : Operand) : Prop :=
  ∃ code, kind.Code x code ∧ s.board.bus.Shows s.cpu.regs.pc code

variable {s t : Computer FlatMemory} {ins : Instruction}

/-- What an instruction that is executed leaves in the core and in the memory as it stands is what
the step leaves. -/
theorem leaves_of_executed {cost : Nat} (executes : (s.slot 0).1 = .ok (.executed ins cost)) :
    fetched s.cpu.regs.pc s.board.bus = .ok ins ∧
      ∀ Q : Registers → FlatMemory → Prop,
        (∀ cpu : Cpu, cpu.regs = { s.cpu.regs with pc := ins.next } →
          Exec.Leaves (Exec.perform ins.address ins.operand ins.operation) cpu s.board.bus
            fun _ after left => Q after.regs left) →
        Q s.step.2.cpu.regs s.step.2.board.bus := by
  have course := s.course_slot
  have answers := s.answers_slot
  have bus : s.step.2.board.bus = (replay s.accesses s.board.bus).state := s.bus_slot
  have core : s.step.2.cpu = (s.slot 0).2.cpu := rfl
  have quiet := s.board.bus.quietReads
  have readEnable := quiet.read Interrupt.enableAddress
  have readRequest := quiet.read Interrupt.requestAddress
  rw [executes] at course
  rw [bus, core]
  generalize (s.slot 0).2.cpu = after at course
  generalize s.accesses = accesses at course answers
  generalize s.reports = reports at course
  cases course with
  | @executed thaw fetch accesses _ _ _ enabled requested _ taken after thawed woken masked fetching
      performed =>
    have reads := Instruction.ensures_fetch_isRead _ _ _ _ fetching
    have rest := (thawed.answers_append readEnable readRequest answers).2
    rw [answers_append, replay_of_reads quiet reads, answers_append] at rest
    obtain ⟨fetchAnswers, performAnswers, -⟩ := rest
    have left : (replay (thaw ++ pollAccesses enabled requested ++
        (fetch ++ (accesses ++ [.tick (ins.cost taken)]))) s.board.bus).state =
          (replay accesses s.board.bus).state := by
      rw [thawed.replay_append readEnable readRequest, state_replay_append,
        replay_of_reads quiet reads, state_replay_append]
      rfl
    refine ⟨fetched_of_path fetching fetchAnswers, fun Q leaves => ?_⟩
    rw [left, Cpu.regs_finish]
    exact leaves _ rfl _ _ _ performed performAnswers

/-- A running core that no interrupt can reach executes the instruction at PC if there is one. -/
theorem executing_of_running (running : s.cpu.asleep = false) (masked : s.cpu.ime = false)
    (assigned : (decode (s.board.bus.get s.cpu.regs.pc)).isUnassigned = false)
    (fits : s.cpu.regs.pc.toNat + (decode (s.board.bus.get s.cpu.regs.pc)).length ≤ 0x10000) :
    s.Executing := by
  have course := s.course_slot
  have answers := s.answers_slot
  have quiet := s.board.bus.quietReads
  obtain ⟨halted, stopped⟩ := (Bool.or_eq_false_iff.mp running :)
  unfold Executing
  generalize (s.slot 0).1 = outcome at course
  generalize (s.slot 0).2.cpu = after at course
  generalize s.accesses = accesses at course answers
  generalize s.reports = reports at course
  cases course with
  | frozen asleep => cases stopped.symm.trans asleep
  | entered _ _ _ ime => cases masked.symm.trans ime
  | idled _ _ asleep => cases halted.symm.trans asleep
  | faulted thawed _ _ fetching =>
    have rest := (thawed.answers_append (quiet.read Interrupt.enableAddress)
      (quiet.read Interrupt.requestAddress) answers).2
    have refused := (refused_of_fetched quiet (fetched_of_path fetching rest)).2
    cases refused with
    | unassigned hole => cases assigned.symm.trans hole
    | truncated _ late => exact absurd fits (Nat.not_le_of_lt late)
  | executed => exact ⟨_, _, rfl⟩

/-- The place of an operand is the same for the instruction that is executed. -/
theorem place_eq {x : Operand}
    (known : x.isNumbered = true ∨
      x = .imm ∧ lowByte ins.operand = s.board.bus.get (s.cpu.regs.pc + 1)) :
    x.place ins.operand { s.cpu.regs with pc := ins.next } = s.place x := by
  rw [x.place_pc, place]
  cases x with
  | reg | indirect => rfl
  | imm =>
    have shown := known.resolve_left Bool.false_ne_true
    exact congrArg Place.immediate (shown.2.trans (lowByte_word 0 _).symm)
  | _ => exact absurd known (by simp [Operand.isNumbered])

/-- A step that executes an operation on a byte has done it to the byte at the place of the
operand. -/
theorem did_of_executing {kind : ByteOperation} {x : Operand} (executing : s.Executing)
    (asked : s.Asks kind x) :
    kind.Did (s.place x) s.cpu.regs s.board.bus s.step.2.cpu.regs s.step.2.board.bus := by
  obtain ⟨ins, cost, executes⟩ := executing
  obtain ⟨code, asked, stands⟩ := asked
  obtain ⟨found, leaves⟩ := leaves_of_executed executes
  obtain ⟨bytes, encoded, read⟩ := encoded_of_fetched s.board.bus.quietReads found
  obtain ⟨operation, operand⟩ := ByteOperation.operation_of_encoded asked stands encoded read
  have allowed := asked.allowed
  apply leaves
  intro cpu regs
  rw [operation]
  refine (Exec.leaves_on ins.address ins.operand allowed).mono fun _ after left did => ?_
  rw [regs, place_eq (allowed.imp_right fun immediate => ⟨immediate.2, operand immediate.2⟩)] at did
  exact did.of_pc

/-- A step that executes a load between numbered operands copies a byte. -/
theorem copied_of_executing {opcode : UInt8} {dst src : Operand} (executing : s.Executing)
    (stands : s.board.bus.get s.cpu.regs.pc = opcode) (above : 0x40 ≤ opcode)
    (below : opcode ≤ 0x7F) (apart : opcode ≠ 0x76)
    (target : Operand.numbered[opcode.toNat / 8 % 8]? = some dst)
    (source : Operand.numbered[opcode.toNat % 8]? = some src) :
    s.step.2.byteOf (s.place dst) = s.byteOf (s.place src) := by
  obtain ⟨ins, cost, executes⟩ := executing
  obtain ⟨found, leaves⟩ := leaves_of_executed executes
  obtain ⟨bytes, encoded, read⟩ := encoded_of_fetched s.board.bus.quietReads found
  obtain ⟨first, rest, rfl⟩ := encoded.exists_cons
  obtain rfl : first = opcode := (FlatMemory.Shows.first read).symm.trans stands
  obtain ⟨plain, operation⟩ := Instruction.decode_load above below apart
  have dstNumbered := Operand.isNumbered_of_getElem? target
  have srcNumbered := Operand.isNumbered_of_getElem? source
  rw [(Operand.numbered_getElem? target).2, (Operand.numbered_getElem? source).2,
    ← encoded.entry_eq plain] at operation
  refine leaves (fun after left => (s.place dst).byteIn after left = s.byteOf (s.place src)) ?_
  intro cpu regs
  change ins.operation = _ at operation
  rw [operation]
  refine (Exec.leaves_load ins.address ins.operand dstNumbered srcNumbered).mono
    fun _ after left copied => ?_
  rw [regs, place_eq (.inl dstNumbered), place_eq (.inl srcNumbered), Place.byteIn_pc] at copied
  exact copied

/-- Whether the next steps of two computers give the same result for an operation, the one on the
byte of `x` and the other on the byte of `y`. -/
structure SameResult (kind : ByteOperation) (x y : Operand) (s t : Computer FlatMemory) : Prop where
  flags : s.step.2.cpu.regs.flags = t.step.2.cpu.regs.flags
  accumulator : kind.isAlu = true → s.step.2.cpu.regs.a = t.step.2.cpu.regs.a
  written : kind.writesBack = true → s.step.2.byteOf (s.place x) = t.step.2.byteOf (t.place y)

/-- Whether the next step does not depend on where its operands live. -/
structure BlindToPlaces (s : Computer FlatMemory) : Prop where
  /-- What an operation leaves is told by the byte, the flags and A. -/
  did : ∀ kind x, s.Asks kind x →
    kind.Did (s.place x) s.cpu.regs s.board.bus s.step.2.cpu.regs s.step.2.board.bus
  /-- So the place of the byte does not show in what is left. -/
  result : ∀ t : Computer FlatMemory, t.Executing →
    ∀ kind x y, s.Asks kind x → t.Asks kind y → s.cpu.regs.flags = t.cpu.regs.flags →
      (kind.isAlu = true → s.cpu.regs.a = t.cpu.regs.a) →
      s.byteOf (s.place x) = t.byteOf (t.place y) → SameResult kind x y s t
  copied : ∀ opcode, s.board.bus.get s.cpu.regs.pc = opcode → 0x40 ≤ opcode → opcode ≤ 0x7F →
    opcode ≠ 0x76 → ∃ dst src, Operand.numbered[opcode.toNat / 8 % 8]? = some dst ∧
      Operand.numbered[opcode.toNat % 8]? = some src ∧
      s.step.2.byteOf (s.place dst) = s.byteOf (s.place src)

theorem sameResult_of_executing {kind : ByteOperation} {x y : Operand} (executing : s.Executing)
    (executing' : t.Executing) (asked : s.Asks kind x) (asked' : t.Asks kind y)
    (flags : s.cpu.regs.flags = t.cpu.regs.flags)
    (accumulator : kind.isAlu = true → s.cpu.regs.a = t.cpu.regs.a)
    (byte : s.byteOf (s.place x) = t.byteOf (t.place y)) : SameResult kind x y s t := by
  have did := did_of_executing executing asked
  have did' := did_of_executing executing' asked'
  rw [byteOf, byteOf] at byte
  refine ⟨?_, fun alu => ?_, fun back => ?_⟩
  · rw [did.flags, did'.flags, flags, byte, ByteOperation.flagsOf_congr accumulator]
  · cases kind with
    | alu op =>
      rw [did.accumulator op rfl, did'.accumulator op rfl, flags, byte, accumulator rfl]
    | inc | dec | shift | bit | res | set => cases alu
  · obtain ⟨f, change⟩ := kind.exists_change? back
    rw [byteOf, byteOf, did.written f change, did'.written f change, flags, byte]

/-- **Operands in different places**: a step that executes an operation on a byte makes of it, of
the flags and of A what any other step does that executes the operation on an equal byte, wherever
the two bytes live; and a load between numbered operands copies the byte. -/
theorem blindToPlaces (executing : s.Executing) : s.BlindToPlaces where
  did _ _ := did_of_executing executing
  result _ executing' _ _ _ asked asked' :=
    sameResult_of_executing executing executing' asked asked'
  copied opcode stands above below apart := by
    have named (n : Nat) : ∃ x, Operand.numbered[n % 8]? = some x :=
      ⟨_, List.getElem?_eq_getElem (show n % 8 < 8 from Nat.mod_lt n (Nat.zero_lt_succ 7))⟩
    obtain ⟨dst, target⟩ := named (opcode.toNat / 8)
    obtain ⟨src, source⟩ := named opcode.toNat
    exact ⟨dst, src, target, source,
      copied_of_executing executing stands above below apart target source⟩

/-- A computer about to execute the byte in the first cell of a memory that is otherwise zero. -/
def ofByte (byte : UInt8) (regs : Registers) : Computer FlatMemory where
  cpu := { regs := { regs with pc := 0 } }
  board := { bus := ({} : FlatMemory).set 0 byte }

theorem asks_ofByte {byte : UInt8} {kind : ByteOperation} {x : Operand} (regs : Registers)
    (asked : kind.Code x [byte]) : (ofByte byte regs).Asks kind x := by
  refine ⟨[byte], asked, fun k inside => ?_⟩
  obtain rfl := Nat.lt_one_iff.mp inside
  exact (FlatMemory.get_set _ _ _ _).trans (if_pos rfl)

theorem executing_ofByte {byte : UInt8} (assigned : (decode byte).isUnassigned = false)
    (regs : Registers) : (ofByte byte regs).Executing := by
  have stands : (ofByte byte regs).board.bus.get (ofByte byte regs).cpu.regs.pc = byte :=
    (FlatMemory.get_set _ _ _ _).trans (if_pos rfl)
  have fits : 0 + (decode byte).length ≤ 0x10000 := by
    rcases Instruction.length_decode_cases byte with one | two | three <;> omega
  refine executing_of_running rfl rfl ?_ ?_
  · rw [stands]
    exact assigned
  · rw [stands]
    exact fits

/-- An increment in memory of its own opcode gives what one in a register gives. -/
theorem blindToPlaces_inc :
    SameResult .inc (.indirect .hl) (.reg .h) (ofByte 0x34 {}) (ofByte 0x24 { h := 0x34 }) := by
  have executing : (ofByte 0x34 {}).Executing := executing_ofByte (by decide) _
  have executing' : (ofByte 0x24 { h := 0x34 }).Executing := executing_ofByte (by decide) _
  have asked : (ofByte 0x34 {}).Asks .inc (.indirect .hl) :=
    asks_ofByte _ (.numbered .inc (show Operand.numbered[6]? = some (.indirect .hl) from rfl))
  have asked' : (ofByte 0x24 { h := 0x34 }).Asks .inc (.reg .h) :=
    asks_ofByte _ (.numbered .inc (show Operand.numbered[4]? = some (.reg .h) from rfl))
  have byte : (ofByte 0x34 {}).byteOf (.memory 0) = 0x34 :=
    (FlatMemory.get_set _ _ _ _).trans (if_pos rfl)
  exact (blindToPlaces executing).result _ executing' _ _ _ asked asked' rfl nofun byte

end Computer

end Sm83
