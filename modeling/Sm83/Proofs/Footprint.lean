import Sm83.Proofs.EnableDelay
import Sm83.Proofs.Transfers

/-! # Footprints

Each instruction changes what it names, and nothing else.

* **What operations name.** `op.spares flag`, `op.destinations`, `op.stackAfter` and `op.writesTo`
  tell which flags an operation leaves alone, which byte registers it stores into, what becomes of
  the stack pointer, and where the operation writes.
* **Regular operations.** The opcodes do not give every operand to every operation
  (`Instruction.Encoded.isRegular`); none of them, for instance, names F.
* **Registers.** Changes of registers that keep to the footprint compose (`Operation.Spares.trans`),
  so one walk through the operations shows that flags and byte registers do
  (`within_perform_sparesIn`).
* **The stack and the memory.** The stack pointer and the addresses written are told exactly
  (`ensures_perform_sp`, `ensures_perform_writes`).  Together with the registers they make up the
  footprint (`ensures_perform_footprint`).
* **Main statement.** `changes_of_executed`: a step that executes an instruction keeps to its
  footprint, and changes the control state as the instruction says. -/

namespace Sm83

/-! ### What operations name -/

/-- One of the flags. -/
def Flags.get (flags : Flags) : Flag → Bool
  | .zero => flags.zero
  | .subtract => flags.subtract
  | .halfCarry => flags.halfCarry
  | .carry => flags.carry

/-- The byte registers that a pair is made of. -/
def WordReg.halves : WordReg → List ByteReg
  | .af => [.a, .f]
  | .bc => [.b, .c]
  | .de => [.d, .e]
  | .hl => [.h, .l]
  | .sp => []

/-- The cells at a place. -/
def Place.cells : Place → List UInt16
  | .memory address => [address]
  | _ => []

/-- Whether an operand is one that the opcodes number: a register, or the cell at HL. -/
def Operand.isNumbered : Operand → Bool
  | .reg r => r != .f
  | .indirect pair => pair == .hl
  | _ => false

namespace Operation

/-- Whether an operation is to leave a flag alone. -/
def spares (flag : Flag) : Operation → Bool
  | .nop | .stop | .halt | .di | .ei | .load _ _ | .loadWord _ | .storeSp | .loadSpHl | .incWord _
  | .decWord _ | .jump _ | .jumpHl | .jumpBy _ | .call _ | .ret _ | .reti | .restart _ | .push _
  | .res _ _ | .set _ _ | .extension | .unassigned => true
  | .inc _ | .dec _ | .bit _ _ => flag == .carry
  | .addHl _ | .scf | .ccf => flag == .zero
  | .daa => flag == .subtract
  | .cpl => flag == .zero || flag == .carry
  | .pop pair => pair != .af
  | .alu _ _ | .loadHlSp | .addSp | .rotateA _ | .shift _ _ => false

/-- The byte registers that an operation names as its destination. -/
def destinations : Operation → List ByteReg
  | .load (.reg r) _ | .inc (.reg r) | .dec (.reg r) | .shift _ (.reg r) | .res _ (.reg r)
  | .set _ (.reg r) => [r]
  | .loadWord pair | .incWord pair | .decWord pair | .pop pair => pair.halves
  | .loadHlSp | .addHl _ => WordReg.hl.halves
  | .alu .cp _ => []
  | .alu _ _ | .rotateA _ | .daa | .cpl => [.a]
  | _ => []

/-- Whether an operation reads or writes through an operand. -/
def uses (operand : Operand) : Operation → Bool
  | .load dst src => dst == operand || src == operand
  | .alu _ src => src == operand
  | .inc target | .dec target | .shift _ target | .bit _ target | .res _ target
  | .set _ target => target == operand
  | _ => false

/-- Whether an operation moves HL as it reads or writes through it. -/
def movesHl (op : Operation) : Bool := op.uses .hlInc || op.uses .hlDec

/-- The stack pointer after an operation. -/
def stackAfter (operand : UInt16) (regs : Registers) : Operation → UInt16
  | .push _ | .restart _ => regs.sp - 2
  | .pop _ | .reti => regs.sp + 2
  | .call condition =>
    if condition.all (Condition.holds regs.flags) then regs.sp - 2 else regs.sp
  | .ret condition =>
    if condition.all (Condition.holds regs.flags) then regs.sp + 2 else regs.sp
  | .loadWord pair => if pair = .sp then operand else regs.sp
  | .loadSpHl => regs.hl
  | .incWord pair => if pair = .sp then regs.sp + 1 else regs.sp
  | .decWord pair => if pair = .sp then regs.sp - 1 else regs.sp
  | .addSp => regs.sp + signExtend (lowByte operand)
  | .nop | .stop | .halt | .di | .ei | .load _ _ | .storeSp | .loadHlSp | .alu _ _ | .inc _ | .dec _
  | .addHl _ | .rotateA _ | .daa | .cpl | .scf | .ccf | .jump _ | .jumpHl | .jumpBy _ | .shift _ _
  | .bit _ _ | .res _ _ | .set _ _ | .extension | .unassigned => regs.sp

/-- The addresses that an operation writes to, in this order. -/
def writesTo (operand : UInt16) (regs : Registers) : Operation → List UInt16
  | .load target _ | .inc target | .dec target | .shift _ target | .res _ target
  | .set _ target => (target.place operand regs).cells
  | .storeSp => [operand, operand + 1]
  | .push _ | .restart _ => [regs.sp - 1, regs.sp - 2]
  | .call condition =>
    if condition.all (Condition.holds regs.flags) then [regs.sp - 1, regs.sp - 2] else []
  | _ => []

/-! ### Regular operations -/

/-- Whether an operation has only operands that the opcodes give it. -/
def isRegular : Operation → Bool
  | .load dst src =>
    dst == .reg .a || (src == .reg .a && dst != .imm && dst != .reg .f) ||
      (dst.isNumbered && (src.isNumbered || src == .imm))
  | .alu _ src => src.isNumbered || src == .imm
  | .inc target | .dec target | .shift _ target | .bit _ target | .res _ target
  | .set _ target => target.isNumbered
  | .loadWord pair | .incWord pair | .decWord pair => pair != .af
  | .pop pair => pair != .sp
  | _ => true

end Operation

theorem isRegular_decode (opcode : UInt8) : (decode opcode).operation.isRegular = true := by
  revert opcode
  apply forall_byte
  decide +kernel

theorem isRegular_decodeExtended (opcode : UInt8) :
    (decodeExtended opcode).operation.isRegular = true := by
  revert opcode
  apply forall_byte
  decide +kernel

theorem Instruction.Encoded.isRegular {address : UInt16} {bytes : List UInt8} {ins : Instruction}
    (h : Encoded address bytes ins) : ins.operation.isRegular = true := by
  cases h with
  | extended opcode => exact isRegular_decodeExtended opcode
  | single => exact isRegular_decode _
  | double => exact isRegular_decode _
  | triple => exact isRegular_decode _

/-- A regular operation through HL+ or HL- copies a byte to or from A. -/
theorem Operation.eq_load_of_uses {op : Operation} (regular : op.isRegular = true)
    {operand : Operand} (moving : operand = .hlInc ∨ operand = .hlDec)
    (used : op.uses operand = true) :
    op = .load (.reg .a) operand ∨ op = .load operand (.reg .a) := by
  have apart : operand.isNumbered = false := by
    rcases moving with rfl | rfl
    · rfl
    · rfl
  cases op with
  | load dst src =>
    simp only [uses, Bool.or_eq_true, beq_iff_eq] at used
    rcases used with rfl | rfl
    · rcases moving with rfl | rfl <;> simpa [isRegular, Operand.isNumbered] using regular
    · rcases moving with rfl | rfl <;> simpa [isRegular, Operand.isNumbered] using regular
  | alu kind src =>
    obtain rfl : src = operand := eq_of_beq used
    rcases moving with rfl | rfl <;> cases regular
  | inc target | dec target | shift kind target | bit index target | res index target
  | set index target =>
    obtain rfl : target = operand := eq_of_beq used
    cases apart.symm.trans regular
  | _ => cases used

/-! ### Registers left alone -/

theorem Registers.getByte_setWord_of_not_mem (regs : Registers) {pair : WordReg} {r : ByteReg}
    (h : r ∉ pair.halves) (value : UInt16) :
    (regs.setWord pair value).getByte r = regs.getByte r := by
  cases pair <;> cases r <;> simp_all [WordReg.halves, setWord, getByte]

/-- Whether the registers are as they were where an operation is to leave them alone.  F has no
clause of its own, as it is made of the flags. -/
structure Operation.Spares (op : Operation) (before after : Registers) : Prop where
  flag : ∀ flag, op.spares flag = true → after.flags.get flag = before.flags.get flag
  byte : ∀ r, r ≠ .f → r ∉ op.destinations → (r ∈ WordReg.hl.halves → op.movesHl = false) →
    after.getByte r = before.getByte r

namespace Operation.Spares

variable {op : Operation} {regs : Registers}

theorem refl (op : Operation) (regs : Registers) : op.Spares regs regs :=
  ⟨fun _ _ => rfl, fun _ _ _ _ => rfl⟩

theorem trans {before mid after : Registers} (first : op.Spares before mid)
    (last : op.Spares mid after) : op.Spares before after where
  flag flag spared := (last.flag flag spared).trans (first.flag flag spared)
  byte r plain apart still := (last.byte r plain apart still).trans (first.byte r plain apart still)

theorem sp (op : Operation) (regs : Registers) (value : UInt16) :
    op.Spares regs { regs with sp := value } :=
  ⟨fun _ _ => rfl, fun r _ _ _ => by cases r <;> rfl⟩

theorem pc (op : Operation) (regs : Registers) (value : UInt16) :
    op.Spares regs { regs with pc := value } :=
  ⟨fun _ _ => rfl, fun r _ _ _ => by cases r <;> rfl⟩

theorem flags {flags : Flags}
    (kept : ∀ flag, op.spares flag = true → flags.get flag = regs.flags.get flag) :
    op.Spares regs { regs with flags := flags } where
  flag := kept
  byte r plain _ _ := by
    cases r with
    | f => exact absurd rfl plain
    | _ => rfl

theorem setByte {r : ByteReg} (plain : r ≠ .f) (named : r ∈ op.destinations) (value : UInt8) :
    op.Spares regs (regs.setByte r value) where
  flag _ _ := by
    cases r with
    | f => exact absurd rfl plain
    | _ => rfl
  byte s _ apart _ := by
    have other : s ≠ r := fun same => apart (same.symm ▸ named)
    exact regs.getByte_setByte_of_ne other value

/-- An operation that names AF is to leave no flag alone. -/
theorem setWord {pair : WordReg} (flags : pair = .af → ∀ flag, op.spares flag = false)
    (named : ∀ r ∈ pair.halves, r ∈ op.destinations) (value : UInt16) :
    op.Spares regs (regs.setWord pair value) where
  flag flag spared := by
    cases pair with
    | af => cases (flags rfl flag).symm.trans spared
    | _ => rfl
  byte r _ apart _ := regs.getByte_setWord_of_not_mem (fun half => apart (named r half)) value

theorem setHl (named : ∀ r ∈ WordReg.hl.halves, r ∈ op.destinations) (value : UInt16) :
    op.Spares regs (regs.setHl value) :=
  setWord (fun same => by cases same) named value

theorem accumulate {flags : Flags}
    (kept : ∀ flag, op.spares flag = true → flags.get flag = regs.flags.get flag)
    (named : .a ∈ op.destinations) (value : UInt8) :
    op.Spares regs { regs with a := value, flags := flags } := by
  have stored : op.Spares regs (regs.setByte .a value) := setByte (by decide) named value
  exact stored.trans (.flags kept)

theorem operandStep {operand : Operand} (used : op.uses operand = true) :
    op.Spares regs (operand.step regs) := by
  have moved (moves : op.movesHl = true) (value : UInt16) : op.Spares regs (regs.setHl value) := by
    refine ⟨fun _ _ => rfl, fun r _ _ still => regs.getByte_setWord_of_not_mem ?_ _⟩
    intro half
    cases (still half).symm.trans moves
  cases operand with
  | hlInc | hlDec => exact moved (by simp [movesHl, used]) _
  | _ => exact refl op regs

end Operation.Spares

/-- The same of two cores, whatever the accesses between them. -/
def Operation.SparesIn (op : Operation) (cpu : Cpu) (_ : List Access) (after : Cpu) : Prop :=
  op.Spares cpu.regs after.regs

namespace Exec

theorem cumulative_sparesIn (op : Operation) : Cumulative op.SparesIn where
  refl cpu := .refl op cpu.regs
  read cpu _ _ := .refl op cpu.regs
  write cpu _ _ := .refl op cpu.regs
  append first last := first.trans last

section sparesIn
variable {op : Operation} (operand : UInt16)

theorem allows_sp (f : UInt16 → UInt16) :
    Allows op.SparesIn fun regs => { regs with sp := f regs.sp } :=
  fun _ => .sp op _ _

theorem allows_pc (address : UInt16) :
    Allows op.SparesIn fun regs => { regs with pc := address } :=
  fun _ => .pc op _ _

theorem sparesIn_updateRegs {f : Registers → Registers}
    (kept : ∀ regs, op.Spares regs (f regs)) : Within op.SparesIn (updateRegs f) :=
  within_updateRegs fun _ => kept _

theorem sparesIn_read {source : Operand} (used : op.uses source = true) :
    Within op.SparesIn (source.read operand) :=
  within_operandRead (cumulative_sparesIn op) operand fun _ => .operandStep used

/-- A numbered operand is updated if it is the destination. -/
theorem sparesIn_update {target : Operand} {f : UInt8 → Flags → UInt8 × Flags}
    (numbered : target.isNumbered = true) (used : op.uses target = true)
    (named : ∀ r, target = .reg r → r ∈ op.destinations)
    (flags : ∀ value flags flag, op.spares flag = true →
      (f value flags).2.get flag = flags.get flag) :
    Within op.SparesIn (plain (target.update operand f)) := by
  have spares := cumulative_sparesIn op
  refine Within.plain spares (within_operandUpdate spares operand (fun _ => .operandStep used)
    (fun value _ => .flags (flags value _)) fun value r register _ => ?_)
  refine .setByte ?_ (named r register) value
  rintro rfl
  subst register
  cases numbered

end sparesIn

/-- **Registers**: an operation leaves alone the flags and byte registers that it is to leave
alone. -/
theorem within_perform_sparesIn (address operand : UInt16) {op : Operation}
    (regular : op.isRegular = true) : Within op.SparesIn (perform address operand op) := by
  have spares := cumulative_sparesIn op
  have jump (address : UInt16) : Within op.SparesIn (jump address) :=
    within_updateRegs (allows_pc address)
  have call (address : UInt16) : Within op.SparesIn (call address) :=
    within_call spares allows_sp allows_pc address
  have ret : Within op.SparesIn ret := within_ret spares allows_sp allows_pc
  cases op with
  | nop | extension | unassigned => exact (within_pure spares ()).plain spares
  | stop | halt | di | ei =>
    intro cpu
    have same := Operation.Spares.refl
    simp [perform, Exec.plain, Cpu.disableInterrupts, Operation.SparesIn, same]
  | load dst src =>
    refine Within.plain spares ((sparesIn_read operand (by simp [Operation.uses])).bind spares
      fun value => ?_)
    refine within_operandWrite spares operand (fun _ => .operandStep (by simp [Operation.uses])) ?_
    rintro r rfl cpu
    refine .setByte ?_ (List.mem_singleton_self r) value
    rintro rfl
    simp [Operation.isRegular, Operand.isNumbered] at regular
  | storeSp =>
    exact Within.plain spares ((within_regs spares).bind spares fun _ =>
      (within_write spares _ _).bind spares fun _ => within_write spares _ _)
  | loadHlSp =>
    refine Within.plain spares ((within_regs spares).bind spares fun _ =>
      sparesIn_updateRegs fun regs => ?_)
    refine .trans (.flags fun flag spared => ?_) (.setHl (fun r half => ?_) _)
    · cases spared
    · exact half
  | alu kind src =>
    refine Within.plain spares ((sparesIn_read operand (by simp [Operation.uses])).bind spares
      fun value => ?_)
    refine sparesIn_updateRegs fun regs => ?_
    cases kind with
    | cp => exact .flags fun flag spared => by cases spared
    | _ => exact .accumulate (fun flag spared => by cases spared) (List.mem_singleton_self _) _
  | inc target | dec target =>
    refine sparesIn_update operand regular (by simp [Operation.uses]) ?_
      fun value flags flag spared => ?_
    · rintro r rfl
      exact List.mem_singleton_self r
    · obtain rfl : flag = .carry := eq_of_beq spared
      rfl
  | shift kind target =>
    refine sparesIn_update operand regular (by simp [Operation.uses]) ?_
      fun value flags flag spared => ?_
    · rintro r rfl
      exact List.mem_singleton_self r
    · cases spared
  | res index target | set index target =>
    refine sparesIn_update operand regular (by simp [Operation.uses]) ?_
      fun value flags flag spared => rfl
    rintro r rfl
    exact List.mem_singleton_self r
  | bit index target =>
    refine Within.plain spares ((sparesIn_read operand (by simp [Operation.uses])).bind spares
      fun value => ?_)
    refine sparesIn_updateRegs fun regs => .flags fun flag spared => ?_
    obtain rfl : flag = .carry := eq_of_beq spared
    rfl
  | loadWord pair | incWord pair | decWord pair =>
    refine Within.plain spares (sparesIn_updateRegs fun regs => .setWord ?_ (fun r half => ?_) _)
    · rintro rfl
      cases regular
    · exact half
  | addHl pair =>
    refine Within.plain spares (sparesIn_updateRegs fun regs => ?_)
    refine .trans (.flags fun flag spared => ?_) (.setHl (fun r half => ?_) _)
    · obtain rfl : flag = .zero := eq_of_beq spared
      rfl
    · exact half
  | loadSpHl => exact Within.plain spares (sparesIn_updateRegs fun regs => .sp _ _ _)
  | addSp =>
    refine Within.plain spares (sparesIn_updateRegs fun regs => ?_)
    have changed (flags : Flags) : Operation.addSp.Spares regs { regs with flags := flags } :=
      .flags fun flag spared => by cases spared
    exact (changed (addSigned regs.sp (lowByte operand)).2).trans (.sp _ _ _)
  | rotateA kind =>
    refine Within.plain spares (sparesIn_updateRegs fun regs => ?_)
    exact .accumulate (fun flag spared => by cases spared) (List.mem_singleton_self _) _
  | daa =>
    refine Within.plain spares (sparesIn_updateRegs fun regs => ?_)
    refine .accumulate (fun flag spared => ?_) (List.mem_singleton_self _) _
    obtain rfl : flag = .subtract := eq_of_beq spared
    rfl
  | cpl =>
    refine Within.plain spares (sparesIn_updateRegs fun regs => ?_)
    refine .accumulate (fun flag spared => ?_) (List.mem_singleton_self _) _
    rcases (Bool.or_eq_true _ _).mp spared with same | same
    · obtain rfl : flag = .zero := eq_of_beq same
      rfl
    · obtain rfl : flag = .carry := eq_of_beq same
      rfl
  | scf | ccf =>
    refine Within.plain spares (sparesIn_updateRegs fun regs => .flags fun flag spared => ?_)
    obtain rfl : flag = .zero := eq_of_beq spared
    rfl
  | jump condition => exact Within.transfer spares (jump operand) condition
  | jumpHl => exact Within.plain spares ((within_regs spares).bind spares fun _ => jump _)
  | jumpBy condition =>
    exact Within.transfer spares ((within_regs spares).bind spares fun _ => jump _) condition
  | call condition => exact Within.transfer spares (call operand) condition
  | ret condition => exact Within.transfer spares ret condition
  | reti =>
    refine Within.plain spares (ret.bind spares fun _ cpu => ?_)
    rw [ensures_modify]
    exact .refl _ _
  | restart vector => exact Within.plain spares (call _)
  | push pair =>
    exact Within.plain spares ((within_regs spares).bind spares fun _ =>
      within_push spares allows_sp _)
  | pop pair =>
    refine Within.plain spares ((within_pop spares allows_sp).bind spares fun value => ?_)
    refine sparesIn_updateRegs fun regs => .setWord ?_ (fun r half => ?_) value
    · rintro rfl flag
      rfl
    · exact half

/-- Reading or writing through HL+ or HL- moves HL by one. -/
theorem ensures_perform_moves (address operand : UInt16) {op : Operation}
    (regular : op.isRegular = true) {moving : Operand} (moves : moving = .hlInc ∨ moving = .hlDec)
    (used : op.uses moving = true) (cpu : Cpu) :
    Ensures (perform address operand op) cpu fun _ _ _ after =>
      after.regs.hl = (moving.step cpu.regs).hl := by
  rcases Operation.eq_load_of_uses regular moves used with rfl | rfl
  · rcases moves with rfl | rfl <;>
      simp [perform, plain, ensures_operandRead, ensures_operandWrite, Operand.place, Operand.step,
        Registers.setByte, Registers.getWord, Registers.setWord]
  · rcases moves with rfl | rfl <;>
      simp [perform, plain, ensures_operandRead, ensures_operandWrite, Operand.place, Operand.step]

end Exec

/-! ### The stack pointer and the memory -/

theorem sp_operandStep (operand : Operand) (regs : Registers) :
    (operand.step regs).sp = regs.sp := by
  cases operand <;> rfl

/-- The addresses written to, one after the other. -/
def writtenTo (accesses : List Access) : List UInt16 :=
  accesses.filterMap fun
    | .write address _ => some address
    | _ => none

theorem writtenTo_append (first last : List Access) :
    writtenTo (first ++ last) = writtenTo first ++ writtenTo last :=
  List.filterMap_append

theorem writtenTo_of_reads {accesses : List Access}
    (reads : ∀ access ∈ accesses, access.isRead = true) : writtenTo accesses = [] := by
  refine List.filterMap_eq_nil_iff.mpr fun access made => ?_
  have read := reads access made
  cases access with
  | write => cases read
  | _ => rfl

namespace Exec

variable {cpu : Cpu}

/-- **The stack pointer** after an operation. -/
theorem ensures_perform_sp (address operand : UInt16) {op : Operation}
    (regular : op.isRegular = true) (cpu : Cpu) :
    Ensures (perform address operand op) cpu fun _ _ _ after =>
      after.regs.sp = op.stackAfter operand cpu.regs := by
  have sp := cumulative_view Registers.sp
  have read (source : Operand) := within_operandRead sp operand fun _ => sp_operandStep source _
  cases op with
  | load dst src =>
    exact Within.plain sp ((read src).bind sp fun _ =>
      within_operandWrite sp operand (fun _ => sp_operandStep dst _) fun _ _ _ =>
        Registers.sp_setByte _ _ _) cpu
  | alu kind src | bit index src =>
    exact Within.plain sp ((read src).bind sp fun _ => within_updateRegs fun _ => rfl) cpu
  | inc target | dec target | shift kind target | res index target | set index target =>
    exact Within.plain sp (within_operandUpdate sp operand (fun _ => sp_operandStep target _)
      (fun _ _ => rfl) fun _ _ _ _ => Registers.sp_setByte _ _ _) cpu
  | jump condition | jumpBy condition | call condition | ret condition =>
    cases holds : condition.all (Condition.holds cpu.regs.flags) <;>
      simp [perform, transfer, holds, call, ret, Operation.stackAfter]
  | loadWord pair | incWord pair | decWord pair =>
    cases pair <;>
      simp [perform, plain, Operation.stackAfter, Registers.setWord, Registers.getWord]
  | pop pair =>
    cases pair with
    | sp => cases regular
    | _ => simp [perform, plain, Operation.stackAfter, Registers.setWord]
  | addHl | loadHlSp => simp [perform, plain, Operation.stackAfter, Registers.setWord]
  | addSp => simp [perform, plain, Operation.stackAfter, addSigned]
  | reti => simp [perform, plain, ret, Operation.stackAfter]
  | restart | push => simp [perform, plain, call, Operation.stackAfter]
  | nop | stop | halt | di | ei | storeSp | loadSpHl | rotateA | daa | cpl | scf | ccf | jumpHl
  | extension | unassigned =>
    simp [perform, plain, Operation.stackAfter, Cpu.disableInterrupts]

theorem ensures_operandRead_written (imm : UInt16) (source : Operand) :
    Ensures (source.read imm) cpu fun accesses _ _ after =>
      writtenTo accesses = [] ∧ after.regs = source.step cpu.regs := by
  rw [ensures_operandRead]
  split
  · exact ⟨rfl, rfl⟩
  · exact ⟨rfl, rfl⟩
  · exact fun _ => ⟨rfl, rfl⟩

theorem ensures_operandWrite_written (imm : UInt16) (target : Operand) (value : UInt8) :
    Ensures (target.write imm value) cpu fun accesses _ _ _ =>
      writtenTo accesses = (target.place imm cpu.regs).cells := by
  rw [ensures_operandWrite]
  split <;> rename_i place <;> rw [place] <;> rfl

/-- A numbered operand is written where it was read. -/
theorem ensures_operandUpdate_written (imm : UInt16) {target : Operand}
    (numbered : target.isNumbered = true) (f : UInt8 → Flags → UInt8 × Flags) :
    Ensures (target.update imm f) cpu fun accesses _ _ _ =>
      writtenTo accesses = (target.place imm cpu.regs).cells := by
  have still (flags : Flags) : target.place imm { target.step cpu.regs with flags := flags } =
      target.place imm cpu.regs := by
    cases target with
    | reg r => rfl
    | indirect pair =>
      obtain rfl : pair = .hl := eq_of_beq numbered
      rfl
    | _ => cases numbered
  rw [Operand.update, ensures_bind]
  refine (ensures_operandRead_written imm target).mono fun first _ value mid => ?_
  rintro ⟨none, regs⟩
  rw [ensures_bind, ensures_flags, ensures_bind, ensures_updateFlags]
  refine (ensures_operandWrite_written imm target _).mono fun _ _ _ _ cells => ?_
  rw [writtenTo_append, none, List.nil_append, List.nil_append, List.nil_append, cells, regs, still]

/-- **The memory**: the addresses that an operation writes to. -/
theorem ensures_perform_writes (address operand : UInt16) {op : Operation}
    (regular : op.isRegular = true) (cpu : Cpu) :
    Ensures (perform address operand op) cpu fun accesses _ _ _ =>
      writtenTo accesses = op.writesTo operand cpu.regs := by
  cases op with
  | load dst src =>
    have still : dst.place operand (src.step cpu.regs) = dst.place operand cpu.regs := by
      cases src with
      | hlInc | hlDec =>
        obtain rfl : dst = .reg .a := by
          simpa [Operation.isRegular, Operand.isNumbered] using regular
        rfl
      | _ => rfl
    rw [perform, ensures_plain, ensures_bind]
    refine (ensures_operandRead_written operand src).mono fun _ _ value mid => ?_
    rintro ⟨none, regs⟩
    refine (ensures_operandWrite_written operand dst value).mono fun _ _ _ _ cells => ?_
    rw [writtenTo_append, none, List.nil_append, cells, regs, still]
    rfl
  | inc target | dec target | shift kind target | res index target | set index target =>
    rw [perform, ensures_plain]
    exact ensures_operandUpdate_written operand regular _
  | alu kind src =>
    simp only [perform, plain, ensures_bind, ensures_operandRead]
    split <;> simp [writtenTo, Operation.writesTo]
  | bit index src =>
    simp only [perform, plain, ensures_bind, ensures_operandRead]
    split <;> simp [writtenTo, Operation.writesTo]
  | jump condition | jumpBy condition | call condition | ret condition =>
    cases holds : condition.all (Condition.holds cpu.regs.flags) <;>
      simp [perform, transfer, holds, call, ret, Operation.writesTo, writtenTo]
  | reti | pop => simp [perform, plain, ret, Operation.writesTo, writtenTo]
  | nop | stop | halt | di | ei | storeSp | loadSpHl | addSp | rotateA | daa | cpl | scf | ccf
  | jumpHl | restart | push | extension | unassigned | loadWord | incWord | decWord | addHl
  | loadHlSp =>
    simp [perform, plain, call, Operation.writesTo, writtenTo]

end Exec

/-! ### The whole footprint -/

theorem Operation.stackAfter_pc (op : Operation) (operand pc : UInt16) (regs : Registers) :
    op.stackAfter operand { regs with pc := pc } = op.stackAfter operand regs := by
  unfold stackAfter
  split <;> rfl

theorem Operand.place_pc (target : Operand) (imm pc : UInt16) (regs : Registers) :
    target.place imm { regs with pc := pc } = target.place imm regs := by
  cases target with
  | indirect pair => cases pair <;> rfl
  | _ => rfl

theorem Operation.writesTo_pc (op : Operation) (operand pc : UInt16) (regs : Registers) :
    op.writesTo operand { regs with pc := pc } = op.writesTo operand regs := by
  cases op with
  | load target _ | inc target | dec target | shift _ target | res _ target | set _ target =>
    exact congrArg Place.cells (target.place_pc operand pc regs)
  | _ => rfl

/-- Whether the registers and the memory changed only as an operation names. -/
structure Operation.Footprint (op : Operation) (operand : UInt16) (before : Registers)
    (accesses : List Access) (after : Registers) : Prop extends op.Spares before after where
  up : op.uses .hlInc = true → after.hl = before.hl + 1
  down : op.uses .hlDec = true → after.hl = before.hl - 1
  sp : after.sp = op.stackAfter operand before
  writes : writtenTo accesses = op.writesTo operand before

/-- An operation keeps to its footprint. -/
theorem Exec.ensures_perform_footprint (address operand : UInt16) {op : Operation}
    (regular : op.isRegular = true) (cpu : Cpu) :
    Ensures (perform address operand op) cpu fun accesses _ _ after =>
      op.Footprint operand cpu.regs accesses after.regs := by
  intro accesses reports taken performed
  have moves {moving : Operand} (either : moving = .hlInc ∨ moving = .hlDec)
      (used : op.uses moving = true) :=
    ensures_perform_moves address operand regular either used cpu _ _ _ performed
  have stored (value : UInt16) : (cpu.regs.setHl value).hl = value :=
    cpu.regs.getWord_setWord_self (by decide) value
  refine ⟨within_perform_sparesIn address operand regular cpu _ _ _ performed, fun used => ?_,
    fun used => ?_, ensures_perform_sp address operand regular cpu _ _ _ performed,
    ensures_perform_writes address operand regular cpu _ _ _ performed⟩
  · exact (moves (.inl rfl) used).trans (stored _)
  · exact (moves (.inr rfl) used).trans (stored _)

/-- The program counter has no part in a footprint. -/
theorem Operation.Footprint.of_pc {op : Operation} {operand pc : UInt16} {before after : Registers}
    {accesses : List Access} (h : op.Footprint operand { before with pc := pc } accesses after) :
    op.Footprint operand before accesses after where
  toSpares := (Operation.Spares.pc op before pc).trans h.toSpares
  up := h.up
  down := h.down
  sp := h.sp.trans (op.stackAfter_pc operand pc before)
  writes := h.writes.trans (op.writesTo_pc operand pc before)

/-! ### Steps -/

theorem Operation.halted_control (op : Operation) {cpu : Cpu} (awake : cpu.halted = false) :
    (op.control cpu).halted = decide (op = .halt) := by
  cases op <;> simp [control, Cpu.disableInterrupts, awake]

theorem Operation.stopped_control (op : Operation) {cpu : Cpu} (awake : cpu.stopped = false) :
    (op.control cpu).stopped = decide (op = .stop) := by
  cases op <;> simp [control, Cpu.disableInterrupts, awake]

@[simp] theorem Cpu.halted_finish (cost : Nat) (cpu : Cpu) :
    (cpu.finish cost).halted = cpu.halted := by
  rw [finish, advanceEnable_eq]

@[simp] theorem Cpu.stopped_finish (cost : Nat) (cpu : Cpu) :
    (cpu.finish cost).stopped = cpu.stopped := by
  rw [finish, advanceEnable_eq]

namespace Computer

variable {β : Type} [Device β] {s : Computer β}

/-- What executing an instruction at a cost changes, all in all. -/
structure Changes (s : Computer β) (ins : Instruction) (cost : Nat) (t : Computer β) : Prop where
  /-- The instruction is the one that was read off the bus at PC. -/
  encoded : ∃ bytes, Instruction.Encoded s.cpu.regs.pc bytes ins ∧
    readsFrom s.cpu.regs.pc bytes <:+: s.accesses
  footprint : ins.operation.Footprint ins.operand s.cpu.regs s.accesses t.cpu.regs
  onward : ins.operation.transfers s.cpu.regs.flags = false → t.cpu.regs.pc = ins.next
  /-- The core was awake for the instruction, and sleeps after it only if told to. -/
  halted : t.cpu.halted = decide (ins.operation = .halt)
  stopped : t.cpu.stopped = decide (ins.operation = .stop)
  enable : t.cpu.enable = (Enable.perform ins.operation s.cpu.enable).advance
  cycles : t.cpu.cycles = s.cpu.cycles + cost
  instructions : t.cpu.instructions = s.cpu.instructions + 1

/-- **Footprints**: a step that executes an instruction changes what the instruction names, and
nothing else. -/
theorem changes_of_executed {ins : Instruction} {cost : Nat}
    (executes : (s.slot 0).1 = .ok (.executed ins cost)) : s.Changes ins cost s.step.2 := by
  have course := s.course_slot
  have enable := s.enable_slot
  obtain ⟨cycles, instructions⟩ :=
    tally_slot (show s.slot 0 = (.ok (.executed ins cost), (s.slot 0).2) from Prod.ext executes rfl)
  rw [executes] at course enable
  change s.Changes ins cost (s.slot 0).2
  generalize (s.slot 0).2 = t at course enable cycles instructions
  generalize made : s.accesses = accesses at course
  generalize s.reports = reports at course
  generalize left : t.cpu = after at course
  cases course with
  | @executed thaw fetch accesses _ _ _ enabled requested _ taken mid thawed woken masked fetching
      performed =>
    obtain ⟨-, bytes, rfl, encoded, -⟩ := Instruction.ensures_fetch_encoded _ _ _ _ fetching
    have control := Exec.ensures_perform_control _ _ _ _ _ _ _ performed
    dsimp only at control
    have footprint :=
      (Exec.ensures_perform_footprint _ _ encoded.isRegular _ _ _ _ performed).of_pc
    have regs : t.cpu.regs = mid.regs := by rw [left, Cpu.regs_finish]
    have writes : writtenTo s.accesses = writtenTo accesses := by
      have begun := writtenTo_of_reads fun _ => thawed.isRead_of_mem
      have polled : writtenTo (pollAccesses enabled requested) = [] := rfl
      have fetched := writtenTo_of_reads (Instruction.ensures_fetch_isRead _ _ _ _ fetching)
      have ended : writtenTo [Access.tick (ins.cost taken)] = [] := rfl
      rw [made]
      simp only [writtenTo_append, begun, polled, fetched, ended, List.nil_append, List.append_nil]
    refine ⟨⟨bytes, encoded, ?_⟩, ?_, fun onward => ?_, ?_, ?_, enable, cycles, instructions⟩
    · rw [made]
      exact ⟨_, _, List.append_assoc _ _ _⟩
    · rw [regs]
      exact { footprint with writes := writes.trans footprint.writes }
    · rw [regs]
      refine (Exec.ensures_perform_onward _ _ ?_ _ _ _ performed).2
      exact onward
    · rw [left, Cpu.halted_finish, control]
      exact ins.operation.halted_control rfl
    · rw [left, Cpu.stopped_finish, control]
      exact ins.operation.stopped_control rfl

/-- A store through HL- moves HL below zero. -/
theorem changes_of_executed_store :
    (ofProgram #[0x32]).Changes ⟨0, decode 0x32, 0⟩ 8 (ofProgram #[0x32]).step.2 := by
  have told : ((ofProgram #[0x32]).slot 0).1.toOption = some (.executed ⟨0, decode 0x32, 0⟩ 8) := by
    decide +kernel
  cases outcome : ((ofProgram #[0x32]).slot 0).1 with
  | error e =>
    rw [outcome] at told
    cases told
  | ok done =>
    rw [outcome] at told
    obtain rfl := Option.some.inj told
    exact changes_of_executed outcome

end Computer

end Sm83
