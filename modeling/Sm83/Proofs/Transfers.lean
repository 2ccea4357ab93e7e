import Sm83.Proofs.Encoding
import Sm83.Proofs.Listing

/-! # Listings and execution

A listing and the core agree on what stands at PC.

* **Transfers.** `op.transfers flags` says whether an operation sends the core somewhere else, and
  `op.destination?` how the destination is found.  Whatever does not transfer leaves PC alone
  (`ensures_perform_onward`); a transfer arrives as `Arrives` says (`ensures_perform_arrives`).
* **Texts.** Where the destination is printed, the number after the dollar sign is the address that
  the transfer leads to (`exists_listing_printed`, `readHex?_shownTarget`).
* **Main statement.** `agrees_listed`: on a quiet bus a step that neither enters an interrupt nor
  idles fails exactly at a line of data, and otherwise goes where the line says. -/

namespace Sm83

/-! ### Where operations lead -/

/-- How a transfer finds its destination. -/
inductive Destination where
  /-- The text of the instruction shows it. -/
  | printed
  /-- It is the word in HL. -/
  | inHl
  /-- It is the word on top of the stack. -/
  | onStack
deriving DecidableEq, Repr

namespace Operation

/-- How an operation that may transfer control finds its destination. -/
def destination? : Operation → Option Destination
  | .jump _ | .jumpBy _ | .call _ | .restart _ => some .printed
  | .jumpHl => some .inHl
  | .ret _ | .reti => some .onStack
  | _ => none

/-- Whether an operation transfers control when the flags are these. -/
def transfers (flags : Flags) : Operation → Bool
  | .jump condition | .jumpBy condition | .call condition | .ret condition =>
    condition.all (Condition.holds flags)
  | .jumpHl | .reti | .restart _ => true
  | _ => false

/-- Whether a transfer pushes the address of the next instruction. -/
def links : Operation → Bool
  | .call _ | .restart _ => true
  | _ => false

/-- The destination that is printed. -/
def target (operand next : UInt16) : Operation → UInt16
  | .jumpBy _ => next + signExtend (lowByte operand)
  | .restart vector => word 0 vector
  | _ => operand

/-- The number of digits that the destination is printed with. -/
def targetDigits : Operation → Nat
  | .restart _ => 2
  | _ => 4

/-- Where a transfer arrives: its accesses, and the registers after it. -/
inductive Arrives (op : Operation) (operand : UInt16) (regs : Registers) :
    List Access → Registers → Prop
  | jumped (printed : op.destination? = some .printed) (links : op.links = false) :
      Arrives op operand regs [] { regs with pc := op.target operand regs.pc }
  | called (printed : op.destination? = some .printed) (links : op.links = true) :
      Arrives op operand regs
        [.write (regs.sp - 1) (highByte regs.pc), .write (regs.sp - 2) (lowByte regs.pc)]
        { regs with sp := regs.sp - 2, pc := op.target operand regs.pc }
  | atHl (inHl : op.destination? = some .inHl) (links : op.links = false) :
      Arrives op operand regs [] { regs with pc := regs.hl }
  | returned (onStack : op.destination? = some .onStack) (links : op.links = false)
      (low high : UInt8) :
      Arrives op operand regs [.read regs.sp low, .read (regs.sp + 1) high]
        { regs with sp := regs.sp + 2, pc := word high low }

section arrives
variable {op : Operation} {operand : UInt16} {regs after : Registers} {accesses : List Access}

theorem Arrives.pc_of_printed (h : op.Arrives operand regs accesses after)
    (printed : op.destination? = some .printed) : after.pc = op.target operand regs.pc := by
  cases h with
  | jumped => rfl
  | called => rfl
  | atHl inHl => cases printed.symm.trans inHl
  | returned onStack => cases printed.symm.trans onStack

theorem Arrives.pc_of_inHl (h : op.Arrives operand regs accesses after)
    (inHl : op.destination? = some .inHl) : after.pc = regs.hl := by
  cases h with
  | jumped printed => cases inHl.symm.trans printed
  | called printed => cases inHl.symm.trans printed
  | atHl => rfl
  | returned onStack => cases inHl.symm.trans onStack

theorem Arrives.of_onStack (h : op.Arrives operand regs accesses after)
    (onStack : op.destination? = some .onStack) :
    ∃ low high, accesses = [.read regs.sp low, .read (regs.sp + 1) high] ∧
      after = { regs with sp := regs.sp + 2, pc := word high low } := by
  cases h with
  | jumped printed => cases onStack.symm.trans printed
  | called printed => cases onStack.symm.trans printed
  | atHl inHl => cases onStack.symm.trans inHl
  | returned _ _ low high => exact ⟨low, high, rfl, rfl⟩

theorem Arrives.of_links (h : op.Arrives operand regs accesses after) (links : op.links = true) :
    accesses =
        [.write (regs.sp - 1) (highByte regs.pc), .write (regs.sp - 2) (lowByte regs.pc)] ∧
      after.sp = regs.sp - 2 := by
  cases h with
  | jumped _ apart => cases links.symm.trans apart
  | called => exact ⟨rfl, rfl⟩
  | atHl _ apart => cases links.symm.trans apart
  | returned _ apart => cases links.symm.trans apart

end arrives

end Operation

namespace Exec

variable {α : Type} {cpu : Cpu}

/-! ### Operations that leave PC alone -/

theorem ensures_plain (body : Exec Unit) {Q : List Access → List LogEvent → Bool → Cpu → Prop} :
    Ensures (plain body) cpu Q ↔
      Ensures body cpu fun accesses reports _ => Q accesses reports false := by
  simp [plain]

theorem ensures_transfer_taken {condition : Option Condition} {body : Exec Unit}
    (holds : condition.all (Condition.holds cpu.regs.flags) = true)
    {Q : List Access → List LogEvent → Bool → Cpu → Prop} :
    Ensures (transfer condition body) cpu Q ↔
      Ensures body cpu fun accesses reports _ => Q accesses reports true := by
  simp [transfer, holds]

theorem ensures_transfer_untaken {condition : Option Condition} {body : Exec Unit}
    (fails : condition.all (Condition.holds cpu.regs.flags) = false)
    {Q : List Access → List LogEvent → Bool → Cpu → Prop} :
    Ensures (transfer condition body) cpu Q ↔ Q [] [] false cpu := by
  simp [transfer, fails]

/-- Whether a program leaves PC as it was. -/
def KeepsPc (program : Exec α) : Prop :=
  ∀ cpu, Ensures program cpu fun _ _ _ after => after.regs.pc = cpu.regs.pc

theorem pc_operandStep (operand : Operand) (regs : Registers) :
    (operand.step regs).pc = regs.pc := by
  cases operand <;> rfl

/-- **Going on**: an operation that does not transfer control leaves PC as it was. -/
theorem ensures_perform_onward (address operand : UInt16) {op : Operation}
    (onward : op.transfers cpu.regs.flags = false) :
    Ensures (perform address operand op) cpu fun _ _ taken after =>
      taken = false ∧ after.regs.pc = cpu.regs.pc := by
  have pc := cumulative_view Registers.pc
  have plain {body : Exec Unit} (kept : KeepsPc body) :
      Ensures (Exec.plain body) cpu fun _ _ taken after =>
        taken = false ∧ after.regs.pc = cpu.regs.pc := by
    rw [ensures_plain]
    exact (kept cpu).mono fun _ _ _ _ kept => ⟨rfl, kept⟩
  have read (source : Operand) : KeepsPc (source.read operand) :=
    within_operandRead pc operand fun _ => pc_operandStep source _
  have update {f : Registers → Registers} (kept : ∀ regs, (f regs).pc = regs.pc) :
      KeepsPc (updateRegs f) :=
    within_updateRegs fun _ => kept _
  have set (target : Operand) {f : UInt8 → Flags → UInt8 × Flags} :
      KeepsPc (target.update operand f) :=
    within_operandUpdate pc operand (fun _ => pc_operandStep target _) (fun _ _ => rfl)
      fun _ _ _ _ => Registers.pc_setByte _ _ _
  cases op with
  | jump condition | jumpBy condition | call condition | ret condition =>
    exact (ensures_transfer_untaken onward).mpr ⟨rfl, rfl⟩
  | jumpHl | reti | restart => cases onward
  | nop | extension | unassigned | stop | halt | di | ei =>
    simp [perform, Exec.plain, Cpu.disableInterrupts]
  | load dst src =>
    exact plain (Within.bind pc (read src) fun _ =>
      within_operandWrite pc operand (fun _ => pc_operandStep dst _) fun _ _ _ =>
        Registers.pc_setByte _ _ _)
  | storeSp => simp [perform, Exec.plain]
  | loadHlSp => simp [perform, Exec.plain]
  | alu kind src => exact plain (Within.bind pc (read src) fun _ => update fun _ => rfl)
  | inc target | dec target | shift kind target | res index target | set index target =>
    exact plain (set target)
  | bit index target => exact plain (Within.bind pc (read target) fun _ => update fun _ => rfl)
  | loadWord pair | incWord pair | decWord pair | addHl pair =>
    exact plain (update fun _ => Registers.pc_setWord _ _ _)
  | loadSpHl | addSp | rotateA kind | daa | cpl | scf | ccf => exact plain (update fun _ => rfl)
  | push pair =>
    simp [perform, Exec.plain]
  | pop pair =>
    exact plain (Within.bind pc (within_pop pc fun _ _ => rfl) fun _ =>
      update fun _ => Registers.pc_setWord _ _ _)

/-! ### Operations that transfer control -/

/-- **Arriving**: an operation that transfers control arrives at its destination.  It tells that it
was taken, unless it is never anything else. -/
theorem ensures_perform_arrives (address operand : UInt16) {op : Operation}
    (transfers : op.transfers cpu.regs.flags = true) :
    Ensures (perform address operand op) cpu fun accesses _ taken after =>
      (taken = true ∨ op.isConditional = false) ∧
        op.Arrives operand cpu.regs accesses after.regs := by
  cases op with
  | jump condition =>
    rw [perform, ensures_transfer_taken transfers, ensures_jump]
    exact ⟨.inl rfl, .jumped rfl rfl⟩
  | jumpBy condition =>
    rw [perform, ensures_transfer_taken transfers]
    simp only [ensures_bind, ensures_regs, ensures_jump]
    exact ⟨.inl trivial, .jumped rfl rfl⟩
  | call condition =>
    rw [perform, ensures_transfer_taken transfers]
    simp only [call, ensures_bind, ensures_regs, ensures_push, ensures_jump]
    exact ⟨.inl trivial, .called rfl rfl⟩
  | restart vector =>
    rw [perform, ensures_plain]
    simp only [call, ensures_bind, ensures_regs, ensures_push, ensures_jump]
    exact ⟨.inr rfl, .called rfl rfl⟩
  | jumpHl =>
    rw [perform, ensures_plain]
    simp only [ensures_bind, ensures_regs, ensures_jump]
    exact ⟨.inr rfl, .atHl rfl rfl⟩
  | ret condition =>
    rw [perform, ensures_transfer_taken transfers]
    simp only [ret, ensures_bind, ensures_pop, ensures_jump]
    exact fun low high => ⟨.inl trivial, .returned rfl rfl low high⟩
  | reti =>
    rw [perform, ensures_plain]
    simp only [ret, ensures_bind, ensures_pop, ensures_jump, ensures_modify]
    exact fun low high => ⟨.inr rfl, .returned rfl rfl low high⟩
  | _ => cases transfers

end Exec

/-! ### What is printed -/

namespace Operation

/-- The text of a printed destination. -/
def shownTarget (operand next : UInt16) : Operation → String
  | .restart vector => hexByte vector
  | op => hexWord (op.target operand next)

/-- The condition in front of a destination has no dollar sign. -/
theorem dollar_not_mem_condition (condition : Option Condition) :
    '$' ∉ (Piece.join Piece.name (Condition.layout condition)).toList := by
  rcases condition with _ | condition
  · decide
  · cases condition <;> decide

/-- The destination after a condition stands at the end of the text. -/
theorem exists_join_condition {mnemonic digits : String} (plain : '$' ∉ mnemonic.toList)
    (condition : Option Condition) {kind : Field} {operand next : UInt16} (name : String)
    (filled : kind.text operand next = "$" ++ digits) :
    ∃ front : String, '$' ∉ front.toList ∧
      Piece.join (Piece.fill operand next)
        (.words mnemonic :: .words " " :: Condition.layout condition ++ [.field kind name]) =
          front ++ ("$" ++ digits) := by
  refine ⟨mnemonic ++ (" " ++ Piece.join Piece.name (Condition.layout condition)), ?_, ?_⟩
  · have blank : '$' ∉ " ".toList := by decide
    have word := dollar_not_mem_condition condition
    simp only [String.toList_append, List.mem_append]
    rintro (inside | inside | inside)
    · exact plain inside
    · exact blank inside
    · exact word inside
  · rcases condition with _ | condition
    · simp [Condition.layout, Piece.join, Piece.fill, filled, String.append_assoc]
    · simp [Condition.layout, Piece.join, Piece.fill, Piece.name, filled, String.append_assoc]

/-- **Printed destinations** stand at the end of the text, behind its only dollar sign. -/
theorem exists_listing_printed {op : Operation} (printed : op.destination? = some .printed)
    (operand next : UInt16) :
    ∃ front : String, '$' ∉ front.toList ∧
      op.listing operand next = front ++ ("$" ++ op.shownTarget operand next) := by
  cases op with
  | jump condition | call condition | jumpBy condition =>
    exact exists_join_condition (by rw [mnemonic]; decide) condition _ rfl
  | restart vector =>
    refine ⟨"RST ", by decide, ?_⟩
    have split : "RST" ++ (" $" ++ hexByte vector) = "RST " ++ ("$" ++ hexByte vector) := by
      rw [← String.append_assoc, ← String.append_assoc]
      rfl
    simpa [listing, layout, operandLayout, mnemonic, shownTarget, Piece.join, Piece.fill] using split
  | _ => cases printed

/-- What is shown is the address that the transfer leads to. -/
theorem readHex?_shownTarget (op : Operation) (operand next : UInt16) :
    readHex? (op.shownTarget operand next).toList = some (op.target operand next).toNat ∧
      (op.shownTarget operand next).toList.length = op.targetDigits := by
  have four (w : UInt16) : readHex? (hexWord w).toList = some w.toNat ∧
      (hexWord w).toList.length = 4 := by
    rw [toList_hexWord]
    exact ⟨readHex?_hexWordDigits w, rfl⟩
  cases op with
  | restart vector =>
    rw [shownTarget, toList_hexByte, readHex?_hexByteDigits, target, toNat_word]
    exact ⟨congrArg some (Nat.zero_add _).symm, rfl⟩
  | _ => exact four _

/-- The number that a text with a printed destination shows. -/
theorem digitsIn_listing {op : Operation} (printed : op.destination? = some .printed)
    (operand next : UInt16) :
    readHex? (digitsIn (op.listing operand next)) = some (op.target operand next).toNat ∧
      (digitsIn (op.listing operand next)).length = op.targetDigits := by
  obtain ⟨front, plain, shown⟩ := exists_listing_printed printed operand next
  rw [shown, digitsIn_append plain]
  exact op.readHex?_shownTarget operand next

end Operation

/-! ### Agreement -/

theorem Instruction.Encoded.timing_eq {address : UInt16} {bytes : List UInt8} {ins : Instruction}
    (h : Encoded address bytes ins) : ins.entry.timing = ins.operation.timing := by
  cases h <;> rfl

theorem Instruction.cost_of_transfers {ins : Instruction}
    (timing : ins.entry.timing = ins.operation.timing) {taken : Bool}
    (told : taken = true ∨ ins.operation.isConditional = false) :
    ins.cost taken = ins.entry.timing.taken := by
  cases taken with
  | true => rfl
  | false =>
    have always : ins.operation.isConditional = false := told.resolve_left Bool.false_ne_true
    have same := (Operation.timing_taken_eq_iff _).mpr always
    rw [← timing] at same
    exact same.symm

theorem filter_isWrite_of_reads {accesses : List Access}
    (reads : ∀ access ∈ accesses, access.isRead = true) :
    accesses.filter Access.isWrite = [] := by
  rw [List.filter_eq_nil_iff]
  intro access made written
  have read := reads access made
  cases access with
  | read => cases written
  | write => cases read
  | tick => cases read

@[simp] theorem Cpu.regs_finish (cost : Nat) (cpu : Cpu) : (cpu.finish cost).regs = cpu.regs := by
  rw [finish, advanceEnable_eq]

namespace Computer

variable {β : Type} [Device β] {s : Computer β}

/-- What the next step does when it executes an instruction at a cost, told by the line of the
listing for PC. -/
structure Executes (s : Computer β) (line : Line) (ins : Instruction) (cost : Nat) : Prop where
  fetched : fetched s.cpu.regs.pc s.board.bus = .ok ins
  /-- Whatever does not transfer control goes on behind the line. -/
  onward : ins.operation.transfers s.cpu.regs.flags = false →
    s.step.2.cpu.regs.pc = s.cpu.regs.pc + UInt16.ofNat line.length ∧
      cost = ins.entry.timing.untaken
  transferred : ins.operation.transfers s.cpu.regs.flags = true → cost = ins.entry.timing.taken
  /-- A printed destination is the new PC. -/
  printed : ins.operation.transfers s.cpu.regs.flags = true →
    ins.operation.destination? = some .printed →
      readHex? (digitsIn line.text) = some s.step.2.cpu.regs.pc.toNat ∧
        (digitsIn line.text).length = ins.operation.targetDigits
  inHl : ins.operation.transfers s.cpu.regs.flags = true →
    ins.operation.destination? = some .inHl → s.step.2.cpu.regs.pc = s.cpu.regs.hl
  /-- A return pops the new PC. -/
  onStack : ins.operation.transfers s.cpu.regs.flags = true →
    ins.operation.destination? = some .onStack →
      s.step.2.cpu.regs.pc =
          word (byteAt s.board.bus (s.cpu.regs.sp + 1)) (byteAt s.board.bus s.cpu.regs.sp) ∧
        s.step.2.cpu.regs.sp = s.cpu.regs.sp + 2
  /-- A call writes nothing but the address behind the line, which it pushes. -/
  linked : ins.operation.transfers s.cpu.regs.flags = true → ins.operation.links = true →
    s.accesses.filter Access.isWrite =
        [.write (s.cpu.regs.sp - 1)
            (highByte (s.cpu.regs.pc + UInt16.ofNat line.length)),
          .write (s.cpu.regs.sp - 2)
            (lowByte (s.cpu.regs.pc + UInt16.ofNat line.length))] ∧
      s.step.2.cpu.regs.sp = s.cpu.regs.sp - 2

/-- Whether the next step does what the line of the listing for PC says. -/
structure Agrees (s : Computer β) (line : Line) : Prop where
  fails_iff : (∃ e, s.step.1 = .error e) ↔
    line.text = "DB $" ++ hexByte (byteAt s.board.bus s.cpu.regs.pc)
  length_of_fails : ∀ e, s.step.1 = .error e → line.length = 1
  executes : ∀ cost, s.step.1 = .ok cost → ∃ ins, s.Executes line ins cost

/-- A slot that refuses the byte at PC agrees with a line of data. -/
theorem agrees_of_fault (quiet : QuietReads s.board.bus) {fault : FetchError}
    (refused : fetched s.cpu.regs.pc s.board.bus = .error fault)
    {e : StepError} (failed : (s.slot 0).1 = .error e) :
    s.Agrees (listed s.cpu.regs.pc s.board.bus) := by
  have told : s.step.1 = .error e := by rw [step_eq, failed]; rfl
  have line : listed s.cpu.regs.pc s.board.bus =
      ⟨"DB $" ++ hexByte (byteAt s.board.bus s.cpu.regs.pc), 1⟩ := by
    rw [listed_eq, refused, ← (refused_of_fetched quiet refused).1]
    rfl
  rw [line]
  refine ⟨⟨fun _ => rfl, fun _ => ⟨e, told⟩⟩, fun _ _ => rfl, fun cost succeeded => ?_⟩
  rw [told] at succeeded
  cases succeeded

/-- An instruction that was performed behind its own bytes did what its line says. -/
theorem executes_of_performed (quiet : QuietReads s.board.bus) {ins : Instruction} {taken : Bool}
    {start after : Cpu} {accesses : List Access} {reports : List LogEvent}
    (found : fetched s.cpu.regs.pc s.board.bus = .ok ins)
    (performed : ((Exec.perform ins.address ins.operand ins.operation).run start).Path accesses
      reports (taken, after))
    (before : start.regs = { s.cpu.regs with pc := ins.next })
    (answers : Answers s.board.bus accesses)
    (writes : s.accesses.filter Access.isWrite = accesses.filter Access.isWrite)
    (state : s.step.2.cpu.regs = after.regs) :
    s.Executes ⟨ins.text, ins.length⟩ ins (ins.cost taken) := by
  obtain ⟨bytes, encoded, -⟩ := encoded_of_fetched quiet found
  have next : ins.next = s.cpu.regs.pc + UInt16.ofNat ins.length := by
    rw [Instruction.next, encoded.address_eq]
  have flags : start.regs.flags = s.cpu.regs.flags := by rw [before]
  have arrives (transfers : ins.operation.transfers s.cpu.regs.flags = true) :
      (taken = true ∨ ins.operation.isConditional = false) ∧
        ins.operation.Arrives ins.operand { s.cpu.regs with pc := ins.next } accesses
          after.regs := by
    rw [← flags] at transfers
    rw [← before]
    exact Exec.ensures_perform_arrives ins.address ins.operand transfers _ _ _ performed
  refine ⟨found, ?_, ?_, ?_, ?_, ?_, ?_⟩
  · intro onward
    rw [← flags] at onward
    obtain ⟨rfl, pc⟩ :=
      Exec.ensures_perform_onward ins.address ins.operand onward _ _ _ performed
    rw [state, pc, before]
    exact ⟨next, rfl⟩
  · intro transfers
    exact ins.cost_of_transfers encoded.timing_eq (arrives transfers).1
  · intro transfers printed
    rw [state, (arrives transfers).2.pc_of_printed printed]
    exact Operation.digitsIn_listing printed ins.operand ins.next
  · intro transfers inHl
    rw [state]
    exact (arrives transfers).2.pc_of_inHl inHl
  · intro transfers onStack
    obtain ⟨low, high, rfl, registers⟩ := (arrives transfers).2.of_onStack onStack
    obtain ⟨first, second, -⟩ : byteAt s.board.bus s.cpu.regs.sp = low ∧
        byteAt s.board.bus (s.cpu.regs.sp + 1) = high ∧ Answers s.board.bus [] := by
      rwa [quiet.answers_cons, quiet.answers_cons] at answers
    rw [state, registers, first, second]
    exact ⟨rfl, rfl⟩
  · intro transfers links
    obtain ⟨rfl, sp⟩ := (arrives transfers).2.of_links links
    rw [state, writes, sp, ← next]
    exact ⟨rfl, rfl⟩

/-- A slot that executes the instruction at PC agrees with its line. -/
theorem agrees_of_executed {line : Line} {ins : Instruction} {taken : Bool}
    (text : line.text = ins.text) (outcome : (s.slot 0).1 = .ok (.executed ins (ins.cost taken)))
    (executes : s.Executes line ins (ins.cost taken)) : s.Agrees line := by
  have told : s.step.1 = .ok (ins.cost taken) := by rw [step_eq, outcome]; rfl
  have succeeds (e : StepError) : s.step.1 ≠ .error e := by
    rw [told]
    intro same
    cases same
  refine ⟨⟨?_, ?_⟩, fun e failed => absurd failed (succeeds e), ?_⟩
  · rintro ⟨e, failed⟩
    exact absurd failed (succeeds e)
  · intro data
    exact absurd (text.symm.trans data) (ins.operation.listing_ne_data _ _ _)
  · intro cost succeeded
    obtain rfl : ins.cost taken = cost := Except.ok.inj (told.symm.trans succeeded)
    exact ⟨ins, executes⟩

/-- **The listing and the core agree**: on a bus that does not notice being read, a step that
neither enters an interrupt nor idles does what the line of the listing for PC says. -/
theorem agrees_listed (quiet : QuietReads s.board.bus)
    (executes : ∀ done, (s.slot 0).1 = .ok done → done.isExecuted = true) :
    s.Agrees (listed s.cpu.regs.pc s.board.bus) := by
  have course := s.course_slot
  have answers := s.answers_slot
  have state : s.step.2.cpu = (s.slot 0).2.cpu := rfl
  generalize outcome : (s.slot 0).1 = told at course
  generalize left : (s.slot 0).2.cpu = after at course
  generalize made : s.accesses = accesses at course answers
  generalize s.reports = reports at course
  have asleep {done : Slot} (outcome : (s.slot 0).1 = .ok done) (other : done.isExecuted = false) :
      s.Agrees (listed s.cpu.regs.pc s.board.bus) :=
    absurd (executes done outcome) (by rw [other]; exact Bool.false_ne_true)
  have readEnable := quiet.read Interrupt.enableAddress
  have readRequest := quiet.read Interrupt.requestAddress
  cases course with
  | frozen => exact asleep outcome rfl
  | entered => exact asleep outcome rfl
  | idled => exact asleep outcome rfl
  | faulted thawed woken masked fetch =>
    have rest := (thawed.answers_append readEnable readRequest answers).2
    exact agrees_of_fault quiet (fetched_of_path fetch rest) outcome
  | @executed thaw fetch accesses _ _ _ _ _ ins taken after thawed woken masked fetching
      performed =>
    have rest := (thawed.answers_append readEnable readRequest answers).2
    have reads := Instruction.ensures_fetch_isRead _ _ _ _ fetching
    rw [answers_append, replay_of_reads quiet reads, answers_append] at rest
    obtain ⟨fetchAnswers, performAnswers, -⟩ := rest
    have found := fetched_of_path fetching fetchAnswers
    have line : listed s.cpu.regs.pc s.board.bus = ⟨ins.text, ins.length⟩ := by
      rw [listed_eq, found]
      rfl
    have writes : s.accesses.filter Access.isWrite = accesses.filter Access.isWrite := by
      have polled (enabled requested : UInt8) :
          (pollAccesses enabled requested).filter Access.isWrite = [] := rfl
      have begun := filter_isWrite_of_reads fun _ => thawed.isRead_of_mem
      have fetched := filter_isWrite_of_reads reads
      rw [made]
      simp only [List.filter_append, polled, begun, fetched, List.nil_append]
      exact List.append_nil _
    rw [line]
    refine agrees_of_executed rfl outcome
      (executes_of_performed quiet found performed rfl performAnswers writes ?_)
    rw [state, left, Cpu.regs_finish]

/-- A jump back over the beginning of the address space agrees with its line. -/
theorem agrees_listed_wrapping : (ofProgram #[0x18, 0xFC]).Agrees ⟨"JR $FFFE", 2⟩ := by
  have quiet : QuietReads (ofProgram #[0x18, 0xFC]).board.bus :=
    (SystemBus.plain_ofCartridge _).quietReads
  have told : ((ofProgram #[0x18, 0xFC]).slot 0).1.toOption.all Slot.isExecuted = true := by
    decide +kernel
  have executes : ∀ done, ((ofProgram #[0x18, 0xFC]).slot 0).1 = .ok done →
      done.isExecuted = true := by
    intro done outcome
    rw [outcome] at told
    exact told
  have line : listed 0 (ofProgram #[0x18, 0xFC]).board.bus = ⟨"JR $FFFE", 2⟩ := by
    decide +kernel
  rw [← line]
  exact agrees_listed quiet executes

end Computer

end Sm83
