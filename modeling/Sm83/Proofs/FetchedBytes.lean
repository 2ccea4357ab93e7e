import Sm83.Proofs.Encoding

/-! # The bytes that fetching reads

Fetching reads one instruction off the bus, and nothing else.

* **The first byte** decides alone whether there is an instruction: it is refused if it is a hole in
  the table of opcodes, or if the last byte of its instruction would be past the last address.
* **The row.** What is accepted is read from its first byte to its last, through consecutive
  addresses that do not wrap (`filterMap_readAt?_readsFrom`).
* **The operand** is the number that the bytes after the opcode write, the low byte first
  (`Encoded.toNat_operand`).
* **Main statement.** `fetchesExactly`: all this on any bus, whatever a read does to it. -/

namespace Sm83

/-! ### Rows of reads -/

/-- The number of the address that an access reads, if it is a read. -/
def Access.readAt? : Access → Option Nat
  | .read address _ => some address.toNat
  | _ => none

/-- A row of reads that ends in time goes through consecutive addresses and does not wrap. -/
theorem filterMap_readAt?_readsFrom {address : UInt16} {bytes : List UInt8}
    (inTime : address.toNat + bytes.length ≤ 0x10000) :
    (readsFrom address bytes).filterMap Access.readAt? =
      List.range' address.toNat bytes.length := by
  induction bytes generalizing address with
  | nil => rfl
  | cons byte rest ih =>
    rw [List.length_cons] at inTime
    rw [readsFrom, List.filterMap_cons, Access.readAt?, List.length_cons, List.range'_succ]
    -- The address after the last byte may wrap, but nothing is read there.
    by_cases last : rest = []
    · subst last
      rfl
    · have more : 0 < rest.length := List.length_pos_iff.mpr last
      have next : (address + 1).toNat = address.toNat + 1 := by
        rw [UInt16.toNat_add, UInt16.toNat_one]
        omega
      rw [← next, ih (by omega)]

theorem isRead_of_mem_readsFrom {address : UInt16} {bytes : List UInt8} {access : Access}
    (made : access ∈ readsFrom address bytes) : access.isRead = true := by
  induction bytes generalizing address with
  | nil => cases made
  | cons byte rest ih =>
    rcases List.mem_cons.mp made with rfl | later
    · rfl
    · exact ih later

namespace Instruction

variable {address : UInt16} {opcode : UInt8} {rest : List UInt8} {ins : Instruction}

/-! ### Operands -/

/-- The number that some bytes write, the low byte first. -/
def littleEndian : List UInt8 → Nat
  | [] => 0
  | low :: rest => low.toNat + 256 * littleEndian rest

/-- The operand is what the bytes after the opcode write; an extended instruction has none. -/
theorem Encoded.toNat_operand (h : Encoded address (opcode :: rest) ins) :
    ins.operand.toNat = if ins.entry.extended then 0 else littleEndian rest := by
  cases h with
  | extended opcode => rfl
  | single => rfl
  | double _ _ low =>
    show (word 0 low).toNat = low.toNat + 256 * 0
    rw [toNat_word, UInt8.toNat_zero]
    omega
  | triple _ low high =>
    show (word high low).toNat = low.toNat + 256 * (high.toNat + 256 * 0)
    rw [toNat_word]
    omega

/-! ### Fetching -/

/-- The number of the last address of the instruction that a byte at an address begins. -/
def lastByte (address : UInt16) (opcode : UInt8) : Nat :=
  address.toNat + (decode opcode).length - 1

/-- What fetching does where it finds a byte: its accesses and its outcome. -/
structure FetchesExactly (address : UInt16) (opcode : UInt8) (accesses : List Access)
    (outcome : Except FetchError Instruction) : Prop where
  reads : ∀ access ∈ accesses, access.isRead = true
  unassigned : opcode ∈ Opcode.unassigned →
    accesses = [.read address opcode] ∧ outcome = .error (.unassigned opcode)
  truncated : opcode ∉ Opcode.unassigned → 0xFFFF < lastByte address opcode →
    accesses = [.read address opcode] ∧ outcome = .error (.truncated opcode)
  /-- Success is decided by the first byte and its address. -/
  succeeds : (∃ ins, outcome = .ok ins) ↔
    opcode ∉ Opcode.unassigned ∧ lastByte address opcode ≤ 0xFFFF
  /-- An instruction is read from its first byte to its last, once and in order. -/
  row : ∀ ins, outcome = .ok ins → ∃ rest, accesses = readsFrom address (opcode :: rest) ∧
    accesses.filterMap Access.readAt? = List.range' address.toNat ins.length ∧
    Encoded address (opcode :: rest) ins ∧ ins.length = (decode opcode).length ∧
    ins.operand.toNat = if ins.entry.extended then 0 else littleEndian rest

/-- A refused byte is the only one that is read. -/
theorem FetchesExactly.of_refused {fault : FetchError} (refused : Refused address opcode fault) :
    FetchesExactly address opcode [.read address opcode] (.error fault) := by
  have hole := refused.eq_unassigned_iff
  have late := refused.eq_truncated_iff
  have apart : fault = .unassigned opcode ∨ fault = .truncated opcode := by
    cases refused with
    | unassigned => exact .inl rfl
    | truncated => exact .inr rfl
  refine ⟨fun access made => ?_, fun inHole => ⟨rfl, congrArg _ (hole.mpr inHole)⟩,
    fun assigned past => ⟨rfl, congrArg _ (late.mpr ⟨assigned, past⟩)⟩, ⟨?_, ?_⟩, ?_⟩
  · obtain rfl := List.mem_singleton.mp made
    rfl
  · rintro ⟨ins, fetched⟩
    cases fetched
  · rintro ⟨assigned, inTime⟩
    rcases apart with unassigned | truncated
    · exact absurd (hole.mp unassigned) assigned
    · exact absurd (late.mp truncated).2 (Nat.not_lt.mpr inTime)
  · intro ins fetched
    cases fetched

/-- An accepted byte begins the row that is read. -/
theorem FetchesExactly.of_encoded (assigned : (decode opcode).isUnassigned = false)
    (inTime : address.toNat + (decode opcode).length ≤ 0x10000)
    (encoded : Encoded address (opcode :: rest) ins) :
    FetchesExactly address opcode (readsFrom address (opcode :: rest)) (.ok ins) := by
  have notHole : opcode ∉ Opcode.unassigned := by
    rw [← isUnassigned_decode_iff, assigned]
    exact Bool.false_ne_true
  have last : lastByte address opcode ≤ 0xFFFF := by
    rw [lastByte]
    omega
  have length : ins.length = (decode opcode).length := by
    rw [encoded.length_eq, encoded.length_decode, List.length_cons]
  refine ⟨fun _ => isRead_of_mem_readsFrom, fun hole => absurd hole notHole,
    fun _ late => absurd last (Nat.not_le.mpr late),
    ⟨fun _ => ⟨notHole, last⟩, fun _ => ⟨ins, rfl⟩⟩, fun found fetched => ?_⟩
  obtain rfl := Except.ok.inj fetched
  refine ⟨rest, rfl, ?_, encoded, length, encoded.toNat_operand⟩
  rw [encoded.length_decode] at inTime
  rw [filterMap_readAt?_readsFrom inTime, encoded.length_eq]

theorem ensures_fetch_exactly (address : UInt16) :
    (fetch address).Ensures fun accesses reports outcome => reports = [] ∧
      ∃ opcode, accesses.head? = some (.read address opcode) ∧
        FetchesExactly address opcode accesses outcome := by
  rw [ensures_fetch]
  intro opcode
  split
  case isTrue hole => exact ⟨rfl, opcode, rfl, .of_refused (.unassigned hole)⟩
  case isFalse assigned =>
    have assigned := eq_false_of_ne_true assigned
    split
    case isTrue late => exact ⟨rfl, opcode, rfl, .of_refused (.truncated assigned late)⟩
    case isFalse inTime =>
      refine (ensures_fetchRest_encoded address assigned).mono ?_
      rintro accesses reports ins ⟨rest, rfl, rfl, encoded⟩
      exact ⟨rfl, opcode, rfl, .of_encoded assigned (Nat.le_of_not_lt inTime) encoded⟩

/-- **Fetching is exact**: on any bus it reads the instruction that begins at the address, each byte
once and in order, or only the first byte where there is none; and it does nothing else. -/
theorem fetchesExactly {β : Type} [Device β] (address : UInt16) (board : Board β) :
    Answers board.bus ((fetch address).accesses board.bus) ∧
      (fetch address).reports board.bus = [] ∧
      ((fetch address).run board).2.bus =
        (replay ((fetch address).accesses board.bus) board.bus).state ∧
      FetchesExactly address (byteAt board.bus address) ((fetch address).accesses board.bus)
        ((fetch address).run board).1 := by
  obtain ⟨silent, opcode, first, exactly⟩ := (ensures_fetch_exactly address).run board
  have answers := Interaction.answers_accesses (fetch address) board.bus
  obtain ⟨later, made⟩ := List.head?_eq_some_iff.mp first
  have shown : byteAt board.bus address = opcode := by
    rw [made] at answers
    exact answers.1
  rw [shown]
  exact ⟨answers, silent, Interaction.bus_run _ _, exactly⟩

/-- The last two addresses hold the last instruction of two bytes that can be fetched. -/
example : FetchesExactly 0xFFFE 0x3E [.read 0xFFFE 0x3E, .read 0xFFFF 0x42]
    (.ok ⟨0xFFFE, decode 0x3E, 0x42⟩) :=
  .of_encoded rfl (by decide) (.double (by decide) rfl 0x42)

end Instruction

end Sm83
