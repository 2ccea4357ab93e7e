import Sm83.Proofs.Faults

/-! # Encodings

Fetching reads the bytes of what it finds, and no others.

* **Bytes.** `byteAt bus address` is the byte that a bus shows.  A quiet bus answers a row of reads
  (`readsFrom`) with the bytes that it shows there (`answers_readsFrom`).
* **Encodings.** `Encoded address bytes ins` says that these bytes encode the instruction at the
  address.  What fetching finds is encoded by the bytes that were read, in their order
  (`ensures_fetch_encoded`).
* **Quiet buses.** There `fetched address bus` and `listed address bus` are what fetching and
  disassembling give.  An instruction that is fetched is encoded by the bytes that the bus shows
  (`encoded_of_fetched`); otherwise the first of them is refused (`refused_of_fetched`). -/

namespace Sm83

/-! ### Bytes -/

/-- Reads of addresses one after the other, and the bytes that they give. -/
def readsFrom (address : UInt16) : List UInt8 → List Access
  | [] => []
  | byte :: rest => .read address byte :: readsFrom (address + 1) rest

section bus
variable {β : Type} [Device β] {bus : β}

/-- The byte that a bus shows at an address. -/
def byteAt (bus : β) (address : UInt16) : UInt8 := (Device.read address bus).value

theorem QuietReads.read (quiet : QuietReads bus) (address : UInt16) :
    Device.read address bus = ⟨byteAt bus address, bus, []⟩ := by
  obtain ⟨value, read⟩ := quiet address
  rw [byteAt, read]

theorem QuietReads.answers_cons (quiet : QuietReads bus) (address : UInt16) (byte : UInt8)
    (rest : List Access) :
    Answers bus (.read address byte :: rest) ↔ byteAt bus address = byte ∧ Answers bus rest := by
  have state : (Access.operation (.read address byte) bus).state = bus := by
    rw [Access.operation, quiet.read]
    rfl
  rw [Sm83.answers_cons, state]
  rfl

/-- A quiet bus answers a row of reads with the bytes that it shows there. -/
theorem QuietReads.answers_readsFrom (quiet : QuietReads bus) (address : UInt16)
    (bytes : List UInt8) :
    Answers bus (readsFrom address bytes) ↔
      ∀ k (inside : k < bytes.length), byteAt bus (address + UInt16.ofNat k) = bytes[k] := by
  induction bytes generalizing address with
  | nil => exact ⟨fun _ k inside => absurd inside (Nat.not_lt_zero k), fun _ => trivial⟩
  | cons byte rest ih =>
    have next (k : Nat) : address + UInt16.ofNat (k + 1) = address + 1 + UInt16.ofNat k := by
      rw [UInt16.ofNat_add, UInt16.add_assoc, UInt16.add_comm (UInt16.ofNat k)]
      rfl
    rw [readsFrom, quiet.answers_cons, ih]
    constructor
    · rintro ⟨first, others⟩ k inside
      cases k with
      | zero => simpa using first
      | succ k =>
        rw [next]
        exact others k (Nat.lt_of_succ_lt_succ inside)
    · intro all
      refine ⟨by simpa using all 0 (Nat.zero_lt_succ _), fun k inside => ?_⟩
      rw [← next]
      exact all (k + 1) (Nat.succ_lt_succ inside)

end bus

/-! ### Encodings -/

namespace Instruction

/-- The instructions that have an encoding, and the bytes that encode them at an address. -/
inductive Encoded (address : UInt16) : List UInt8 → Instruction → Prop
  | extended (opcode : UInt8) :
      Encoded address [Opcode.extension, opcode] ⟨address, decodeExtended opcode, 0⟩
  | single {opcode : UInt8} (assigned : (decode opcode).isUnassigned = false)
      (length : (decode opcode).length = 1) :
      Encoded address [opcode] ⟨address, decode opcode, 0⟩
  | double {opcode : UInt8} (plain : opcode ≠ Opcode.extension)
      (length : (decode opcode).length = 2) (low : UInt8) :
      Encoded address [opcode, low] ⟨address, decode opcode, word 0 low⟩
  | triple {opcode : UInt8} (length : (decode opcode).length = 3) (low high : UInt8) :
      Encoded address [opcode, low, high] ⟨address, decode opcode, word high low⟩

variable {address : UInt16} {bytes : List UInt8} {ins : Instruction}

theorem Encoded.address_eq (h : Encoded address bytes ins) : ins.address = address := by
  cases h <;> rfl

theorem Encoded.length_eq (h : Encoded address bytes ins) : ins.length = bytes.length := by
  cases h with
  | extended opcode => exact length_decodeExtended opcode
  | single _ length => exact length
  | double _ length => exact length
  | triple length => exact length

/-- How long an encoding is can be told from its first byte. -/
theorem Encoded.length_decode {opcode : UInt8} {rest : List UInt8}
    (h : Encoded address (opcode :: rest) ins) : (decode opcode).length = rest.length + 1 := by
  cases h with
  | extended => rfl
  | single _ length => exact length
  | double _ length => exact length
  | triple length => exact length

/-- Every entry of the base table takes from one to three bytes. -/
theorem length_decode_cases (opcode : UInt8) :
    (decode opcode).length = 1 ∨ (decode opcode).length = 2 ∨ (decode opcode).length = 3 := by
  revert opcode
  apply forall_byte
  decide +kernel

/-- The bytes after an assigned first byte complete an encoding. -/
theorem ensures_fetchRest_encoded (address : UInt16) {opcode : UInt8}
    (assigned : (decode opcode).isUnassigned = false) :
    (fetchRest address (decode opcode)).Ensures fun accesses reports ins =>
      ∃ rest, accesses = readsFrom (address + 1) rest ∧ reports = [] ∧
        Encoded address (opcode :: rest) ins := by
  unfold fetchRest
  split
  case isTrue extension =>
    obtain rfl := (isExtension_decode_iff opcode).mp extension
    simp only [Interaction.readByte, Interaction.ensures_bind, Interaction.ensures_read,
      Interaction.ensures_done, Interaction.ensures_pure]
    intro second
    exact ⟨[second], rfl, rfl, .extended second⟩
  case isFalse plain =>
    have apart : opcode ≠ Opcode.extension := mt (isExtension_decode_iff opcode).mpr plain
    split
    case h_1 length =>
      simp only [Interaction.readByte, Interaction.ensures_bind, Interaction.ensures_read,
        Interaction.ensures_done, Interaction.ensures_pure]
      intro low
      exact ⟨[low], rfl, rfl, .double apart length low⟩
    case h_2 length =>
      simp only [Interaction.readByte, Interaction.ensures_bind, Interaction.ensures_read,
        Interaction.ensures_done, Interaction.ensures_pure]
      intro low high
      have second : address + 2 = address + 1 + 1 := by rw [UInt16.add_assoc]; rfl
      refine ⟨[low, high], ?_, rfl, .triple length low high⟩
      rw [readsFrom, readsFrom, readsFrom, second]
      rfl
    case h_3 notTwo notThree =>
      have length : (decode opcode).length = 1 := by
        rcases length_decode_cases opcode with one | two | three
        · exact one
        · exact absurd two notTwo
        · exact absurd three notThree
      rw [Interaction.ensures_pure]
      exact ⟨[], rfl, rfl, .single assigned length⟩

/-- **Fetching reads an encoding**: what is found is encoded by the bytes that were read, which stand
one after the other and end at or before the last address; and only the first byte is read of what
is refused. -/
theorem ensures_fetch_encoded (address : UInt16) :
    (fetch address).Ensures fun accesses reports result => reports = [] ∧
      match result with
      | .ok ins => ∃ bytes, accesses = readsFrom address bytes ∧ Encoded address bytes ins ∧
          address.toNat + bytes.length ≤ 0x10000
      | .error fault =>
        accesses = [.read address fault.opcode] ∧ Refused address fault.opcode fault := by
  rw [ensures_fetch]
  intro opcode
  split
  case isTrue hole => exact ⟨rfl, rfl, .unassigned hole⟩
  case isFalse assigned =>
    have assigned := eq_false_of_ne_true assigned
    split
    case isTrue late => exact ⟨rfl, rfl, .truncated assigned late⟩
    case isFalse inTime =>
      refine (ensures_fetchRest_encoded address assigned).mono ?_
      rintro accesses reports ins ⟨rest, rfl, rfl, encoded⟩
      rw [encoded.length_decode] at inTime
      exact ⟨rfl, opcode :: rest, rfl, encoded, Nat.le_of_not_lt inTime⟩

end Instruction

/-! ### Quiet buses -/

section quiet
variable {β : Type} [Device β] {bus : β}

/-- What fetching at an address of a bus gives. -/
def fetched (address : UInt16) (bus : β) : Except FetchError Instruction :=
  ((Instruction.fetch address).run { bus := bus }).1

/-- The line of a listing for an address of a bus. -/
def listed (address : UInt16) (bus : β) : Line := ((disassemble address).run { bus := bus }).1

theorem listed_eq (address : UInt16) (bus : β) :
    listed address bus = Line.of (fetched address bus) := by
  rw [listed, disassemble, Interaction.run_map]
  rfl

/-- What is fetched where the bus gives the answers along a path. -/
theorem fetched_of_path {address : UInt16} {accesses : List Access} {reports : List LogEvent}
    {result : Except FetchError Instruction}
    (path : (Instruction.fetch address).Path accesses reports result)
    (answers : Answers bus accesses) : fetched address bus = result := by
  have given : Answers ({ bus := bus } : Board β).bus accesses := answers
  exact (path.taken given).2.2

theorem encoded_of_fetched (quiet : QuietReads bus) {address : UInt16} {ins : Instruction}
    (h : fetched address bus = .ok ins) :
    ∃ bytes, Instruction.Encoded address bytes ins ∧
      ∀ k (inside : k < bytes.length), byteAt bus (address + UInt16.ofNat k) = bytes[k] := by
  have read := (Instruction.ensures_fetch_encoded address).run { bus := bus }
  have answers := Interaction.answers_accesses (Instruction.fetch address) bus
  change _ ∧ match fetched address bus with | .ok ins => _ | .error fault => _ at read
  rw [h] at read
  obtain ⟨-, bytes, made, encoded, -⟩ := read
  change (Instruction.fetch address).accesses bus = _ at made
  rw [made, quiet.answers_readsFrom] at answers
  exact ⟨bytes, encoded, answers⟩

theorem refused_of_fetched (quiet : QuietReads bus) {address : UInt16} {fault : FetchError}
    (h : fetched address bus = .error fault) :
    fault.opcode = byteAt bus address ∧ Instruction.Refused address (byteAt bus address) fault := by
  have read := (Instruction.ensures_fetch_encoded address).run { bus := bus }
  have answers := Interaction.answers_accesses (Instruction.fetch address) bus
  change _ ∧ match fetched address bus with | .ok ins => _ | .error fault => _ at read
  rw [h] at read
  obtain ⟨-, made, refused⟩ := read
  change (Instruction.fetch address).accesses bus = _ at made
  rw [made, quiet.answers_cons] at answers
  obtain ⟨shown, -⟩ := answers
  rw [shown]
  exact ⟨rfl, refused⟩

end quiet

end Sm83
