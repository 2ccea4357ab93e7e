import Sm83.Proofs.Encoding
import Sm83.Proofs.Outlines

/-! # Listings lose nothing

The line of a listing tells the bytes that it stands for.

* **Fields.** A filled field tells the part of the operand that it shows (`Field.operand_of_text`), and
  so does the text of an instruction with one field (`Piece.text_of_join`).
* **Encodings.** Each entry with operand bytes shows them in its only field, but for `STOP`
  (`fields_of_length_two`, `fields_of_length_three`).  So two instructions at one address that have
  the same text have the same bytes, but for the second byte of `STOP` (`Encoded.bytes_of_text`).
* **Main statement.** `listed_faithful`: if two quiet buses have the same line at an address, they
  show the same bytes there. -/

namespace Sm83

/-! ### Fields -/

/-- The displacement that a text shows, the sign first. -/
def displacementOf : List UInt8 → UInt8
  | [] => 0
  | sign :: digits =>
    let value := digits.foldl (fun value unit => 10 * value + (unit - 0x30)) 0
    if sign = 0x2D then 0 - value else value

theorem displacementOf_text (b : UInt8) : displacementOf (codeUnits (displacementText b)) = b := by
  revert b
  apply forall_byte
  decide +kernel

/-- A filled field tells the low byte of the operand, and a word field all of it. -/
theorem Field.operand_of_text {kind : Field} {operand other next : UInt16}
    (same : kind.text operand next = kind.text other next) :
    lowByte operand = lowByte other ∧ (kind = .word → operand = other) := by
  have dollar {first last : String} (same : "$" ++ first = "$" ++ last) : first = last :=
    (String.append_right_inj _).mp same
  cases kind with
  | word =>
    have whole := hexWord_inj.mp (dollar same)
    exact ⟨congrArg lowByte whole, fun _ => whole⟩
  | byte =>
    refine ⟨hexByte_inj.mp (dollar same), fun other => ?_⟩
    cases other
  | highPage =>
    refine ⟨?_, fun other => ?_⟩
    · have page := congrArg UInt16.toNat (hexWord_inj.mp (dollar same))
      rw [toNat_highPage, toNat_highPage] at page
      exact UInt8.toNat_inj.mp (Nat.add_left_cancel page)
    · cases other
  | displacement =>
    refine ⟨?_, fun other => ?_⟩
    · have read := congrArg (fun text => displacementOf (codeUnits text)) same
      simp only [text, displacementOf_text] at read
      exact read
    · cases other
  | target =>
    refine ⟨?_, fun other => ?_⟩
    · have offset := (UInt16.add_right_inj next).mp (hexWord_inj.mp (dollar same))
      rw [← lowByte_signExtend (lowByte operand), offset, lowByte_signExtend]
    · cases other

/-- Where there is one field, the whole text tells how it is filled. -/
theorem Piece.text_of_join {operand other next : UInt16} {kind : Field} {pieces : List Piece}
    (single : Piece.fields pieces = [kind])
    (same : Piece.join (Piece.fill operand next) pieces =
      Piece.join (Piece.fill other next) pieces) :
    kind.text operand next = kind.text other next := by
  induction pieces with
  | nil => cases single
  | cons piece rest ih =>
    rw [Piece.join, Piece.join] at same
    cases piece with
    | words text => exact ih single ((String.append_right_inj _).mp same)
    | field kind' name =>
      obtain ⟨rfl, plain⟩ := List.cons.inj single
      have units := Piece.codeUnits_join_of_fields_eq_nil operand next false plain
      rw [← Piece.codeUnits_join_of_fields_eq_nil other next false plain] at units
      have rest := String.toByteArray_inj.mp (ByteArray.ext (Array.toList_inj.mp units))
      rw [rest] at same
      exact (String.append_left_inj _).mp same

/-- The listing of an operation with one field tells what that field shows. -/
theorem Operation.operand_of_listing {op : Operation} {kind : Field} {operand other next : UInt16}
    (single : Piece.fields op.layout = [kind])
    (same : op.listing operand next = op.listing other next) :
    lowByte operand = lowByte other ∧ (kind = .word → operand = other) :=
  Field.operand_of_text (Piece.text_of_join single same)

/-! ### Encodings -/

/-- An instruction of two bytes shows the second one, unless it is `STOP` or extended. -/
theorem length_fields_of_length_two (opcode : UInt8) (length : (decode opcode).length = 2)
    (plain : opcode ≠ Opcode.extension) (apart : opcode ≠ 0x10) :
    (Piece.fields (decode opcode).operation.layout).length = 1 := by
  revert opcode
  apply forall_byte
  decide +kernel

/-- An instruction of three bytes shows the other two as a word. -/
theorem fields_of_length_three (opcode : UInt8) (length : (decode opcode).length = 3) :
    Piece.fields (decode opcode).operation.layout = [.word] := by
  revert opcode
  apply forall_byte
  decide +kernel

namespace Instruction

variable {address : UInt16} {bytes bytes' : List UInt8} {ins ins' : Instruction}

theorem isUnassigned_of_length {opcode : UInt8} (long : (decode opcode).length ≠ 1) :
    (decode opcode).isUnassigned = false := by
  refine eq_false_of_ne_true fun hole => long ?_
  have unassigned : (decode opcode).operation = .unassigned := of_decide_eq_true hole
  exact congrArg Operation.length unassigned

/-- An encoded instruction has the entry of an assigned row. -/
theorem Encoded.entry_row (h : Encoded address bytes ins) :
    ins.entry.row.entry = ins.entry ∧ ins.entry.isUnassigned = false := by
  cases h with
  | extended opcode => exact ⟨rfl, isUnassigned_decodeExtended opcode⟩
  | single assigned => exact ⟨rfl, assigned⟩
  | double plain length =>
    exact ⟨rfl, isUnassigned_of_length (by rw [length]; exact Nat.succ_ne_self 1)⟩
  | triple length =>
    exact ⟨rfl, isUnassigned_of_length (by rw [length]; decide)⟩

/-- The text of an encoded instruction is what a listing shows for its row. -/
theorem Encoded.text_eq_shown (h : Encoded address bytes ins) :
    ins.text = ins.entry.row.shown ins.operand ins.next := by
  obtain ⟨row, assigned⟩ := h.entry_row
  rw [← row] at assigned
  rw [Row.shown_of_assigned assigned, Row.operation, row]
  rfl

/-- Instructions that share a text have the same entry. -/
theorem Encoded.entry_of_text (h : Encoded address bytes ins) (h' : Encoded address bytes' ins')
    (same : ins.text = ins'.text) : ins.entry = ins'.entry := by
  rw [h.text_eq_shown, h'.text_eq_shown] at same
  rw [← h.entry_row.1, ← h'.entry_row.1, Row.eq_of_shown same]

/-- **Two instructions with the same text**, at one address, have the same bytes, but for the second
byte of `STOP`. -/
theorem Encoded.bytes_of_text (h : Encoded address bytes ins) (h' : Encoded address bytes' ins')
    (same : ins.text = ins'.text) :
    bytes = bytes' ∨ ∃ low low', bytes = [0x10, low] ∧ bytes' = [0x10, low'] := by
  have entry := h.entry_of_text h' same
  have next : ins.next = ins'.next := by
    rw [Instruction.next, Instruction.next, h.address_eq, h'.address_eq, Instruction.length,
      Instruction.length, entry]
  have opcode : ins.entry.opcode = ins'.entry.opcode := congrArg OpcodeEntry.opcode entry
  have table : ins.entry.extended = ins'.entry.extended := congrArg OpcodeEntry.extended entry
  have size : bytes.length = bytes'.length := by
    rw [← h.length_eq, ← h'.length_eq, Instruction.length, Instruction.length, entry]
  have texts : ins.operation.listing ins.operand ins.next =
      ins.operation.listing ins'.operand ins.next := by
    have texts := same
    rw [Instruction.text, Instruction.text, ← next] at texts
    rw [texts, Instruction.operation, Instruction.operation, entry]
  cases h with
  | extended second =>
    cases h' with
    | extended => exact .inl (congrArg (fun byte => [Opcode.extension, byte]) opcode)
    | single | double | triple => cases table
  | single =>
    cases h' with
    | extended => cases table
    | single => exact .inl (congrArg (fun byte => [byte]) opcode)
    | double | triple => cases size
  | @double first plain length low =>
    cases h' with
    | extended => cases table
    | single | triple => cases size
    | @double _ _ _ low' =>
      obtain rfl : first = _ := opcode
      by_cases stop : first = 0x10
      · rw [stop]
        exact .inr ⟨low, low', rfl, rfl⟩
      · obtain ⟨kind, single⟩ :=
          List.length_eq_one_iff.mp (length_fields_of_length_two first length plain stop)
        have shown : lowByte (word 0 low) = lowByte (word 0 low') :=
          (Operation.operand_of_listing single texts).1
        rw [lowByte_word, lowByte_word] at shown
        rw [shown]
        exact .inl rfl
  | @triple first length low high =>
    cases h' with
    | extended => cases table
    | single | double => cases size
    | @triple _ _ low' high' =>
      obtain rfl : first = _ := opcode
      have single := fields_of_length_three first length
      have shown : word high low = word high' low' :=
        (Operation.operand_of_listing single texts).2 rfl
      have shownLow := congrArg lowByte shown
      have shownHigh := congrArg highByte shown
      rw [lowByte_word, lowByte_word] at shownLow
      rw [highByte_word, highByte_word] at shownHigh
      rw [shownLow, shownHigh]
      exact .inl rfl

end Instruction

/-! ### Lines -/

section lines
variable {β γ : Type} [Device β] [Device γ] {bus : β} {bus' : γ} {address : UInt16}

/-- Buses that show two instructions with the same text show the same bytes, but for the second byte
of `STOP`. -/
theorem byteAt_of_text {bytes bytes' : List UInt8} {ins ins' : Instruction}
    (encoded : Instruction.Encoded address bytes ins)
    (encoded' : Instruction.Encoded address bytes' ins')
    (shown : ∀ k (inside : k < bytes.length), byteAt bus (address + UInt16.ofNat k) = bytes[k])
    (shown' : ∀ k (inside : k < bytes'.length), byteAt bus' (address + UInt16.ofNat k) = bytes'[k])
    (same : ins.text = ins'.text) {k : Nat} (inside : k < bytes.length) :
    byteAt bus (address + UInt16.ofNat k) = byteAt bus' (address + UInt16.ofNat k) ∨
      (k = 1 ∧ byteAt bus address = 0x10 ∧ byteAt bus' address = 0x10) := by
  rcases encoded.bytes_of_text encoded' same with rfl | ⟨low, low', rfl, rfl⟩
  · rw [shown k inside, shown' k inside]
    exact .inl rfl
  · have first := shown 0 Nat.zero_lt_two
    have first' := shown' 0 Nat.zero_lt_two
    have here : address + UInt16.ofNat 0 = address := UInt16.add_zero address
    rw [here] at first first'
    cases k with
    | zero =>
      rw [here, first, first']
      exact .inl rfl
    | succ k =>
      obtain rfl : k = 0 := Nat.lt_one_iff.mp (Nat.lt_of_succ_lt_succ inside)
      exact .inr ⟨rfl, first, first'⟩

/-- The lines of a listing agree only where the bytes do, but for the second byte of `STOP`. -/
theorem byteAt_of_listed (quiet : QuietReads bus) (quiet' : QuietReads bus')
    (same : listed address bus = listed address bus') {k : Nat}
    (inside : k < (listed address bus).length) :
    byteAt bus (address + UInt16.ofNat k) = byteAt bus' (address + UInt16.ofNat k) ∨
      (k = 1 ∧ byteAt bus address = 0x10 ∧ byteAt bus' address = 0x10) := by
  have data {fault : FetchError} {ins : Instruction} :
      Line.of (.error fault) ≠ Line.of (.ok ins) := by
    intro line
    exact ins.operation.listing_ne_data _ _ _ (congrArg Line.text line).symm
  rw [listed_eq] at same inside
  rw [listed_eq] at same
  cases found : fetched address bus with
  | error fault =>
    rw [found] at same inside
    cases found' : fetched address bus' with
    | ok ins =>
      rw [found'] at same
      exact absurd same data
    | error fault' =>
      rw [found'] at same
      obtain rfl : k = 0 := Nat.lt_one_iff.mp inside
      have texts : "DB $" ++ hexByte fault.opcode = "DB $" ++ hexByte fault'.opcode :=
        congrArg Line.text same
      have opcode := hexByte_inj.mp ((String.append_right_inj _).mp texts)
      rw [(refused_of_fetched quiet found).1, (refused_of_fetched quiet' found').1] at opcode
      have here : address + UInt16.ofNat 0 = address := UInt16.add_zero address
      rw [here]
      exact .inl opcode
  | ok ins =>
    rw [found] at same inside
    cases found' : fetched address bus' with
    | error fault =>
      rw [found'] at same
      exact absurd same.symm data
    | ok ins' =>
      rw [found'] at same
      obtain ⟨bytes, encoded, shown⟩ := encoded_of_fetched quiet found
      obtain ⟨bytes', encoded', shown'⟩ := encoded_of_fetched quiet' found'
      have inside : k < bytes.length := by
        rw [← encoded.length_eq]
        exact inside
      have texts : ins.text = ins'.text := congrArg Line.text same
      exact byteAt_of_text encoded encoded' shown shown' texts inside

/-- **Listings lose nothing**: where two quiet buses have the same line they show the same bytes, but
for the second byte of `STOP`; no two rows of the tables share a text, whatever the operands are; and
no instruction has the text of a line of data. -/
theorem listed_faithful (quiet : QuietReads bus) (quiet' : QuietReads bus') (address : UInt16) :
    (listed address bus = listed address bus' → ∀ k < (listed address bus).length,
      byteAt bus (address + UInt16.ofNat k) = byteAt bus' (address + UInt16.ofNat k) ∨
        (k = 1 ∧ byteAt bus address = 0x10 ∧ byteAt bus' address = 0x10)) ∧
      (∀ (row other : Row) (operand next operand' next' : UInt16),
        row.shown operand next = other.shown operand' next' → row = other) ∧
      ∀ (op : Operation) (operand next : UInt16) (byte : UInt8),
        op.listing operand next ≠ "DB $" ++ hexByte byte :=
  ⟨fun same _ inside => byteAt_of_listed quiet quiet' same inside,
    fun _ _ _ _ _ _ same => Row.eq_of_shown same,
    fun op operand next byte => op.listing_ne_data operand next byte⟩

end lines

/-- The bus of a computer with `STOP` and another byte in ROM. -/
def stopBus (second : UInt8) : SystemBus Empty := .ofImage ⟨#[0x10, second]⟩ .romOnly 0

/-- The second byte of `STOP` is not shown. -/
theorem listed_faithful_stop :
    listed 0 (stopBus 0x00) = listed 0 (stopBus 0xFF) ∧
      byteAt (stopBus 0x00) 1 ≠ byteAt (stopBus 0xFF) 1 ∧
      ∀ k < (listed 0 (stopBus 0x00)).length,
        byteAt (stopBus 0x00) (0 + UInt16.ofNat k) = byteAt (stopBus 0xFF) (0 + UInt16.ofNat k) ∨
          (k = 1 ∧ byteAt (stopBus 0x00) 0 = 0x10 ∧ byteAt (stopBus 0xFF) 0 = 0x10) := by
  have quiet (second : UInt8) : QuietReads (stopBus second) :=
    (SystemBus.plain_ofCartridge _).quietReads
  have same : listed 0 (stopBus 0x00) = listed 0 (stopBus 0xFF) := by decide +kernel
  have apart : byteAt (stopBus 0x00) 1 ≠ byteAt (stopBus 0xFF) 1 := by decide +kernel
  exact ⟨same, apart, (listed_faithful (quiet 0x00) (quiet 0xFF) 0).1 same⟩

end Sm83
