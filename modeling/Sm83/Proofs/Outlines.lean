import Sm83.Proofs.Listing

/-! # Outlines of texts

The text of an instruction tells its place in the tables of opcodes, whatever the operand is.

* **Rows.** A `Row` is a place in one of the two tables; `Row.assigned` are those with a meaning.
* **Outlines.** The outline of a text is what is left when the digits behind its first dollar sign or
  sign are taken out.  Filling the fields of an instruction does not change its outline, but for the
  sign of a displacement (`exists_outline_listing`).  The texts of `RST` are their own outlines, since
  their digits belong to the opcode.
* **Lexicon.** The outlines of all rows are filed in a search tree.  Looking up what was filed gives
  the row back (`find?_lexicon`), so a text can be read back (`readRow?_listing`).  What a listing
  shows for a row is never what it shows for another (`Row.eq_of_shown`). -/

namespace Sm83

/-! ### Rows -/

/-- A place in the two tables of opcodes. -/
structure Row where
  extended : Bool
  opcode : UInt8
deriving DecidableEq

/-- The place of an entry. -/
def OpcodeEntry.row (entry : OpcodeEntry) : Row := ⟨entry.extended, entry.opcode⟩

namespace Row

/-- The entry at a place. -/
def entry (row : Row) : OpcodeEntry :=
  if row.extended then decodeExtended row.opcode else decode row.opcode

/-- The operation at a place. -/
abbrev operation (row : Row) : Operation := row.entry.operation

/-- The places that have a meaning. -/
def assigned : List Row :=
  ([false, true].flatMap fun extended =>
    (List.range 256).map fun n => ⟨extended, UInt8.ofNat n⟩).filter fun row =>
      !row.entry.isUnassigned

theorem mem_assigned {row : Row} (h : row.entry.isUnassigned = false) : row ∈ assigned := by
  obtain ⟨extended, opcode⟩ := row
  rw [assigned, List.mem_filter, h]
  refine ⟨List.mem_flatMap.mpr ⟨extended, by cases extended <;> decide, ?_⟩, rfl⟩
  refine List.mem_map.mpr ⟨opcode.toNat, List.mem_range.mpr opcode.toNat_lt, ?_⟩
  rw [UInt8.ofNat_toNat]

end Row

/-! ### Outlines -/

/-- Whether a code unit begins a number: a dollar sign or a sign. -/
def isMark (unit : UInt8) : Bool := unit == 0x24 || unit == 0x2B || unit == 0x2D

/-- Whether a code unit is a hexadecimal digit. -/
def isDigit (unit : UInt8) : Bool :=
  (0x30 ≤ unit && unit ≤ 0x39) || (0x41 ≤ unit && unit ≤ 0x46)

/-- The code units without the digits behind the first mark; `marked` tells whether that has
already gone by. -/
def withoutDigits : Bool → List UInt8 → List UInt8
  | _, [] => []
  | marked, unit :: rest =>
    if marked && isDigit unit then withoutDigits marked rest
    else unit :: withoutDigits (marked || isMark unit) rest

/-- The outline of a text. -/
def outline (units : List UInt8) : List UInt8 :=
  if units.take 2 = [0x52, 0x53] then units else withoutDigits false units

theorem withoutDigits_append (marked : Bool) (first last : List UInt8) :
    withoutDigits marked (first ++ last) =
      withoutDigits marked first ++ withoutDigits (marked || first.any isMark) last := by
  induction first generalizing marked with
  | nil => simp [withoutDigits]
  | cons unit rest ih =>
    rw [List.cons_append, withoutDigits, withoutDigits]
    split
    case isTrue digit =>
      obtain ⟨rfl, -⟩ := (Bool.and_eq_true _ _).mp digit
      rw [ih, Bool.true_or, Bool.true_or]
    case isFalse => rw [ih, List.any_cons, Bool.or_assoc, List.cons_append]

/-- A number behind a mark leaves only the mark. -/
theorem withoutDigits_number {mark : UInt8} (marks : isMark mark = true)
    (apart : isDigit mark = false) {digits : List UInt8} (all : ∀ unit ∈ digits, isDigit unit = true)
    (marked : Bool) (rest : List UInt8) :
    withoutDigits marked (mark :: digits ++ rest) = mark :: withoutDigits true rest := by
  have skip : withoutDigits true digits = [] := by
    induction digits with
    | nil => rfl
    | cons digit others ih =>
      obtain ⟨first, later⟩ := List.forall_mem_cons.mp all
      rw [withoutDigits, first]
      exact ih later
  rw [List.cons_append, withoutDigits, apart, Bool.and_false, if_neg Bool.false_ne_true, marks,
    Bool.or_true, withoutDigits_append, skip]
  rfl

/-- The mark of a field; a displacement shows whether it is negative. -/
def Field.mark (negative : Bool) : Field → UInt8
  | .displacement => if negative then 0x2D else 0x2B
  | _ => 0x24

theorem Field.isMark_mark (negative : Bool) (kind : Field) :
    isMark (kind.mark negative) = true ∧ isDigit (kind.mark negative) = false := by
  cases negative <;> cases kind <;> decide

/-- Whether the operand is negative as a displacement. -/
def isNegative (operand : UInt16) : Bool := decide (0x80 ≤ lowByte operand)

theorem isDigit_hexByte (b : UInt8) : ∀ unit ∈ codeUnits (hexByte b), isDigit unit = true := by
  have table : ∀ b, (codeUnits (hexByte b)).all isDigit = true := by
    apply forall_byte
    decide +kernel
  exact List.all_eq_true.mp (table b)

theorem isDigit_hexWord (w : UInt16) : ∀ unit ∈ codeUnits (hexWord w), isDigit unit = true := by
  rw [hexWord, codeUnits_append]
  exact List.forall_mem_append.mpr ⟨isDigit_hexByte _, isDigit_hexByte _⟩

theorem codeUnits_displacementText (b : UInt8) :
    (codeUnits (displacementText b)).head? =
        some (Field.mark (decide (0x80 ≤ b)) .displacement) ∧
      ∀ unit ∈ (codeUnits (displacementText b)).tail, isDigit unit = true := by
  have table : ∀ b,
      (codeUnits (displacementText b)).head? =
          some (Field.mark (decide (0x80 ≤ b)) .displacement) ∧
        (codeUnits (displacementText b)).tail.all isDigit = true := by
    apply forall_byte
    decide +kernel
  exact (table b).imp_right List.all_eq_true.mp

/-- A field is filled with its mark and some digits. -/
theorem Field.exists_codeUnits_text (kind : Field) (operand next : UInt16) :
    ∃ digits, (∀ unit ∈ digits, isDigit unit = true) ∧
      codeUnits (kind.text operand next) = kind.mark (isNegative operand) :: digits := by
  have dollar (digits : String) : codeUnits ("$" ++ digits) = 0x24 :: codeUnits digits := by
    rw [codeUnits_append]
    rfl
  cases kind with
  | byte => exact ⟨_, isDigit_hexByte _, dollar _⟩
  | word => exact ⟨_, isDigit_hexWord _, dollar _⟩
  | highPage => exact ⟨_, isDigit_hexWord _, dollar _⟩
  | target => exact ⟨_, isDigit_hexWord _, dollar _⟩
  | displacement =>
    obtain ⟨sign, digits⟩ := codeUnits_displacementText (lowByte operand)
    obtain ⟨_, units⟩ := List.head?_eq_some_iff.mp sign
    refine ⟨_, digits, ?_⟩
    rw [text, units]
    rfl

/-- The code units of a piece with nothing but marks in the fields. -/
def Piece.units (negative : Bool) : Piece → List UInt8
  | .words text => codeUnits text
  | .field kind _ => [kind.mark negative]

/-- The fields of some pieces. -/
def Piece.fields : List Piece → List Field
  | [] => []
  | .words _ :: rest => fields rest
  | .field kind _ :: rest => kind :: fields rest

/-- **Filling fields** changes nothing but digits. -/
theorem Piece.withoutDigits_join (operand next : UInt16) (marked : Bool) (pieces : List Piece) :
    withoutDigits marked (codeUnits (Piece.join (Piece.fill operand next) pieces)) =
      withoutDigits marked (pieces.flatMap (Piece.units (isNegative operand))) := by
  induction pieces generalizing marked with
  | nil => rfl
  | cons piece rest ih =>
    rw [Piece.join, codeUnits_append, List.flatMap_cons]
    cases piece with
    | words text =>
      rw [Piece.fill, Piece.units, withoutDigits_append, withoutDigits_append, ih]
    | field kind name =>
      obtain ⟨digits, all, text⟩ := kind.exists_codeUnits_text operand next
      obtain ⟨marks, apart⟩ := kind.isMark_mark (isNegative operand)
      have none : ∀ unit ∈ ([] : List UInt8), isDigit unit = true := List.forall_mem_nil _
      rw [Piece.fill, Piece.units, text, withoutDigits_number marks apart all,
        withoutDigits_number marks apart none, ih]

/-- Without fields nothing is filled in. -/
theorem Piece.codeUnits_join_of_fields_eq_nil (operand next : UInt16) (negative : Bool)
    {pieces : List Piece} (plain : Piece.fields pieces = []) :
    codeUnits (Piece.join (Piece.fill operand next) pieces) =
      pieces.flatMap (Piece.units negative) := by
  induction pieces with
  | nil => rfl
  | cons piece rest ih =>
    cases piece with
    | words text =>
      rw [Piece.join, codeUnits_append, List.flatMap_cons, ih plain]
      rfl
    | field kind name => cases plain

/-- The sign shows in displacements only. -/
theorem Piece.flatMap_units_of_not_mem (negative : Bool) {pieces : List Piece}
    (plain : Field.displacement ∉ Piece.fields pieces) :
    pieces.flatMap (Piece.units negative) = pieces.flatMap (Piece.units false) := by
  induction pieces with
  | nil => rfl
  | cons piece rest ih =>
    rw [List.flatMap_cons, List.flatMap_cons]
    cases piece with
    | words text => rw [ih plain]; rfl
    | field kind name =>
      obtain ⟨other, later⟩ := not_or.mp (mt List.mem_cons.mpr plain)
      rw [ih later]
      cases kind with
      | displacement => exact absurd rfl other
      | _ => rfl

namespace Operation

/-- The outline of the texts of an operation. -/
def outline (op : Operation) (negative : Bool) : List UInt8 :=
  Sm83.outline (op.layout.flatMap (Piece.units negative))

/-- The signs that make a difference to the outline. -/
def signs (op : Operation) : List Bool :=
  if .displacement ∈ Piece.fields op.layout then [false, true] else [false]

/-- Only the texts of `RST` begin as these do, and they have no fields. -/
theorem fields_of_headUnits {op : Operation} (head : headUnits op.mnemonic = [0x52, 0x53]) :
    Piece.fields op.layout = [] := by
  cases op with
  | restart => rfl
  | load dst src =>
    rw [mnemonic] at head
    split at head <;> exact absurd head (by decide)
  | alu kind =>
    rw [mnemonic] at head
    cases kind <;> exact absurd head (by decide)
  | rotateA kind => rfl
  | shift kind =>
    rw [mnemonic] at head
    cases kind <;> exact absurd head (by decide)
  | _ =>
    rw [mnemonic] at head
    exact absurd head (by decide)

theorem outline_listing (op : Operation) (operand next : UInt16) :
    Sm83.outline (codeUnits (op.listing operand next)) = op.outline (isNegative operand) := by
  have head : (codeUnits (op.listing operand next)).take 2 = headUnits op.mnemonic :=
    op.headUnits_listing operand next
  have head' : (op.layout.flatMap (Piece.units (isNegative operand))).take 2 =
      headUnits op.mnemonic := by
    have long := op.headUnits_mnemonic.1
    rw [headUnits, List.length_take] at long
    rw [layout, List.flatMap_cons, Piece.units, List.take_append_of_le_length (by omega)]
    rfl
  rw [outline, Sm83.outline, Sm83.outline, head, head']
  split
  case isTrue restart =>
    exact Piece.codeUnits_join_of_fields_eq_nil operand next _ (fields_of_headUnits restart)
  case isFalse => exact Piece.withoutDigits_join operand next false op.layout

/-- **Outlines** depend on the operand by a sign at most. -/
theorem exists_outline_listing (op : Operation) (operand next : UInt16) :
    ∃ negative ∈ op.signs,
      Sm83.outline (codeUnits (op.listing operand next)) = op.outline negative := by
  rw [outline_listing, signs]
  split
  case isTrue =>
    refine ⟨isNegative operand, ?_, rfl⟩
    cases isNegative operand <;> decide
  case isFalse plain =>
    refine ⟨false, List.mem_singleton_self false, ?_⟩
    rw [outline, outline, Piece.flatMap_units_of_not_mem _ plain]

end Operation

/-! ### The lexicon -/

/-- A search tree that files rows under numbers. -/
inductive Lexicon where
  | leaf
  | node (left : Lexicon) (key : Nat) (row : Row) (right : Lexicon)

namespace Lexicon

/-- Files a row; a row that was filed under the number before is replaced. -/
def insert (key : Nat) (row : Row) : Lexicon → Lexicon
  | leaf => node leaf key row leaf
  | node left other row' right =>
    if key < other then node (left.insert key row) other row' right
    else if key = other then node left key row right
    else node left other row' (right.insert key row)

/-- Looks a number up. -/
def find? (key : Nat) : Lexicon → Option Row
  | leaf => none
  | node left other row right =>
    if key < other then left.find? key
    else if key = other then some row
    else right.find? key

end Lexicon

/-- The number that an outline is filed under.  The factor scatters the numbers, which keeps the tree
low. -/
def filing (units : List UInt8) : Nat :=
  units.foldl (fun key unit => (48271 * key + unit.toNat) % 0x7FFFFFFF) 0

/-- The rows, filed under their outlines. -/
def lexicon : Lexicon :=
  Row.assigned.foldl (fun tree row =>
    row.operation.signs.foldl (fun tree negative =>
      tree.insert (filing (row.operation.outline negative)) row) tree) .leaf

theorem find?_lexicon : ∀ row ∈ Row.assigned, ∀ negative ∈ row.operation.signs,
    lexicon.find? (filing (row.operation.outline negative)) = some row := by
  decide +kernel

/-- The row whose texts have the outline of a text. -/
def readRow? (text : String) : Option Row := lexicon.find? (filing (outline (codeUnits text)))

/-- **Reading back**: the text of an instruction tells its row. -/
theorem readRow?_listing {row : Row} (assigned : row.entry.isUnassigned = false)
    (operand next : UInt16) : readRow? (row.operation.listing operand next) = some row := by
  obtain ⟨negative, sign, outline⟩ := row.operation.exists_outline_listing operand next
  rw [readRow?, outline]
  exact find?_lexicon row (Row.mem_assigned assigned) negative sign

namespace Row

/-- The text that a listing shows for a row; a hole is shown as data. -/
def shown (row : Row) (operand next : UInt16) : String :=
  if row.entry.isUnassigned then "DB $" ++ hexByte row.opcode
  else row.operation.listing operand next

variable {row other : Row} {operand next operand' next' : UInt16}

theorem shown_of_assigned (assigned : row.entry.isUnassigned = false) :
    row.shown operand next = row.operation.listing operand next := by
  rw [shown, assigned, if_neg Bool.false_ne_true]

theorem shown_of_hole (hole : row.entry.isUnassigned = true) :
    row.shown operand next = "DB $" ++ hexByte row.opcode :=
  if_pos hole

/-- The extended table has no holes. -/
theorem extended_of_hole (hole : row.entry.isUnassigned = true) : row.extended = false := by
  obtain ⟨extended, opcode⟩ := row
  cases extended with
  | false => rfl
  | true => exact absurd hole (by simp [entry, isUnassigned_decodeExtended])

/-- **Rows that share a text** are the same. -/
theorem eq_of_shown (same : row.shown operand next = other.shown operand' next') :
    row = other := by
  cases hole : row.entry.isUnassigned with
  | false =>
    rw [shown_of_assigned hole] at same
    cases hole' : other.entry.isUnassigned with
    | false =>
      rw [shown_of_assigned hole'] at same
      have read := congrArg readRow? same
      rw [readRow?_listing hole, readRow?_listing hole'] at read
      exact Option.some.inj read
    | true =>
      rw [shown_of_hole hole'] at same
      exact absurd same (row.operation.listing_ne_data _ _ _)
  | true =>
    rw [shown_of_hole hole] at same
    cases hole' : other.entry.isUnassigned with
    | false =>
      rw [shown_of_assigned hole'] at same
      exact absurd same.symm (other.operation.listing_ne_data _ _ _)
    | true =>
      rw [shown_of_hole hole'] at same
      have opcode := hexByte_inj.mp ((String.append_right_inj _).mp same)
      have table := (extended_of_hole hole).trans (extended_of_hole hole').symm
      obtain ⟨extended, first⟩ := row
      obtain ⟨extended', first'⟩ := other
      obtain rfl : extended = extended' := table
      obtain rfl : first = first' := opcode
      rfl

end Row

end Sm83
