import Sm83.Hex
import Sm83.Isa.Opcode

/-! # Assembly text

The text of an instruction is its mnemonic followed by its operands.

* **Layout.** `Operation.layout` is the text as a list of pieces: fixed words, and fields that
  depend on the operand bytes.  The same layout serves both renderings.
* **Templates.** `Operation.template` shows every field by its customary name, such as `d8` for a
  byte and `a16` for an address.
* **Listings.** `Operation.listing` fills every field from the operand.  A relative jump shows the
  address it leads to, so its text also depends on the address of the following instruction. -/

namespace Sm83

/-- The parts of an instruction text that depend on the operand. -/
inductive Field where
  /-- The low byte of the operand. -/
  | byte
  /-- The operand as a word. -/
  | word
  /-- The address in the high page at the offset in the operand. -/
  | highPage
  /-- The operand as a signed displacement. -/
  | displacement
  /-- The address at the signed displacement from the following instruction. -/
  | target
deriving DecidableEq, Repr

/-- A signed displacement in decimal, always with its sign. -/
def displacementText (b : UInt8) : String :=
  if b < 0x80 then "+" ++ b.toNat.repr else "-" ++ (256 - b.toNat).repr

/-- A field filled from the operand and the address of the following instruction. -/
def Field.text (operand next : UInt16) : Field → String
  | .byte => "$" ++ hexByte (lowByte operand)
  | .word => "$" ++ hexWord operand
  | .highPage => "$" ++ hexWord (Sm83.highPage (lowByte operand))
  | .displacement => displacementText (lowByte operand)
  | .target => "$" ++ hexWord (next + signExtend (lowByte operand))

/-- A piece of an instruction text: fixed words, or a field and its name in a template. -/
inductive Piece where
  | words (text : String)
  | field (kind : Field) (name : String)
deriving DecidableEq, Repr

/-- The pieces of a text, each written by `write`, one after the other. -/
def Piece.join (write : Piece → String) : List Piece → String
  | [] => ""
  | piece :: rest => write piece ++ join write rest

/-- A piece of a template. -/
def Piece.name : Piece → String
  | .words text => text
  | .field _ name => name

/-- A piece of a listing. -/
def Piece.fill (operand next : UInt16) : Piece → String
  | .words text => text
  | .field kind _ => kind.text operand next

/-- The pieces of a byte operand. -/
def Operand.layout : Operand → List Piece
  | .reg r => [.words r.name]
  | .imm => [.field .byte "d8"]
  | .indirect pair => [.words ("(" ++ pair.name ++ ")")]
  | .hlInc => [.words "(HL+)"]
  | .hlDec => [.words "(HL-)"]
  | .absolute => [.words "(", .field .word "a16", .words ")"]
  | .highImm => [.words "(", .field .highPage "FF00+a8", .words ")"]
  | .highC => [.words "(FF00+C)"]

/-- The piece of a condition in front of a destination. -/
def Condition.layout : Option Condition → List Piece
  | some condition => [.words (condition.name ++ ",")]
  | none => []

namespace Operation

/-- The pieces after the mnemonic. -/
def operandLayout : Operation → List Piece
  | .load dst src => .words " " :: dst.layout ++ .words "," :: src.layout
  | .loadWord pair => [.words (" " ++ pair.name ++ ","), .field .word "d16"]
  | .storeSp => .words " " :: Operand.absolute.layout ++ [.words ",SP"]
  | .loadSpHl => [.words " SP,HL"]
  | .loadHlSp => [.words " HL,SP", .field .displacement "+e8"]
  | .alu _ src => .words " A," :: src.layout
  | .inc target | .dec target | .shift _ target => .words " " :: target.layout
  | .incWord pair | .decWord pair | .push pair | .pop pair => [.words (" " ++ pair.name)]
  | .addHl pair => [.words (" HL," ++ pair.name)]
  | .addSp => [.words " SP,", .field .displacement "e8"]
  | .jump condition | .call condition =>
    .words " " :: Condition.layout condition ++ [.field .word "a16"]
  | .jumpHl => [.words " HL"]
  | .jumpBy condition => .words " " :: Condition.layout condition ++ [.field .target "r8"]
  | .ret (some condition) => [.words (" " ++ condition.name)]
  | .restart vector => [.words (" $" ++ hexByte vector)]
  | .bit index target | .res index target | .set index target =>
    .words (" " ++ index.toNat.repr ++ ",") :: target.layout
  | _ => []

/-- The whole text of an operation in pieces. -/
def layout (op : Operation) : List Piece := .words op.mnemonic :: op.operandLayout

/-- The text with its fields named. -/
def template (op : Operation) : String := Piece.join Piece.name op.layout

/-- The text with its fields filled. -/
def listing (op : Operation) (operand next : UInt16) : String :=
  Piece.join (Piece.fill operand next) op.layout

end Operation

/-- The text of an entry names its fields. -/
def OpcodeEntry.text (entry : OpcodeEntry) : String := entry.operation.template

end Sm83
