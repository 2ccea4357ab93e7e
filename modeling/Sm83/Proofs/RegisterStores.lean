import Sm83.Proofs.Footprint

/-! # The register file as a store

The byte view and the word view of the register file, over any stores through either of them.

* **Stores.** `regs.stored past` is the register file after some stores, the latest first.  What a
  store puts into single registers is told by `RegisterStore.bytes`: a word goes into the two halves
  of its pair.
* **A step.** A store is seen in the registers that it names (`getByte_store`), where F drops the
  low nibble of what it is given; it leaves everything else alone (`getByte_store_of_not_mem`).
* **Main statement.** `keepsStores`: after any stores each byte register holds what was put into it
  last, whichever view it came through, the pairs are their halves, and to store again what a
  register holds changes nothing. -/

namespace Sm83

/-- A store into the register file. -/
inductive RegisterStore where
  | byte (r : ByteReg) (value : UInt8)
  | word (pair : WordReg) (value : UInt16)
  /-- A byte that is taken apart into the flags. -/
  | flags (value : UInt8)
deriving DecidableEq, Repr

namespace RegisterStore

/-- The bytes that a store puts into byte registers. -/
def bytes : RegisterStore → List (ByteReg × UInt8)
  | byte r value => [(r, value)]
  | word pair value => pair.halves.zip [highByte value, lowByte value]
  | flags value => [(.f, value)]

/-- The byte that a store puts into a register, if it names that register. -/
def byteFor? (r : ByteReg) (store : RegisterStore) : Option UInt8 := store.bytes.lookup r

/-- The word that a store puts into SP, if it names SP. -/
def stackPointer? : RegisterStore → Option UInt16
  | word .sp value => some value
  | _ => none

end RegisterStore

/-- What a register shows of a byte that is put into it: F has no low nibble. -/
def ByteReg.shown (r : ByteReg) (value : UInt8) : UInt8 :=
  if r = .f then value &&& 0xF0 else value

namespace Registers

variable (regs : Registers)

/-- The register file after a store. -/
def store (regs : Registers) : RegisterStore → Registers
  | .byte r value => regs.setByte r value
  | .word pair value => regs.setWord pair value
  | .flags value => { regs with flags := .decode value }

/-- The register file after some stores, the latest first. -/
def stored (regs : Registers) : List RegisterStore → Registers
  | [] => regs
  | last :: past => (regs.stored past).store last

/-! ### One store -/

theorem getByte_setByte (r s : ByteReg) (value : UInt8) :
    (regs.setByte r value).getByte s = if s = r then s.shown value else regs.getByte s := by
  by_cases same : s = r
  · subst same
    rw [if_pos rfl]
    cases s with
    | f => exact regs.getByte_setByte_f value
    | _ => rfl
  · rw [if_neg same, regs.getByte_setByte_of_ne same]

/-- A word is seen in both halves of its pair. -/
theorem getByte_setWord (pair : WordReg) (value : UInt16) (r : ByteReg) :
    (regs.setWord pair value).getByte r =
      (((pair.halves.zip [highByte value, lowByte value]).lookup r).map r.shown).getD
        (regs.getByte r) := by
  cases pair with
  | af =>
    cases r with
    | f => exact Flags.encode_decode (lowByte value)
    | _ => rfl
  | _ => cases r <;> rfl

/-- **A store is seen** in the registers that it names, and in no other. -/
theorem getByte_store (store : RegisterStore) (r : ByteReg) :
    (regs.store store).getByte r = ((store.byteFor? r).map r.shown).getD (regs.getByte r) := by
  cases store with
  | byte s value =>
    rw [Registers.store, getByte_setByte, RegisterStore.byteFor?, RegisterStore.bytes,
      List.lookup_cons]
    by_cases same : r = s
    · subst same
      simp
    · rw [if_neg same, beq_false_of_ne same]
      rfl
  | word pair value => exact regs.getByte_setWord pair value r
  | flags value =>
    cases r with
    | f => exact Flags.encode_decode value
    | _ => rfl

theorem sp_store (store : RegisterStore) :
    (regs.store store).sp = store.stackPointer?.getD regs.sp := by
  cases store with
  | byte r value => exact regs.sp_setByte r value
  | word pair value => cases pair <;> rfl
  | flags value => rfl

theorem pc_store (store : RegisterStore) : (regs.store store).pc = regs.pc := by
  cases store with
  | byte r value => exact regs.pc_setByte r value
  | word pair value => exact regs.pc_setWord pair value
  | flags value => rfl

/-- A store leaves alone the byte registers that it does not name. -/
theorem getByte_store_of_not_mem {store : RegisterStore} {r : ByteReg}
    (apart : r ∉ store.bytes.map Prod.fst) : (regs.store store).getByte r = regs.getByte r := by
  have none : store.byteFor? r = none := by
    rw [RegisterStore.byteFor?, List.lookup_eq_none_iff]
    intro put mem
    rw [bne_iff_ne]
    rintro rfl
    exact apart (List.mem_map_of_mem mem)
  rw [getByte_store, none]
  rfl

/-! ### Any stores -/

theorem getByte_stored (past : List RegisterStore) (r : ByteReg) :
    (regs.stored past).getByte r =
      ((past.findSome? (RegisterStore.byteFor? r)).map r.shown).getD (regs.getByte r) := by
  induction past with
  | nil => rfl
  | cons last past ih =>
    rw [stored, getByte_store, ih, List.findSome?_cons]
    cases last.byteFor? r with
    | none => rfl
    | some byte => rfl

theorem sp_stored (past : List RegisterStore) :
    (regs.stored past).sp = (past.findSome? RegisterStore.stackPointer?).getD regs.sp := by
  induction past with
  | nil => rfl
  | cons last past ih =>
    rw [stored, sp_store, ih, List.findSome?_cons]
    cases last.stackPointer? with
    | none => rfl
    | some value => rfl

theorem pc_stored (past : List RegisterStore) : (regs.stored past).pc = regs.pc := by
  induction past with
  | nil => rfl
  | cons last past ih => rw [stored, pc_store, ih]

/-- A pair is the number that its halves write. -/
theorem toNat_getWord {pair : WordReg} {high low : ByteReg} (halves : pair.halves = [high, low]) :
    (regs.getWord pair).toNat = 256 * (regs.getByte high).toNat + (regs.getByte low).toNat := by
  cases pair with
  | sp => cases halves
  | _ =>
    cases halves
    exact toNat_word _ _

/-- What the register file owes after some stores. -/
structure KeepsStores (regs : Registers) (past : List RegisterStore) : Prop where
  /-- A byte register holds what was put into it last, through either view, and else what it held
  at first. -/
  byte : ∀ r, (regs.stored past).getByte r =
    ((past.findSome? (RegisterStore.byteFor? r)).map r.shown).getD (regs.getByte r)
  pair : ∀ pair high low, pair.halves = [high, low] →
    ((regs.stored past).getWord pair).toNat =
      256 * ((regs.stored past).getByte high).toNat + ((regs.stored past).getByte low).toNat
  sp : (regs.stored past).getWord .sp =
    (past.findSome? RegisterStore.stackPointer?).getD (regs.getWord .sp)
  pc : (regs.stored past).pc = regs.pc
  /-- A further store changes nothing that it does not name. -/
  unnamed : ∀ next, ((regs.stored past).store next).pc = (regs.stored past).pc ∧
    (next.stackPointer? = none → ((regs.stored past).store next).sp = (regs.stored past).sp) ∧
    ∀ r, r ∉ next.bytes.map Prod.fst →
      ((regs.stored past).store next).getByte r = (regs.stored past).getByte r
  /-- To store what is there changes nothing. -/
  sameByte : ∀ r, (regs.stored past).store (.byte r ((regs.stored past).getByte r)) =
    regs.stored past
  sameWord : ∀ pair, (regs.stored past).store (.word pair ((regs.stored past).getWord pair)) =
    regs.stored past

/-- **The register file keeps what is stored**, through both of its views and from any registers
on. -/
theorem keepsStores (past : List RegisterStore) : regs.KeepsStores past where
  byte := regs.getByte_stored past
  pair _ _ _ halves := toNat_getWord _ halves
  sp := regs.sp_stored past
  pc := regs.pc_stored past
  unnamed next := by
    refine ⟨pc_store _ next, fun apart => ?_, fun r apart => getByte_store_of_not_mem _ apart⟩
    rw [sp_store, apart]
    rfl
  sameByte r := setByte_getByte _ r
  sameWord pair := setWord_getWord _ pair

/-- A word that is stored into AF over two bytes. -/
example : (({} : Registers).stored [.word .af 0x12FF, .flags 0xA5, .byte .a 0x34]).getByte .f =
    0xF0 := by
  decide

end Registers

end Sm83
