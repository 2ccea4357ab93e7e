import Mathlib.Data.List.Chain
import Sm83.Proofs.Encoding

/-! # Sweeps through the address space

A sweep disassembles line after line, each where the one before it ends.

* **Lines.** A `PlacedLine` is a line with its address.  It covers at least one address, and never
  one past the last (`ensures_disassemble`).
* **Tilings.** `Tiling start lines` says that each line begins where the one before it ends, the
  first one at `start`, and that the last one ends with the address space.  Whatever the bus
  answers, a sweep that goes on long enough is one (`exists_tiling`).
* **Main statement.** `exists_sweeps`: the lines of a sweep divide the addresses from its start on
  among them, and then the sweep is back at address zero. -/

namespace Sm83

/-! ### Lines -/

/-- A line of a listing and the address at which it begins. -/
structure PlacedLine where
  address : UInt16
  line : Line
deriving DecidableEq, Repr

namespace PlacedLine

/-- The number of the address after a line. -/
def stop (placed : PlacedLine) : Nat := placed.address.toNat + placed.line.length

/-- Whether a line covers the byte at an address. -/
def Covers (address : UInt16) (placed : PlacedLine) : Prop :=
  placed.address ≤ address ∧ address.toNat < placed.stop

instance (address : UInt16) : DecidablePred (Covers address) := fun _ =>
  inferInstanceAs (Decidable (_ ∧ _))

end PlacedLine

/-- Disassembles a number of lines from an address on; tells them and the address after the
last. -/
def sweep : Nat → UInt16 → Interaction (List PlacedLine × UInt16)
  | 0, address => return ([], address)
  | count + 1, address => do
    let line ← disassemble address
    let (rest, next) ← sweep count (address + UInt16.ofNat line.length)
    return (⟨address, line⟩ :: rest, next)

theorem Instruction.Encoded.length_pos {address : UInt16} {bytes : List UInt8} {ins : Instruction}
    (h : Encoded address bytes ins) : 0 < ins.length := by
  rw [h.length_eq]
  cases h with
  | extended | single | double | triple => exact Nat.succ_pos _

/-- A line covers at least one byte, and none past the last address.  Making it only reads. -/
theorem ensures_disassemble (address : UInt16) :
    (disassemble address).Ensures fun accesses reports line =>
      (∀ access ∈ accesses, access.isRead = true) ∧ reports = [] ∧
        0 < line.length ∧ address.toNat + line.length ≤ 0x10000 := by
  rw [disassemble, Interaction.ensures_map]
  intro accesses reports outcome path
  have reads := Instruction.ensures_fetch_isRead address _ _ _ path
  obtain ⟨silent, read⟩ := Instruction.ensures_fetch_encoded address _ _ _ path
  refine ⟨reads, silent, ?_⟩
  cases outcome with
  | error fault =>
    have inside := address.toNat_lt
    exact ⟨Nat.one_pos, inside⟩
  | ok ins =>
    obtain ⟨bytes, -, encoded, inTime⟩ := read
    rw [← encoded.length_eq] at inTime
    exact ⟨encoded.length_pos, inTime⟩

/-! ### Tilings -/

/-- Lines that follow each other without a gap from a start to the end of the address space. -/
inductive Tiling : Nat → List PlacedLine → Prop
  | done : Tiling 0x10000 []
  | line {address : UInt16} {line : Line} {rest : List PlacedLine} (covers : 0 < line.length) :
      Tiling (address.toNat + line.length) rest → Tiling address.toNat (⟨address, line⟩ :: rest)

namespace Tiling

variable {start : Nat} {lines : List PlacedLine}

theorem start_le (h : Tiling start lines) : start ≤ 0x10000 := by
  cases h with
  | done => exact Nat.le_refl _
  | @line address => exact Nat.le_of_lt address.toNat_lt

/-- No line of a tiling begins before its start. -/
theorem start_le_of_mem (h : Tiling start lines) {placed : PlacedLine} (listed : placed ∈ lines) :
    start ≤ placed.address.toNat := by
  induction h with
  | done => cases listed
  | line covers tiling ih =>
    rcases List.mem_cons.mp listed with rfl | later
    · exact Nat.le_refl _
    · exact Nat.le_trans (Nat.le_add_right _ _) (ih later)

theorem stop_le_of_mem (h : Tiling start lines) {placed : PlacedLine} (listed : placed ∈ lines) :
    placed.stop ≤ 0x10000 := by
  induction h with
  | done => cases listed
  | line covers tiling ih =>
    rcases List.mem_cons.mp listed with rfl | later
    · exact tiling.start_le
    · exact ih later

/-- A line ends before every later one begins. -/
theorem disjoint (h : Tiling start lines) :
    lines.Pairwise fun placed later => placed.stop ≤ later.address.toNat := by
  induction h with
  | done => exact .nil
  | line covers tiling ih => exact .cons (fun _ => tiling.start_le_of_mem) ih

/-- The lines stand in the order of their addresses. -/
theorem increasing (h : Tiling start lines) :
    lines.Pairwise fun placed later => placed.address < later.address := by
  induction h with
  | done => exact .nil
  | line covers tiling ih =>
    refine .cons (fun later listed => UInt16.lt_iff_toNat_lt.mpr ?_) ih
    exact Nat.lt_of_lt_of_le (Nat.lt_add_of_pos_right covers) (tiling.start_le_of_mem listed)

/-- A line ends where the next one begins. -/
theorem adjacent (h : Tiling start lines) :
    lines.IsChain fun placed next => placed.stop = next.address.toNat := by
  induction h with
  | done => exact .nil
  | @line address line rest covers tiling ih =>
    generalize stop : address.toNat + line.length = finish at tiling
    cases tiling with
    | done => exact .singleton _
    | line => exact .cons_cons stop ih

theorem head?_address {start : UInt16} (h : Tiling start.toNat lines) :
    lines.head?.map PlacedLine.address = some start := by
  generalize number : start.toNat = n at h
  cases h with
  | done => exact absurd start.toNat_lt (Nat.not_lt.mpr (Nat.le_of_eq number.symm))
  | line => exact congrArg some (UInt16.toNat_inj.mp number).symm

/-- No line covers an address before the start of a tiling. -/
theorem countP_covers_of_lt (h : Tiling start lines) {address : UInt16}
    (before : address.toNat < start) : lines.countP (PlacedLine.Covers address) = 0 := by
  refine List.countP_eq_zero.mpr fun placed listed covered => ?_
  have first := UInt16.le_iff_toNat_le.mp (of_decide_eq_true covered).1
  have inside := h.start_le_of_mem listed
  omega

/-- Every address from the start on is covered by one line. -/
theorem countP_covers (h : Tiling start lines) {address : UInt16} (inside : start ≤ address.toNat) :
    lines.countP (PlacedLine.Covers address) = 1 := by
  induction h with
  | done => exact absurd address.toNat_lt (Nat.not_lt.mpr inside)
  | @line first line rest covers tiling ih =>
    rw [List.countP_cons]
    by_cases here : address.toNat < first.toNat + line.length
    · have covered : PlacedLine.Covers address ⟨first, line⟩ :=
        ⟨UInt16.le_iff_toNat_le.mpr inside, here⟩
      rw [tiling.countP_covers_of_lt here, if_pos (decide_eq_true covered)]
    · have later : ¬ PlacedLine.Covers address ⟨first, line⟩ := fun covered => here covered.2
      rw [ih (Nat.le_of_not_lt here), if_neg fun covered => later (of_decide_eq_true covered)]

end Tiling

/-! ### Sweeping -/

section board
variable {β : Type} [Device β]

theorem run_sweep_succ (count : Nat) (address : UInt16) (board : Board β) :
    (sweep (count + 1) address).run board =
      let (line, board) := (disassemble address).run board
      let ((rest, next), board) := (sweep count (address + UInt16.ofNat line.length)).run board
      ((⟨address, line⟩ :: rest, next), board) := by
  rw [sweep, Interaction.run_bind, Interaction.run_bind]
  rfl

/-- **Sweeps end**: whatever the bus answers, a sweep of at most as many lines as there are
addresses left is back at address zero, and its lines are a tiling. -/
theorem exists_tiling (address : UInt16) (board : Board β) :
    ∃ lines board', lines.length ≤ 0x10000 - address.toNat ∧
      (sweep lines.length address).run board = ((lines, 0), board') ∧
      Tiling address.toNat lines := by
  -- The induction is on the number of addresses left.
  induction room : 0x10000 - address.toNat using Nat.strong_induction_on
    generalizing address board with
  | _ room ih =>
    obtain ⟨-, -, covers, inTime⟩ := (ensures_disassemble address).run board
    rcases made : (disassemble address).run board with ⟨line, board'⟩
    rw [made] at covers inTime
    dsimp only at covers inTime
    by_cases last : address.toNat + line.length = 0x10000
    · have wraps : address + UInt16.ofNat line.length = 0 := by
        apply UInt16.toNat_inj.mp
        rw [UInt16.toNat_add, UInt16.toNat_ofNat', UInt16.toNat_zero]
        omega
      refine ⟨[⟨address, line⟩], board', ?_, ?_, .line covers (last ▸ .done)⟩
      · rw [List.length_singleton]
        omega
      · rw [List.length_singleton, run_sweep_succ, made]
        dsimp only
        rw [wraps]
        rfl
    · have next : (address + UInt16.ofNat line.length).toNat = address.toNat + line.length := by
        rw [UInt16.toNat_add, UInt16.toNat_ofNat']
        omega
      obtain ⟨lines, board'', few, swept, tiling⟩ :=
        ih (0x10000 - (address.toNat + line.length)) (by omega)
          (address + UInt16.ofNat line.length) board' (by rw [next])
      rw [next] at tiling
      refine ⟨⟨address, line⟩ :: lines, board'', ?_, ?_, .line covers tiling⟩
      · rw [List.length_cons]
        omega
      · rw [List.length_cons, run_sweep_succ, made]
        dsimp only
        rw [swept]

/-- Where reading leaves no trace, so does disassembling, and the line is the one that is listed. -/
theorem run_disassemble {board : Board β} (quiet : QuietReads board.bus) (address : UInt16) :
    (disassemble address).run board = (listed address board.bus, board) := by
  obtain ⟨reads, silent, -⟩ := (ensures_disassemble address).run board
  have same := Interaction.run_of_reads (disassemble address) quiet reads
  rw [silent] at same
  have answers := Interaction.answers_accesses (disassemble address) board.bus
  have path := (disassemble address).path_run { bus := board.bus }
  exact Prod.ext (path.taken answers).2.2 same

theorem run_sweep_quiet {board : Board β} (quiet : QuietReads board.bus) (count : Nat)
    (address : UInt16) :
    ((sweep count address).run board).2 = board ∧
      ∀ placed ∈ ((sweep count address).run board).1.1,
        placed.line = listed placed.address board.bus := by
  induction count generalizing address with
  | zero => exact ⟨rfl, nofun⟩
  | succ count ih =>
    rw [run_sweep_succ, run_disassemble quiet]
    obtain ⟨same, lines⟩ := ih (address + UInt16.ofNat (listed address board.bus).length)
    refine ⟨same, fun placed member => ?_⟩
    rcases List.mem_cons.mp member with rfl | later
    · rfl
    · exact lines placed later

/-- What the lines of a sweep from an address to the end of the address space are. -/
structure Sweeps (bus : β) (start : UInt16) (lines : List PlacedLine) : Prop where
  first : lines.head?.map PlacedLine.address = some start
  increasing : lines.Pairwise fun placed later => placed.address < later.address
  adjacent : lines.IsChain fun placed next => placed.stop = next.address.toNat
  disjoint : lines.Pairwise fun placed later => placed.stop ≤ later.address.toNat
  inTime : ∀ placed ∈ lines, placed.stop ≤ 0x10000
  covered : ∀ address, start ≤ address → lines.countP (PlacedLine.Covers address) = 1
  /-- Each line is the one that the memory shows at its address. -/
  shown : QuietReads bus → ∀ placed ∈ lines, placed.line = listed placed.address bus

/-- **Sweeps tile the address space**: disassembling line after line comes back to address zero
after at most as many lines as there are addresses left, and every byte up to there is covered by
one line.  Where reading leaves no trace, nothing has changed. -/
theorem exists_sweeps (start : UInt16) (board : Board β) :
    ∃ lines board', lines.length ≤ 0x10000 - start.toNat ∧
      (sweep lines.length start).run board = ((lines, 0), board') ∧
      Sweeps board.bus start lines ∧ (QuietReads board.bus → board' = board) := by
  obtain ⟨lines, board', few, swept, tiling⟩ := exists_tiling start board
  refine ⟨lines, board', few, swept, ⟨tiling.head?_address, tiling.increasing, tiling.adjacent,
    tiling.disjoint, fun _ => tiling.stop_le_of_mem, fun address inside => ?_, fun quiet => ?_⟩,
    fun quiet => ?_⟩
  · exact tiling.countP_covers (UInt16.le_iff_toNat_le.mp inside)
  · have shown := (run_sweep_quiet quiet lines.length start).2
    rw [swept] at shown
    exact shown
  · have same := (run_sweep_quiet quiet lines.length start).1
    rw [swept] at same
    exact same

end board

end Sm83
