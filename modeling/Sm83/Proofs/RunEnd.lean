import Sm83.Bus.SystemBus
import Sm83.Proofs.Steps

/-! # Reasons to end a run

Before each slot a run looks for a reason to end.

* **Polling.** On a bus with `QuietPolling` reading the two interrupt registers changes nothing.
  The system bus is one, whatever devices it has, and so is flat memory.  There `s.pending` is the
  sources that are enabled and requested (`pending_systemBus`, `pending_flatMemory`).
* **Reasons.** `s.Due limit executed exit` is the condition of each reason on its own;
  `s.FirstDue limit executed exit` says that it is the first of those that hold.
* **The search.** `Computer.endReason?` finds the first reason that is due, and none if none is
  (`endReason?_eq_some_iff`, `endReason?_eq_none_iff`); only the stop line is changed by it, and
  only when it is the reason. -/

namespace Sm83

/-! ### Polling -/

/-- A bus on which reading the interrupt registers changes nothing. -/
class QuietPolling (β : Type) [Device β] : Prop where
  read_enable : ∀ bus : β, ∃ value, Device.read Interrupt.enableAddress bus = ⟨value, bus, []⟩
  read_request : ∀ bus : β, ∃ value, Device.read Interrupt.requestAddress bus = ⟨value, bus, []⟩

theorem SystemBus.read_enable {δ : Type} [Device δ] (bus : SystemBus δ) :
    Device.read Interrupt.enableAddress bus = ⟨bus.enabled, bus, []⟩ := rfl

/-- The register of requests as it is read. -/
def SystemBus.requestRegister {δ : Type} (bus : SystemBus δ) : UInt8 :=
  bus.requested ||| SystemBus.unusedRequestBits

theorem SystemBus.read_request {δ : Type} [Device δ] (bus : SystemBus δ) :
    Device.read Interrupt.requestAddress bus = ⟨bus.requestRegister, bus, []⟩ := rfl

/-- The bits without a source are masked out of a poll. -/
theorem SystemBus.and_maskAll (requested : UInt8) :
    (requested ||| SystemBus.unusedRequestBits) &&& Interrupt.maskAll =
      requested &&& Interrupt.maskAll := by
  revert requested
  apply forall_byte
  decide +kernel

instance {δ : Type} [Device δ] : QuietPolling (SystemBus δ) where
  read_enable bus := ⟨_, bus.read_enable⟩
  read_request bus := ⟨_, bus.read_request⟩

instance : QuietPolling FlatMemory where
  read_enable _ := ⟨_, rfl⟩
  read_request _ := ⟨_, rfl⟩

/-- A poll of registers that can be read without a trace. -/
theorem run_pendingRequests {β : Type} [Device β] {board : Board β} {enabled requested : UInt8}
    (readEnable : Device.read Interrupt.enableAddress board.bus = ⟨enabled, board.bus, []⟩)
    (readRequest : Device.read Interrupt.requestAddress board.bus = ⟨requested, board.bus, []⟩) :
    pendingRequests.run board = (pendingOf enabled requested, board) := by
  simp only [pendingRequests, Interaction.readByte, Interaction.run_bind, Interaction.run_read,
    Board.perform_quiet readEnable, Board.perform_quiet readRequest, readEnable, readRequest,
    Interaction.run_done, Interaction.run_pure]
  rfl

namespace Computer

variable {β : Type} [Device β]

/-- The sources that a poll would find enabled and requested. -/
def pending (s : Computer β) : UInt8 := (s.interact pendingRequests).1

theorem interact_pendingRequests [QuietPolling β] (s : Computer β) :
    s.interact pendingRequests = (s.pending, s) := by
  obtain ⟨enabled, readEnable⟩ := QuietPolling.read_enable s.board.bus
  obtain ⟨requested, readRequest⟩ := QuietPolling.read_request s.board.bus
  simp only [pending, interact, run_pendingRequests readEnable readRequest]

theorem pending_systemBus {δ : Type} [Device δ] (s : Computer (SystemBus δ)) :
    s.pending = s.board.bus.enabled &&& s.board.bus.requested &&& Interrupt.maskAll := by
  simp only [pending, interact,
    run_pendingRequests s.board.bus.read_enable s.board.bus.read_request, pendingOf,
    SystemBus.requestRegister]
  rw [UInt8.and_assoc, SystemBus.and_maskAll, UInt8.and_assoc]

theorem pending_flatMemory (s : Computer FlatMemory) :
    s.pending = s.board.bus.get Interrupt.enableAddress &&&
      s.board.bus.get Interrupt.requestAddress &&& Interrupt.maskAll := by
  have polled : pendingRequests.run s.board = _ := run_pendingRequests rfl rfl
  rw [pending, interact, polled]
  rfl

/-! ### Reasons -/

/-- The condition of each reason to end a run that has executed a number of instructions. -/
def Due (limit : Option Nat) (executed : Nat) (s : Computer β) : RunEnd → Prop
  | .limitReached => ∃ l ∈ limit, l ≤ executed
  | .interrupted => s.board.stopRaised = true
  | .stopped => s.cpu.stopped = true ∧ s.pending = 0
  | .halted => s.cpu.halted = true ∧ s.cpu.stopped = false ∧ s.pending = 0

/-- The order in which the reasons are tried. -/
def rank : RunEnd → Nat
  | .limitReached => 0
  | .interrupted => 1
  | .stopped | .halted => 2

/-- Whether a reason is due and none is that is tried before it. -/
def FirstDue (limit : Option Nat) (executed : Nat) (s : Computer β) (exit : RunEnd) : Prop :=
  s.Due limit executed exit ∧ ∀ other, rank other < rank exit → ¬ s.Due limit executed other

/-- The state in which a run ends for a reason: seeing the stop line lowers it and is reported. -/
def close (s : Computer β) : RunEnd → Computer β
  | .interrupted => s.clearStop.mapBoard (Board.report (.runInterrupted s.cpu.regs.pc))
  | _ => s

omit [Device β] in
@[simp] theorem cpu_close (s : Computer β) (exit : RunEnd) : (s.close exit).cpu = s.cpu := by
  cases exit <;> rfl

omit [Device β] in
@[simp] theorem bus_close (s : Computer β) (exit : RunEnd) :
    (s.close exit).board.bus = s.board.bus := by
  cases exit <;> rfl

omit [Device β] in
@[simp] theorem stopRaised_close (s : Computer β) (exit : RunEnd) :
    (s.close exit).board.stopRaised = (s.board.stopRaised && decide (exit ≠ .interrupted)) := by
  cases exit <;> simp [close, clearStop, mapBoard]

/-- At most one reason is the first. -/
theorem FirstDue.unique {limit : Option Nat} {executed : Nat} {s : Computer β}
    {exit other : RunEnd} (h : s.FirstDue limit executed exit)
    (h' : s.FirstDue limit executed other) : exit = other := by
  have notBefore : ¬ rank other < rank exit := fun before => h.2 other before h'.1
  have notAfter : ¬ rank exit < rank other := fun before => h'.2 exit before h.1
  cases exit <;> cases other <;> simp_all [rank]
  · exact absurd (h'.1.1.symm.trans h.1.2.1) (by decide)
  · exact absurd (h.1.1.symm.trans h'.1.2.1) (by decide)

/-! ### The search -/

/-- What the search for a reason finds: the first one that is due, or that there is none. -/
def Searched (limit : Option Nat) (executed : Nat) (s : Computer β) :
    Option RunEnd × Computer β → Prop
  | (some exit, t) => s.FirstDue limit executed exit ∧ t = s.close exit
  | (none, t) => (∀ exit, ¬ s.Due limit executed exit) ∧ t = s

theorem due_limitReached_iff (limit : Option Nat) (executed : Nat) (s : Computer β) :
    s.Due limit executed .limitReached ↔ limit.any (· ≤ executed) = true := by
  simp [Due, Option.any_eq_true]

section search
variable {limit : Option Nat} {executed : Nat} {s : Computer β}

/-- A core that sleeps with nothing pending gives the reason that its sleep is. -/
theorem due_of_asleep (asleep : s.cpu.asleep = true) (quiet : s.pending = 0) :
    s.Due limit executed (if s.cpu.stopped then .stopped else .halted) := by
  by_cases stopped : s.cpu.stopped = true
  · rw [if_pos stopped]
    exact ⟨stopped, quiet⟩
  · rw [if_neg stopped]
    rw [Cpu.asleep, Bool.or_eq_true, or_iff_left stopped] at asleep
    exact ⟨asleep, eq_false_of_ne_true stopped, quiet⟩

/-- A core that does not sleep, or has something pending, gives no reason of its own. -/
theorem not_due_of_woken (left : ¬ s.Due limit executed .limitReached)
    (lowered : ¬ s.Due limit executed .interrupted)
    (woken : s.cpu.asleep = true → s.pending ≠ 0) (exit : RunEnd) :
    ¬ s.Due limit executed exit := by
  cases exit with
  | limitReached => exact left
  | interrupted => exact lowered
  | stopped =>
    rintro ⟨stopped, quiet⟩
    refine woken ?_ quiet
    rw [Cpu.asleep, stopped, Bool.or_true]
  | halted =>
    rintro ⟨halted, -, quiet⟩
    refine woken ?_ quiet
    rw [Cpu.asleep, halted, Bool.true_or]

/-- Only the budget and the stop line are tried before sleep. -/
theorem not_due_of_rank (left : ¬ s.Due limit executed .limitReached)
    (lowered : ¬ s.Due limit executed .interrupted) (other : RunEnd) (before : rank other < 2) :
    ¬ s.Due limit executed other := by
  cases other with
  | limitReached => exact left
  | interrupted => exact lowered
  | stopped | halted => exact absurd before (Nat.lt_irrefl 2)

end search

theorem searched_endReason? [QuietPolling β] (limit : Option Nat) (executed : Nat)
    (s : Computer β) : s.Searched limit executed (s.endReason? limit executed) := by
  have budget := due_limitReached_iff limit executed s
  unfold endReason?
  split
  case isTrue reached =>
    exact ⟨⟨budget.mpr reached, fun other before => absurd before (Nat.not_lt_zero _)⟩, rfl⟩
  case isFalse left =>
    rw [← budget] at left
    split
    case isTrue raised =>
      refine ⟨⟨raised, fun other before => ?_⟩, rfl⟩
      cases other with
      | limitReached => exact left
      | interrupted | stopped | halted => simp [rank] at before
    case isFalse lowered =>
      split
      case isTrue asleep =>
        rw [interact_pendingRequests]
        dsimp only
        by_cases quiet : s.pending = 0
        · rw [if_pos quiet]
          refine ⟨⟨due_of_asleep asleep quiet, fun other before => ?_⟩, ?_⟩
          · have last : rank (if s.cpu.stopped then .stopped else .halted) = 2 := by
              split
              · rfl
              · rfl
            rw [last] at before
            exact not_due_of_rank left lowered other before
          · split
            · rfl
            · rfl
        · rw [if_neg quiet]
          exact ⟨not_due_of_woken left lowered fun _ => quiet, rfl⟩
      case isFalse awake =>
        exact ⟨not_due_of_woken left lowered fun asleep => absurd asleep awake, rfl⟩

theorem endReason?_eq_some_iff [QuietPolling β] {limit : Option Nat} {executed : Nat}
    {s t : Computer β} {exit : RunEnd} :
    s.endReason? limit executed = (some exit, t) ↔
      s.FirstDue limit executed exit ∧ t = s.close exit := by
  have searched := s.searched_endReason? limit executed
  refine ⟨fun h => by rwa [h] at searched, fun ⟨due, closed⟩ => ?_⟩
  rcases found : s.endReason? limit executed with ⟨_ | other, u⟩
  · rw [found] at searched
    exact absurd due.1 (searched.1 exit)
  · rw [found] at searched
    obtain rfl := due.unique searched.1
    rw [searched.2, closed]

theorem endReason?_eq_none_iff [QuietPolling β] {limit : Option Nat} {executed : Nat}
    {s t : Computer β} :
    s.endReason? limit executed = (none, t) ↔ (∀ exit, ¬ s.Due limit executed exit) ∧ t = s := by
  have searched := s.searched_endReason? limit executed
  refine ⟨fun h => by rwa [h] at searched, fun ⟨undue, same⟩ => ?_⟩
  rcases found : s.endReason? limit executed with ⟨_ | exit, u⟩
  · rw [found] at searched
    rw [searched.2, same]
  · rw [found] at searched
    exact absurd searched.1.1 (undue exit)

end Computer

end Sm83
