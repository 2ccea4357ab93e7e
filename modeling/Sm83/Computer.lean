import Sm83.Cpu.Slot

/-! # Running

A `Computer` is a core together with its board.

* **Steps.** `Computer.slot` plays one slot; `Computer.step` forgets what kind of slot it was.
* **Runs.** `Computer.run` repeats slots until there is a reason to end.  Before each slot the
  reasons are tried in a fixed order: the budget of instructions, the stop line, and sleep from
  which nothing pending would wake the core.  Seeing the stop line lowers it.
* **Fuel.** A run without a budget need not end, so `run` takes the greatest number of slots it
  may use and gives `none` when they do not suffice. -/

namespace Sm83

/-- A core and the board it is on. -/
structure Computer (β : Type) where
  cpu : Cpu
  board : Board β

/-- Why a run ended. -/
inductive RunEnd where
  /-- The budget of instructions is used up. -/
  | limitReached
  /-- The core is halted and nothing pending would wake it. -/
  | halted
  /-- The core is frozen and nothing pending would wake it. -/
  | stopped
  /-- The stop line was raised. -/
  | interrupted
deriving DecidableEq, Repr

/-- What a run has done so far. -/
structure Tally where
  instructions : Nat := 0
  cycles : Nat := 0
deriving DecidableEq, Repr

/-- Counts a slot. -/
def Tally.add (tally : Tally) (slot : Slot) : Tally where
  instructions := if slot.isExecuted then tally.instructions + 1 else tally.instructions
  cycles := tally.cycles + slot.cycles

/-- What a run did and why it ended. -/
structure RunResult extends Tally where
  exit : RunEnd
deriving DecidableEq, Repr

namespace Computer

variable {α β : Type}

/-- Applies a function to the core. -/
def mapCpu (f : Cpu → Cpu) (s : Computer β) : Computer β :=
  match s with
  | ⟨cpu, board⟩ => ⟨f cpu, board⟩

/-- Applies a function to the board. -/
def mapBoard (f : Board β → Board β) (s : Computer β) : Computer β :=
  match s with
  | ⟨cpu, board⟩ => ⟨cpu, f board⟩

/-- Plays an interaction on the board. -/
def interact [Device β] (t : Interaction α) (s : Computer β) : α × Computer β :=
  match s with
  | ⟨cpu, board⟩ =>
    match t.run board with
    | (value, board) => (value, ⟨cpu, board⟩)

/-- Plays a program of the core. -/
def exec [Device β] (program : Exec α) (s : Computer β) : α × Computer β :=
  match s with
  | ⟨cpu, board⟩ =>
    match (program.run cpu).run board with
    | ((value, cpu), board) => (value, ⟨cpu, board⟩)

/-- Performs an operation on the bus. -/
def perform (operation : β → Reply β α) (s : Computer β) : α × Computer β :=
  match s with
  | ⟨cpu, board⟩ =>
    match board.perform operation with
    | (value, board) => (value, ⟨cpu, board⟩)

/-- Plays one slot. -/
def slot [Device β] (executed : Nat) (s : Computer β) : Except StepError Slot × Computer β :=
  s.exec (Exec.slot executed)

/-- Plays one slot on its own and tells its clock cycles. -/
def step [Device β] (s : Computer β) : Except StepError Nat × Computer β :=
  match s.slot 0 with
  | (outcome, s) => (outcome.map Slot.cycles, s)

/-- Restarts the core and lowers the stop line; the bus keeps its state. -/
def reset (state : BootState) (entry : UInt16) (s : Computer β) : Computer β :=
  match s with
  | ⟨cpu, board⟩ => ⟨cpu.reset state entry, { board with stopRaised := false }⟩

/-- Raises the stop line. -/
def raiseStop (s : Computer β) : Computer β :=
  s.mapBoard fun board => { board with stopRaised := true }

/-- Lowers the stop line. -/
def clearStop (s : Computer β) : Computer β :=
  s.mapBoard fun board => { board with stopRaised := false }

/-- The reason to end a run before the next slot, if there is one. -/
def endReason? [Device β] (limit : Option Nat) (executed : Nat) (s : Computer β) :
    Option RunEnd × Computer β :=
  if limit.any (· ≤ executed) then
    (some .limitReached, s)
  else if s.board.stopRaised then
    (some .interrupted, s.clearStop.mapBoard (Board.report (.runInterrupted s.cpu.regs.pc)))
  else if s.cpu.asleep then
    match s.interact pendingRequests with
    | (pending, s) =>
      (if pending = 0 then some (if s.cpu.stopped then .stopped else .halted) else none, s)
  else
    (none, s)

/-- Repeats slots, continuing a run that has already done what `tally` says. -/
def runFrom [Device β] (limit : Option Nat) :
    Nat → Tally → Computer β → Option (Except StepError RunResult × Computer β)
  | 0, _, _ => none
  | fuel + 1, tally, s =>
    match s.endReason? limit tally.instructions with
    | (some exit, s) => some (.ok ⟨tally, exit⟩, s)
    | (none, s) =>
      match s.slot tally.instructions with
      | (.ok slot, s) => runFrom limit fuel (tally.add slot) s
      | (.error e, s) =>
        some (.error e, s.mapBoard (Board.report (.runFailed e s.cpu.regs s.cpu.ime)))

/-- Runs until there is a reason to end, an error, or `fuel` slots have gone by.  A limit bounds
the number of executed instructions. -/
def run [Device β] (fuel : Nat) (limit : Option Nat) (s : Computer β) :
    Option (Except StepError RunResult × Computer β) :=
  runFrom limit fuel {} s

end Computer

end Sm83
