import Sm83.Log

/-! # Devices and the board

Everything the core talks to is a device: a memory, a peripheral, or a whole bus that routes
accesses to other devices.

* **Devices.** A `Device` answers reads, takes writes and is told how many clock cycles pass.
  Each of the three is a function from the device's state to a `Reply`; even a read may change the
  state.
* **Effects.** Besides answering, a device can raise the stop line and report to the log, and
  nothing else.  In particular no device can lower the stop line.
* **The board.** A `Board` joins the bus with the stop line and the log.  `Board.perform` runs one
  operation on the bus and carries out the effects it asks for. -/

namespace Sm83

/-- What a device may ask of the board. -/
inductive Effect where
  /-- Raises the stop line. -/
  | requestStop
  /-- Reports an event. -/
  | report (event : LogEvent)
deriving DecidableEq, Repr

/-- The outcome of an operation on a device: its answer, its next state, and what it asks of the
board. -/
structure Reply (σ α : Type) where
  value : α
  state : σ
  effects : List Effect := []
deriving DecidableEq, Repr

namespace Reply

/-- The same outcome seen from the owner of the device. -/
def mapState {σ τ α : Type} (f : σ → τ) (reply : Reply σ α) : Reply τ α :=
  match reply with
  | ⟨value, state, effects⟩ => ⟨value, f state, effects⟩

/-- The same outcome without its answer. -/
def ignore {σ α : Type} (reply : Reply σ α) : Reply σ Unit :=
  match reply with
  | ⟨_, state, effects⟩ => ⟨(), state, effects⟩

variable {σ τ α : Type}

@[simp] theorem value_mapState (f : σ → τ) (reply : Reply σ α) :
    (reply.mapState f).value = reply.value := rfl

@[simp] theorem state_mapState (f : σ → τ) (reply : Reply σ α) :
    (reply.mapState f).state = f reply.state := rfl

@[simp] theorem effects_mapState (f : σ → τ) (reply : Reply σ α) :
    (reply.mapState f).effects = reply.effects := rfl

@[simp] theorem state_ignore (reply : Reply σ α) : reply.ignore.state = reply.state := rfl

@[simp] theorem effects_ignore (reply : Reply σ α) : reply.ignore.effects = reply.effects := rfl

end Reply

/-- Anything that answers at sixteen-bit addresses. -/
class Device (σ : Type) where
  /-- Reads the byte at an address. -/
  read : UInt16 → σ → Reply σ UInt8
  /-- Writes a byte to an address. -/
  write : UInt16 → UInt8 → σ → Reply σ Unit
  /-- Lets a number of clock cycles pass. -/
  tick : Nat → σ → Reply σ Unit

instance : Device Empty where
  read _ device := device.elim
  write _ _ device := device.elim
  tick _ device := device.elim

/-- A bus with the stop line and the log. -/
structure Board (β : Type) where
  bus : β
  stopRaised : Bool := false
  log : Log := {}

namespace Board

variable {β α : Type}

/-- Reports an event to the log. -/
def report (event : LogEvent) (board : Board β) : Board β :=
  match board with
  | ⟨bus, stopRaised, log⟩ => ⟨bus, stopRaised, log.add event⟩

/-- Carries out what a device asked for. -/
def absorb (board : Board β) : Effect → Board β
  | .requestStop => { board with stopRaised := true }
  | .report event => board.report event

/-- Runs an operation on the bus and carries out the effects it asks for, in order. -/
def perform (operation : β → Reply β α) (board : Board β) : α × Board β :=
  match board with
  | ⟨bus, stopRaised, log⟩ =>
    match operation bus with
    | ⟨value, bus, effects⟩ => (value, effects.foldl absorb ⟨bus, stopRaised, log⟩)

@[simp] theorem bus_report (event : LogEvent) (board : Board β) :
    (board.report event).bus = board.bus := rfl

@[simp] theorem stopRaised_report (event : LogEvent) (board : Board β) :
    (board.report event).stopRaised = board.stopRaised := rfl

@[simp] theorem bus_absorb (board : Board β) (effect : Effect) :
    (board.absorb effect).bus = board.bus := by
  cases effect <;> rfl

theorem stopRaised_absorb (board : Board β) (effect : Effect) :
    (board.absorb effect).stopRaised = (board.stopRaised || effect == .requestStop) := by
  cases effect <;> simp [absorb]

@[simp] theorem bus_foldl_absorb (board : Board β) (effects : List Effect) :
    (effects.foldl absorb board).bus = board.bus := by
  induction effects generalizing board with
  | nil => rfl
  | cons effect rest ih => rw [List.foldl_cons, ih, bus_absorb]

/-- Effects can raise the stop line but never lower it. -/
theorem stopRaised_foldl_absorb (board : Board β) (effects : List Effect) :
    (effects.foldl absorb board).stopRaised =
      (board.stopRaised || effects.contains .requestStop) := by
  induction effects generalizing board with
  | nil => simp
  | cons effect rest ih =>
    rw [List.foldl_cons, ih, stopRaised_absorb, List.contains_cons, Bool.or_assoc]
    cases effect <;> rfl

@[simp] theorem value_perform (operation : β → Reply β α) (board : Board β) :
    (board.perform operation).1 = (operation board.bus).value := rfl

@[simp] theorem bus_perform (operation : β → Reply β α) (board : Board β) :
    (board.perform operation).2.bus = (operation board.bus).state := by
  simp [perform]

theorem stopRaised_perform (operation : β → Reply β α) (board : Board β) :
    (board.perform operation).2.stopRaised =
      (board.stopRaised || (operation board.bus).effects.contains .requestStop) := by
  simp [perform, stopRaised_foldl_absorb]

end Board

end Sm83
