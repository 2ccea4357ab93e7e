import Sm83.Bus.Device

/-! # Interactions

A part of the core is a value: the tree of what it asks of the bus.

* **Trees.** An `Interaction` either is done, or makes one access and goes on, after a read with
  the byte that was read.  Its size does not depend on any bus, and every path through it is
  finite.
* **Monad.** Interactions compose by grafting (`bind`), so the core is written in `do` notation.
* **Meaning.** `Interaction.run` plays a tree against a board.  Whatever holds of every path of a
  tree therefore holds on every bus, whatever its devices answer. -/

namespace Sm83

/-- What remains to be asked of the bus before the result is known. -/
inductive Interaction (α : Type) where
  /-- Nothing remains. -/
  | done (value : α)
  /-- Reads a byte and goes on with it. -/
  | read (address : UInt16) (next : UInt8 → Interaction α)
  /-- Writes a byte. -/
  | write (address : UInt16) (value : UInt8) (next : Interaction α)
  /-- Lets clock cycles pass. -/
  | tick (cycles : Nat) (next : Interaction α)
  /-- Reports an event. -/
  | report (event : LogEvent) (next : Interaction α)

namespace Interaction

variable {α γ β : Type}

/-- Goes on with `f` where the tree is done. -/
def bind : Interaction α → (α → Interaction γ) → Interaction γ
  | done value, f => f value
  | read address next, f => read address fun value => (next value).bind f
  | write address value next, f => write address value (next.bind f)
  | tick cycles next, f => tick cycles (next.bind f)
  | report event next, f => report event (next.bind f)

instance : Monad Interaction where
  pure := done
  bind := bind

theorem bind_done (t : Interaction α) : t.bind done = t := by
  induction t with
  | done value => rfl
  | read address next ih => simp only [bind, ih]
  | write address value next ih => simp only [bind, ih]
  | tick cycles next ih => simp only [bind, ih]
  | report event next ih => simp only [bind, ih]

theorem bind_assoc {δ : Type} (t : Interaction α) (f : α → Interaction γ)
    (g : γ → Interaction δ) : (t.bind f).bind g = t.bind fun value => (f value).bind g := by
  induction t with
  | done value => rfl
  | read address next ih => simp only [bind, ih]
  | write address value next ih => simp only [bind, ih]
  | tick cycles next ih => simp only [bind, ih]
  | report event next ih => simp only [bind, ih]

instance : LawfulMonad Interaction :=
  .mk' Interaction bind_done (fun _ _ => rfl) bind_assoc

/-- Reads the byte at an address. -/
def readByte (address : UInt16) : Interaction UInt8 := .read address .done

/-- Writes a byte to an address. -/
def writeByte (address : UInt16) (value : UInt8) : Interaction Unit :=
  .write address value (.done ())

/-- Lets clock cycles pass. -/
def elapse (cycles : Nat) : Interaction Unit := .tick cycles (.done ())

/-- Reports an event. -/
def note (event : LogEvent) : Interaction Unit := .report event (.done ())

/-- Plays an interaction against a board. -/
def run [Device β] : Interaction α → Board β → α × Board β
  | done value, board => (value, board)
  | read address next, board =>
    match board.perform (Device.read address) with
    | (value, board) => (next value).run board
  | write address value next, board =>
    match board.perform (Device.write address value) with
    | (_, board) => next.run board
  | tick cycles next, board =>
    match board.perform (Device.tick cycles) with
    | (_, board) => next.run board
  | report event next, board => next.run (board.report event)

@[simp] theorem run_done [Device β] (value : α) (board : Board β) :
    (done value).run board = (value, board) := rfl

@[simp] theorem run_pure [Device β] (value : α) (board : Board β) :
    (pure value : Interaction α).run board = (value, board) := rfl

/-- Playing a composed tree plays its parts one after the other. -/
theorem run_bind [Device β] (t : Interaction α) (f : α → Interaction γ) (board : Board β) :
    (t >>= f).run board = (f (t.run board).1).run (t.run board).2 := by
  change (t.bind f).run board = _
  induction t generalizing board with
  | done value => rfl
  | read address next ih => simp only [bind, run, ih]
  | write address value next ih => simp only [bind, run, ih]
  | tick cycles next ih => simp only [bind, run, ih]
  | report event next ih => simp only [bind, run, ih]

end Interaction

end Sm83
