import Sm83.Bus.Device

/-! # Traced buses

A bus with a record of what was asked of it.  Recording changes no answer: `Traced` passes every
operation on to the bus inside and notes it together with the byte that was moved. -/

namespace Sm83

/-- One operation on a bus. -/
inductive Access where
  | read (address : UInt16) (value : UInt8)
  | write (address : UInt16) (value : UInt8)
  | tick (cycles : Nat)
deriving DecidableEq, Repr

/-- A bus and the operations on it so far. -/
structure Traced (β : Type) where
  bus : β
  accesses : Array Access := #[]

namespace Traced

variable {β α : Type}

/-- Passes an operation on and records it. -/
def record (operation : β → Reply β α) (access : α → Access) (traced : Traced β) :
    Reply (Traced β) α :=
  match traced with
  | ⟨bus, accesses⟩ =>
    match operation bus with
    | ⟨value, bus, effects⟩ => ⟨value, ⟨bus, accesses.push (access value)⟩, effects⟩

instance [Device β] : Device (Traced β) where
  read address := record (Device.read address) (Access.read address)
  write address value := record (Device.write address value) fun _ => .write address value
  tick cycles := record (Device.tick cycles) fun _ => .tick cycles

/-- Forgets the operations recorded so far. -/
def clear (traced : Traced β) : Traced β :=
  match traced with
  | ⟨bus, _⟩ => ⟨bus, #[]⟩

@[simp] theorem value_record (operation : β → Reply β α) (access : α → Access)
    (traced : Traced β) : (traced.record operation access).value = (operation traced.bus).value :=
  rfl

@[simp] theorem bus_record (operation : β → Reply β α) (access : α → Access)
    (traced : Traced β) :
    (traced.record operation access).state.bus = (operation traced.bus).state := rfl

@[simp] theorem accesses_record (operation : β → Reply β α) (access : α → Access)
    (traced : Traced β) :
    (traced.record operation access).state.accesses =
      traced.accesses.push (access (operation traced.bus).value) := rfl

end Traced

end Sm83
