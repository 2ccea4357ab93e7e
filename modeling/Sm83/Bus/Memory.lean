import Sm83.Bus.Device

/-! # Memories

Two plain memories.

* **`FlatMemory`** covers all sixteen-bit addresses with one cell each, all zero at first.
* **`Ram`** covers one region with a cell for each address.  It is given absolute addresses;
  outside its region it reads `0xFF` and ignores writes. -/

namespace Sm83

/-- A cell for every address. -/
structure FlatMemory where
  cells : Vector UInt8 0x10000 := Vector.replicate 0x10000 0
deriving DecidableEq

namespace FlatMemory

/-- The memory that holds the values of a function. -/
def ofFn (f : UInt16 → UInt8) : FlatMemory := ⟨.ofFn fun i => f (UInt16.ofNat i)⟩

/-- The byte at an address. -/
def get (memory : FlatMemory) (address : UInt16) : UInt8 :=
  getElem memory.cells address.toNat address.toNat_lt

/-- Stores a byte at an address. -/
def set (memory : FlatMemory) (address : UInt16) (value : UInt8) : FlatMemory :=
  ⟨memory.cells.set address.toNat value address.toNat_lt⟩

theorem get_set (memory : FlatMemory) (a b : UInt16) (value : UInt8) :
    (memory.set a value).get b = if a = b then value else memory.get b := by
  simp only [get, set, Vector.getElem_set, UInt16.toNat_inj]

@[simp] theorem get_blank (address : UInt16) : ({} : FlatMemory).get address = 0 := by
  simp [get]

@[simp] theorem get_ofFn (f : UInt16 → UInt8) (address : UInt16) :
    (ofFn f).get address = f address := by
  simp [get, ofFn]

theorem ext_get {m n : FlatMemory} (h : ∀ address, m.get address = n.get address) : m = n := by
  obtain ⟨m⟩ := m
  obtain ⟨n⟩ := n
  congr 1
  apply Vector.ext
  intro i hi
  have address := h (UInt16.ofNat i)
  simp only [get, UInt16.toNat_ofNat', Nat.mod_eq_of_lt hi] at address
  exact address

instance : Device FlatMemory where
  read address memory := ⟨memory.get address, memory, []⟩
  write address value memory := ⟨(), memory.set address value, []⟩
  tick _ memory := ⟨(), memory, []⟩

end FlatMemory

/-- Consecutive cells from the address `base` on. -/
structure Ram where
  base : UInt16
  cells : Array UInt8
deriving DecidableEq, Repr

namespace Ram

/-- Memory for a region, all zero. -/
def ofRegion (region : Region) : Ram := ⟨region.first, Array.replicate region.size 0⟩

/-- The number of the cell at an address; addresses below `base` wrap far past the last cell. -/
def index (memory : Ram) (address : UInt16) : Nat := (address - memory.base).toNat

/-- The byte at an address. -/
def get (memory : Ram) (address : UInt16) : UInt8 :=
  memory.cells.getD (memory.index address) 0xFF

/-- Stores a byte at an address. -/
def set (memory : Ram) (address : UInt16) (value : UInt8) : Ram :=
  match memory with
  | ⟨base, cells⟩ => ⟨base, cells.setIfInBounds (address - base).toNat value⟩

theorem index_inj (memory : Ram) {a b : UInt16} : memory.index a = memory.index b ↔ a = b := by
  refine ⟨fun h => ?_, fun h => h ▸ rfl⟩
  have same := UInt16.toNat_inj.mp h
  rw [← UInt16.sub_add_cancel a memory.base, same, UInt16.sub_add_cancel]

/-- A write is seen at its own address, and only there, if the address has a cell. -/
theorem get_set (memory : Ram) (a b : UInt16) (value : UInt8) :
    (memory.set a value).get b =
      if a = b ∧ memory.index a < memory.cells.size then value else memory.get b := by
  obtain ⟨base, cells⟩ := memory
  have inj := index_inj ⟨base, cells⟩ (a := a) (b := b)
  simp only [set, get, index] at inj ⊢
  rw [Array.getD_eq_getD_getElem?, Array.getD_eq_getD_getElem?, Array.getElem?_setIfInBounds]
  by_cases same : a = b
  · subst same
    by_cases inside : (a - base).toNat < cells.size
    · simp [inside]
    · simp [inside]
  · have apart : (a - base).toNat ≠ (b - base).toNat := fun h => same (inj.mp h)
    simp [apart, same]

instance : Device Ram where
  read address memory := ⟨memory.get address, memory, []⟩
  write address value memory := ⟨(), memory.set address value, []⟩
  tick _ memory := ⟨(), memory, []⟩

end Ram

end Sm83
