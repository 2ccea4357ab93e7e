import Sm83.Bus.SystemBus

/-! # Owners of addresses

The address space of the system bus as a table of ranges.

* **Cells.** Two addresses can show one cell: those from `0xE000` to `0xFDFF` show the cells of the
  work RAM.  `cell address` is the address under which a cell is known to its owner.
* **Ranges.** `Owns address owner` gives each owner its range.  Routing follows it
  (`owns_route`), so facts about routes are proved by cases on the range; what owns an address owns
  its cell (`route_cell`). -/

namespace Sm83

/-! ### Cells -/

/-- The address under which the cell that an address shows is known to its owner. -/
def cell (address : UInt16) : UInt16 :=
  if 0xE000 ≤ address ∧ address ≤ 0xFDFF then address - 0x2000 else address

theorem cell_of_not_echo {address : UInt16} (h : ¬(0xE000 ≤ address ∧ address ≤ 0xFDFF)) :
    cell address = address :=
  if_neg h

/-! ### Regions -/

/-- Whether an address is in a region. -/
def Region.Contains (region : Region) (address : UInt16) : Prop :=
  region.first ≤ address ∧ address ≤ region.last

/-! ### Routes -/

/-- The range of addresses of each owner. -/
inductive Owns (address : UInt16) : Route → Prop
  | rom (last : address ≤ 0x7FFF) : Owns address .rom
  | cartridgeRam (first : 0xA000 ≤ address) (last : address ≤ 0xBFFF) : Owns address .cartridgeRam
  | region {region : Region} (inside : region.Contains (cell address))
      (apart : cell address ≠ Interrupt.requestAddress) :
      Owns address (.region region (cell address))
  | unused (first : 0xFEA0 ≤ address) (last : address ≤ 0xFEFF) : Owns address .unused
  | interruptRequest (here : address = Interrupt.requestAddress) : Owns address .interruptRequest
  | interruptEnable (here : address = Interrupt.enableAddress) : Owns address .interruptEnable

/-- Routing follows the ranges. -/
theorem owns_route (address : UInt16) : Owns address (route address) := by
  have region (region : Region) {target : UInt16} (shown : cell address = target)
      (inside : region.Contains target) (apart : target ≠ Interrupt.requestAddress) :
      Owns address (.region region target) := by
    subst shown
    exact .region inside apart
  fun_cases route address
  case case1 => exact .rom (by grind)
  case case3 => exact .cartridgeRam (by grind) (by grind)
  case case7 => exact .unused (by grind) (by grind)
  case case8 here => exact .interruptRequest here
  case case11 => exact .interruptEnable (by grind [Interrupt.enableAddress])
  all_goals
    refine region _ ?_ ⟨?_, ?_⟩ ?_ <;>
      grind [cell, Region.first, Region.last, Interrupt.requestAddress, Interrupt.enableAddress]

/-- A region is asked for the cell that an address shows, which is one of its own. -/
theorem cell_of_route {address target : UInt16} {region : Region}
    (h : route address = .region region target) :
    target = cell address ∧ region.Contains target := by
  have owner := owns_route address
  rw [h] at owner
  cases owner with
  | region inside => exact ⟨rfl, inside⟩

theorem route_of_rom {address : UInt16} (last : address ≤ 0x7FFF) : route address = .rom :=
  if_pos (by grind)

theorem route_of_cartridgeRam {address : UInt16} (first : 0xA000 ≤ address)
    (last : address ≤ 0xBFFF) : route address = .cartridgeRam := by
  fun_cases route address <;> grind

theorem route_of_unused {address : UInt16} (first : 0xFEA0 ≤ address) (last : address ≤ 0xFEFF) :
    route address = .unused := by
  fun_cases route address <;> grind

theorem route_of_workRam {address : UInt16} (first : 0xC000 ≤ address) (last : address ≤ 0xDFFF) :
    route address = .region .workRam address := by
  fun_cases route address <;> grind

theorem route_of_echo {address : UInt16} (first : 0xE000 ≤ address) (last : address ≤ 0xFDFF) :
    route address = .region .workRam (address - 0x2000) := by
  fun_cases route address <;> grind

/-- An address and the cell that it shows have the same owner. -/
theorem route_cell (address : UInt16) : route (cell address) = route address := by
  unfold cell
  split
  case isTrue echo =>
    rw [route_of_echo echo.1 echo.2]
    exact route_of_workRam (by grind) (by grind)
  case isFalse => rfl

/-- Addresses that show one cell have one owner. -/
theorem route_eq_of_cell {a b : UInt16} (h : cell a = cell b) : route a = route b := by
  rw [← route_cell a, h, route_cell]

theorem route_eq_interruptRequest_iff {address : UInt16} :
    route address = .interruptRequest ↔ address = Interrupt.requestAddress := by
  refine ⟨fun h => ?_, fun h => h ▸ rfl⟩
  have owner := owns_route address
  rw [h] at owner
  cases owner with
  | interruptRequest here => exact here

theorem route_eq_interruptEnable_iff {address : UInt16} :
    route address = .interruptEnable ↔ address = Interrupt.enableAddress := by
  refine ⟨fun h => ?_, fun h => h ▸ rfl⟩
  have owner := owns_route address
  rw [h] at owner
  cases owner with
  | interruptEnable here => exact here

end Sm83
