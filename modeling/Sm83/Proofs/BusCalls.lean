import Sm83.Proofs.Routing

/-! # Calls of the system bus

Everything that the core and the host ask of a system bus, as data.

* **Calls.** `bus.call` makes a call; its answer is left out.  `bus.calls past` is the bus after
  some calls, which are listed from the latest on, so that the rest of the list is what the latest
  call was made after.  `latest` picks out what such calls leave in a register.
* **The host.** Besides making calls, the host can put a device behind a region: `bus.host` and
  `bus.hosted past` are the same for both (`HostCall`).
* **Regions.** A read or a write visits the region that owns the address, and changes no other
  (`get_regions_read`, `get_regions_write`).
* **Cartridges.** A cartridge sees the writes to its two areas and the direct selections, and no
  other call (`cartridge_call`).  Whatever is called, its image and its number of banks stay
  (`fixed_calls`). -/

namespace Sm83

/-- What the core or the host asks of a system bus. -/
inductive BusCall where
  | read (address : UInt16)
  | write (address : UInt16) (value : UInt8)
  | tick (cycles : Nat)
  | select (requested : UInt16)
  | request (source : Interrupt)
deriving DecidableEq, Repr

/-- What the host does to a bus: it makes a call, or puts something behind a region. -/
inductive HostCall (δ : Type) where
  | call (made : BusCall)
  | attach (region : Region) (device : Backing δ)

/-- What the latest of some calls that store something has stored, and else what was there at
first. -/
def latest {α : Type} (stored? : BusCall → Option α) (initial : α) (past : List BusCall) : α :=
  (past.findSome? stored?).getD initial

theorem latest_cons {α : Type} (stored? : BusCall → Option α) (initial : α) (last : BusCall)
    (past : List BusCall) :
    latest stored? initial (last :: past) = (stored? last).getD (latest stored? initial past) := by
  rw [latest, List.findSome?_cons, latest]
  cases stored? last with
  | none => rfl
  | some value => rfl

/-! ### Cartridges -/

namespace Mbc1

/-- The cartridge after a call of its bus. -/
def call (m : Mbc1) : BusCall → Mbc1
  | .write address value =>
    match route address with
    | .rom => (m.command address value).state
    | .cartridgeRam => m.writeRam address value
    | _ => m
  | .select requested => (m.select requested).state
  | _ => m

/-- A write to the bus, by the area of the cartridge that it reaches. -/
theorem call_write (m : Mbc1) (address : UInt16) (value : UInt8) :
    m.call (.write address value) =
      if address ≤ 0x7FFF then (m.command address value).state
      else if 0xA000 ≤ address ∧ address ≤ 0xBFFF then m.writeRam address value
      else m := by
  have owner := owns_route address
  rw [call]
  generalize route address = found at owner
  cases owner with
  | rom area => exact (if_pos area).symm
  | cartridgeRam first last => rw [if_neg (by grind), if_pos ⟨first, last⟩]
  | @region region inside =>
    have outside : 0x7FFF < address ∧ ¬(0xA000 ≤ address ∧ address ≤ 0xBFFF) := by
      cases region <;> grind [cell, Region.Contains, Region.first, Region.last]
    rw [if_neg (by grind), if_neg outside.2]
  | unused first last => rw [if_neg (by grind), if_neg (by grind)]
  | interruptRequest here =>
    subst here
    rfl
  | interruptEnable here =>
    subst here
    rfl

/-- The four commands, by the range that is written to. -/
theorem command_eq (m : Mbc1) {address : UInt16} (h : address ≤ 0x7FFF) (value : UInt8) :
    m.command address value =
      if address ≤ 0x1FFF then ⟨(), { m with ramEnabled := value &&& 0x0F == 0x0A }, []⟩
      else if address ≤ 0x3FFF then apply { m with low := lowOf value }
      else if address ≤ 0x5FFF then apply { m with high := value &&& 0x03 }
      else ⟨(), { m with ramBanking := value &&& 0x01 == 1 }, []⟩ := by
  simp only [UInt16.le_iff_toNat_le, UInt16.reduceToNat] at h ⊢
  unfold command
  split
  case h_1 quarter => rw [if_pos (by omega)]
  case h_2 quarter => rw [if_neg (by omega), if_pos (by omega)]
  case h_3 quarter => rw [if_neg (by omega), if_neg (by omega), if_pos (by omega)]
  case h_4 quarter => rw [if_neg (by omega), if_neg (by omega), if_neg (by omega)]
  case h_5 first second third fourth =>
    rw [imp_false] at first second third fourth
    omega

/-- The cartridge after some calls of its bus, the latest first. -/
def calls (m : Mbc1) : List BusCall → Mbc1
  | [] => m
  | last :: past => (m.calls past).call last

end Mbc1

namespace Cartridge

/-- The cartridge after a call of its bus. -/
def call (cartridge : Cartridge) : BusCall → Cartridge
  | .write address value =>
    match route address with
    | .rom => (cartridge.command address value).state
    | .cartridgeRam => cartridge.writeRam address value
    | _ => cartridge
  | .select requested => (cartridge.select requested).state
  | _ => cartridge

theorem call_mbc1 (m : Mbc1) (last : BusCall) : (mbc1 m).call last = mbc1 (m.call last) := by
  cases last with
  | read | tick | select | request => rfl
  | write address value =>
    rw [call, Mbc1.call]
    cases route address with
    | rom | cartridgeRam | region | unused | interruptRequest | interruptEnable => rfl

/-- A cartridge without a controller takes no writes. -/
theorem call_romOnly_write (rom : BankedRom) (address : UInt16) (value : UInt8) :
    (romOnly rom).call (.write address value) = romOnly rom := by
  rw [call]
  cases route address with
  | rom | cartridgeRam | region | unused | interruptRequest | interruptEnable => rfl

end Cartridge

/-! ### Buses -/

namespace SystemBus

variable {δ : Type} [Device δ] {bus : SystemBus δ}

/-- The bus after a call. -/
def call (bus : SystemBus δ) : BusCall → SystemBus δ
  | .read address => (Device.read address bus).state
  | .write address value => (Device.write address value bus).state
  | .tick cycles => (Device.tick cycles bus).state
  | .select requested => (bus.selectBank requested).state
  | .request source => bus.request source

/-- The bus after some calls, the latest first. -/
def calls (bus : SystemBus δ) : List BusCall → SystemBus δ
  | [] => bus
  | last :: past => (bus.calls past).call last

/-- The bus after something the host did. -/
def host (bus : SystemBus δ) : HostCall δ → SystemBus δ
  | .call made => bus.call made
  | .attach region device => (bus.attach region device).state

/-- The bus after some things the host did, the latest first. -/
def hosted (bus : SystemBus δ) : List (HostCall δ) → SystemBus δ
  | [] => bus
  | last :: past => (bus.hosted past).host last

/-- The byte that a read of an address gives. -/
def peek (bus : SystemBus δ) (address : UInt16) : UInt8 := (Device.read address bus).value

theorem peek_of_rom {address : UInt16} (owner : route address = .rom) :
    bus.peek address = bus.cartridge.rom.read address := by
  change (SystemBus.read address bus).value = _
  rw [SystemBus.read, owner]

theorem peek_of_cartridgeRam {address : UInt16} (owner : route address = .cartridgeRam) :
    bus.peek address = bus.cartridge.readRam address := by
  change (SystemBus.read address bus).value = _
  rw [SystemBus.read, owner]

theorem peek_of_region {address target : UInt16} {region : Region}
    (owner : route address = .region region target) :
    bus.peek address = (Device.read target (bus.regions.get region)).value := by
  change (SystemBus.read address bus).value = _
  rw [SystemBus.read, owner]
  exact PerRegion.value_visit region _ bus.regions

theorem peek_of_unused {address : UInt16} (owner : route address = .unused) :
    bus.peek address = 0xFF := by
  change (SystemBus.read address bus).value = _
  rw [SystemBus.read, owner]

theorem peek_of_interruptEnable {address : UInt16} (owner : route address = .interruptEnable) :
    bus.peek address = bus.enabled := by
  change (SystemBus.read address bus).value = _
  rw [SystemBus.read, owner]

/-- A read leaves everything alone but the region that is asked. -/
theorem state_read (address : UInt16) (bus : SystemBus δ) :
    (Device.read address bus).state =
      match route address with
      | .region region target =>
        { bus with regions := (bus.regions.visit region (Device.read target)).state }
      | _ => bus := by
  change (SystemBus.read address bus).state = _
  rw [SystemBus.read]
  cases route address with
  | rom | cartridgeRam | region | unused | interruptRequest | interruptEnable => rfl

/-- A write changes one part of the bus, the owner of the address. -/
theorem state_write (address : UInt16) (value : UInt8) (bus : SystemBus δ) :
    (Device.write address value bus).state =
      match route address with
      | .rom => { bus with cartridge := (bus.cartridge.command address value).state }
      | .cartridgeRam => { bus with cartridge := bus.cartridge.writeRam address value }
      | .region region target =>
        { bus with regions := (bus.regions.visit region (Device.write target value)).state }
      | .unused => bus
      | .interruptRequest => { bus with requested := value &&& Interrupt.maskAll }
      | .interruptEnable => { bus with enabled := value } := by
  change (SystemBus.write address value bus).state = _
  rw [SystemBus.write]
  cases route address with
  | rom | cartridgeRam | region | unused | interruptRequest | interruptEnable => rfl

/-- A visit to the owner of an address changes that region alone. -/
theorem get_visit_of_route {α γ : Type} {address target : UInt16} {owner : Region}
    (owned : route address = .region owner target) (operation : UInt16 → α → Reply α γ)
    (values : PerRegion α) (region : Region) :
    (values.visit owner (operation target)).state.get region =
      if route address = .region region (cell address) then
        (operation (cell address) (values.get region)).state
      else values.get region := by
  obtain rfl := (cell_of_route owned).1
  rw [PerRegion.get_visit, owned]
  by_cases same : region = owner
  · subst same
    rw [if_pos rfl, if_pos rfl]
  · rw [if_neg same, if_neg fun h => same (Route.region.inj h).1.symm]

/-- What backs a region after a read. -/
theorem get_regions_read (address : UInt16) (bus : SystemBus δ) (region : Region) :
    (Device.read address bus).state.regions.get region =
      if route address = .region region (cell address) then
        (Device.read (cell address) (bus.regions.get region)).state
      else bus.regions.get region := by
  rw [state_read]
  cases owned : route address with
  | region owner target =>
    have visited := get_visit_of_route owned Device.read bus.regions region
    rw [owned] at visited
    exact visited
  | rom | cartridgeRam | unused | interruptRequest | interruptEnable => exact (if_neg nofun).symm

/-- What backs a region after a write. -/
theorem get_regions_write (address : UInt16) (value : UInt8) (bus : SystemBus δ)
    (region : Region) :
    (Device.write address value bus).state.regions.get region =
      if route address = .region region (cell address) then
        (Device.write (cell address) value (bus.regions.get region)).state
      else bus.regions.get region := by
  rw [state_write]
  cases owned : route address with
  | region owner target =>
    have visited := get_visit_of_route owned (Device.write · value) bus.regions region
    rw [owned] at visited
    exact visited
  | rom | cartridgeRam | unused | interruptRequest | interruptEnable => exact (if_neg nofun).symm

theorem cartridge_call (bus : SystemBus δ) (last : BusCall) :
    (bus.call last).cartridge = bus.cartridge.call last := by
  cases last with
  | read address =>
    rw [call, state_read]
    cases route address with
    | rom | cartridgeRam | region | unused | interruptRequest | interruptEnable => rfl
  | write address value =>
    rw [call, state_write, Cartridge.call]
    cases route address with
    | rom | cartridgeRam | region | unused | interruptRequest | interruptEnable => rfl
  | tick | select | request => rfl

/-- The cartridge of a bus with an MBC1 cartridge. -/
theorem cartridge_calls {m : Mbc1} (h : bus.cartridge = .mbc1 m)
    (past : List BusCall) : (bus.calls past).cartridge = .mbc1 (m.calls past) := by
  induction past with
  | nil => exact h
  | cons last past ih => rw [calls, cartridge_call, ih, Cartridge.call_mbc1, Mbc1.calls]

end SystemBus

/-! ### What a cartridge never changes -/

namespace BankedRom

/-- What is printed on a ROM: its bytes and how many banks they make. -/
def fixed (rom : BankedRom) : ByteArray × UInt16 := (rom.image, rom.bankCount)

theorem fixed_select (rom : BankedRom) (requested : UInt16) :
    (rom.select requested).state.fixed = rom.fixed := by
  unfold select
  cases rom.resolve? requested with
  | some bank => rfl
  | none => rfl

end BankedRom

namespace Mbc1

theorem fixed_command (m : Mbc1) (address : UInt16) (value : UInt8) :
    (m.command address value).state.rom.fixed = m.rom.fixed := by
  unfold command
  split
  case h_2 | h_3 => exact m.rom.fixed_select _
  case h_1 | h_4 | h_5 => rfl

/-- A write to the RAM area changes stored bytes and nothing else. -/
theorem writeRam_eq (m : Mbc1) (address : UInt16) (value : UInt8) :
    m.writeRam address value = { m with ram := (m.writeRam address value).ram } := by
  unfold writeRam
  split <;> rfl

theorem fixed_call (m : Mbc1) (last : BusCall) : (m.call last).rom.fixed = m.rom.fixed := by
  cases last with
  | read | tick | request => rfl
  | select requested => exact m.rom.fixed_select requested
  | write address value =>
    rw [call]
    cases route address with
    | rom => exact fixed_command m address value
    | cartridgeRam => rw [writeRam_eq]
    | region | unused | interruptRequest | interruptEnable => rfl

theorem fixed_calls (m : Mbc1) (past : List BusCall) :
    (m.calls past).rom.fixed = m.rom.fixed := by
  induction past with
  | nil => rfl
  | cons last past ih => rw [calls, fixed_call, ih]

theorem bankCount_call (m : Mbc1) (last : BusCall) :
    (m.call last).rom.bankCount = m.rom.bankCount :=
  congrArg Prod.snd (m.fixed_call last)

theorem bankCount_calls (m : Mbc1) (past : List BusCall) :
    (m.calls past).rom.bankCount = m.rom.bankCount :=
  congrArg Prod.snd (m.fixed_calls past)

end Mbc1

theorem Cartridge.fixed_call (cartridge : Cartridge) (last : BusCall) :
    (cartridge.call last).rom.fixed = cartridge.rom.fixed := by
  cases cartridge with
  | mbc1 m =>
    rw [call_mbc1]
    exact m.fixed_call last
  | romOnly rom =>
    cases last with
    | read | tick | request => rfl
    | select requested => exact rom.fixed_select requested
    | write address value => rw [call_romOnly_write]

theorem SystemBus.fixed_calls {δ : Type} [Device δ] (bus : SystemBus δ) (past : List BusCall) :
    (bus.calls past).cartridge.rom.fixed = bus.cartridge.rom.fixed := by
  induction past with
  | nil => rfl
  | cons last past ih => rw [calls, cartridge_call, Cartridge.fixed_call, ih]

end Sm83
