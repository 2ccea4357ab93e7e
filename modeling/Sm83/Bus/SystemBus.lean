import Sm83.Bus.Memory
import Sm83.Cartridge.Basic

/-! # The system bus

The bus joins the cartridge, the five regions and the two interrupt registers into one address
space in which every address has exactly one owner.

* **Routing.** `route` says who owns an address.  Reads and writes both follow it.  The addresses
  from `0xE000` to `0xFDFF` are a second view of the work RAM; those from `0xFEA0` to `0xFEFF`
  read `0xFF` and ignore writes.
* **Interrupt registers.** The bus keeps them itself, whatever is put behind the regions around
  them.  The register of requests has five bits; its other bits read as ones.
* **Regions.** A region is backed by plain memory until a peripheral takes its place.  A device is
  given absolute addresses inside its region.  Clock cycles reach all five regions. -/

namespace Sm83

/-- The owner of an address. -/
inductive Route where
  | rom
  | cartridgeRam
  /-- A region, and the address under which it is asked. -/
  | region (region : Region) (address : UInt16)
  | unused
  | interruptRequest
  | interruptEnable
deriving DecidableEq, Repr

/-- Who owns an address. -/
def route (address : UInt16) : Route :=
  if address < 0x8000 then .rom
  else if address < 0xA000 then .region .videoRam address
  else if address < 0xC000 then .cartridgeRam
  else if address < 0xE000 then .region .workRam address
  else if address < 0xFE00 then .region .workRam (address - 0x2000)
  else if address < 0xFEA0 then .region .oam address
  else if address < 0xFF00 then .unused
  else if address = Interrupt.requestAddress then .interruptRequest
  else if address < 0xFF80 then .region .io address
  else if address < Interrupt.enableAddress then .region .highRam address
  else .interruptEnable

/-- One value for each region. -/
structure PerRegion (α : Type) where
  videoRam : α
  workRam : α
  oam : α
  io : α
  highRam : α

namespace PerRegion

variable {α γ : Type}

/-- The values of a function. -/
def ofFn (f : Region → α) : PerRegion α where
  videoRam := f .videoRam
  workRam := f .workRam
  oam := f .oam
  io := f .io
  highRam := f .highRam

/-- The value for a region. -/
def get (values : PerRegion α) : Region → α
  | .videoRam => values.videoRam
  | .workRam => values.workRam
  | .oam => values.oam
  | .io => values.io
  | .highRam => values.highRam

/-- Performs an operation on the value for a region. -/
def visit (region : Region) (operation : α → Reply α γ) (values : PerRegion α) :
    Reply (PerRegion α) γ :=
  match values with
  | ⟨videoRam, workRam, oam, io, highRam⟩ =>
    match region with
    | .videoRam => (operation videoRam).mapState fun new => ⟨new, workRam, oam, io, highRam⟩
    | .workRam => (operation workRam).mapState fun new => ⟨videoRam, new, oam, io, highRam⟩
    | .oam => (operation oam).mapState fun new => ⟨videoRam, workRam, new, io, highRam⟩
    | .io => (operation io).mapState fun new => ⟨videoRam, workRam, oam, new, highRam⟩
    | .highRam => (operation highRam).mapState fun new => ⟨videoRam, workRam, oam, io, new⟩

/-- Performs an operation on the values for all regions, in the order of their addresses. -/
def visitAll (operation : α → Reply α Unit) (values : PerRegion α) : Reply (PerRegion α) Unit :=
  match values with
  | ⟨videoRam, workRam, oam, io, highRam⟩ =>
    let videoRam := operation videoRam
    let workRam := operation workRam
    let oam := operation oam
    let io := operation io
    let highRam := operation highRam
    ⟨(), ⟨videoRam.state, workRam.state, oam.state, io.state, highRam.state⟩,
      videoRam.effects ++ workRam.effects ++ oam.effects ++ io.effects ++ highRam.effects⟩

@[simp] theorem get_ofFn (f : Region → α) (region : Region) : (ofFn f).get region = f region := by
  cases region <;> rfl

theorem value_visit (region : Region) (operation : α → Reply α γ) (values : PerRegion α) :
    (values.visit region operation).value = (operation (values.get region)).value := by
  cases region <;> rfl

theorem get_visit (region other : Region) (operation : α → Reply α γ) (values : PerRegion α) :
    (values.visit region operation).state.get other =
      if other = region then (operation (values.get region)).state else values.get other := by
  cases region <;> cases other <;> rfl

theorem get_visitAll (operation : α → Reply α Unit) (values : PerRegion α) (region : Region) :
    (values.visitAll operation).state.get region = (operation (values.get region)).state := by
  cases region <;> rfl

end PerRegion

/-- What backs a region: plain memory, or a peripheral. -/
inductive Backing (δ : Type) where
  | ram (memory : Ram)
  | peripheral (device : δ)

instance {δ : Type} [Device δ] : Device (Backing δ) where
  read address
    | .ram memory => (Device.read address memory).mapState .ram
    | .peripheral device => (Device.read address device).mapState .peripheral
  write address value
    | .ram memory => (Device.write address value memory).mapState .ram
    | .peripheral device => (Device.write address value device).mapState .peripheral
  tick cycles
    | .ram memory => (Device.tick cycles memory).mapState .ram
    | .peripheral device => (Device.tick cycles device).mapState .peripheral

/-- The bus of a machine whose peripherals are of type `δ`. -/
structure SystemBus (δ : Type) where
  cartridge : Cartridge
  regions : PerRegion (Backing δ)
  /-- The five bits of the register of requested interrupts. -/
  requested : UInt8 := 0
  /-- The register of enabled interrupts. -/
  enabled : UInt8 := 0

namespace SystemBus

variable {δ α : Type}

/-- The bits of the register of requests that have no source; they read as ones. -/
def unusedRequestBits : UInt8 := 0xE0

/-- A bus with a cartridge and plain memory behind every region. -/
def ofCartridge (cartridge : Cartridge) : SystemBus δ where
  cartridge := cartridge
  regions := .ofFn fun region => .ram (.ofRegion region)

/-- A bus with the cartridge of a ROM image. -/
def ofImage (image : ByteArray) (mapper : Mapper) (ramBanks : Nat) : SystemBus δ :=
  .ofCartridge (.ofImage image mapper ramBanks)

/-- Performs an operation on the cartridge. -/
def onCartridge (operation : Cartridge → Reply Cartridge α) (bus : SystemBus δ) :
    Reply (SystemBus δ) α :=
  match bus with
  | ⟨cartridge, regions, requested, enabled⟩ =>
    (operation cartridge).mapState fun cartridge => ⟨cartridge, regions, requested, enabled⟩

/-- Performs an operation on the regions. -/
def onRegions (operation : PerRegion (Backing δ) → Reply (PerRegion (Backing δ)) α)
    (bus : SystemBus δ) : Reply (SystemBus δ) α :=
  match bus with
  | ⟨cartridge, regions, requested, enabled⟩ =>
    (operation regions).mapState fun regions => ⟨cartridge, regions, requested, enabled⟩

/-- Reads the byte at an address from its owner. -/
def read [Device δ] (address : UInt16) (bus : SystemBus δ) : Reply (SystemBus δ) UInt8 :=
  match route address with
  | .rom => ⟨bus.cartridge.rom.read address, bus, []⟩
  | .cartridgeRam => ⟨bus.cartridge.readRam address, bus, []⟩
  | .region region address => bus.onRegions (PerRegion.visit region (Device.read address))
  | .unused => ⟨0xFF, bus, []⟩
  | .interruptRequest => ⟨bus.requested ||| unusedRequestBits, bus, []⟩
  | .interruptEnable => ⟨bus.enabled, bus, []⟩

/-- Writes a byte to the owner of an address. -/
def write [Device δ] (address : UInt16) (value : UInt8) (bus : SystemBus δ) :
    Reply (SystemBus δ) Unit :=
  match route address with
  | .rom => bus.onCartridge (Cartridge.command address value)
  | .cartridgeRam =>
    bus.onCartridge fun cartridge => ⟨(), cartridge.writeRam address value, []⟩
  | .region region address =>
    bus.onRegions (PerRegion.visit region (Device.write address value))
  | .unused => ⟨(), bus, []⟩
  | .interruptRequest => ⟨(), { bus with requested := value &&& Interrupt.maskAll }, []⟩
  | .interruptEnable => ⟨(), { bus with enabled := value }, []⟩

/-- Lets clock cycles pass in every region. -/
def tick [Device δ] (cycles : Nat) (bus : SystemBus δ) : Reply (SystemBus δ) Unit :=
  bus.onRegions (PerRegion.visitAll (Device.tick cycles))

instance [Device δ] : Device (SystemBus δ) where
  read := read
  write := write
  tick := tick

/-- The bank in the switchable ROM window. -/
def bank (bus : SystemBus δ) : UInt16 := bus.cartridge.rom.bank

/-- The number of ROM banks. -/
def bankCount (bus : SystemBus δ) : UInt16 := bus.cartridge.rom.bankCount

/-- Whether a call has faulted: it was the last one that the program made. -/
def faulted (bus : SystemBus δ) : Bool := bus.cartridge.rom.faulted

/-- Selects a ROM bank by its number and tells which bank is shown. -/
def selectBank (requested : UInt16) (bus : SystemBus δ) : Reply (SystemBus δ) UInt16 :=
  bus.onCartridge (Cartridge.select requested)

/-- Requests an interrupt. -/
def request (source : Interrupt) (bus : SystemBus δ) : SystemBus δ :=
  { bus with requested := bus.requested ||| source.mask }

/-- Puts a device behind a region and gives back the one that was there. -/
def attach (region : Region) (device : Backing δ) (bus : SystemBus δ) :
    Reply (SystemBus δ) (Backing δ) :=
  match bus.onRegions (PerRegion.visit region fun old => ⟨old, device, []⟩) with
  | ⟨old, bus, effects⟩ => ⟨old, bus, .report (.deviceAttached region) :: effects⟩

end SystemBus

end Sm83
