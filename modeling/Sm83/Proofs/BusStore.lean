import Sm83.Proofs.BankFaults
import Sm83.Proofs.Faults
import Sm83.Proofs.RunEnd

/-! # The bus as a store

With plain memory behind its regions, the system bus is a store that keeps what is written to it.

* **Plain memory.** `bus.Backed` says that every region is backed by plain memory of its own, as it
  is on a new bus.  No call changes that (`Backed.call`), and reading and waiting change nothing
  (`Backed.read`, `Backed.tick`).
* **Kept bytes.** `Kept address` are the addresses behind which a byte is kept.  A write is seen at
  the addresses of the same cell and at no other (`Backed.peek_write`).
* **The reference.** A kept cell shows what the latest write to it has stored, and
  `requestBits past` are the requests that some calls leave.  `Shows image past bus` says what each
  range of addresses shows in terms of these, of the image and of the bank number.
* **Main statement.** `shows_calls`: after any calls, a new bus shows what the reference says. -/

namespace Sm83

/-! ### Plain memory -/

namespace Ram

/-- Whether a memory has one cell for each address of a region. -/
def Covers (region : Region) (memory : Ram) : Prop :=
  memory.base = region.first ∧ memory.cells.size = region.size

variable {region : Region} {memory : Ram} {address : UInt16}

theorem covers_ofRegion (region : Region) : (ofRegion region).Covers region :=
  ⟨rfl, Array.size_replicate⟩

theorem Covers.set (h : memory.Covers region) (address : UInt16) (value : UInt8) :
    (memory.set address value).Covers region :=
  ⟨h.1, (Array.size_setIfInBounds ..).trans h.2⟩

theorem Covers.index_lt (h : memory.Covers region) (inside : region.Contains address) :
    memory.index address < memory.cells.size := by
  obtain ⟨base, size⟩ := h
  obtain ⟨first, last⟩ := inside
  rw [index, base, size, Region.size, UInt16.toNat_sub_of_le _ _ first]
  rw [UInt16.le_iff_toNat_le] at first last
  omega

theorem get_ofRegion (inside : region.Contains address) : (ofRegion region).get address = 0 := by
  have index := (covers_ofRegion region).index_lt inside
  rw [get, Array.getD_eq_getD_getElem?, Array.getElem?_eq_getElem index]
  simp [ofRegion]

/-- A write inside the region is seen at its own address and only there. -/
theorem Covers.get_set (h : memory.Covers region) (inside : region.Contains address)
    (other : UInt16) (value : UInt8) :
    (memory.set address value).get other = if address = other then value else memory.get other := by
  rw [Ram.get_set]
  simp only [h.index_lt inside, and_true]

end Ram

/-! ### The reference -/

/-- Whether a whole byte is kept behind an address. -/
def Kept (address : UInt16) : Prop :=
  (0x8000 ≤ address ∧ address ≤ 0x9FFF) ∨ (0xC000 ≤ address ∧ address ≤ 0xFE9F) ∨
    (0xFF00 ≤ address ∧ address ≠ 0xFF0F)

instance (address : UInt16) : Decidable (Kept address) := inferInstanceAs (Decidable (_ ∨ _))

theorem route_of_kept {address : UInt16} (h : Kept address) :
    (∃ region, route address = .region region (cell address)) ∨
      route address = .interruptEnable := by
  have owner := owns_route address
  cases found : route address with
  | region region target => exact .inl ⟨region, by rw [(cell_of_route found).1]⟩
  | interruptEnable => exact .inr rfl
  | rom | cartridgeRam | unused | interruptRequest =>
    rw [found] at owner
    cases owner
    grind [Kept, Interrupt.requestAddress]

theorem kept_of_contains {address : UInt16} {region : Region}
    (inside : region.Contains (cell address)) (apart : cell address ≠ Interrupt.requestAddress) :
    Kept address := by
  unfold Kept
  cases region <;>
    grind [cell, Region.Contains, Region.first, Region.last, Interrupt.requestAddress]

/-- The byte that a call writes to the cell of an address. -/
def BusCall.writes? (address : UInt16) : BusCall → Option UInt8
  | .write other value => if cell other = cell address then some value else none
  | _ => none

/-- The requests that some calls, the latest first, leave in their register. -/
def requestBits : List BusCall → UInt8
  | [] => 0
  | .write address value :: past => if address = 0xFF0F then value &&& 0x1F else requestBits past
  | .request source :: past => requestBits past ||| source.mask
  | _ :: past => requestBits past

/-! ### Buses with plain memory -/

theorem PerRegion.ext_get {α : Type} {values others : PerRegion α}
    (h : ∀ region, values.get region = others.get region) : values = others := by
  obtain ⟨videoRam, workRam, oam, io, highRam⟩ := values
  obtain ⟨videoRam', workRam', oam', io', highRam'⟩ := others
  obtain rfl : videoRam = videoRam' := h .videoRam
  obtain rfl : workRam = workRam' := h .workRam
  obtain rfl : oam = oam' := h .oam
  obtain rfl : io = io' := h .io
  obtain rfl : highRam = highRam' := h .highRam
  rfl

namespace SystemBus

variable {δ : Type}

/-- Whether every region is backed by plain memory of its own. -/
def Backed (bus : SystemBus δ) : Prop :=
  ∀ region, ∃ memory : Ram, bus.regions.get region = .ram memory ∧ memory.Covers region

theorem backed_ofCartridge (cartridge : Cartridge) : (ofCartridge cartridge : SystemBus δ).Backed :=
  fun region => ⟨.ofRegion region, PerRegion.get_ofFn _ region, Ram.covers_ofRegion region⟩

theorem backed_ofImage (image : ByteArray) (mapper : Mapper) (ramBanks : Nat) :
    (ofImage image mapper ramBanks : SystemBus δ).Backed :=
  backed_ofCartridge _

theorem Backed.plain {bus : SystemBus δ} (h : bus.Backed) : bus.Plain := fun region =>
  let ⟨memory, backing, _⟩ := h region
  ⟨memory, backing⟩

variable [Device δ] {bus : SystemBus δ}

/-- Reading leaves no trace. -/
theorem Backed.read (h : bus.Backed) (address : UInt16) :
    Device.read address bus = ⟨bus.peek address, bus, []⟩ := by
  obtain ⟨value, quiet⟩ := h.plain.quietReads address
  rw [peek, quiet]

/-- Waiting leaves no trace. -/
theorem Backed.tick (h : bus.Backed) (cycles : Nat) : (Device.tick cycles bus).state = bus := by
  have same : (bus.regions.visitAll (Device.tick cycles)).state = bus.regions := by
    refine PerRegion.ext_get fun region => ?_
    obtain ⟨memory, backing, -⟩ := h region
    rw [PerRegion.get_visitAll, backing]
    rfl
  exact congrArg (fun regions => { bus with regions := regions }) same

theorem enabled_write (address : UInt16) (value : UInt8) (bus : SystemBus δ) :
    (Device.write address value bus).state.enabled =
      if route address = .interruptEnable then value else bus.enabled := by
  rw [state_write]
  cases route address with
  | interruptEnable => rfl
  | rom | cartridgeRam | region | unused | interruptRequest => exact (if_neg nofun).symm

theorem requested_write (address : UInt16) (value : UInt8) (bus : SystemBus δ) :
    (Device.write address value bus).state.requested =
      if route address = .interruptRequest then value &&& Interrupt.maskAll else bus.requested := by
  rw [state_write]
  cases route address with
  | interruptRequest => rfl
  | rom | cartridgeRam | region | unused | interruptEnable => exact (if_neg nofun).symm

theorem Backed.write (h : bus.Backed) (address : UInt16) (value : UInt8) :
    (Device.write address value bus).state.Backed := by
  intro region
  obtain ⟨memory, backing, covers⟩ := h region
  rw [get_regions_write, backing]
  split
  · exact ⟨memory.set (cell address) value, rfl, covers.set _ _⟩
  · exact ⟨memory, rfl, covers⟩

/-- No call puts anything else behind a region. -/
theorem Backed.call (h : bus.Backed) (last : BusCall) : (bus.call last).Backed := by
  cases last with
  | read address =>
    rw [SystemBus.call, h.read]
    exact h
  | write address value => exact h.write address value
  | tick cycles =>
    rw [SystemBus.call, h.tick]
    exact h
  | select | request => exact h

theorem Backed.calls (h : bus.Backed) (past : List BusCall) : (bus.calls past).Backed := by
  induction past with
  | nil => exact h
  | cons last past ih => exact ih.call last

/-! ### Kept bytes -/

theorem peek_requestAddress : bus.peek Interrupt.requestAddress = bus.requestRegister := rfl

/-- A write is seen at the addresses of the same cell, and at no other. -/
theorem Backed.peek_write (h : bus.Backed) (address : UInt16) (value : UInt8) {other : UInt16}
    (kept : Kept other) :
    (Device.write address value bus).state.peek other =
      if cell address = cell other then value else bus.peek other := by
  obtain ⟨region, owner⟩ | owner := route_of_kept kept
  · obtain ⟨memory, backing, covers⟩ := h region
    rw [peek_of_region owner, peek_of_region owner, get_regions_write, backing]
    split
    case isTrue visited => exact covers.get_set (cell_of_route visited).2 _ _
    case isFalse elsewhere =>
      rw [if_neg]
      intro same
      exact elsewhere (same ▸ (route_eq_of_cell same).trans owner)
  · rw [peek_of_interruptEnable owner, peek_of_interruptEnable owner, enabled_write]
    split
    case isTrue here =>
      rw [route_eq_interruptEnable_iff.mp here, route_eq_interruptEnable_iff.mp owner, if_pos rfl]
    case isFalse elsewhere =>
      rw [if_neg]
      intro same
      exact elsewhere ((route_eq_of_cell same).trans owner)

/-- What a kept byte is depends on the regions and the register of enabled interrupts alone. -/
theorem peek_congr {other : SystemBus δ} {address : UInt16} (kept : Kept address)
    (regions : other.regions = bus.regions) (enabled : other.enabled = bus.enabled) :
    other.peek address = bus.peek address := by
  obtain ⟨region, owner⟩ | owner := route_of_kept kept
  · rw [peek_of_region owner, peek_of_region owner, regions]
  · rw [peek_of_interruptEnable owner, peek_of_interruptEnable owner, enabled]

/-- A call changes a kept byte only if it is a write to its cell. -/
theorem Backed.peek_call (h : bus.Backed) {address : UInt16} (kept : Kept address)
    (last : BusCall) :
    (bus.call last).peek address = (last.writes? address).getD (bus.peek address) := by
  cases last with
  | read other =>
    rw [SystemBus.call, h.read]
    rfl
  | tick cycles =>
    rw [SystemBus.call, h.tick]
    rfl
  | select | request => exact peek_congr kept rfl rfl
  | write other value =>
    rw [SystemBus.call, h.peek_write other value kept, BusCall.writes?]
    split
    · rfl
    · rfl

/-- After some calls a kept byte is the one last written to its cell. -/
theorem Backed.peek_calls (h : bus.Backed) {address : UInt16} (kept : Kept address)
    (past : List BusCall) :
    (bus.calls past).peek address = latest (BusCall.writes? address) (bus.peek address) past := by
  induction past with
  | nil => rfl
  | cons last past ih => rw [SystemBus.calls, (h.calls past).peek_call kept, ih, latest_cons]

/-- After some calls the register of requests holds what they leave in it. -/
theorem Backed.requested_calls (h : bus.Backed) (empty : bus.requested = 0)
    (past : List BusCall) : (bus.calls past).requested = requestBits past := by
  induction past with
  | nil => exact empty
  | cons last past ih =>
    have backed := h.calls past
    cases last with
    | read other =>
      rw [SystemBus.calls, SystemBus.call, backed.read]
      exact ih
    | tick cycles =>
      rw [SystemBus.calls, SystemBus.call, backed.tick]
      exact ih
    | select requested => exact ih
    | request source => exact congrArg (· ||| source.mask) ih
    | write other value =>
      rw [SystemBus.calls, SystemBus.call, requested_write, requestBits, ih]
      simp only [route_eq_interruptRequest_iff]
      rfl

/-- On a new bus every kept byte is zero. -/
theorem peek_ofCartridge (cartridge : Cartridge) {address : UInt16} (kept : Kept address) :
    (ofCartridge cartridge : SystemBus δ).peek address = 0 := by
  obtain ⟨region, owner⟩ | owner := route_of_kept kept
  · rw [peek_of_region owner]
    simp only [ofCartridge, PerRegion.get_ofFn]
    exact Ram.get_ofRegion (cell_of_route owner).2
  · rw [peek_of_interruptEnable owner]
    rfl

/-! ### The ROM area -/

end SystemBus

namespace BankedRom

variable {rom : BankedRom} {address : UInt16}

theorem read_eq (rom : BankedRom) (address : UInt16) :
    rom.read address = rom.image[rom.offset address]?.getD 0xFF := by
  unfold read
  split
  case isTrue inside => rw [getElem?_pos rom.image _ inside, Option.getD_some]
  case isFalse past => rw [getElem?_neg rom.image _ past, Option.getD_none]

theorem offset_of_le (h : address ≤ 0x3FFF) : rom.offset address = address.toNat := by
  unfold offset bankSize
  rw [if_pos (by grind)]
  have last := UInt16.le_iff_toNat_le.mp h
  simp only [UInt16.reduceToNat] at last
  omega

theorem offset_of_ge (first : 0x4000 ≤ address) (last : address ≤ 0x7FFF) :
    rom.offset address = rom.bank.toNat * 0x4000 + (address.toNat - 0x4000) := by
  unfold offset bankSize
  rw [if_neg (by grind)]
  have first := UInt16.le_iff_toNat_le.mp first
  have last := UInt16.le_iff_toNat_le.mp last
  simp only [UInt16.reduceToNat] at first last
  omega

/-- The first window shows the same bytes whatever bank is selected, and the second does as long as
the same bank is. -/
theorem read_congr {other : BankedRom} (fixed : other.fixed = rom.fixed)
    (bank : 0x4000 ≤ address → other.bank = rom.bank) : other.read address = rom.read address := by
  have image : other.image = rom.image := congrArg Prod.fst fixed
  have offset : other.offset address = rom.offset address := by
    unfold offset
    split
    case isTrue => rfl
    case isFalse second => rw [bank (by grind)]
  rw [read_eq, read_eq, image, offset]

end BankedRom

namespace SystemBus

variable {δ : Type} [Device δ] {bus : SystemBus δ}

/-! ### What a bus shows -/

/-- What each range of addresses shows after some calls, told by the image, the calls, and the
number of the bank that is shown. -/
structure Shows (image : ByteArray) (past : List BusCall) (bus : SystemBus δ) : Prop where
  /-- No call has faulted if the banks of the image are counted exactly. -/
  intact : image.size ≤ 65535 * 0x4000 → bus.faulted = false
  firstBank : ∀ address ≤ 0x3FFF, bus.peek address = image[address.toNat]?.getD 0xFF
  otherBank : ∀ address, 0x4000 ≤ address → address ≤ 0x7FFF → bus.peek address =
    image[bus.bank.toNat * 0x4000 + (address.toNat - 0x4000)]?.getD 0xFF
  kept : ∀ address, Kept address → bus.peek address = latest (BusCall.writes? address) 0 past
  unused : ∀ address, 0xFEA0 ≤ address → address ≤ 0xFEFF → bus.peek address = 0xFF
  requests : bus.peek 0xFF0F = 0xE0 ||| requestBits past
  /-- One more write is seen at the addresses of its cell only.  The second window of the ROM area
  shows something else if the write selects another bank, and the RAM of the cartridge is left
  out. -/
  apart : ∀ address value other, cell address ≠ cell other →
    ¬(0xA000 ≤ other ∧ other ≤ 0xBFFF) →
    (0x4000 ≤ other ∧ other ≤ 0x7FFF →
      (bus.call (.write address value)).bank = bus.bank) →
    (bus.call (.write address value)).peek other = bus.peek other

/-- A write is seen at the addresses of its cell only, but for the bank that it may select. -/
theorem Backed.peek_apart (h : bus.Backed) {address other : UInt16} (value : UInt8)
    (elsewhere : cell address ≠ cell other) (plain : ¬(0xA000 ≤ other ∧ other ≤ 0xBFFF))
    (bank : 0x4000 ≤ other ∧ other ≤ 0x7FFF → (bus.call (.write address value)).bank = bus.bank) :
    (bus.call (.write address value)).peek other = bus.peek other := by
  have kept (kept : Kept other) : (bus.call (.write address value)).peek other = bus.peek other :=
    (h.peek_write address value kept).trans (if_neg elsewhere)
  have owner := owns_route other
  cases found : route other <;> rw [found] at owner <;> cases owner
  case rom last =>
    rw [peek_of_rom found, peek_of_rom found]
    exact BankedRom.read_congr (bus.fixed_calls [.write address value]) fun first =>
      bank ⟨first, last⟩
  case cartridgeRam first last => exact absurd ⟨first, last⟩ plain
  case region apart inside => exact kept (kept_of_contains inside apart)
  case unused => rw [peek_of_unused found, peek_of_unused found]
  case interruptRequest here =>
    subst here
    have apart : route address ≠ .interruptRequest :=
      fun same => elsewhere (congrArg cell (route_eq_interruptRequest_iff.mp same))
    rw [peek_requestAddress, peek_requestAddress, requestRegister, requestRegister,
      SystemBus.call, requested_write, if_neg apart]
  case interruptEnable here =>
    subst here
    exact kept (by decide)

/-- **The reference**: after any calls, a new bus shows at each address what the reference says, and
one more write is seen at the addresses of its cell only. -/
theorem shows_calls (image : ByteArray) (mapper : Mapper) (ramBanks : Nat)
    (past : List BusCall) :
    Shows image past ((ofImage image mapper ramBanks : SystemBus δ).calls past) := by
  have backed : (ofImage image mapper ramBanks : SystemBus δ).Backed :=
    backed_ofImage image mapper ramBanks
  have fixed := (ofImage image mapper ramBanks : SystemBus δ).fixed_calls past
  have printed : ((ofImage image mapper ramBanks : SystemBus δ).calls past).cartridge.rom.image =
      image := by
    refine (congrArg Prod.fst fixed).trans ?_
    cases mapper <;> rfl
  refine ⟨fun fits => intact_calls_ofImage fits mapper ramBanks past, ?_, ?_, ?_, ?_, ?_, ?_⟩
  · intro address last
    rw [peek_of_rom (route_of_rom (by grind)), BankedRom.read_eq, BankedRom.offset_of_le last,
      printed]
  · intro address first last
    rw [peek_of_rom (route_of_rom last), BankedRom.read_eq, BankedRom.offset_of_ge first last,
      printed]
    rfl
  · intro address kept
    rw [backed.peek_calls kept]
    exact congrArg (latest _ · past) (peek_ofCartridge _ kept)
  · intro address first last
    exact peek_of_unused (route_of_unused first last)
  · show _ ||| _ = _
    rw [backed.requested_calls rfl, UInt8.or_comm]
    rfl
  · intro address value other
    exact (backed.calls past).peek_apart value

end SystemBus

end Sm83
