import Sm83.Bus.Trace
import Sm83.Proofs.BusStore

/-! # Calls of the devices on the system bus

What the five devices of a system bus are asked, over any visits to the bus.

* **Hearing.** A region hears an access if the cell of the address lies in its range and the bus
  does not answer itself.  At most one region hears an access (`Region.Hears.unique`), and it is the
  one that routing finds (`Region.hears_iff`).
* **Replies.** An access that is heard is one call of the device of that region, with the cell as
  its address, and the reply is that of the device (`read_of_hears`, `write_of_hears`).  `put` is
  the frame: it replaces one device and nothing else.
* **Records.** `bus.watched records` has a recorder in front of each device.  A visit to it adds
  to the records what the devices should be asked (`host_watched`), and by induction over the
  visits the records are those that `bus.recorded` computes (`hosted_watched`).
* **Main statement.** `routesCalls`: from any bus and over any visits, the devices are asked what
  `recorded` says and nothing else, never outside their range, and each next call, tick or
  attachment changes only what it should. -/

namespace Sm83

/-! ### Who hears an access -/

/-- Whether an access at an address is for the device behind a region. -/
def Region.Hears (region : Region) (address : UInt16) : Prop :=
  region.Contains (cell address) ∧ address ≠ Interrupt.requestAddress

instance (region : Region) (address : UInt16) : Decidable (region.Hears address) :=
  inferInstanceAs (Decidable ((_ ∧ _) ∧ _))

/-- The addresses at which no device is ever asked. -/
def Withheld (address : UInt16) : Prop :=
  address ≤ 0x7FFF ∨ (0xA000 ≤ address ∧ address ≤ 0xBFFF) ∨
    (0xFEA0 ≤ address ∧ address ≤ 0xFEFF) ∨ address = 0xFF0F ∨ address = 0xFFFF

namespace Region

variable {region other : Region} {address : UInt16} {records : Region → List Access}

/-- The ranges of the regions do not meet. -/
theorem Contains.unique (h : region.Contains address) (h' : other.Contains address) :
    region = other := by
  cases region <;> cases other <;> first | rfl | grind [Contains, first, last]

theorem Hears.unique (h : region.Hears address) (h' : other.Hears address) : region = other :=
  h.1.unique h'.1

/-- The device that hears an access is asked inside its range, and at no address that is the
bus's own. -/
theorem Hears.inside (h : region.Hears address) :
    region.Contains (cell address) ∧ ¬Withheld (cell address) := by
  obtain ⟨inside, apart⟩ := h
  refine ⟨inside, fun withheld => ?_⟩
  have shown : cell address = 0xFF0F → address = 0xFF0F := by grind [cell]
  cases region <;>
    grind [Withheld, Contains, first, last, Interrupt.requestAddress]

/-- Routing finds the region that hears an access. -/
theorem hears_iff : region.Hears address ↔ route address = .region region (cell address) := by
  constructor
  · intro h
    obtain ⟨inside, withheld⟩ := h.inside
    have owner := owns_route address
    generalize route address = found at owner
    cases owner with
    | region own => rw [own.unique inside]
    | rom last => exact absurd (.inl (by grind [cell])) withheld
    | cartridgeRam first last => exact absurd (.inr (.inl (by grind [cell]))) withheld
    | unused first last => exact absurd (.inr (.inr (.inl (by grind [cell])))) withheld
    | interruptRequest here => exact absurd here h.2
    | interruptEnable here =>
      subst here
      exact absurd (.inr (.inr (.inr (.inr rfl)))) withheld
  · intro owned
    have owner := owns_route address
    rw [owned] at owner
    cases owner with
    | region inside apart =>
      refine ⟨inside, fun here => apart ?_⟩
      subst here
      rfl

/-- Where one region hears an access, the others have nothing to add to their records. -/
theorem Hears.appended (h : region.Hears address) (access : Access) :
    (fun other => if other = region then records region ++ [access] else records other) =
      fun other : Region => records other ++ if other.Hears address then [access] else [] := by
  funext other
  by_cases same : other = region
  · subst same
    rw [if_pos rfl, if_pos h]
  · rw [if_neg same, if_neg fun h' => same (h'.unique h), List.append_nil]

/-- Where no region hears an access, none has anything to add. -/
theorem appended_of_unheard (h : ∀ region : Region, ¬region.Hears address) (access : Access) :
    (fun region : Region => records region ++ if region.Hears address then [access] else []) =
      records := by
  funext region
  rw [if_neg (h region), List.append_nil]

/-- Whether the device behind a region may be asked for an access. -/
def Admits (region : Region) : Access → Prop
  | .read address _ | .write address _ => region.Contains address ∧ ¬Withheld address
  | .tick _ => True

/-- The regions, in the order of their addresses. -/
def all : List Region := [videoRam, workRam, oam, io, highRam]

end Region

namespace SystemBus

variable {δ : Type}

/-! ### One device at a time -/

/-- What a bus keeps beside its devices. -/
def rest (bus : SystemBus δ) : Cartridge × UInt8 × UInt8 :=
  (bus.cartridge, bus.requested, bus.enabled)

/-- The bus with another device behind a region. -/
def put (region : Region) (device : Backing δ) (bus : SystemBus δ) : SystemBus δ :=
  { bus with
    regions := .ofFn fun other => if other = region then device else bus.regions.get other }

/-- Putting back what was there restores the bus. -/
theorem put_put_get (region : Region) (device : Backing δ) (bus : SystemBus δ) :
    (bus.put region device).put region (bus.regions.get region) = bus := by
  cases region <;> rfl

theorem onRegions_visit {α : Type} (region : Region) (operation : Backing δ → Reply (Backing δ) α)
    (bus : SystemBus δ) :
    bus.onRegions (PerRegion.visit region operation) =
      (operation (bus.regions.get region)).mapState fun device => bus.put region device := by
  cases region <;> rfl

theorem attach_eq (region : Region) (device : Backing δ) (bus : SystemBus δ) :
    bus.attach region device =
      ⟨bus.regions.get region, bus.put region device, [.report (.deviceAttached region)]⟩ := by
  cases region <;> rfl

/-- Attaching the device that was taken out restores the bus. -/
theorem attach_attach (region : Region) (device : Backing δ) (bus : SystemBus δ) :
    ((bus.attach region device).state.attach region (bus.attach region device).value).state =
      bus := by
  rw [attach_eq, attach_eq]
  exact put_put_get region device bus

variable [Device δ] {bus : SystemBus δ} {region : Region} {address : UInt16}

/-! ### Replies -/

/-- A read that is heard is one read of that device, and its reply. -/
theorem read_of_hears (h : region.Hears address) :
    Device.read address bus =
      (Device.read (cell address) (bus.regions.get region)).mapState
        fun device => bus.put region device := by
  change SystemBus.read address bus = _
  rw [SystemBus.read, Region.hears_iff.mp h]
  exact onRegions_visit region _ bus

/-- A write that is heard is one write of that device, and its reply. -/
theorem write_of_hears (h : region.Hears address) (value : UInt8) :
    Device.write address value bus =
      (Device.write (cell address) value (bus.regions.get region)).mapState
        fun device => bus.put region device := by
  change SystemBus.write address value bus = _
  rw [SystemBus.write, Region.hears_iff.mp h]
  exact onRegions_visit region _ bus

theorem ne_route_of_unheard (h : ∀ region : Region, ¬region.Hears address) (region : Region)
    (target : UInt16) : route address ≠ .region region target := by
  intro owned
  rw [(cell_of_route owned).1] at owned
  exact h region (Region.hears_iff.mpr owned)

/-- A read that no device hears changes nothing. -/
theorem read_of_unheard (h : ∀ region : Region, ¬region.Hears address) :
    Device.read address bus = ⟨bus.peek address, bus, []⟩ := by
  have kept : (Device.read address bus).state = bus ∧ (Device.read address bus).effects = [] := by
    change (SystemBus.read address bus).state = bus ∧ (SystemBus.read address bus).effects = []
    rw [SystemBus.read]
    cases owned : route address with
    | region owner target => exact absurd owned (ne_route_of_unheard h owner target)
    | rom | cartridgeRam | unused | interruptRequest | interruptEnable => exact ⟨rfl, rfl⟩
  rw [peek]
  generalize Device.read address bus = reply at kept
  obtain ⟨value, state, effects⟩ := reply
  obtain ⟨rfl, rfl⟩ := kept
  rfl

/-- A write that no device hears changes no device. -/
theorem regions_write_of_unheard (h : ∀ region : Region, ¬region.Hears address) (value : UInt8) :
    (Device.write address value bus).state.regions = bus.regions := by
  rw [state_write]
  cases owned : route address with
  | region owner target => exact absurd owned (ne_route_of_unheard h owner target)
  | rom | cartridgeRam | unused | interruptRequest | interruptEnable => rfl

/-- Time passes once for each device, in the order of their addresses, and for nothing else. -/
theorem tick_eq (cycles : Nat) (bus : SystemBus δ) :
    Device.tick cycles bus =
      ⟨(), { bus with
        regions := .ofFn fun region => (Device.tick cycles (bus.regions.get region)).state },
      Region.all.flatMap fun region =>
        (Device.tick cycles (bus.regions.get region)).effects⟩ := by
  simp only [Device.tick, tick, onRegions, PerRegion.visitAll, Reply.mapState, Region.all,
    List.flatMap_cons, List.flatMap_nil, List.append_nil, List.append_assoc]
  rfl

/-! ### Records -/

/-- What the device behind a region hears of a call. -/
def heard (bus : SystemBus δ) (region : Region) : BusCall → List Access
  | .read address => if region.Hears address then [.read (cell address) (bus.peek address)] else []
  | .write address value => if region.Hears address then [.write (cell address) value] else []
  | .tick cycles => [.tick cycles]
  | .select _ | .request _ => []

/-- The record of what is behind a region after something the host did; a device starts with an
empty record. -/
def noted (bus : SystemBus δ) (region : Region) (record : List Access) : HostCall δ → List Access
  | .call made => record ++ bus.heard region made
  | .attach other _ => if other = region then [] else record

/-- What the device behind a region has been asked since it was put there, over some things the
host did, the latest first. -/
def recorded (bus : SystemBus δ) (region : Region) : List (HostCall δ) → List Access
  | [] => []
  | last :: past => (bus.hosted past).noted region (bus.recorded region past) last

omit [Device δ] in
/-- The bus with a recorder in front of each device. -/
def watched (records : Region → List Access) (bus : SystemBus δ) :
    SystemBus (Traced (Backing δ)) where
  cartridge := bus.cartridge
  regions := .ofFn fun region => .peripheral ⟨bus.regions.get region, (records region).toArray⟩
  requested := bus.requested
  enabled := bus.enabled

end SystemBus

/-- What the host does, with a new recorder in front of each device that it puts behind a region. -/
def HostCall.watched {δ : Type} : HostCall δ → HostCall (Traced (Backing δ))
  | .call made => .call made
  | .attach region device => .attach region (.peripheral ⟨device, #[]⟩)

namespace SystemBus

variable {δ : Type} {bus : SystemBus δ} {records : Region → List Access}

theorem get_watched (region : Region) :
    (bus.watched records).regions.get region =
      .peripheral ⟨bus.regions.get region, (records region).toArray⟩ :=
  PerRegion.get_ofFn _ region

/-- A device with its record behind a region. -/
theorem put_watched (region : Region) (device : Backing δ) (record : List Access) :
    (bus.watched records).put region (.peripheral ⟨device, record.toArray⟩) =
      (bus.put region device).watched fun other =>
        if other = region then record else records other := by
  cases region <;> rfl

variable [Device δ]

omit [Device δ] in
/-- One call of a device is one entry in its record. -/
theorem put_record {α : Type} (operation : Backing δ → Reply (Backing δ) α) (access : α → Access)
    (region : Region) :
    (bus.watched records).put region
        (.peripheral (Traced.record operation access
          ⟨bus.regions.get region, (records region).toArray⟩).state) =
      (bus.put region (operation (bus.regions.get region)).state).watched fun other =>
        if other = region
        then records region ++ [access (operation (bus.regions.get region)).value]
        else records other := by
  rw [← put_watched, ← List.push_toArray]
  rfl

theorem peek_of_hears {region : Region} {address : UInt16} (h : region.Hears address) :
    bus.peek address = (Device.read (cell address) (bus.regions.get region)).value := by
  rw [peek, read_of_hears h]
  rfl

/-- A call adds what each device hears of it to the records. -/
theorem call_watched (made : BusCall) :
    (bus.watched records).call made =
      (bus.call made).watched fun region => records region ++ bus.heard region made := by
  cases made with
  | read address =>
    by_cases h : ∃ owner : Region, owner.Hears address
    · obtain ⟨owner, h⟩ := h
      rw [call, call, read_of_hears h, read_of_hears h, get_watched]
      refine (put_record (Device.read (cell address)) (Access.read (cell address)) owner).trans ?_
      rw [← peek_of_hears h, h.appended]
      rfl
    · rw [not_exists] at h
      rw [call, call, read_of_unheard h, read_of_unheard h]
      exact congrArg (bus.watched ·) (Region.appended_of_unheard h _).symm
  | write address value =>
    by_cases h : ∃ owner : Region, owner.Hears address
    · obtain ⟨owner, h⟩ := h
      rw [call, call, write_of_hears h, write_of_hears h, get_watched]
      refine (put_record (Device.write (cell address) value)
        (fun _ => Access.write (cell address) value) owner).trans ?_
      rw [h.appended]
      rfl
    · rw [not_exists] at h
      have unheard : (bus.watched records).call (.write address value) =
          (bus.call (.write address value)).watched records := by
        rw [call, call, state_write, state_write]
        cases owned : route address with
        | region owner target => exact absurd owned (ne_route_of_unheard h owner target)
        | rom | cartridgeRam | unused | interruptRequest | interruptEnable => rfl
      rw [unheard]
      exact congrArg (watched · _) (Region.appended_of_unheard h _).symm
  | tick cycles =>
    have entry (region : Region) :
        (Device.tick cycles ((bus.watched records).regions.get region)).state =
          .peripheral ⟨(Device.tick cycles (bus.regions.get region)).state,
            (records region ++ [Access.tick cycles]).toArray⟩ := by
      rw [get_watched, ← List.push_toArray]
      rfl
    rw [call, call, tick_eq, tick_eq]
    simp only [entry]
    simp only [watched, heard, PerRegion.get_ofFn]
  | select | request =>
    simp only [heard, List.append_nil]
    rfl

/-- Whatever the host does, the records stay what they should be. -/
theorem host_watched (last : HostCall δ) :
    (bus.watched records).host last.watched =
      (bus.host last).watched fun region => bus.noted region (records region) last := by
  cases last with
  | call made => exact call_watched made
  | attach owner device =>
    rw [HostCall.watched, host, host, attach_eq, attach_eq]
    refine (put_watched owner device []).trans (congrArg (watched · _) (funext fun region => ?_))
    rw [noted]
    by_cases same : region = owner
    · rw [if_pos same, if_pos same.symm]
    · rw [if_neg same, if_neg fun h => same h.symm]

/-- **The records are right**, over whatever the host does. -/
theorem hosted_watched (bus : SystemBus δ) (past : List (HostCall δ)) :
    (bus.watched fun _ => []).hosted (past.map HostCall.watched) =
      (bus.hosted past).watched fun region => bus.recorded region past := by
  induction past with
  | nil => rfl
  | cons last past ih =>
    rw [List.map_cons, hosted, ih, host_watched]
    rfl

/-! ### All visits -/

theorem admits_heard (bus : SystemBus δ) {region : Region} {made : BusCall} {access : Access}
    (asked : access ∈ bus.heard region made) : region.Admits access := by
  cases made with
  | read address | write address value =>
    rw [heard] at asked
    split at asked
    case isTrue hears =>
      obtain rfl := List.mem_singleton.mp asked
      exact hears.inside
    case isFalse => cases asked
  | tick cycles =>
    obtain rfl := List.mem_singleton.mp asked
    trivial
  | select | request => cases asked

/-- No device is ever asked outside its region. -/
theorem admits_recorded (bus : SystemBus δ) {region : Region} {past : List (HostCall δ)}
    {access : Access} (asked : access ∈ bus.recorded region past) : region.Admits access := by
  induction past with
  | nil => cases asked
  | cons last past ih =>
    rw [recorded] at asked
    cases last with
    | call made =>
      rcases List.mem_append.mp asked with earlier | now
      · exact ih earlier
      · exact admits_heard _ now
    | attach other device =>
      rw [noted] at asked
      split at asked
      case isTrue => cases asked
      case isFalse => exact ih asked

/-- The reply of a bus to an access at an address: that of the one device that hears it, or one of
the bus alone. -/
inductive AsksOwner (bus : SystemBus δ) (address : UInt16) {α : Type}
    (operation : Backing δ → Reply (Backing δ) α) (reply : Reply (SystemBus δ) α) : Prop
  | device (region : Region) (hears : region.Hears address)
      (only : ∀ other : Region, other.Hears address → other = region)
      (asked : reply =
        (operation (bus.regions.get region)).mapState fun device => bus.put region device)
      (beside : reply.state.rest = bus.rest)
  | own (unheard : ∀ region : Region, ¬region.Hears address)
      (kept : reply.state.regions = bus.regions)

theorem asksOwner_read (address : UInt16) (bus : SystemBus δ) :
    AsksOwner bus address (Device.read (cell address)) (Device.read address bus) := by
  by_cases h : ∃ region : Region, region.Hears address
  · obtain ⟨region, hears⟩ := h
    refine .device region hears (fun _ hears' => hears'.unique hears) (read_of_hears hears) ?_
    rw [read_of_hears hears]
    rfl
  · rw [not_exists] at h
    refine .own h ?_
    rw [read_of_unheard h]

theorem asksOwner_write (address : UInt16) (value : UInt8) (bus : SystemBus δ) :
    AsksOwner bus address (Device.write (cell address) value) (Device.write address value bus) := by
  by_cases h : ∃ region : Region, region.Hears address
  · obtain ⟨region, hears⟩ := h
    refine .device region hears (fun _ hears' => hears'.unique hears)
      (write_of_hears hears value) ?_
    rw [write_of_hears hears]
    rfl
  · rw [not_exists] at h
    exact .own h (regions_write_of_unheard h value)

/-- What the devices of a bus have been asked over some visits, and what the next one asks. -/
structure RoutesCalls (bus : SystemBus δ) (past : List (HostCall δ)) : Prop where
  /-- Recorders in front of the devices have recorded this, and have changed nothing. -/
  records : (bus.watched fun _ => []).hosted (past.map HostCall.watched) =
    (bus.hosted past).watched fun region => bus.recorded region past
  /-- No device has been asked outside its region or at an address of the bus itself. -/
  admits : ∀ region, ∀ access ∈ bus.recorded region past, region.Admits access
  read : ∀ address, AsksOwner (bus.hosted past) address (Device.read (cell address))
    (Device.read address (bus.hosted past))
  write : ∀ address value, AsksOwner (bus.hosted past) address (Device.write (cell address) value)
    (Device.write address value (bus.hosted past))
  /-- Time passes once for each device, and for nothing else. -/
  tick : ∀ cycles, Device.tick cycles (bus.hosted past) =
    ⟨(), { bus.hosted past with
      regions := .ofFn fun region =>
        (Device.tick cycles ((bus.hosted past).regions.get region)).state },
    Region.all.flatMap fun region =>
      (Device.tick cycles ((bus.hosted past).regions.get region)).effects⟩
  /-- A device takes the place of the one that was there, which is given back. -/
  attach : ∀ region device, (bus.hosted past).attach region device =
    ⟨(bus.hosted past).regions.get region, (bus.hosted past).put region device,
      [.report (.deviceAttached region)]⟩
  /-- Attaching what was given back restores the bus. -/
  restores : ∀ region device,
    (((bus.hosted past).attach region device).state.attach region
      ((bus.hosted past).attach region device).value).state = bus.hosted past

/-- **Every access has one owner**: whatever the host does to a bus, with whatever devices, each
access is at most one call of the one device that hears it, at an address of its region, and every
device is asked that and nothing else. -/
theorem routesCalls (bus : SystemBus δ) (past : List (HostCall δ)) : RoutesCalls bus past where
  records := hosted_watched bus past
  admits _ _ := admits_recorded bus
  read address := asksOwner_read address _
  write address value := asksOwner_write address value _
  tick cycles := tick_eq cycles _
  attach region device := attach_eq region device _
  restores region device := attach_attach region device _

/-- A device for the I/O region hears neither the register of requests nor the high RAM. -/
example (bus : SystemBus FlatMemory) : bus.recorded .io
    [.call (.tick 4), .call (.write 0xFF80 1), .call (.write 0xFF0F 1), .call (.write 0xFF40 0x91),
      .attach .io (.peripheral {}), .call (.write 0xFF41 2)] =
    [.write 0xFF40 0x91, .tick 4] := by
  rfl

end SystemBus

end Sm83
