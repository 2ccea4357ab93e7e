import Sm83.Proofs.RomMapping

/-! # Stored bytes of the external RAM

The external RAM of an MBC1 cartridge is a number of banks that are stored apart.

* **The state of the area.** `ramOn past`, `ramMode past` and `effectiveBank count ramBanks past`
  tell from some calls whether the RAM is enabled, whether its banks are selected, and which bank
  is shown.
* **The reference.** `lastStored` is the byte that the latest accepted write of an address has
  stored in a bank.  Nothing else is remembered.
* **The invariant.** `Holds count ramBanks past m` says that every cell of every bank holds the byte
  of the reference, shown or not.  Every call that does not fault keeps it (`Holds.call`).
* **Main statement.** `keepsRam_calls`: calls of a new bus fault exactly if one of them selects a
  bank where none are counted.  After any others, the RAM area shows the bytes of the bank that is
  shown, or `0xFF`; what is not written to keeps its byte; and no index leaves the RAM. -/

namespace Sm83

/-! ### The state of the RAM area -/

theorem and_mask_beq (value bits : UInt8) {mask : UInt8} (width : Nat)
    (h : mask.toNat = (1 <<< width) - 1) :
    (value &&& mask == bits) = decide (value.toNat % (1 <<< width) = bits.toNat) := by
  rw [Bool.eq_iff_iff, beq_iff_eq, decide_eq_true_iff, ← toNat_and_mask value width h,
    UInt8.toNat_inj]

namespace BusCall

/-- Whether a write to the first command range enables the RAM. -/
def enables? : BusCall → Option Bool
  | .write address value => if address ≤ 0x1FFF then some (value.toNat % 16 = 0xA) else none
  | _ => none

/-- Whether a write to the last command range turns the selection of RAM banks on. -/
def banksRam? : BusCall → Option Bool
  | .write address value =>
    if 0x6000 ≤ address ∧ address ≤ 0x7FFF then some (value.toNat % 2 = 1) else none
  | _ => none

end BusCall

/-- Whether some calls, the latest first, leave the RAM enabled. -/
def ramOn (past : List BusCall) : Bool := latest BusCall.enables? false past

/-- Whether some calls, the latest first, leave the selection of RAM banks on. -/
def ramMode (past : List BusCall) : Bool := latest BusCall.banksRam? false past

/-- The RAM bank that some calls, the latest first, leave in the RAM area. -/
def effectiveBank (count ramBanks : Nat) (past : List BusCall) : Nat :=
  if ramMode past then min (highRegister count past) (ramBanks - 1) else 0

/-- The byte of the latest write of an address that found the RAM enabled and a bank shown. -/
def lastStored (count ramBanks bank : Nat) (address : UInt16) : List BusCall → Option UInt8
  | [] => none
  | .write other value :: past =>
    if other = address ∧ ramOn past ∧ effectiveBank count ramBanks past = bank then some value
    else lastStored count ramBanks bank address past
  | _ :: past => lastStored count ramBanks bank address past

variable {count ramBanks : Nat} {past : List BusCall}

theorem effectiveBank_lt (h : ramBanks ≠ 0) : effectiveBank count ramBanks past < ramBanks := by
  unfold effectiveBank
  split
  · omega
  · omega

-- Bank three of two is the last one.
example : effectiveBank 4 2 [.write 0x4000 3, .write 0x6000 1] = 1 := by decide

/-- A call that stores nothing in a cell leaves its byte as it was. -/
theorem lastStored_cons_of_not {last : BusCall} {bank : Nat} {address : UInt16}
    (h : ∀ value, last = .write address value → ramOn past →
      effectiveBank count ramBanks past ≠ bank) :
    lastStored count ramBanks bank address (last :: past) =
      lastStored count ramBanks bank address past := by
  cases last with
  | read | tick | select | request => rfl
  | write other value =>
    refine if_neg fun stored => ?_
    obtain ⟨rfl, on, shown⟩ := stored
    exact h value rfl on shown

theorem ramOn_cons (last : BusCall) (past : List BusCall) :
    ramOn (last :: past) = last.enables?.getD (ramOn past) :=
  latest_cons ..

theorem ramMode_cons (last : BusCall) (past : List BusCall) :
    ramMode (last :: past) = last.banksRam?.getD (ramMode past) :=
  latest_cons ..

/-! ### The cartridge -/

namespace Mbc1

variable {m after : Mbc1}

/-- The external RAM of a cartridge as some calls leave it, and the state of the RAM area. -/
structure Holds (count ramBanks : Nat) (past : List BusCall) (m : Mbc1) : Prop where
  banks : m.ramBanks = ramBanks
  size : m.ram.size = ramBanks * 0x2000
  on : m.ramEnabled = ramOn past
  mode : m.ramBanking = ramMode past
  high : m.high.toNat = highRegister count past
  cells : ∀ bank < ramBanks, ∀ address, 0xA000 ≤ address → address ≤ 0xBFFF →
    m.ram[bank * 0x2000 + address.toNat % 0x2000]? =
      some ((lastStored count ramBanks bank address past).getD 0xFF)

/-- A cell is inside the RAM. -/
theorem index_lt {bank : Nat} (h : bank < ramBanks) (address : UInt16) :
    bank * 0x2000 + address.toNat % 0x2000 < ramBanks * 0x2000 := by
  omega

/-- Different addresses of the RAM area show different cells, and so do different banks. -/
theorem index_inj {a b : UInt16} (first : 0xA000 ≤ a) (last : a ≤ 0xBFFF) (lower : 0xA000 ≤ b)
    (upper : b ≤ 0xBFFF) (bank other : Nat) :
    bank * 0x2000 + a.toNat % 0x2000 = other * 0x2000 + b.toNat % 0x2000 ↔
      bank = other ∧ a = b := by
  rw [UInt16.le_iff_toNat_le] at first last lower upper
  simp only [UInt16.reduceToNat] at first last lower upper
  rw [← UInt16.toNat_inj]
  omega

theorem holds_ofRom (rom : BankedRom) (count ramBanks : Nat) :
    Holds count ramBanks [] (ofRom rom ramBanks) where
  banks := rfl
  size := Array.size_replicate
  on := rfl
  mode := rfl
  high := rfl
  cells bank inside address _ _ := by
    show (Array.replicate (ramBanks * 0x2000) 0xFF)[_]? = some 0xFF
    rw [Array.getElem?_replicate, if_pos (index_lt inside address)]

/-- The cell that an address of the RAM area shows. -/
theorem Holds.ramIndex? (h : Holds count ramBanks past m) (address : UInt16) :
    m.ramIndex? address =
      if ramOn past ∧ ramBanks ≠ 0 then
        some (effectiveBank count ramBanks past * 0x2000 + address.toNat % 0x2000)
      else none := by
  rw [Mbc1.ramIndex?, ramBank, h.on, h.banks, h.mode, h.high]
  rfl

theorem Holds.ramIndex?_lt (h : Holds count ramBanks past m) {address : UInt16} {index : Nat}
    (found : m.ramIndex? address = some index) : index < m.ram.size := by
  rw [h.ramIndex?] at found
  split at found
  case isTrue shown =>
    cases found
    rw [h.size]
    exact index_lt (effectiveBank_lt shown.2) address
  case isFalse => cases found

/-- What a read of the RAM area finds. -/
theorem Holds.readRam (h : Holds count ramBanks past m) {address : UInt16}
    (first : 0xA000 ≤ address) (last : address ≤ 0xBFFF) :
    m.readRam address =
      if ramOn past ∧ ramBanks ≠ 0 then
        (lastStored count ramBanks (effectiveBank count ramBanks past) address past).getD 0xFF
      else 0xFF := by
  rw [Mbc1.readRam, h.ramIndex?]
  by_cases shown : ramOn past ∧ ramBanks ≠ 0
  · rw [if_pos shown, if_pos shown]
    show m.ram.getD _ _ = _
    rw [Array.getD_eq_getD_getElem?, h.cells _ (effectiveBank_lt shown.2) address first last,
      Option.getD_some]
  · rw [if_neg shown, if_neg shown]

/-- What leaves the stored bytes alone, and stores nothing by the reference, keeps the invariant. -/
theorem Holds.skip (h : Holds count ramBanks past m) {last : BusCall}
    (elsewhere : ∀ address value, last = .write address value →
      ¬(0xA000 ≤ address ∧ address ≤ 0xBFFF))
    (ram : after.ram = m.ram) (banks : after.ramBanks = m.ramBanks)
    (on : after.ramEnabled = ramOn (last :: past))
    (mode : after.ramBanking = ramMode (last :: past))
    (high : after.high.toNat = highRegister count (last :: past)) :
    Holds count ramBanks (last :: past) after where
  banks := by rw [banks, h.banks]
  size := by rw [ram, h.size]
  on := on
  mode := mode
  high := high
  cells bank inside address lower upper := by
    rw [ram, h.cells bank inside address lower upper, lastStored_cons_of_not]
    intro value written
    exact absurd ⟨lower, upper⟩ (elsewhere address value written)

/-- Every command keeps the invariant. -/
theorem Holds.command (h : Holds count ramBanks past m) {address : UInt16}
    (area : address ≤ 0x7FFF) {value : UInt8}
    (high : (m.command address value).state.high.toNat =
      highRegister count (.write address value :: past)) :
    Holds count ramBanks (.write address value :: past) (m.command address value).state := by
  have elsewhere (other : UInt16) (stored : UInt8)
      (same : BusCall.write address value = .write other stored) :
      ¬(0xA000 ≤ other ∧ other ≤ 0xBFFF) := by
    cases same
    grind
  rw [command_eq m area] at high ⊢
  by_cases first : address ≤ 0x1FFF
  · rw [if_pos first] at high ⊢
    refine h.skip elsewhere rfl rfl ?_ ?_ high
    · rw [ramOn_cons, BusCall.enables?, if_pos first]
      exact and_mask_beq value 0x0A 4 rfl
    · rw [ramMode_cons, BusCall.banksRam?, if_neg (by grind)]
      exact h.mode
  rw [if_neg first] at high ⊢
  have on : m.ramEnabled = ramOn (.write address value :: past) := by
    rw [ramOn_cons, BusCall.enables?, if_neg first]
    exact h.on
  by_cases last : 0x6000 ≤ address
  · rw [if_neg (by grind), if_neg (by grind)] at high ⊢
    refine h.skip elsewhere rfl rfl on ?_ high
    rw [ramMode_cons, BusCall.banksRam?, if_pos ⟨last, area⟩]
    exact and_mask_beq value 1 1 rfl
  have mode : m.ramBanking = ramMode (.write address value :: past) := by
    rw [ramMode_cons, BusCall.banksRam?, if_neg (by grind)]
    exact h.mode
  by_cases second : address ≤ 0x3FFF
  · rw [if_pos second] at high ⊢
    exact h.skip elsewhere rfl rfl on mode high
  · rw [if_neg second, if_pos (by grind)] at high ⊢
    exact h.skip elsewhere rfl rfl on mode high

/-- An accepted write stores its byte in the cell that is shown, and every write leaves the other
cells alone. -/
theorem Holds.writeRam (h : Holds count ramBanks past m) {address : UInt16}
    (first : 0xA000 ≤ address) (last : address ≤ 0xBFFF) (value : UInt8) :
    Holds count ramBanks (.write address value :: past) (m.writeRam address value) where
  banks := by rw [writeRam_eq, h.banks]
  size := by
    rw [Mbc1.writeRam]
    split
    · rw [Array.size_setIfInBounds, h.size]
    · exact h.size
  on := by
    rw [writeRam_eq, ramOn_cons, BusCall.enables?, if_neg (by grind)]
    exact h.on
  mode := by
    rw [writeRam_eq, ramMode_cons, BusCall.banksRam?, if_neg (by grind)]
    exact h.mode
  high := by
    rw [writeRam_eq, highRegister_cons, BusCall.high?, if_neg (by grind)]
    exact h.high
  cells bank inside other lower upper := by
    rw [Mbc1.writeRam, h.ramIndex?, lastStored]
    by_cases shown : ramOn past ∧ ramBanks ≠ 0
    · rw [if_pos shown]
      have same : effectiveBank count ramBanks past * 0x2000 + address.toNat % 0x2000 =
          bank * 0x2000 + other.toNat % 0x2000 ↔
          address = other ∧ ramOn past ∧ effectiveBank count ramBanks past = bank := by
        rw [index_inj first last lower upper]
        exact ⟨fun cell => ⟨cell.2, shown.1, cell.1⟩, fun stored => ⟨stored.2.2, stored.1⟩⟩
      show (m.ram.setIfInBounds _ value)[_]? = _
      rw [Array.getElem?_setIfInBounds, h.cells bank inside other lower upper, h.size,
        if_pos (index_lt (effectiveBank_lt shown.2) address)]
      simp only [same]
      split
      · rfl
      · rfl
    · rw [if_neg shown, if_neg fun stored => shown ⟨stored.2.1, by omega⟩]
      exact h.cells bank inside other lower upper

/-- Every call keeps the invariant if it does so with the registers. -/
theorem Holds.call (h : Holds count ramBanks past m) {last : BusCall}
    (banked : Banked count (last :: past) (m.call last)) :
    Holds count ramBanks (last :: past) (m.call last) := by
  cases last with
  | read | tick | select | request =>
    exact h.skip nofun rfl rfl h.on h.mode banked.high
  | write address value =>
    rw [call_write] at banked ⊢
    by_cases rom : address ≤ 0x7FFF
    · rw [if_pos rom] at banked ⊢
      exact h.command rom banked.high
    rw [if_neg rom] at banked ⊢
    by_cases ram : 0xA000 ≤ address ∧ address ≤ 0xBFFF
    · rw [if_pos ram]
      exact h.writeRam ram.1 ram.2 value
    rw [if_neg ram] at banked ⊢
    refine h.skip (fun other value written => ?_) rfl rfl ?_ ?_ banked.high
    · cases written
      exact ram
    · rw [ramOn_cons, BusCall.enables?, if_neg (by grind)]
      exact h.on
    · rw [ramMode_cons, BusCall.banksRam?, if_neg (by grind)]
      exact h.mode

/-- The external RAM of a new cartridge after any calls that do not fault. -/
theorem holds_calls {image : ByteArray} (ramBanks : Nat) {past : List BusCall}
    (counted : past.any BusCall.storesBank = true → (BankedRom.ofImage image).bankCount ≠ 0) :
    Holds (BankedRom.ofImage image).bankCount.toNat ramBanks past
      ((ofRom (.ofImage image) ramBanks).calls past) := by
  induction past with
  | nil => exact holds_ofRom ..
  | cons last past ih =>
    have earlier (stores : past.any BusCall.storesBank = true) :
        (BankedRom.ofImage image).bankCount ≠ 0 :=
      counted (by rw [List.any_cons, stores, Bool.or_true])
    exact (ih earlier).call (banked_calls ramBanks _ counted)

end Mbc1

/-! ### The bus -/

namespace SystemBus

variable {δ : Type}

/-- The byte that the external RAM of a bus holds in a bank for an address, shown or not. -/
def ramByte? (bus : SystemBus δ) (bank : Nat) (address : UInt16) : Option UInt8 :=
  match bus.cartridge with
  | .mbc1 m => m.ram[bank * 0x2000 + address.toNat % 0x2000]?
  | .romOnly _ => none

theorem ramByte?_of_holds {count ramBanks : Nat} {past : List BusCall} {bus : SystemBus δ}
    {m : Mbc1} (cartridge : bus.cartridge = .mbc1 m) (h : m.Holds count ramBanks past) {bank : Nat}
    (inside : bank < ramBanks) {address : UInt16} (first : 0xA000 ≤ address)
    (last : address ≤ 0xBFFF) :
    bus.ramByte? bank address = some ((lastStored count ramBanks bank address past).getD 0xFF) := by
  rw [ramByte?, cartridge]
  exact h.cells bank inside address first last

variable [Device δ]

/-- The external RAM of a bus with an MBC1 cartridge after some calls that have not faulted, told by
the calls. -/
structure KeepsRam (count ramBanks : Nat) (past : List BusCall) (bus : SystemBus δ) : Prop where
  shown : ∀ address, 0xA000 ≤ address → address ≤ 0xBFFF → bus.peek address =
    if ramOn past ∧ ramBanks ≠ 0 then
      (lastStored count ramBanks (effectiveBank count ramBanks past) address past).getD 0xFF
    else 0xFF
  /-- A bank holds its bytes whether it is shown or not, and whether the RAM is enabled or not. -/
  stored : ∀ bank < ramBanks, ∀ address, 0xA000 ≤ address → address ≤ 0xBFFF →
    bus.ramByte? bank address = some ((lastStored count ramBanks bank address past).getD 0xFF)
  /-- Only an accepted write of its own address, with its own bank shown, changes a byte. -/
  kept : ∀ bank < ramBanks, ∀ address, 0xA000 ≤ address → address ≤ 0xBFFF → ∀ last : BusCall,
    (bus.call last).faulted = false → (∀ value, last = .write address value → ramOn past →
      effectiveBank count ramBanks past ≠ bank) →
    (bus.call last).ramByte? bank address = bus.ramByte? bank address
  inside : ∀ m, bus.cartridge = .mbc1 m → ∀ address index, m.ramIndex? address = some index →
    index < m.ram.size

/-- **The external RAM**: calls of a new bus with an MBC1 cartridge fault exactly if one of them
selects a bank and the banks of the image are whole turns of the count.  After any others, the RAM
area shows what was stored last in the bank that is shown, and every bank keeps what is not stored
over. -/
theorem keepsRam_calls (image : ByteArray) (ramBanks : Nat) (past : List BusCall) :
    let bus : SystemBus δ := (ofImage image .mbc1 ramBanks).calls past
    (bus.faulted = true ↔
      wholeBanks image.size % 0x10000 = 0 ∧ past.any BusCall.storesBank = true) ∧
    (bus.faulted = false → bus.KeepsRam (wholeBanks image.size % 0x10000) ramBanks past) := by
  have start : (ofImage image .mbc1 ramBanks : SystemBus δ).cartridge =
      .mbc1 (.ofRom (.ofImage image) ramBanks) := rfl
  have cartridge := cartridge_calls start
  have faults (past : List BusCall) :=
    faulted_calls_ofImage (δ := δ) image .mbc1 ramBanks past
  -- Where nothing has faulted, the reference holds.
  have holds {past : List BusCall}
      (intact : ((ofImage image .mbc1 ramBanks : SystemBus δ).calls past).faulted = false) :
      ((Mbc1.ofRom (.ofImage image) ramBanks).calls past).Holds
        (wholeBanks image.size % 0x10000) ramBanks past := by
    rw [← toNat_bankCount_ofImage]
    refine Mbc1.holds_calls ramBanks fun stores none => ?_
    rw [(faults past).mpr ⟨(bankCount_ofImage_eq_zero_iff image).mp none, stores⟩] at intact
    cases intact
  refine ⟨faults past, fun intact => ⟨fun address first last => ?_,
    fun bank inside address first last => ?_,
    fun bank inside address first last call called elsewhere => ?_,
    fun m same address index found => ?_⟩⟩
  · rw [peek_of_cartridgeRam (route_of_cartridgeRam first last), cartridge]
    exact (holds intact).readRam first last
  · exact ramByte?_of_holds (cartridge past) (holds intact) inside first last
  · rw [ramByte?_of_holds (cartridge past) (holds intact) inside first last,
      ← lastStored_cons_of_not elsewhere]
    exact ramByte?_of_holds (cartridge (call :: past)) (holds called) inside first last
  · rw [cartridge] at same
    cases same
    exact (holds intact).ramIndex?_lt found

end SystemBus

end Sm83
