import Mathlib.Data.List.Permutation
import Sm83.Proofs.ExternalRam

/-! # Direct selection and the bank registers

A bank of an MBC1 cartridge is selected by its number or by writes to the two bank registers.

* **Another bank.** `bus.showing bank` is a bus that differs in the bank in its second window and in
  nothing else.  Only reads of that window tell them apart (`peek_showing`), and as soon as
  something is stored in a bank register nothing does (`hosted_showing`).
* **The registers.** A selection puts its number into the registers.  To write the number there is
  to apply the registers that the selection leaves (`Mbc1.calls_of_putsBank`), which names the
  selected bank exactly if its number fits them (`Mbc1.bank_apply_select_iff`).
* **Main statement.** `sameSelection_hosted`: after whatever the host has done, the two ways differ
  in the second window at most, for numbers that do not fit the registers, and until the next
  selection of either kind. -/

namespace Sm83

/-! ### The host -/

/-- Whether the host stores something in a bank register. -/
def HostCall.storesBank {δ : Type} : HostCall δ → Bool
  | .call made => made.storesBank
  | .attach _ _ => false

/-- The call that a cartridge sees of what the host does. -/
def HostCall.call? {δ : Type} : HostCall δ → Option BusCall
  | .call made => some made
  | .attach _ _ => none

namespace SystemBus

variable {δ : Type} [Device δ]

/-- A call treats the cartridge apart from everything else. -/
theorem call_withCartridge (bus : SystemBus δ) (cartridge : Cartridge) (last : BusCall) :
    ({ bus with cartridge := cartridge } : SystemBus δ).call last =
      { bus.call last with cartridge := cartridge.call last } := by
  cases last with
  | read address =>
    rw [call, call, state_read, state_read]
    cases route address with
    | rom | cartridgeRam | region | unused | interruptRequest | interruptEnable => rfl
  | write address value =>
    rw [call, call, state_write, state_write, Cartridge.call]
    cases route address with
    | rom | cartridgeRam | region | unused | interruptRequest | interruptEnable => rfl
  | tick | select | request => rfl

theorem cartridge_host (bus : SystemBus δ) (last : HostCall δ) :
    (bus.host last).cartridge = (last.call?.map bus.cartridge.call).getD bus.cartridge := by
  cases last with
  | call made => exact cartridge_call bus made
  | attach region device => rfl

/-- The cartridge of a bus whose host has done something. -/
theorem cartridge_hosted {bus : SystemBus δ} {m : Mbc1} (h : bus.cartridge = .mbc1 m)
    (past : List (HostCall δ)) :
    (bus.hosted past).cartridge = .mbc1 (m.calls (past.filterMap HostCall.call?)) := by
  induction past with
  | nil => exact h
  | cons last past ih =>
    rw [hosted, cartridge_host, ih]
    cases last with
    | call made => exact Cartridge.call_mbc1 _ made
    | attach region device => rfl

end SystemBus

/-! ### Another bank -/

namespace BankedRom

/-- Among some banks a selection changes the bank that is shown, and nothing else. -/
theorem state_select {rom : BankedRom} (counted : rom.bankCount ≠ 0) (requested : UInt16) :
    (rom.select requested).state = { rom with bank := (rom.select requested).value } := by
  rw [select, resolve?, if_neg counted]

/-- Among some banks a selection does not depend on what was shown. -/
theorem select_showing {rom : BankedRom} (counted : rom.bankCount ≠ 0)
    (bank requested : UInt16) :
    (({ rom with bank := bank } : BankedRom).select requested).value =
        (rom.select requested).value ∧
      (({ rom with bank := bank } : BankedRom).select requested).state =
        (rom.select requested).state := by
  rw [select, select, resolve?, resolve?, if_neg counted]
  exact ⟨rfl, rfl⟩

end BankedRom

namespace Mbc1

/-- A write to the low register. -/
theorem call_low (m : Mbc1) {address : UInt16} (first : 0x2000 ≤ address) (last : address ≤ 0x3FFF)
    (value : UInt8) :
    m.call (.write address value) = { m with low := lowOf value }.apply.state := by
  have area : address ≤ 0x7FFF := by grind
  rw [call_write, if_pos area, command_eq m area, if_neg (by grind), if_pos last]

/-- A write to the high register. -/
theorem call_high (m : Mbc1) {address : UInt16} (first : 0x4000 ≤ address)
    (last : address ≤ 0x5FFF) (value : UInt8) :
    m.call (.write address value) = { m with high := value &&& 0x03 }.apply.state := by
  have area : address ≤ 0x7FFF := by grind
  rw [call_write, if_pos area, command_eq m area, if_neg (by grind), if_neg (by grind),
    if_pos last]

/-- The cartridge with another bank in its second window. -/
def showing (bank : UInt16) (m : Mbc1) : Mbc1 := { m with rom := { m.rom with bank := bank } }

/-- The external RAM does not depend on the bank. -/
theorem writeRam_showing (m : Mbc1) (bank address : UInt16) (value : UInt8) :
    (m.showing bank).writeRam address value = (m.writeRam address value).showing bank := by
  have index : (m.showing bank).ramIndex? address = m.ramIndex? address := rfl
  rw [writeRam, writeRam, index]
  split
  · rfl
  · rfl

/-- Among some banks, to apply the registers is to show the bank that they name. -/
theorem apply_eq_showing {m : Mbc1} (counted : m.rom.bankCount ≠ 0) :
    m.apply.state = m.showing m.apply.state.rom.bank := by
  have changed := BankedRom.state_select counted (m.high.toUInt16 <<< 5 ||| m.low.toUInt16)
  rw [BankedRom.value_select] at changed
  exact congrArg (fun rom => { m with rom := rom }) changed

/-- The bank that was shown has no part in applying the registers. -/
theorem apply_showing {m : Mbc1} (counted : m.rom.bankCount ≠ 0) (bank : UInt16) :
    (m.showing bank).apply.state = m.apply.state := by
  obtain ⟨-, state⟩ := BankedRom.select_showing counted bank
    (m.high.toUInt16 <<< 5 ||| m.low.toUInt16)
  exact congrArg (fun rom => { m with rom := rom }) state

/-- What is stored in a bank register replaces the bank. -/
theorem call_showing_of_storesBank {m : Mbc1} (counted : m.rom.bankCount ≠ 0) (bank : UInt16)
    {last : BusCall} (stores : last.storesBank = true) :
    (m.showing bank).call last = m.call last := by
  cases last with
  | read | tick | request => cases stores
  | select requested =>
    obtain ⟨value, state⟩ := BankedRom.select_showing counted bank requested
    exact congrArg₂ (fun (bank : UInt16) rom => { m with
      rom := rom, low := lowOf (lowByte bank), high := lowByte (bank >>> 5) &&& 0x03 }) value state
  | write address value =>
    obtain ⟨first, last⟩ : 0x2000 ≤ address ∧ address ≤ 0x5FFF := of_decide_eq_true stores
    by_cases low : address ≤ 0x3FFF
    · rw [call_low _ first low, call_low _ first low]
      exact apply_showing (m := { m with low := lowOf value }) counted bank
    · rw [call_high _ (by grind) last, call_high _ (by grind) last]
      exact apply_showing (m := { m with high := value &&& 0x03 }) counted bank

/-- What is stored elsewhere does not depend on the bank and leaves it alone. -/
theorem call_showing_of_not (m : Mbc1) (bank : UInt16) {last : BusCall}
    (skipped : last.storesBank = false) :
    (m.showing bank).call last = (m.call last).showing bank := by
  cases last with
  | read | tick | request => rfl
  | select => cases skipped
  | write address value =>
    have range : ¬(0x2000 ≤ address ∧ address ≤ 0x5FFF) := of_decide_eq_false skipped
    rw [call_write, call_write]
    by_cases area : address ≤ 0x7FFF
    · rw [if_pos area, if_pos area, command_eq _ area, command_eq _ area]
      split
      · rfl
      · rw [if_neg (by grind), if_neg (by grind), if_neg (by grind), if_neg (by grind)]
        rfl
    · rw [if_neg area, if_neg area]
      split
      · exact m.writeRam_showing bank address value
      · rfl

end Mbc1

namespace SystemBus

variable {δ : Type}

/-- The bus with another bank in the second window of its cartridge. -/
def showing (bank : UInt16) (bus : SystemBus δ) : SystemBus δ :=
  match bus.cartridge with
  | .mbc1 m => { bus with cartridge := .mbc1 (m.showing bank) }
  | .romOnly _ => bus

section mbc1
variable {bus : SystemBus δ} {m : Mbc1} (cartridge : bus.cartridge = .mbc1 m) (bank : UInt16)
include cartridge

theorem showing_of_mbc1 : bus.showing bank = { bus with cartridge := .mbc1 (m.showing bank) } := by
  rw [showing, cartridge]

/-- A bus shows another bank unless it is the one that it shows. -/
theorem eq_showing_iff : bus = bus.showing bank ↔ m.rom.bank = bank := by
  rw [showing_of_mbc1 cartridge]
  constructor
  · intro same
    have shown := congrArg SystemBus.bank same
    rw [SystemBus.bank, cartridge] at shown
    exact shown
  · rintro rfl
    exact congrArg (fun cartridge => { bus with cartridge := cartridge }) cartridge

theorem ramByte?_showing (number : Nat) (address : UInt16) :
    (bus.showing bank).ramByte? number address = bus.ramByte? number address := by
  rw [showing_of_mbc1 cartridge, ramByte?, ramByte?, cartridge]
  rfl

theorem faulted_showing : (bus.showing bank).faulted = bus.faulted := by
  rw [showing_of_mbc1 cartridge, faulted, faulted, cartridge]
  rfl

/-- A selection answers the same, whatever was shown. -/
theorem answer_showing (counted : m.rom.bankCount ≠ 0) (requested : UInt16) :
    ((bus.showing bank).selectBank requested).value = (bus.selectBank requested).value := by
  have shown : (bus.showing bank).cartridge = .mbc1 (m.showing bank) := by
    rw [showing_of_mbc1 cartridge]
  rw [value_selectBank shown, value_selectBank cartridge]
  exact (BankedRom.select_showing counted bank requested).1

variable [Device δ]

/-- Only the second window tells what is shown there. -/
theorem peek_showing {address : UInt16} (outside : ¬(0x4000 ≤ address ∧ address ≤ 0x7FFF)) :
    (bus.showing bank).peek address = bus.peek address := by
  rw [showing_of_mbc1 cartridge]
  have owner := owns_route address
  cases found : route address with
  | rom =>
    rw [found] at owner
    cases owner with
    | rom area =>
      have first : address < 0x4000 := by grind
      rw [peek_of_rom found, peek_of_rom found, cartridge]
      show BankedRom.read _ address = BankedRom.read _ address
      simp only [BankedRom.read, BankedRom.offset, if_pos first]
      rfl
  | cartridgeRam =>
    rw [peek_of_cartridgeRam found, peek_of_cartridgeRam found, cartridge]
    rfl
  | region => rw [peek_of_region found, peek_of_region found]
  | unused => rw [peek_of_unused found, peek_of_unused found]
  | interruptRequest =>
    rw [route_eq_interruptRequest_iff.mp found]
    rfl
  | interruptEnable => rw [peek_of_interruptEnable found, peek_of_interruptEnable found]

/-- A step: what is stored in a bank register makes up for another bank. -/
theorem host_showing_of_storesBank (counted : m.rom.bankCount ≠ 0) {last : HostCall δ}
    (stores : last.storesBank = true) : (bus.showing bank).host last = bus.host last := by
  cases last with
  | attach => cases stores
  | call made =>
    have called := call_withCartridge bus (.mbc1 m) made
    rw [← cartridge] at called
    rw [showing_of_mbc1 cartridge, host, host, call_withCartridge, Cartridge.call_mbc1,
      Mbc1.call_showing_of_storesBank counted bank stores, ← Cartridge.call_mbc1, ← cartridge,
      ← called]

/-- A step: everything else leaves the other bank in its place. -/
theorem host_showing_of_not {last : HostCall δ} (skipped : last.storesBank = false) :
    (bus.showing bank).host last = (bus.host last).showing bank := by
  cases last with
  | attach region device =>
    have kept : (bus.host (.attach region device)).cartridge = .mbc1 m := cartridge
    rw [showing_of_mbc1 cartridge, showing_of_mbc1 kept]
    rfl
  | call made =>
    have after : (bus.host (.call made)).cartridge = .mbc1 (m.call made) := by
      rw [host, cartridge_call, cartridge, Cartridge.call_mbc1]
    rw [showing_of_mbc1 cartridge, showing_of_mbc1 after, host, host, call_withCartridge,
      Cartridge.call_mbc1, m.call_showing_of_not bank skipped]

/-- **Another bank** stays until something is stored in a bank register, and then it is gone. -/
theorem hosted_showing (counted : m.rom.bankCount ≠ 0) (later : List (HostCall δ)) :
    (bus.showing bank).hosted later =
      if later.any HostCall.storesBank then bus.hosted later
      else (bus.hosted later).showing bank := by
  induction later with
  | nil => rfl
  | cons last later ih =>
    have after := cartridge_hosted cartridge later
    rw [hosted, hosted, ih, List.any_cons]
    by_cases earlier : later.any HostCall.storesBank = true
    · rw [if_pos earlier, earlier, Bool.or_true, if_pos rfl]
    rw [if_neg earlier, eq_false_of_ne_true earlier, Bool.or_false]
    cases stores : last.storesBank with
    | true =>
      refine host_showing_of_storesBank after bank ?_ stores
      rw [Mbc1.bankCount_calls]
      exact counted
    | false => exact host_showing_of_not after bank stores

/-- What does not tell the other bank now does not do so later. -/
theorem apply_hosted_showing (counted : m.rom.bankCount ≠ 0) {α : Type} (f : SystemBus δ → α)
    (blind : ∀ {other : SystemBus δ} {n : Mbc1}, other.cartridge = .mbc1 n → n.rom.bankCount ≠ 0 →
      f (other.showing bank) = f other) (later : List (HostCall δ)) :
    f ((bus.showing bank).hosted later) = f (bus.hosted later) := by
  rw [hosted_showing cartridge bank counted later]
  split
  · rfl
  · refine blind (cartridge_hosted cartridge later) ?_
    rw [Mbc1.bankCount_calls]
    exact counted

/-- Where banks are counted nothing that the host does faults. -/
theorem faulted_hosted (counted : m.rom.bankCount ≠ 0) (past : List (HostCall δ)) :
    (bus.hosted past).faulted = bus.faulted := by
  rw [faulted, faulted, cartridge_hosted cartridge, cartridge]
  exact Mbc1.faulted_calls counted _

end mbc1

end SystemBus

/-! ### The registers -/

/-- Whether two writes, in either order, put the parts of a bank number into the registers. -/
def PutsBank (bank : UInt16) (writes : List BusCall) : Prop :=
  ∃ low high : UInt16, (0x2000 ≤ low ∧ low ≤ 0x3FFF) ∧ (0x4000 ≤ high ∧ high ≤ 0x5FFF) ∧
    writes.Perm
      [.write low (lowByte (bank &&& 0x1F)), .write high (lowByte (bank >>> 5 &&& 0x03))]

/-- All that it takes are writes to the ROM area. -/
theorem PutsBank.area {bank : UInt16} {writes : List BusCall} (h : PutsBank bank writes) :
    ∀ made ∈ writes, ∃ address value, made = .write address value ∧ address ≤ 0x7FFF := by
  obtain ⟨low, high, lowRange, highRange, order⟩ := h
  intro made mem
  rcases List.mem_pair.mp (order.mem_iff.mp mem) with rfl | rfl
  · exact ⟨low, _, rfl, by grind⟩
  · exact ⟨high, _, rfl, by grind⟩

namespace Mbc1

/-- A mask that is applied twice. -/
theorem lowByte_and_mask (w : UInt16) (mask : UInt8) :
    lowByte (w &&& mask.toUInt16) &&& mask = lowByte w &&& mask := by
  show (w &&& mask.toUInt16).toUInt8 &&& mask = w.toUInt8 &&& mask
  rw [UInt16.toUInt8_and, UInt8.toUInt8_toUInt16, UInt8.and_assoc, UInt8.and_self]

theorem lowOf_mask (bank : UInt16) : lowOf (lowByte (bank &&& 0x1F)) = lowOf (lowByte bank) := by
  have mask : lowByte (bank &&& 0x1F) &&& 0x1F = lowByte bank &&& 0x1F :=
    lowByte_and_mask bank 0x1F
  rw [lowOf, lowOf, mask]

theorem high_mask (bank : UInt16) :
    (lowByte (bank >>> 5 &&& 0x03) &&& 0x03 : UInt8) = lowByte (bank >>> 5) &&& 0x03 :=
  lowByte_and_mask (bank >>> 5) 0x03

/-- To write the number of the bank is to apply the registers that its selection leaves. -/
theorem calls_of_putsBank {m : Mbc1} (counted : m.rom.bankCount ≠ 0) {requested : UInt16}
    {writes : List BusCall} (h : PutsBank (m.rom.select requested).value writes) :
    m.calls writes = (m.call (.select requested)).apply.state := by
  obtain ⟨low, high, lowRange, highRange, order⟩ := h
  have selected : m.call (.select requested) =
      { m with
        rom := (m.rom.select requested).state
        low := lowOf (lowByte (m.rom.select requested).value)
        high := lowByte ((m.rom.select requested).value >>> 5) &&& 0x03 } := rfl
  rw [selected, BankedRom.state_select counted]
  generalize (m.rom.select requested).value = bank at order
  -- The selection and the first of the two writes differ in the bank they show until the second.
  refine Eq.trans ?_ (apply_showing (m := { m with
    low := lowOf (lowByte bank), high := lowByte (bank >>> 5) &&& 0x03 }) counted bank).symm
  rcases List.perm_pair.mp order with rfl | rfl
  · rw [calls, calls, calls, call_high m highRange.1 highRange.2, call_low _ lowRange.1 lowRange.2,
      lowOf_mask, high_mask,
      apply_eq_showing (m := { m with high := lowByte (bank >>> 5) &&& 0x03 }) counted]
    exact apply_showing (m := { m with
      low := lowOf (lowByte bank), high := lowByte (bank >>> 5) &&& 0x03 }) counted _
  · rw [calls, calls, calls, call_low m lowRange.1 lowRange.2, call_high _ highRange.1 highRange.2,
      lowOf_mask, high_mask, apply_eq_showing (m := { m with low := lowOf (lowByte bank) }) counted]
    exact apply_showing (m := { m with
      low := lowOf (lowByte bank), high := lowByte (bank >>> 5) &&& 0x03 }) counted _

/-- The registers name the selected bank exactly if its number fits them. -/
theorem bank_apply_select_iff {count : Nat} {past : List BusCall} {m : Mbc1}
    (h : m.Banked count past) (two : 2 ≤ count) (requested : UInt16) :
    (m.call (.select requested)).rom.bank = (m.call (.select requested)).apply.state.rom.bank ↔
      (m.rom.select requested).value.toNat < 128 ∧
        (m.rom.select requested).value.toNat % 32 ≠ 0 := by
  have counted := h.counted two
  have after := h.select counted requested
  have last : (BusCall.select requested :: past).find? BusCall.storesBank =
      some (.select requested) := List.find?_cons_of_pos rfl
  obtain ⟨low, high⟩ := registers_of_select last count
  have shown : (m.rom.select requested).value.toNat = shownBank count requested.toNat :=
    (congrArg UInt16.toNat (m.rom.value_select requested)).trans after.bank
  rw [← UInt16.toNat_inj, toNat_bank_apply (BankedRom.counted_of_two (after.banks ▸ two)),
    after.banks, after.low, after.high, low, high, shown, after.bank]
  rw [mappedBank, last]
  exact eq_shownBank_registers_iff (one_le_shownBank _ _) (shownBank_lt two _)

end Mbc1

/-! ### The bus -/

namespace SystemBus

variable {δ : Type} [Device δ]

/-- Writes to the ROM area concern the cartridge alone. -/
theorem calls_of_area (bus : SystemBus δ) {writes : List BusCall}
    (h : ∀ made ∈ writes, ∃ address value, made = .write address value ∧ address ≤ 0x7FFF) :
    bus.calls writes = { bus with cartridge := (bus.calls writes).cartridge } := by
  induction writes with
  | nil => rfl
  | cons last writes ih =>
    obtain ⟨address, value, rfl, area⟩ := h last List.mem_cons_self
    have before := ih fun made mem => h made (List.mem_cons_of_mem _ mem)
    rw [calls, call, state_write, route_of_rom area]
    generalize bus.calls writes = mid at before ⊢
    rw [before]

/-- The two ways to select a bank leave buses that differ in the bank that is shown at most. -/
theorem calls_of_putsBank {bus : SystemBus δ} {m : Mbc1} (cartridge : bus.cartridge = .mbc1 m)
    (counted : m.rom.bankCount ≠ 0) {requested : UInt16} {writes : List BusCall}
    (h : PutsBank (m.rom.select requested).value writes) :
    bus.calls writes = (bus.call (.select requested)).showing
      (m.call (.select requested)).apply.state.rom.bank := by
  have selected : bus.call (.select requested) =
      { bus with cartridge := .mbc1 (m.call (.select requested)) } := by
    rw [call, selectBank, onCartridge, cartridge]
    rfl
  have still : (m.call (.select requested)).rom.bankCount ≠ 0 := by
    rw [Mbc1.bankCount_call]
    exact counted
  rw [calls_of_area bus h.area, cartridge_calls cartridge, Mbc1.calls_of_putsBank counted h,
    selected, showing_of_mbc1 rfl, ← Mbc1.apply_eq_showing still]

/-- How a bus that was told a bank directly and one that was told it by its registers compare. -/
structure SameSelection (bank : Nat) (direct stored : SystemBus δ) : Prop where
  /-- Neither has faulted, and neither does. -/
  intact : ∀ later, (direct.hosted later).faulted = false ∧ (stored.hosted later).faulted = false
  /-- Every byte of the external RAM is the same, shown or not, now and later. -/
  ram : ∀ later number address,
    (direct.hosted later).ramByte? number address = (stored.hosted later).ramByte? number address
  outside : ∀ later address, ¬(0x4000 ≤ address ∧ address ≤ 0x7FFF) →
    (direct.hosted later).peek address = (stored.hosted later).peek address
  answer : ∀ later requested,
    ((direct.hosted later).selectBank requested).value =
      ((stored.hosted later).selectBank requested).value
  /-- They are the same at once exactly if the number fits the registers. -/
  atOnce : direct = stored ↔ bank < 128 ∧ bank % 32 ≠ 0
  /-- They are the same for good once anything is stored in a bank register. -/
  forGood : ∀ later, later.any HostCall.storesBank = true →
    direct.hosted later = stored.hosted later

/-- The two ways to select a bank, for a cartridge that keeps the invariant. -/
theorem sameSelection_of_banked {count : Nat} {past : List BusCall} {bus : SystemBus δ} {m : Mbc1}
    (cartridge : bus.cartridge = .mbc1 m) (banked : m.Banked count past) (two : 2 ≤ count)
    (intact : bus.faulted = false) {requested : UInt16} {writes : List BusCall}
    (puts : PutsBank (bus.selectBank requested).value writes) :
    SameSelection (bus.selectBank requested).value.toNat (bus.call (.select requested))
      (bus.calls writes) := by
  have selected : (bus.call (.select requested)).cartridge =
      .mbc1 (m.call (.select requested)) := by
    rw [cartridge_call, cartridge, Cartridge.call_mbc1]
  have counted : (m.call (.select requested)).rom.bankCount ≠ 0 := by
    rw [Mbc1.bankCount_call]
    exact banked.counted two
  have sound : (bus.call (.select requested)).faulted = false :=
    (faulted_hosted cartridge (banked.counted two) [.call (.select requested)]).trans intact
  have fits := Mbc1.bank_apply_select_iff banked two requested
  rw [value_selectBank cartridge] at puts ⊢
  rw [calls_of_putsBank cartridge (banked.counted two) puts]
  generalize (m.call (.select requested)).apply.state.rom.bank = named at fits ⊢
  have same {α : Type} (f : SystemBus δ → α) := apply_hosted_showing selected named counted f
  refine ⟨fun later => ?_, fun later number address => ?_, fun later address outside => ?_,
    fun later other => ?_, ?_, fun later stores => ?_⟩
  · have kept := (faulted_hosted selected counted later).trans sound
    exact ⟨kept, (same faulted (fun h _ => faulted_showing h named) later).trans kept⟩
  · exact (same (fun bus => bus.ramByte? number address)
      (fun h _ => ramByte?_showing h named number address) later).symm
  · exact (same (fun bus => bus.peek address) (fun h _ => peek_showing h named outside) later).symm
  · exact (same (fun bus => (bus.selectBank other).value)
      (fun h counted => answer_showing h named counted other) later).symm
  · rw [← fits]
    exact eq_showing_iff selected named
  · rw [hosted_showing selected named counted, if_pos stores]

/-- **Direct selection** agrees with selection by the registers, after whatever the host has done to
a new bus with an MBC1 cartridge. -/
theorem sameSelection_hosted (image : ByteArray) (ramBanks : Nat) (past : List (HostCall δ))
    (requested : UInt16) {writes : List BusCall} (fits : image.size ≤ 65535 * 0x4000)
    (puts : PutsBank
      (((ofImage image .mbc1 ramBanks : SystemBus δ).hosted past).selectBank requested).value
      writes) :
    SameSelection
      (((ofImage image .mbc1 ramBanks : SystemBus δ).hosted past).selectBank requested).value.toNat
      (((ofImage image .mbc1 ramBanks : SystemBus δ).hosted past).call (.select requested))
      (((ofImage image .mbc1 ramBanks : SystemBus δ).hosted past).calls writes) := by
  have start : (ofImage image .mbc1 ramBanks : SystemBus δ).cartridge =
      .mbc1 (.ofRom (.ofImage image) ramBanks) := rfl
  have cartridge := cartridge_hosted start past
  have counted := bankCount_ofImage_ne_zero fits
  have banked := Mbc1.banked_calls ramBanks (past.filterMap HostCall.call?) fun _ => counted
  rw [BankedRom.toNat_bankCount fits] at banked
  exact sameSelection_of_banked cartridge banked (Nat.le_max_left ..)
    (faulted_hosted start counted past) puts

/-- An image of 67 banks: bank 64 is a multiple of 32, so the two ways differ, up to the next write
to a bank register. -/
theorem sameSelection_hosted_multiple :
    let image : ByteArray := ⟨Array.replicate (67 * 0x4000) 0⟩
    let bus : SystemBus Empty := (ofImage image .mbc1 1).hosted [.attach .io (.ram ⟨0xFF00, #[]⟩)]
    let writes : List BusCall := [.write 0x4000 2, .write 0x2000 0]
    image.size ≤ 65535 * 0x4000 ∧ PutsBank (bus.selectBank 64).value writes ∧
      bus.call (.select 64) ≠ bus.calls writes ∧
      (bus.call (.select 64)).hosted [.call (.write 0x5FFF 1)] =
        (bus.calls writes).hosted [.call (.write 0x5FFF 1)] := by
  have size : (⟨Array.replicate (67 * 0x4000) 0⟩ : ByteArray).size = 67 * 0x4000 :=
    Array.size_replicate
  generalize (⟨Array.replicate (67 * 0x4000) 0⟩ : ByteArray) = image at size
  intro image bus writes
  have fits : image.size ≤ 65535 * 0x4000 := by
    rw [size]
    decide
  have count : (BankedRom.ofImage image).bankCount = 67 := by
    rw [← UInt16.toNat_inj, BankedRom.toNat_bankCount fits, size]
    rfl
  have answer : (bus.selectBank 64).value = 64 := by
    have cartridge : bus.cartridge = .mbc1 (.ofRom (.ofImage image) 1) := rfl
    have shown := BankedRom.toNat_value_select (bankCount_ofImage_ne_zero fits) 64
    rw [count] at shown
    rw [value_selectBank cartridge, ← UInt16.toNat_inj, Mbc1.ofRom, shown]
    rfl
  have puts : PutsBank (bus.selectBank 64).value writes := by
    rw [answer]
    exact ⟨0x2000, 0x4000, by decide, by decide, by decide⟩
  have same := sameSelection_hosted image 1 [.attach .io (.ram ⟨0xFF00, #[]⟩)] 64 fits puts
  refine ⟨fits, puts, fun equal => ?_, same.forGood _ rfl⟩
  have fitting := same.atOnce.mp equal
  rw [answer] at fitting
  exact absurd rfl fitting.2

end SystemBus

end Sm83
