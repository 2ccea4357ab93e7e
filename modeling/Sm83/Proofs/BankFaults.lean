import Sm83.Proofs.BusCalls
import Sm83.Proofs.Path

/-! # Faults of bank selection

A selection divides by the number of banks, and that number is a word, which may be zero.

* **Counting.** An image has `wholeBanks size` banks, and a cartridge counts them modulo 65536
  (`toNat_bankCount_ofImage`).  So none are counted exactly for whole turns of 65536 banks.
* **Selections.** `made.selects mapper` says whether a call has a cartridge with that mapper select
  a bank.  Without a controller only the direct selection does; with one the writes to its two bank
  registers do as well.
* **Faults.** A call faults exactly if it selects where no banks are counted, and a fault is never
  taken back (`SystemBus.faulted_call`).  From this follows which calls have faulted in any order
  (`SystemBus.faulted_calls`), and which accesses of the core (`SystemBus.faulted_replay`). -/

namespace Sm83

/-! ### Counting -/

/-- The number of banks that an image needs; there are always two. -/
def wholeBanks (size : Nat) : Nat := max 2 ((size + 0x3FFF) / 0x4000)

/-- The count is a word. -/
theorem toNat_bankCount_ofImage (image : ByteArray) :
    (BankedRom.ofImage image).bankCount.toNat = wholeBanks image.size % 0x10000 :=
  UInt16.toNat_ofNat'

/-- A word counts up to 65535 banks. -/
theorem wholeBanks_mod_iff (size : Nat) :
    wholeBanks size % 0x10000 = wholeBanks size ↔ size ≤ 65535 * 0x4000 := by
  unfold wholeBanks
  omega

/-- Whole turns of the count leave no banks. -/
theorem bankCount_ofImage_eq_zero_iff (image : ByteArray) :
    (BankedRom.ofImage image).bankCount = 0 ↔ wholeBanks image.size % 0x10000 = 0 := by
  rw [← toNat_bankCount_ofImage, ← UInt16.toNat_inj]
  rfl

/-- As long as the count is exact there are banks to divide by. -/
theorem bankCount_ofImage_ne_zero {image : ByteArray} (fits : image.size ≤ 65535 * 0x4000) :
    (BankedRom.ofImage image).bankCount ≠ 0 := by
  rw [Ne, bankCount_ofImage_eq_zero_iff, (wholeBanks_mod_iff _).mpr fits]
  have two : 2 ≤ wholeBanks image.size := Nat.le_max_left ..
  omega

/-! ### Selections -/

namespace BusCall

/-- Whether a call stores something in either bank register of a controller. -/
def storesBank : BusCall → Bool
  | .write address _ => 0x2000 ≤ address ∧ address ≤ 0x5FFF
  | .select _ => true
  | _ => false

/-- Whether a call has a cartridge select a bank. -/
def selects : Mapper → BusCall → Bool
  | .mbc1, made => made.storesBank
  | .romOnly, .select _ => true
  | .romOnly, _ => false

end BusCall

/-- The mapper of a cartridge. -/
def Cartridge.mapper : Cartridge → Mapper
  | romOnly _ => .romOnly
  | mbc1 _ => .mbc1

/-! ### Faults -/

/-- A selection faults exactly if no banks are counted. -/
theorem BankedRom.faulted_select (rom : BankedRom) (requested : UInt16) :
    (rom.select requested).state.faulted = (rom.faulted || decide (rom.bankCount = 0)) := by
  rw [select, resolve?]
  by_cases none : rom.bankCount = 0
  · rw [if_pos none, decide_eq_true none, Bool.or_true]
  · rw [if_neg none, decide_eq_false none, Bool.or_false]

/-- Of the commands only those that store in a bank register can fault. -/
theorem Mbc1.faulted_command (m : Mbc1) {address : UInt16} (area : address ≤ 0x7FFF)
    (value : UInt8) :
    (m.command address value).state.rom.faulted = (m.rom.faulted ||
      ((BusCall.write address value).storesBank && decide (m.rom.bankCount = 0))) := by
  rw [command_eq m area, BusCall.storesBank]
  by_cases first : address ≤ 0x1FFF
  · rw [if_pos first, decide_eq_false (by grind), Bool.false_and, Bool.or_false]
  rw [if_neg first]
  by_cases second : address ≤ 0x3FFF
  · rw [if_pos second, decide_eq_true (by grind), Bool.true_and]
    exact m.rom.faulted_select _
  rw [if_neg second]
  by_cases third : address ≤ 0x5FFF
  · rw [if_pos third, decide_eq_true (by grind), Bool.true_and]
    exact m.rom.faulted_select _
  rw [if_neg third, decide_eq_false (by grind), Bool.false_and, Bool.or_false]

theorem Mbc1.faulted_call (m : Mbc1) (last : BusCall) :
    (m.call last).rom.faulted =
      (m.rom.faulted || (last.storesBank && decide (m.rom.bankCount = 0))) := by
  cases last with
  | read | tick | request => exact (Bool.or_false _).symm
  | select requested => exact m.rom.faulted_select requested
  | write address value =>
    rw [call_write]
    by_cases area : address ≤ 0x7FFF
    · rw [if_pos area]
      exact m.faulted_command area value
    have skipped : (BusCall.write address value).storesBank = false :=
      decide_eq_false (by grind)
    rw [if_neg area, skipped, Bool.false_and, Bool.or_false]
    split
    · rw [writeRam_eq]
    · rfl

/-- Where banks are counted no call faults. -/
theorem Mbc1.faulted_calls {m : Mbc1} (counted : m.rom.bankCount ≠ 0) (past : List BusCall) :
    (m.calls past).rom.faulted = m.rom.faulted := by
  induction past with
  | nil => rfl
  | cons last past ih =>
    rw [calls, faulted_call, ih, bankCount_calls, decide_eq_false counted, Bool.and_false,
      Bool.or_false]

namespace Cartridge

theorem mapper_call (cartridge : Cartridge) (last : BusCall) :
    (cartridge.call last).mapper = cartridge.mapper := by
  cases cartridge with
  | mbc1 m => rw [call_mbc1]; rfl
  | romOnly rom =>
    cases last with
    | read | tick | select | request => rfl
    | write address value => rw [call_romOnly_write]

/-- **Faults of a cartridge**: a call faults exactly if it selects where no banks are counted. -/
theorem faulted_call (cartridge : Cartridge) (last : BusCall) :
    (cartridge.call last).rom.faulted = (cartridge.rom.faulted ||
      (last.selects cartridge.mapper && decide (cartridge.rom.bankCount = 0))) := by
  cases cartridge with
  | mbc1 m =>
    rw [call_mbc1]
    exact m.faulted_call last
  | romOnly rom =>
    cases last with
    | read | tick | request => exact (Bool.or_false _).symm
    | select requested => exact rom.faulted_select requested
    | write address value =>
      rw [call_romOnly_write]
      exact (Bool.or_false _).symm

end Cartridge

/-! ### The bus -/

/-- The call of a bus that an access of the core is. -/
def Access.call : Access → BusCall
  | .read address _ => .read address
  | .write address value => .write address value
  | .tick cycles => .tick cycles

namespace SystemBus

variable {δ : Type}

theorem mapper_ofImage (image : ByteArray) (mapper : Mapper) (ramBanks : Nat) :
    (ofImage image mapper ramBanks : SystemBus δ).cartridge.mapper = mapper := by
  cases mapper with
  | romOnly | mbc1 => rfl

theorem rom_ofImage (image : ByteArray) (mapper : Mapper) (ramBanks : Nat) :
    (ofImage image mapper ramBanks : SystemBus δ).cartridge.rom = .ofImage image := by
  cases mapper with
  | romOnly | mbc1 => rfl

variable [Device δ]

/-- **Faults of a bus**: a call faults exactly if it selects where no banks are counted. -/
theorem faulted_call (bus : SystemBus δ) (last : BusCall) :
    (bus.call last).faulted =
      (bus.faulted || (last.selects bus.cartridge.mapper && decide (bus.bankCount = 0))) := by
  rw [faulted, cartridge_call]
  exact bus.cartridge.faulted_call last

/-- What decides whether a call faults is never changed. -/
theorem selects_call (bus : SystemBus δ) (last : BusCall) :
    (bus.call last).cartridge.mapper = bus.cartridge.mapper ∧
      (bus.call last).bankCount = bus.bankCount := by
  rw [bankCount, cartridge_call]
  exact ⟨bus.cartridge.mapper_call last, congrArg Prod.snd (bus.cartridge.fixed_call last)⟩

theorem selects_calls (bus : SystemBus δ) (past : List BusCall) :
    (bus.calls past).cartridge.mapper = bus.cartridge.mapper ∧
      (bus.calls past).bankCount = bus.bankCount := by
  induction past with
  | nil => exact ⟨rfl, rfl⟩
  | cons last past ih =>
    obtain ⟨mapper, count⟩ := (bus.calls past).selects_call last
    exact ⟨mapper.trans ih.1, count.trans ih.2⟩

/-- Whether any of some calls has faulted. -/
theorem faulted_calls (bus : SystemBus δ) (past : List BusCall) :
    (bus.calls past).faulted = (bus.faulted ||
      (past.any (BusCall.selects bus.cartridge.mapper) && decide (bus.bankCount = 0))) := by
  induction past with
  | nil => exact (Bool.or_false _).symm
  | cons last past ih =>
    obtain ⟨mapper, count⟩ := bus.selects_calls past
    rw [calls, faulted_call, ih, mapper, count, List.any_cons, Bool.or_assoc,
      ← Bool.and_or_distrib_right, Bool.or_comm (past.any _)]

/-- Calls of a new bus fault exactly if one of them selects, and the banks of its image are whole
turns of the count. -/
theorem faulted_calls_ofImage (image : ByteArray) (mapper : Mapper) (ramBanks : Nat)
    (past : List BusCall) :
    ((ofImage image mapper ramBanks : SystemBus δ).calls past).faulted = true ↔
      wholeBanks image.size % 0x10000 = 0 ∧ past.any (BusCall.selects mapper) = true := by
  have start : (ofImage image mapper ramBanks : SystemBus δ).faulted = false := by
    rw [faulted, rom_ofImage]
    rfl
  rw [faulted_calls, start, Bool.false_or, mapper_ofImage, bankCount, rom_ofImage,
    Bool.and_eq_true, decide_eq_true_iff, bankCount_ofImage_eq_zero_iff, and_comm]

/-- No calls of a new bus fault whose banks are counted exactly. -/
theorem intact_calls_ofImage {image : ByteArray} (fits : image.size ≤ 65535 * 0x4000)
    (mapper : Mapper) (ramBanks : Nat) (past : List BusCall) :
    ((ofImage image mapper ramBanks : SystemBus δ).calls past).faulted = false := by
  refine eq_false_of_ne_true fun faulted => ?_
  obtain ⟨turns, -⟩ := (faulted_calls_ofImage image mapper ramBanks past).mp faulted
  exact bankCount_ofImage_ne_zero fits ((bankCount_ofImage_eq_zero_iff image).mpr turns)

theorem state_operation (access : Access) (bus : SystemBus δ) :
    (access.operation bus).state = bus.call access.call := by
  cases access with
  | read | write | tick => rfl

/-- Whether any of some accesses of the core has faulted. -/
theorem faulted_replay (accesses : List Access) (bus : SystemBus δ) :
    (replay accesses bus).state.faulted = (bus.faulted ||
      (accesses.any (fun access => access.call.selects bus.cartridge.mapper) &&
        decide (bus.bankCount = 0))) := by
  induction accesses generalizing bus with
  | nil => exact (Bool.or_false _).symm
  | cons access rest ih =>
    obtain ⟨mapper, count⟩ := bus.selects_call access.call
    rw [state_replay_cons, ih, state_operation, faulted_call, mapper, count, List.any_cons,
      Bool.or_assoc, ← Bool.and_or_distrib_right]

end SystemBus

end Sm83
