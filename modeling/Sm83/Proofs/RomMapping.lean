import Sm83.Proofs.BankFaults

/-! # Selected banks

Which bank an MBC1 cartridge shows depends on the latest value of each of its two bank registers,
and on whether a number was selected directly since.

* **Numbers.** Numbers wrap at the number of banks, and zero becomes one (`shownBank`).
* **Registers.** `lowRegister count past` and `highRegister count past` are the values that some
  calls last stored.  A direct selection stores the number of the bank that it found; the low
  register cannot hold the low bits of a multiple of 32, and the high register not the bits of a
  number past 127.
* **The invariant.** `Banked count past m` says that the registers of the cartridge hold these
  values and that it shows `mappedBank count past`.  Every call that does not fault keeps it
  (`Banked.call`).
* **Main statement.** `mapped_calls`: after any calls, a new bus with a ROM of fewer than 65536
  banks shows the bank that the registers name, or the one that was selected last; the two agree
  exactly for the numbers that fit the registers. -/

namespace Sm83

/-! ### Bank numbers -/

/-- The low bits of a byte are a remainder. -/
theorem toNat_and_mask (value : UInt8) {mask : UInt8} (width : Nat)
    (h : mask.toNat = (1 <<< width) - 1) :
    (value &&& mask).toNat = value.toNat % (1 <<< width) := by
  rw [UInt8.toNat_and, h, Nat.one_shiftLeft, Nat.and_two_pow_sub_one_eq_mod]

/-- The bank that a requested number shows among some banks: numbers wrap, and zero becomes one. -/
def shownBank (count requested : Nat) : Nat := max 1 (requested % count)

theorem shownBank_lt {count : Nat} (h : 2 ≤ count) (requested : Nat) :
    shownBank count requested < count := by
  have := Nat.mod_lt requested (show 0 < count by omega)
  unfold shownBank
  omega

theorem one_le_shownBank (count requested : Nat) : 1 ≤ shownBank count requested :=
  Nat.le_max_left 1 _

namespace BankedRom

/-- A selection answers with the bank that it shows. -/
theorem value_select (rom : BankedRom) (requested : UInt16) :
    (rom.select requested).value = (rom.select requested).state.bank := by
  unfold select
  cases rom.resolve? requested with
  | some bank => rfl
  | none => rfl

theorem bankCount_select (rom : BankedRom) (requested : UInt16) :
    (rom.select requested).state.bankCount = rom.bankCount :=
  congrArg Prod.snd (rom.fixed_select requested)

theorem counted_of_two {rom : BankedRom} (two : 2 ≤ rom.bankCount.toNat) : rom.bankCount ≠ 0 := by
  intro none
  rw [none] at two
  exact absurd two (by decide)

/-- Among some banks a selection shows the one that the number stands for. -/
theorem toNat_value_select {rom : BankedRom} (counted : rom.bankCount ≠ 0) (requested : UInt16) :
    (rom.select requested).value.toNat = shownBank rom.bankCount.toNat requested.toNat := by
  rw [select, resolve?, if_neg counted, shownBank, ← UInt16.toNat_mod]
  by_cases zero : requested % rom.bankCount = 0
  · rw [if_pos zero, zero]
    rfl
  · have other : (requested % rom.bankCount).toNat ≠ 0 := fun h => zero (UInt16.toNat_inj.mp h)
    rw [if_neg zero]
    exact (Nat.max_eq_right (Nat.pos_of_ne_zero other)).symm

end BankedRom

/-- The registers name the bank that was put into them exactly if its number fits them. -/
theorem eq_shownBank_registers_iff {count bank : Nat} (pos : 1 ≤ bank) (lt : bank < count) :
    bank = shownBank count ((bank / 32 % 4) <<< 5 ||| max 1 (bank % 32)) ↔
      bank < 128 ∧ bank % 32 ≠ 0 := by
  have low : max 1 (bank % 32) < 2 ^ 5 := by omega
  rw [← Nat.shiftLeft_add_eq_or_of_lt low, Nat.shiftLeft_eq, shownBank]
  by_cases multiple : bank % 32 = 0
  · -- The low register holds one, so the named number is no multiple of 32, unless it wraps.
    have named : bank / 32 % 4 * 2 ^ 5 + max 1 (bank % 32) = bank % 128 + 1 := by omega
    rw [named]
    by_cases inside : bank % 128 + 1 < count
    · rw [Nat.mod_eq_of_lt inside]
      omega
    · have wraps : bank % 128 + 1 = count := by omega
      rw [wraps, Nat.mod_self]
      omega
  · have named : bank / 32 % 4 * 2 ^ 5 + max 1 (bank % 32) = bank % 128 := by omega
    rw [named, Nat.mod_eq_of_lt (by omega)]
    omega

/-! ### The registers -/

namespace BusCall

/-- What a call stores in the low register of a cartridge with some banks. -/
def low? (count : Nat) : BusCall → Option Nat
  | .write address value =>
    if 0x2000 ≤ address ∧ address ≤ 0x3FFF then some (max 1 (value.toNat % 32)) else none
  | .select requested => some (max 1 (shownBank count requested.toNat % 32))
  | _ => none

/-- What a call stores in the high register of a cartridge with some banks. -/
def high? (count : Nat) : BusCall → Option Nat
  | .write address value =>
    if 0x4000 ≤ address ∧ address ≤ 0x5FFF then some (value.toNat % 4) else none
  | .select requested => some (shownBank count requested.toNat / 32 % 4)
  | _ => none

end BusCall

/-- The value that some calls, the latest first, leave in the low register. -/
def lowRegister (count : Nat) (past : List BusCall) : Nat := latest (BusCall.low? count) 1 past

/-- The value that some calls, the latest first, leave in the high register. -/
def highRegister (count : Nat) (past : List BusCall) : Nat := latest (BusCall.high? count) 0 past

/-- The bank that some calls, the latest first, leave in the second window. -/
def mappedBank (count : Nat) (past : List BusCall) : Nat :=
  match past.find? BusCall.storesBank with
  | some (.select requested) => shownBank count requested.toNat
  | _ => shownBank count (highRegister count past <<< 5 ||| lowRegister count past)

/-- A call that does not store a bank number leaves both registers alone. -/
theorem stored_of_not_storesBank {last : BusCall} (h : last.storesBank = false) (count : Nat) :
    last.low? count = none ∧ last.high? count = none := by
  cases last with
  | write address value =>
    have outside : ¬(0x2000 ≤ address ∧ address ≤ 0x5FFF) := of_decide_eq_false h
    exact ⟨if_neg (by grind), if_neg (by grind)⟩
  | read | tick | request => exact ⟨rfl, rfl⟩
  | select => cases h

theorem lowRegister_cons (count : Nat) (last : BusCall) (past : List BusCall) :
    lowRegister count (last :: past) = (last.low? count).getD (lowRegister count past) :=
  latest_cons ..

theorem highRegister_cons (count : Nat) (last : BusCall) (past : List BusCall) :
    highRegister count (last :: past) = (last.high? count).getD (highRegister count past) :=
  latest_cons ..

theorem registers_of_not_storesBank {last : BusCall} (h : last.storesBank = false) (count : Nat)
    (past : List BusCall) :
    lowRegister count (last :: past) = lowRegister count past ∧
      highRegister count (last :: past) = highRegister count past := by
  obtain ⟨low, high⟩ := stored_of_not_storesBank h count
  rw [lowRegister_cons, highRegister_cons, low, high]
  exact ⟨rfl, rfl⟩

theorem mappedBank_nil (count : Nat) : mappedBank count [] = 1 := by
  have named : (0 <<< 5 ||| 1) % count ≤ 1 := Nat.mod_le 1 count
  exact Nat.max_eq_left named

/-- After a write to a register the bank is the one that the registers name. -/
theorem mappedBank_write {address : UInt16} (stores : 0x2000 ≤ address ∧ address ≤ 0x5FFF)
    (count : Nat) (value : UInt8) (past : List BusCall) :
    mappedBank count (.write address value :: past) =
      shownBank count (highRegister count (.write address value :: past) <<< 5 |||
        lowRegister count (.write address value :: past)) := by
  have found : (BusCall.write address value).storesBank = true := decide_eq_true stores
  rw [mappedBank, List.find?_cons_of_pos found]

theorem mappedBank_of_not_storesBank {last : BusCall} (h : last.storesBank = false) (count : Nat)
    (past : List BusCall) : mappedBank count (last :: past) = mappedBank count past := by
  obtain ⟨low, high⟩ := registers_of_not_storesBank h count past
  rw [mappedBank, mappedBank, List.find?_cons_of_neg (by rw [h]; exact Bool.false_ne_true), low,
    high]

/-- Both registers hold the bank that was selected, as far as it fits them, until one of them is
written to. -/
theorem registers_of_select {past : List BusCall} {requested : UInt16}
    (h : past.find? BusCall.storesBank = some (.select requested)) (count : Nat) :
    lowRegister count past = max 1 (shownBank count requested.toNat % 32) ∧
      highRegister count past = shownBank count requested.toNat / 32 % 4 := by
  induction past with
  | nil => cases h
  | cons last past ih =>
    cases stores : last.storesBank with
    | true =>
      rw [List.find?_cons_of_pos stores] at h
      cases h
      exact ⟨lowRegister_cons .., highRegister_cons ..⟩
    | false =>
      rw [List.find?_cons_of_neg (by rw [stores]; exact Bool.false_ne_true)] at h
      obtain ⟨low, high⟩ := registers_of_not_storesBank stores count past
      rw [low, high]
      exact ih h

/-- The bank is one that some number stands for. -/
theorem exists_mappedBank (count : Nat) (past : List BusCall) :
    ∃ requested, mappedBank count past = shownBank count requested := by
  unfold mappedBank
  split
  · exact ⟨_, rfl⟩
  · exact ⟨_, rfl⟩

/-! ### The cartridge -/

namespace Mbc1

theorem toNat_lowOf (value : UInt8) : (lowOf value).toNat = max 1 (value.toNat % 32) := by
  have bits : (value &&& 0x1F).toNat = value.toNat % 32 := toNat_and_mask value 5 rfl
  unfold lowOf
  rw [← bits]
  split
  case isTrue zero =>
    rw [zero]
    rfl
  case isFalse other =>
    have : (value &&& 0x1F).toNat ≠ 0 := fun h => other (UInt8.toNat_inj.mp h)
    omega

/-- The bank that is shown after the registers were applied. -/
theorem toNat_bank_apply {m : Mbc1} (counted : m.rom.bankCount ≠ 0) :
    m.apply.state.rom.bank.toNat =
      shownBank m.rom.bankCount.toNat (m.high.toNat <<< 5 ||| m.low.toNat) := by
  have small : m.high.toNat <<< 5 < 2 ^ 16 := by
    have := m.high.toNat_lt
    rw [Nat.shiftLeft_eq]
    omega
  show (m.rom.select _).state.bank.toNat = _
  rw [← BankedRom.value_select, BankedRom.toNat_value_select counted, UInt16.toNat_or,
    UInt16.toNat_shiftLeft, UInt8.toNat_toUInt16, UInt8.toNat_toUInt16]
  exact congrArg (fun high => shownBank _ (high ||| _)) (Nat.mod_eq_of_lt small)

/-- The registers of a cartridge, and the bank that it shows, as some calls leave them. -/
structure Banked (count : Nat) (past : List BusCall) (m : Mbc1) : Prop where
  banks : m.rom.bankCount.toNat = count
  low : m.low.toNat = lowRegister count past
  high : m.high.toNat = highRegister count past
  bank : m.rom.bank.toNat = mappedBank count past

variable {count : Nat} {past : List BusCall} {m after : Mbc1}

theorem banked_ofRom (image : ByteArray) (ramBanks : Nat) :
    Banked (BankedRom.ofImage image).bankCount.toNat [] (ofRom (.ofImage image) ramBanks) where
  banks := rfl
  low := rfl
  high := rfl
  bank := by
    rw [mappedBank_nil]
    rfl

theorem Banked.counted (h : Banked count past m) (two : 2 ≤ count) : m.rom.bankCount ≠ 0 :=
  BankedRom.counted_of_two (h.banks ▸ two)

/-- What changes neither register nor the bank keeps the invariant. -/
theorem Banked.skip (h : Banked count past m) {last : BusCall}
    (skipped : last.storesBank = false) (rom : after.rom = m.rom) (low : after.low = m.low)
    (high : after.high = m.high) : Banked count (last :: past) after where
  banks := by rw [rom, h.banks]
  low := by rw [low, h.low, (registers_of_not_storesBank skipped count past).1]
  high := by rw [high, h.high, (registers_of_not_storesBank skipped count past).2]
  bank := by rw [rom, h.bank, mappedBank_of_not_storesBank skipped]

/-- A selection among some banks keeps the invariant. -/
theorem Banked.select (h : Banked count past m) (counted : m.rom.bankCount ≠ 0)
    (requested : UInt16) :
    Banked count (.select requested :: past) (m.call (.select requested)) := by
  have found := BankedRom.toNat_value_select counted requested
  have shown := m.rom.value_select requested
  have banks := m.rom.bankCount_select requested
  rw [h.banks] at found
  have bits : (lowByte ((m.rom.select requested).value >>> 5)).toNat =
      shownBank count requested.toNat / 32 % 256 := by
    rw [toNat_lowByte, UInt16.toNat_shiftRight, found]
    exact congrArg (· % 256) (Nat.shiftRight_eq_div_pow _ 5)
  refine ⟨?_, ?_, ?_, ?_⟩
  · show (m.rom.select requested).state.bankCount.toNat = count
    rw [banks, h.banks]
  · show (lowOf (lowByte (m.rom.select requested).value)).toNat =
      max 1 (shownBank count requested.toNat % 32)
    rw [toNat_lowOf, toNat_lowByte, found]
    omega
  · have high : (lowByte ((m.rom.select requested).value >>> 5) &&& 0x03).toNat =
        (lowByte ((m.rom.select requested).value >>> 5)).toNat % 4 := toNat_and_mask _ 2 rfl
    rw [bits] at high
    refine high.trans ?_
    show _ = shownBank count requested.toNat / 32 % 4
    omega
  · show (m.rom.select requested).state.bank.toNat = shownBank count requested.toNat
    rw [← shown, found]

/-- Applying registers that hold what a write has left in them. -/
theorem Banked.apply {address : UInt16} {value : UInt8}
    (stores : 0x2000 ≤ address ∧ address ≤ 0x5FFF) (counted : m.rom.bankCount ≠ 0)
    (banks : m.rom.bankCount.toNat = count)
    (low : m.low.toNat = lowRegister count (.write address value :: past))
    (high : m.high.toNat = highRegister count (.write address value :: past)) :
    Banked count (.write address value :: past) m.apply.state where
  banks := (congrArg UInt16.toNat (m.rom.bankCount_select _)).trans banks
  low := low
  high := high
  bank := by rw [toNat_bank_apply counted, banks, low, high, mappedBank_write stores]

/-- Every command that does not fault keeps the invariant. -/
theorem Banked.command (h : Banked count past m) {address : UInt16} (area : address ≤ 0x7FFF)
    (value : UInt8)
    (counted : (BusCall.write address value).storesBank = true → m.rom.bankCount ≠ 0) :
    Banked count (.write address value :: past) (m.command address value).state := by
  rw [command_eq m area]
  by_cases first : address ≤ 0x1FFF
  · rw [if_pos first]
    exact h.skip (decide_eq_false (by grind)) rfl rfl rfl
  rw [if_neg first]
  by_cases second : address ≤ 0x3FFF
  · have stores : 0x2000 ≤ address ∧ address ≤ 0x5FFF := by grind
    rw [if_pos second]
    refine .apply stores (counted (decide_eq_true stores)) h.banks ?_ ?_
    · rw [lowRegister_cons, BusCall.low?, if_pos ⟨by grind, second⟩]
      exact toNat_lowOf value
    · rw [highRegister_cons, BusCall.high?, if_neg (by grind)]
      exact h.high
  rw [if_neg second]
  by_cases third : address ≤ 0x5FFF
  · have stores : 0x2000 ≤ address ∧ address ≤ 0x5FFF := ⟨by grind, third⟩
    rw [if_pos third]
    refine .apply stores (counted (decide_eq_true stores)) h.banks ?_ ?_
    · rw [lowRegister_cons, BusCall.low?, if_neg (by grind)]
      exact h.low
    · rw [highRegister_cons, BusCall.high?, if_pos ⟨by grind, third⟩]
      exact toNat_and_mask value 2 rfl
  rw [if_neg third]
  exact h.skip (decide_eq_false (by grind)) rfl rfl rfl

/-- Every call that does not fault keeps the invariant. -/
theorem Banked.call (h : Banked count past m) (last : BusCall)
    (counted : last.storesBank = true → m.rom.bankCount ≠ 0) :
    Banked count (last :: past) (m.call last) := by
  cases last with
  | read | tick | request => exact h.skip rfl rfl rfl rfl
  | select requested => exact h.select (counted rfl) requested
  | write address value =>
    rw [call_write]
    by_cases area : address ≤ 0x7FFF
    · rw [if_pos area]
      exact h.command area value counted
    rw [if_neg area]
    have skipped : (BusCall.write address value).storesBank = false :=
      decide_eq_false (by grind)
    split
    · rw [writeRam_eq]
      exact h.skip skipped rfl rfl rfl
    · exact h.skip skipped rfl rfl rfl

/-- The registers and the bank of a new cartridge after any calls that do not fault. -/
theorem banked_calls {image : ByteArray} (ramBanks : Nat) (past : List BusCall)
    (counted : past.any BusCall.storesBank = true → (BankedRom.ofImage image).bankCount ≠ 0) :
    Banked (BankedRom.ofImage image).bankCount.toNat past
      ((ofRom (.ofImage image) ramBanks).calls past) := by
  induction past with
  | nil => exact banked_ofRom image ramBanks
  | cons last past ih =>
    rw [List.any_cons, Bool.or_eq_true] at counted
    refine (ih fun earlier => counted (.inr earlier)).call last fun stores => ?_
    rw [bankCount_calls]
    exact counted (.inl stores)

end Mbc1

/-! ### The bus -/

/-- The number of banks of an image is exact below 65536 banks. -/
theorem BankedRom.toNat_bankCount {image : ByteArray} (fits : image.size ≤ 65535 * 0x4000) :
    (ofImage image).bankCount.toNat = max 2 ((image.size + 0x3FFF) / 0x4000) := by
  refine UInt16.toNat_ofNat_of_lt' ?_
  show max 2 ((image.size + 0x3FFF) / 0x4000) < 65536
  omega

namespace SystemBus

variable {δ : Type} [Device δ]

/-- What the second window of the ROM area shows after some calls of a bus with an MBC1 cartridge,
told by the calls and the number of banks. -/
structure Mapped (count : Nat) (past : List BusCall) (bus : SystemBus δ) : Prop where
  intact : bus.faulted = false
  banks : bus.bankCount.toNat = count
  first : 1 ≤ bus.bank.toNat
  last : bus.bank.toNat < count
  /-- No selection came after the latest write to a register: the registers name the bank. -/
  written : (∀ requested, past.find? BusCall.storesBank ≠ some (.select requested)) →
    bus.bank.toNat = shownBank count (highRegister count past <<< 5 ||| lowRegister count past)
  /-- No write to a register came after the latest selection. -/
  selected : ∀ requested, past.find? BusCall.storesBank = some (.select requested) →
    bus.bank.toNat = shownBank count requested.toNat ∧
    (bus.bank.toNat = shownBank count (highRegister count past <<< 5 ||| lowRegister count past) ↔
      bus.bank.toNat < 128 ∧ bus.bank.toNat % 32 ≠ 0)
  /-- A selection answers with the bank that it shows. -/
  answer : ∀ requested, (bus.selectBank requested).value = (bus.call (.select requested)).bank ∧
    (bus.selectBank requested).value.toNat = shownBank count requested.toNat
  /-- A write elsewhere leaves the bank alone. -/
  elsewhere : ∀ address value, ¬(0x2000 ≤ address ∧ address ≤ 0x5FFF) →
    (bus.call (.write address value)).bank = bus.bank

omit [Device δ] in
theorem value_selectBank {bus : SystemBus δ} {m : Mbc1} (cartridge : bus.cartridge = .mbc1 m)
    (requested : UInt16) :
    (bus.selectBank requested).value = (m.rom.select requested).value := by
  rw [selectBank, onCartridge, cartridge]
  rfl

/-- What a bus shows whose cartridge keeps the invariant. -/
theorem mapped_of_banked {count : Nat} {past : List BusCall} {bus : SystemBus δ} {m : Mbc1}
    (cartridge : bus.cartridge = .mbc1 m) (h : m.Banked count past) (two : 2 ≤ count)
    (intact : bus.faulted = false) : bus.Mapped count past := by
  have bank : bus.bank.toNat = mappedBank count past := by
    rw [SystemBus.bank, cartridge]
    exact h.bank
  have range : 1 ≤ bus.bank.toNat ∧ bus.bank.toNat < count := by
    obtain ⟨requested, shown⟩ := exists_mappedBank count past
    rw [bank, shown]
    exact ⟨one_le_shownBank count requested, shownBank_lt two requested⟩
  have called (last : BusCall) : (bus.call last).bank = (m.call last).rom.bank := by
    rw [SystemBus.bank, cartridge_call, cartridge, Cartridge.call_mbc1]
    rfl
  have counted : m.rom.bankCount ≠ 0 := h.counted two
  refine ⟨intact, ?_, range.1, range.2, fun unselected => ?_, fun requested found => ?_,
    fun requested => ?_, fun address value outside => ?_⟩
  · rw [bankCount, cartridge]
    exact h.banks
  · rw [bank, mappedBank]
    split
    case h_1 found => exact absurd found (unselected _)
    case h_2 => rfl
  · have shown : bus.bank.toNat = shownBank count requested.toNat := by
      rw [bank, mappedBank, found]
    obtain ⟨low, high⟩ := registers_of_select found count
    rw [low, high, ← shown]
    exact ⟨rfl, eq_shownBank_registers_iff range.1 range.2⟩
  · have shown := value_selectBank cartridge requested
    rw [called, shown]
    exact ⟨m.rom.value_select requested, by rw [BankedRom.toNat_value_select counted, h.banks]⟩
  · have skipped : (BusCall.write address value).storesBank = false := decide_eq_false outside
    rw [← UInt16.toNat_inj, called, (h.call _ fun _ => counted).bank,
      mappedBank_of_not_storesBank skipped, bank]

/-- **The selected bank**: after any calls, a new bus with an MBC1 cartridge shows the bank that its
registers name if one of them was written to last, and else the bank that was selected last. -/
theorem mapped_calls (image : ByteArray) (ramBanks : Nat) (past : List BusCall)
    (fits : image.size ≤ 65535 * 0x4000) :
    ((ofImage image .mbc1 ramBanks : SystemBus δ).calls past).Mapped
      (max 2 ((image.size + 0x3FFF) / 0x4000)) past := by
  have start : (ofImage image .mbc1 ramBanks : SystemBus δ).cartridge =
      .mbc1 (.ofRom (.ofImage image) ramBanks) := rfl
  have banked := Mbc1.banked_calls ramBanks past fun _ => bankCount_ofImage_ne_zero fits
  rw [BankedRom.toNat_bankCount fits] at banked
  exact mapped_of_banked (cartridge_calls start past) banked (Nat.le_max_left ..)
    (intact_calls_ofImage fits .mbc1 ramBanks past)

/-- An image of 67 banks: bank 64 is selected, which leaves one in the low register, and then one is
put into the high register. -/
theorem mapped_calls_registers :
    (⟨Array.replicate (67 * 0x4000) 0⟩ : ByteArray).size ≤ 65535 * 0x4000 ∧
      ((ofImage ⟨Array.replicate (67 * 0x4000) 0⟩ .mbc1 0 : SystemBus Empty).calls
        [.write 0x4000 1, .select 64]).bank.toNat = 33 := by
  have size : (⟨Array.replicate (67 * 0x4000) 0⟩ : ByteArray).size = 67 * 0x4000 :=
    Array.size_replicate
  have fits : (⟨Array.replicate (67 * 0x4000) 0⟩ : ByteArray).size ≤ 65535 * 0x4000 := by
    rw [size]
    decide
  have mapped : Mapped _ _ ((ofImage ⟨Array.replicate (67 * 0x4000) 0⟩ .mbc1 0 :
      SystemBus Empty).calls [.write 0x4000 1, .select 64]) := mapped_calls _ 0 _ fits
  rw [size] at mapped
  refine ⟨fits, ?_⟩
  rw [mapped.written fun requested found => by cases found]
  decide

end SystemBus

end Sm83
