import Sm83.Proofs.RomMapping

/-! # The number of banks

Bank numbers are words, but an image may be of any size.

* **The window.** A call leaves the image and the bank alone, or selects a bank among some
  (`Cartridge.visited_call`), so among two banks or more the window shows one between the first and
  the last (`InWindow.visited`).
* **Safety.** `bus.SafeBanks size` says that the count is exact, that no call faults, and that the
  bank that is shown is among those that are counted.
* **Main statement.** `countsBanks_calls`: whatever is called, the banks of a new bus are safe
  exactly if there are at most 65535 of them.  A full turn of 65536 banks counts as none, and the
  first selection faults. -/

namespace Sm83

/-! ### The window -/

namespace BankedRom

/-- What a call does to a ROM: nothing, or it selects a bank. -/
inductive Visited (rom : BankedRom) : BankedRom → Prop
  | kept : Visited rom rom
  | selected (requested : UInt16) : Visited rom (rom.select requested).state

/-- Whether the window shows a bank that exists, and not the first. -/
def InWindow (rom : BankedRom) : Prop := 1 ≤ rom.bank.toNat ∧ rom.bank.toNat < rom.bankCount.toNat

theorem inWindow_ofImage {image : ByteArray} (two : 2 ≤ (ofImage image).bankCount.toNat) :
    (ofImage image).InWindow :=
  ⟨Nat.le_refl 1, two⟩

/-- A selection ends inside, wherever it began. -/
theorem inWindow_select {rom : BankedRom} (two : 2 ≤ rom.bankCount.toNat) (requested : UInt16) :
    (rom.select requested).state.InWindow := by
  have shown := toNat_value_select (counted_of_two two) requested
  rw [value_select] at shown
  rw [InWindow, bankCount_select, shown]
  exact ⟨one_le_shownBank _ _, shownBank_lt two _⟩

theorem InWindow.visited {rom after : BankedRom} (h : rom.InWindow)
    (two : 2 ≤ rom.bankCount.toNat) (visited : rom.Visited after) : after.InWindow := by
  cases visited with
  | kept => exact h
  | selected requested => exact inWindow_select two requested

/-- Where a single bank is counted, the window shows the one past it. -/
theorem bank_visited_of_one {rom after : BankedRom} (one : rom.bankCount = 1) (shown : rom.bank = 1)
    (visited : rom.Visited after) : after.bank = 1 := by
  cases visited with
  | kept => exact shown
  | selected requested =>
    have counted : rom.bankCount ≠ 0 := by
      rw [one]
      decide
    have selected := toNat_value_select counted requested
    rw [value_select, one] at selected
    rw [← UInt16.toNat_inj, selected, shownBank]
    show max 1 (requested.toNat % 1) = 1
    rw [Nat.mod_one]
    rfl

end BankedRom

theorem Mbc1.visited_call (m : Mbc1) (last : BusCall) : m.rom.Visited (m.call last).rom := by
  cases last with
  | read | tick | request => exact .kept
  | select requested => exact .selected requested
  | write address value =>
    rw [call_write]
    split
    case isTrue area =>
      rw [command_eq m area]
      split
      · exact .kept
      split
      · exact .selected _
      split
      · exact .selected _
      · exact .kept
    case isFalse =>
      split
      · rw [writeRam_eq]
        exact .kept
      · exact .kept

/-- **Calls** leave the ROM alone or select a bank. -/
theorem Cartridge.visited_call (cartridge : Cartridge) (last : BusCall) :
    cartridge.rom.Visited (cartridge.call last).rom := by
  cases cartridge with
  | mbc1 m =>
    rw [call_mbc1]
    exact m.visited_call last
  | romOnly rom =>
    cases last with
    | read | tick | request => exact .kept
    | select requested => exact .selected requested
    | write address value =>
      rw [call_romOnly_write]
      exact .kept

/-! ### The bus -/

namespace SystemBus

variable {δ : Type} [Device δ] {image : ByteArray} {mapper : Mapper} {ramBanks : Nat}

theorem bankCount_calls (past : List BusCall) :
    ((ofImage image mapper ramBanks : SystemBus δ).calls past).bankCount =
      (BankedRom.ofImage image).bankCount := by
  rw [(selects_calls _ past).2, bankCount, rom_ofImage]

/-- What no call ends holds of the ROM of a new bus after any calls. -/
theorem rom_calls {P : BankedRom → Prop} (start : P (.ofImage image))
    (keeps : ∀ rom after, rom.bankCount = (BankedRom.ofImage image).bankCount → P rom →
      rom.Visited after → P after) (past : List BusCall) :
    P ((ofImage image mapper ramBanks : SystemBus δ).calls past).cartridge.rom := by
  induction past with
  | nil =>
    rw [calls, rom_ofImage]
    exact start
  | cons last past ih =>
    rw [calls, cartridge_call]
    exact keeps _ _ (bankCount_calls past) ih (Cartridge.visited_call _ last)

/-- The window of a new bus after any calls, if two banks are counted. -/
theorem inWindow_calls (two : 2 ≤ (BankedRom.ofImage image).bankCount.toNat)
    (past : List BusCall) :
    ((ofImage image mapper ramBanks : SystemBus δ).calls past).cartridge.rom.InWindow :=
  rom_calls (BankedRom.inWindow_ofImage two)
    (fun _ _ count window visited => window.visited (count ▸ two) visited) past

/-- The window of a new bus after any calls, if a single bank is counted. -/
theorem bank_calls_of_one (one : (BankedRom.ofImage image).bankCount = 1) (past : List BusCall) :
    ((ofImage image mapper ramBanks : SystemBus δ).calls past).bank = 1 :=
  rom_calls (P := fun rom => rom.bank = 1) rfl
    (fun _ _ count shown visited => BankedRom.bank_visited_of_one (count.trans one) shown visited)
    past

/-- Whether the number of banks is exact, nothing has divided by zero and nothing can, and the bank
that is shown is one of those counted but not the first. -/
structure SafeBanks (size : Nat) (bus : SystemBus δ) : Prop where
  count : bus.bankCount.toNat = wholeBanks size
  intact : bus.faulted = false
  divides : ∀ last, (bus.call last).faulted = false
  first : 1 ≤ bus.bank.toNat
  last : bus.bank.toNat ≤ bus.bankCount.toNat - 1

/-- How the banks of an image of any size are counted, and what comes of that in some calls. -/
structure CountsBanks (size : Nat) (mapper : Mapper) (past : List BusCall) (bus : SystemBus δ) :
    Prop where
  count : bus.bankCount.toNat = wholeBanks size % 0x10000
  /-- A selection divides by the count, and whole turns of the count leave nothing to divide by. -/
  faulted : bus.faulted = true ↔
    wholeBanks size % 0x10000 = 0 ∧ past.any (BusCall.selects mapper) = true
  range : 2 ≤ bus.bankCount.toNat → 1 ≤ bus.bank.toNat ∧ bus.bank.toNat ≤ bus.bankCount.toNat - 1
  single : bus.bankCount.toNat = 1 → bus.bank = 1
  safe : bus.SafeBanks size ↔ size ≤ 65535 * 0x4000

/-- **The number of banks** is that of the image, modulo 65536, so the arithmetic of banks is safe
for images of fewer than 65536 banks, and for no others. -/
theorem countsBanks_calls (image : ByteArray) (mapper : Mapper) (ramBanks : Nat)
    (past : List BusCall) :
    ((ofImage image mapper ramBanks : SystemBus δ).calls past).CountsBanks image.size mapper
      past := by
  have banks : ((ofImage image mapper ramBanks : SystemBus δ).calls past).bankCount =
      (BankedRom.ofImage image).bankCount := bankCount_calls past
  have count : ((ofImage image mapper ramBanks : SystemBus δ).calls past).bankCount.toNat =
      wholeBanks image.size % 0x10000 := by
    rw [banks, toNat_bankCount_ofImage]
  have window
      (two : 2 ≤ ((ofImage image mapper ramBanks : SystemBus δ).calls past).bankCount.toNat) :
      ((ofImage image mapper ramBanks : SystemBus δ).calls past).cartridge.rom.InWindow :=
    inWindow_calls (banks ▸ two) past
  refine ⟨count, faulted_calls_ofImage image mapper ramBanks past, fun two => ?_, fun one => ?_,
    fun safe => ?_, fun fits => ?_⟩
  · exact ⟨(window two).1, Nat.le_sub_one_of_lt (window two).2⟩
  · rw [banks] at one
    exact bank_calls_of_one (UInt16.toNat_inj.mp one) past
  · exact (wholeBanks_mod_iff image.size).mp (count.symm.trans safe.count)
  · have whole := count.trans ((wholeBanks_mod_iff image.size).mpr fits)
    obtain ⟨first, last⟩ := window (whole ▸ Nat.le_max_left ..)
    exact ⟨whole, intact_calls_ofImage fits mapper ramBanks past,
      fun last => intact_calls_ofImage fits mapper ramBanks (last :: past), first,
      Nat.le_sub_one_of_lt last⟩

/-- An image of one byte more than 65536 banks counts as a single bank, but the window shows the
bank after it.  An image of 65536 banks counts as none, and the first write to a bank register
divides by zero. -/
theorem not_safeBanks_turn :
    (let image : ByteArray := ⟨Array.replicate (65536 * 0x4000 + 1) 0⟩
     let bus : SystemBus Empty := (ofImage image .mbc1 0).calls [.select 5]
     wholeBanks image.size = 65537 ∧ bus.bankCount = 1 ∧ bus.bank = 1 ∧
      ¬ bus.SafeBanks image.size) ∧
    let image : ByteArray := ⟨Array.replicate (65536 * 0x4000) 0⟩
    ((ofImage image .mbc1 0 : SystemBus Empty).calls [.write 0x2000 1]).faulted = true := by
  have size (n : Nat) : (⟨Array.replicate n 0⟩ : ByteArray).size = n := Array.size_replicate
  refine ⟨?_, ?_⟩
  · have size := size (65536 * 0x4000 + 1)
    generalize (⟨Array.replicate (65536 * 0x4000 + 1) 0⟩ : ByteArray) = image at size
    intro image bus
    have whole : wholeBanks image.size = 65537 := by rw [size]; rfl
    have one : (BankedRom.ofImage image).bankCount = 1 := by
      rw [← UInt16.toNat_inj, toNat_bankCount_ofImage, whole]
      rfl
    have count : bus.bankCount = 1 := (bankCount_calls [.select 5]).trans one
    refine ⟨whole, count, bank_calls_of_one one [.select 5], fun safe => ?_⟩
    have counted := safe.count
    rw [count, whole] at counted
    cases counted
  · have size := size (65536 * 0x4000)
    generalize (⟨Array.replicate (65536 * 0x4000) 0⟩ : ByteArray) = image at size
    intro image
    rw [faulted_calls_ofImage, size]
    exact ⟨rfl, rfl⟩

end SystemBus

end Sm83
