import Sm83.Proofs.BusStore

/-! # Flat memory in place of the bus

A program that keeps away from what makes the system bus special cannot tell it from flat memory.

* **Confinement.** `access.Confined` allows reads everywhere but in the echo of the work RAM and in
  the register of requests, and writes where the bus keeps bytes.  It is asked of the `traffic` of a
  slot, which leaves out what the core does with the interrupt registers on its own.
* **Mirroring.** `bus.Mirrors flat` says that both hold the same bytes; of the register of requests
  only the low five bits are compared, since the bus keeps no others.  Confined accesses find the
  same answers and keep it (`Mirrors.parallels`), and so does an acknowledgement
  (`Mirrors.acknowledge`).
* **Slots.** A course that flat memory leads along can be taken on the bus, with the bits that the
  bus shows in its polls (`Mirrors.course`).
* **Main statement.** `follows_flatten`: as long as the traffic is confined, a computer with a
  system bus tells the same and has the same core after each step as the one whose memory is
  flat. -/

namespace Sm83

/-! ### Confinement -/

/-- Whether an access keeps to where a system bus is plain memory. -/
def Access.Confined : Access → Prop
  | read address _ => ¬(0xE000 ≤ address ∧ address ≤ 0xFDFF) ∧ address ≠ 0xFF0F
  | write address _ =>
    (0x8000 ≤ address ∧ address ≤ 0x9FFF) ∨ (0xC000 ≤ address ∧ address ≤ 0xDFFF) ∨
      (0xFE00 ≤ address ∧ address ≤ 0xFE9F) ∨ 0xFF00 ≤ address
  | tick _ => True

instance : DecidablePred Access.Confined := fun access =>
  match access with
  | .read _ _ => inferInstanceAs (Decidable (_ ∧ _))
  | .write _ _ => inferInstanceAs (Decidable (_ ∨ _))
  | .tick _ => isTrue trivial

/-- The accesses of a slot without the polls that it begins with and without the acknowledgement of
an interrupt: fetches, the accesses of instructions, and pushes. -/
def trafficOf (cpu : Cpu) (outcome : Except StepError Slot) (accesses : List Access) :
    List Access :=
  let unpolled := accesses.drop (if cpu.stopped then 4 else 2)
  match outcome with
  | .ok (.interrupt _) => unpolled.take 2
  | _ => unpolled

/-- The traffic of the next slot. -/
def Computer.traffic {β : Type} [Device β] (s : Computer β) : List Access :=
  trafficOf s.cpu (s.slot 0).1 s.accesses

section traffic
variable {cpu : Cpu} {thaw : List Access} {reports : List LogEvent}

/-- The polls are all that comes before the traffic. -/
theorem Thaw.drop_append (thawed : Thaw cpu thaw reports) (enabled requested : UInt8)
    (rest : List Access) :
    (thaw ++ pollAccesses enabled requested ++ rest).drop (if cpu.stopped then 4 else 2) =
      rest := by
  cases thawed with
  | running stopped =>
    rw [stopped]
    rfl
  | left stopped =>
    rw [stopped]
    rfl

theorem Thaw.trafficOf_eq (thawed : Thaw cpu thaw reports) {outcome : Except StepError Slot}
    (plain : ∀ source, outcome ≠ .ok (.interrupt source)) (enabled requested : UInt8)
    (rest : List Access) :
    trafficOf cpu outcome (thaw ++ pollAccesses enabled requested ++ rest) = rest := by
  unfold trafficOf
  rw [thawed.drop_append]
  split
  case h_1 source => exact absurd rfl (plain source)
  case h_2 => rfl

theorem Thaw.trafficOf_interrupt (thawed : Thaw cpu thaw reports) (source : Interrupt)
    (enabled requested : UInt8) (rest : List Access) :
    trafficOf cpu (.ok (.interrupt source)) (thaw ++ pollAccesses enabled requested ++ rest) =
      rest.take 2 := by
  rw [trafficOf, thawed.drop_append]

end traffic

namespace SystemBus

variable {δ : Type} [Device δ] {bus : SystemBus δ} {flat : FlatMemory}

/-! ### Mirroring -/

/-- Whether a bus with plain memory holds the same bytes as a flat memory, as far as they can be
compared. -/
structure Mirrors (bus : SystemBus δ) (flat : FlatMemory) : Prop where
  backed : bus.Backed
  bytes : ∀ address, ¬(0xE000 ≤ address ∧ address ≤ 0xFDFF) → address ≠ 0xFF0F →
    bus.peek address = flat.get address
  requests : bus.peek 0xFF0F &&& 0x1F = flat.get 0xFF0F &&& 0x1F

/-- The flat memory that is filled from a bus. -/
def flatten (bus : SystemBus δ) : FlatMemory := .ofFn bus.peek

theorem mirrors_flatten (backed : bus.Backed) : bus.Mirrors bus.flatten where
  backed := backed
  bytes address _ _ := (FlatMemory.get_ofFn _ address).symm
  requests := by rw [flatten, FlatMemory.get_ofFn]

theorem cartridge_write_of_confined {address : UInt16} {value : UInt8}
    (confined : (Access.write address value).Confined) (bus : SystemBus δ) :
    (Device.write address value bus).state.cartridge = bus.cartridge := by
  rw [state_write]
  cases found : route address with
  | rom | cartridgeRam =>
    have owner := owns_route address
    rw [found] at owner
    cases owner
    grind [Access.Confined]
  | region | unused | interruptRequest | interruptEnable => rfl

/-- A confined write is seen at its own address and only there, if the echo and the register of
requests are left out. -/
theorem Backed.peek_write_of_confined (h : bus.Backed) {address other : UInt16} {value : UInt8}
    (confined : (Access.write address value).Confined)
    (echo : ¬(0xE000 ≤ other ∧ other ≤ 0xFDFF)) (apart : other ≠ 0xFF0F) :
    (Device.write address value bus).state.peek other =
      if address = other then value else bus.peek other := by
  by_cases kept : Kept other
  · rw [h.peek_write address value kept, cell_of_not_echo echo,
      cell_of_not_echo (by grind [Access.Confined])]
  have elsewhere : address ≠ other := by grind [Access.Confined, Kept]
  rw [if_neg elsewhere]
  have cartridge := cartridge_write_of_confined confined bus
  have owner := owns_route other
  cases found : route other <;> rw [found] at owner <;> cases owner
  case rom => rw [peek_of_rom found, peek_of_rom found, cartridge]
  case cartridgeRam => rw [peek_of_cartridgeRam found, peek_of_cartridgeRam found, cartridge]
  case region plain inside => exact absurd (kept_of_contains inside plain) kept
  case unused => rw [peek_of_unused found, peek_of_unused found]
  case interruptRequest here => exact absurd here apart
  case interruptEnable here =>
    subst here
    exact absurd (by decide) kept

theorem Mirrors.write_of_ne (h : bus.Mirrors flat) {address : UInt16} {value : UInt8}
    (confined : (Access.write address value).Confined) (ne : address ≠ 0xFF0F) :
    (Device.write address value bus).state.Mirrors (flat.set address value) where
  backed := h.backed.write address value
  bytes other echo apart := by
    rw [FlatMemory.get_set, ← h.bytes other echo apart]
    exact h.backed.peek_write_of_confined confined echo apart
  requests := by
    have untouched : (Device.write address value bus).state.requested = bus.requested := by
      rw [requested_write, if_neg fun here => ne (route_eq_interruptRequest_iff.mp here)]
    rw [FlatMemory.get_set, if_neg ne, ← h.requests]
    show requestRegister _ &&& _ = requestRegister _ &&& _
    rw [requestRegister, requestRegister, untouched]

/-- What the register of requests shows of a byte that was written to it. -/
theorem shown_requests (value : UInt8) :
    (value &&& Interrupt.maskAll ||| unusedRequestBits) &&& 0x1F = value &&& 0x1F := by
  revert value
  apply forall_byte
  decide +kernel

/-- Only the low five bits of what is written to the register of requests matter. -/
theorem Mirrors.write_requestAddress (h : bus.Mirrors flat) {value value' : UInt8}
    (same : value &&& 0x1F = value' &&& 0x1F) :
    (Device.write 0xFF0F value bus).state.Mirrors (flat.set 0xFF0F value') where
  backed := h.backed.write 0xFF0F value
  bytes other echo apart := by
    rw [FlatMemory.get_set, if_neg apart.symm, ← h.bytes other echo apart,
      h.backed.peek_write_of_confined (by grind [Access.Confined]) echo apart, if_neg apart.symm]
  requests := by
    rw [FlatMemory.get_set, if_pos rfl, ← same]
    exact shown_requests value

theorem Mirrors.write (h : bus.Mirrors flat) {address : UInt16} {value : UInt8}
    (confined : (Access.write address value).Confined) :
    (Device.write address value bus).state.Mirrors (flat.set address value) := by
  by_cases here : address = 0xFF0F
  · subst here
    exact h.write_requestAddress rfl
  · exact h.write_of_ne confined here

/-- A confined access finds the same answer, and leaves the same bytes. -/
theorem Mirrors.operation (h : bus.Mirrors flat) {access : Access}
    (answered : access.AnsweredBy flat) (confined : access.Confined) :
    access.AnsweredBy bus ∧ (access.operation bus).state.Mirrors (access.operation flat).state := by
  cases access with
  | read address value =>
    refine ⟨(h.bytes address confined.1 confined.2).trans answered, ?_⟩
    show (Device.read address bus).state.Mirrors flat
    rw [h.backed.read]
    exact h
  | write address value => exact ⟨trivial, h.write confined⟩
  | tick cycles =>
    refine ⟨trivial, ?_⟩
    show (Device.tick cycles bus).state.Mirrors flat
    rw [h.backed.tick]
    exact h

/-- Whether a bus gives the answers in some accesses and mirrors the flat memory after both have
been accessed, each in its own way. -/
def Parallels (bus : SystemBus δ) (flat : FlatMemory) (onBus onFlat : List Access) : Prop :=
  Answers bus onBus ∧ (replay onBus bus).state.Mirrors (replay onFlat flat).state

/-- The same confined accesses, made one after the other. -/
theorem Mirrors.parallels (h : bus.Mirrors flat) {accesses : List Access}
    (answers : Answers flat accesses) (confined : ∀ access ∈ accesses, access.Confined) :
    bus.Parallels flat accesses accesses := by
  induction accesses generalizing bus flat with
  | nil => exact ⟨trivial, h⟩
  | cons access rest ih =>
    obtain ⟨first, others⟩ := List.forall_mem_cons.mp confined
    obtain ⟨answered, left⟩ := h.operation answers.1 first
    obtain ⟨found, last⟩ := ih left answers.2 others
    exact ⟨⟨answered, found⟩, last⟩

theorem Parallels.append {onBus onFlat more moreFlat : List Access}
    (h : bus.Parallels flat onBus onFlat)
    (h' : (replay onBus bus).state.Parallels (replay onFlat flat).state more moreFlat) :
    bus.Parallels flat (onBus ++ more) (onFlat ++ moreFlat) := by
  rw [Parallels, answers_append, state_replay_append, state_replay_append]
  exact ⟨⟨h.1, h'.1⟩, h'.2⟩

/-! ### The interrupt registers -/

theorem pendingOf_congr (enabled : UInt8) {requested requested' : UInt8}
    (same : requested &&& 0x1F = requested' &&& 0x1F) :
    pendingOf enabled requested = pendingOf enabled requested' := by
  rw [pendingOf, pendingOf, UInt8.and_assoc, UInt8.and_assoc]
  exact congrArg (enabled &&& ·) same

/-- An acknowledgement finds other bits above the low five, and leaves the same low five. -/
theorem Mirrors.acknowledge (h : bus.Mirrors flat) {requested : UInt8}
    (given : flat.get Interrupt.requestAddress = requested) (source : Interrupt) (cycles : Nat) :
    bus.Parallels flat
      [.read Interrupt.requestAddress (bus.peek Interrupt.requestAddress),
        .write Interrupt.requestAddress
          (bus.peek Interrupt.requestAddress &&& ~~~source.mask), .tick cycles]
      [.read Interrupt.requestAddress requested,
        .write Interrupt.requestAddress (requested &&& ~~~source.mask), .tick cycles] := by
  subst given
  have same : bus.peek 0xFF0F &&& ~~~source.mask &&& 0x1F =
      flat.get 0xFF0F &&& ~~~source.mask &&& 0x1F := by
    rw [UInt8.and_assoc, UInt8.and_comm _ 0x1F, ← UInt8.and_assoc, h.requests, UInt8.and_assoc,
      UInt8.and_comm 0x1F, ← UInt8.and_assoc]
  have written := h.write_requestAddress same
  refine ⟨⟨rfl, trivial, trivial, trivial⟩, ?_⟩
  show (Device.tick cycles (Device.write Interrupt.requestAddress _
    (Device.read Interrupt.requestAddress bus).state).state).state.Mirrors _
  rw [h.backed.read]
  exact (written.backed.tick cycles).symm ▸ written

/-- An entry can be made on the bus as well, if its pushes are confined. -/
theorem Mirrors.entry (h : bus.Mirrors flat) {source : Interrupt} {regs : Registers}
    {acknowledged : UInt8} {cycles : Nat}
    (answers : Answers flat (entryAccesses source regs acknowledged ++ [.tick cycles]))
    (confined : ∀ access ∈ (entryAccesses source regs acknowledged).take 2, access.Confined) :
    ∃ acknowledged', bus.Parallels flat
      (entryAccesses source regs acknowledged' ++ [.tick cycles])
      (entryAccesses source regs acknowledged ++ [.tick cycles]) := by
  -- The pushes come first, and do not depend on what the acknowledgement finds.
  have parts (byte : UInt8) : entryAccesses source regs byte ++ [.tick cycles] =
      (entryAccesses source regs acknowledged).take 2 ++
        [.read Interrupt.requestAddress byte,
          .write Interrupt.requestAddress (byte &&& ~~~source.mask), .tick cycles] := rfl
  rw [parts acknowledged, answers_append] at answers
  have pushed := h.parallels answers.1 confined
  refine ⟨(replay ((entryAccesses source regs acknowledged).take 2) bus).state.peek
    Interrupt.requestAddress, ?_⟩
  rw [parts acknowledged, parts]
  exact pushed.append (pushed.2.acknowledge answers.2.1 source cycles)

/-- A poll finds other bits above the low five on the bus, and the same requests. -/
theorem Mirrors.poll (h : bus.Mirrors flat) {enabled requested : UInt8} {rest : List Access}
    (answers : Answers flat (pollAccesses enabled requested ++ rest)) :
    Answers flat rest ∧ ∃ requested', pendingOf enabled requested' = pendingOf enabled requested ∧
      ∀ onBus, bus.Parallels flat onBus rest →
        bus.Parallels flat (pollAccesses enabled requested' ++ onBus)
          (pollAccesses enabled requested ++ rest) := by
  have readEnable := h.backed.read Interrupt.enableAddress
  have readRequest := h.backed.read Interrupt.requestAddress
  have shown : bus.peek Interrupt.enableAddress = flat.get Interrupt.enableAddress :=
    h.bytes _ (by decide) (by decide)
  obtain ⟨⟨rfl, rfl⟩, others⟩ := (answers_poll_append rfl rfl _ _ _).mp answers
  refine ⟨others, bus.peek Interrupt.requestAddress, pendingOf_congr _ h.requests,
    fun onBus found => ⟨?_, ?_⟩⟩
  · exact (answers_poll_append readEnable readRequest _ _ _).mpr ⟨⟨shown, rfl⟩, found.1⟩
  · rw [replay_poll_append readEnable readRequest]
    exact found.2

/-- What a slot begins with on flat memory it can begin with on the bus. -/
theorem Mirrors.thaw (h : bus.Mirrors flat) {cpu : Cpu} {thaw rest : List Access}
    {reports : List LogEvent} {enabled requested : UInt8} (thawed : Thaw cpu thaw reports)
    (answers : Answers flat (thaw ++ pollAccesses enabled requested ++ rest)) :
    Answers flat rest ∧ ∃ thaw' requested', Thaw cpu thaw' reports ∧
      pendingOf enabled requested' = pendingOf enabled requested ∧
      ∀ onBus, bus.Parallels flat onBus rest →
        bus.Parallels flat (thaw' ++ pollAccesses enabled requested' ++ onBus)
          (thaw ++ pollAccesses enabled requested ++ rest) := by
  cases thawed with
  | running stopped =>
    obtain ⟨others, requested', pending, parallels⟩ := h.poll answers
    exact ⟨others, [], requested', .running stopped, pending, parallels⟩
  | left stopped woken =>
    rw [List.append_assoc] at answers
    obtain ⟨second, _, still, before⟩ := h.poll answers
    obtain ⟨others, requested', pending, parallels⟩ := h.poll second
    refine ⟨others, _, requested', .left stopped (still ▸ woken), pending, fun onBus found => ?_⟩
    rw [List.append_assoc, List.append_assoc]
    exact before _ (parallels onBus found)

/-- The rest of a slot that enters no handler is made on the bus as it is on flat memory. -/
theorem Mirrors.unserved (h : bus.Mirrors flat) {cpu : Cpu} {outcome : Except StepError Slot}
    {thaw rest : List Access} {reports : List LogEvent} {enabled requested : UInt8}
    (thawed : Thaw cpu thaw reports)
    (answers : Answers flat (thaw ++ pollAccesses enabled requested ++ rest))
    (confined : ∀ access ∈ trafficOf cpu outcome (thaw ++ pollAccesses enabled requested ++ rest),
      access.Confined)
    (plain : ∀ source, outcome ≠ .ok (.interrupt source)) :
    ∃ thaw' requested', Thaw cpu thaw' reports ∧
      pendingOf enabled requested' = pendingOf enabled requested ∧
      bus.Parallels flat (thaw' ++ pollAccesses enabled requested' ++ rest)
        (thaw ++ pollAccesses enabled requested ++ rest) := by
  obtain ⟨others, thaw', requested', thawed', pending, parallels⟩ := h.thaw thawed answers
  rw [thawed.trafficOf_eq plain] at confined
  exact ⟨thaw', requested', thawed', pending, parallels rest (h.parallels others confined)⟩

/-- **Courses on the bus**: a course that flat memory leads along can be taken on a bus that mirrors
it, if its traffic is confined. -/
theorem Mirrors.course (h : bus.Mirrors flat) {cpu after : Cpu} {accesses : List Access}
    {reports : List LogEvent} {outcome : Except StepError Slot}
    (course : Exec.Course 0 cpu accesses reports outcome after) (answers : Answers flat accesses)
    (confined : ∀ access ∈ trafficOf cpu outcome accesses, access.Confined) :
    ∃ onBus, Exec.Course 0 cpu onBus reports outcome after ∧ bus.Parallels flat onBus accesses := by
  cases course with
  | @frozen enabled requested stopped quiet =>
    rw [← List.append_nil (pollAccesses enabled requested)] at answers
    obtain ⟨-, requested', pending, parallels⟩ := h.poll answers
    rw [← pending] at quiet
    rw [← List.append_nil (pollAccesses enabled requested)]
    exact ⟨_, .frozen stopped quiet, parallels [] ⟨trivial, h⟩⟩
  | entered acknowledged thawed first ime =>
    obtain ⟨others, thaw', requested', thawed', pending, parallels⟩ := h.thaw thawed answers
    rw [thawed.trafficOf_interrupt] at confined
    obtain ⟨acknowledged', entry⟩ := h.entry others confined
    rw [← pending] at first
    exact ⟨_, .entered acknowledged' thawed' first ime, parallels _ entry⟩
  | idled thawed quiet halted =>
    obtain ⟨thaw', requested', thawed', pending, parallels⟩ :=
      h.unserved thawed answers confined nofun
    rw [← pending] at quiet
    exact ⟨_, .idled thawed' quiet halted, parallels⟩
  | faulted thawed woken masked fetched =>
    obtain ⟨thaw', requested', thawed', pending, parallels⟩ :=
      h.unserved thawed answers confined nofun
    rw [← pending] at woken masked
    exact ⟨_, .faulted thawed' woken masked fetched, parallels⟩
  | executed thawed woken masked fetched performed =>
    obtain ⟨thaw', requested', thawed', pending, parallels⟩ :=
      h.unserved thawed answers confined nofun
    rw [← pending] at woken masked
    exact ⟨_, .executed thawed' woken masked fetched performed, parallels⟩

end SystemBus

/-! ### Computers -/

namespace Computer

variable {δ : Type} [Device δ] {s : Computer (SystemBus δ)} {f : Computer FlatMemory}

/-- Whether two computers have the same core, and the bus of one mirrors the flat memory of the
other. -/
structure Follows (s : Computer (SystemBus δ)) (f : Computer FlatMemory) : Prop where
  cpu : s.cpu = f.cpu
  memory : s.board.bus.Mirrors f.board.bus

/-- The computer that has flat memory, filled from the bus, in place of the bus. -/
def flatten (s : Computer (SystemBus δ)) : Computer FlatMemory :=
  ⟨s.cpu, { bus := s.board.bus.flatten }⟩

/-- A step with confined traffic tells the same on both. -/
theorem Follows.step (h : s.Follows f) (confined : ∀ access ∈ f.traffic, access.Confined) :
    s.step.1 = f.step.1 ∧ s.step.2.Follows f.step.2 := by
  obtain ⟨onBus, course, found, memory⟩ := h.memory.course f.course_slot f.answers_slot confined
  rw [← h.cpu] at course
  obtain ⟨made, outcome, cpu⟩ := slot_of_course course found
  refine ⟨congrArg (Except.map Slot.cycles) outcome, cpu, ?_⟩
  show (s.slot 0).2.board.bus.Mirrors (f.slot 0).2.board.bus
  rw [bus_slot, bus_slot, made]
  exact memory

/-- The same for steps one after the other. -/
theorem Follows.steps (h : s.Follows f) {n : Nat}
    (confined : ∀ k < n, ∀ access ∈ (f.after k).traffic, access.Confined) :
    s.results n = f.results n ∧ ∀ k ≤ n, (s.after k).Follows (f.after k) := by
  induction n with
  | zero =>
    refine ⟨rfl, fun k none => ?_⟩
    obtain rfl := Nat.le_zero.mp none
    exact h
  | succ n ih =>
    obtain ⟨told, follows⟩ := ih fun k before => confined k (Nat.lt_succ_of_lt before)
    obtain ⟨same, next⟩ := (follows n (Nat.le_refl n)).step (confined n (Nat.lt_succ_self n))
    refine ⟨by rw [results, results, told, same], fun k upto => ?_⟩
    obtain before | rfl := Nat.le_succ_iff.mp upto
    · exact follows k before
    · exact next

/-- **Flat memory in place of the bus**: as long as the traffic on flat memory is confined, a
computer whose bus has plain memory behind its regions tells the same, has the same core after every
step, and holds the same bytes. -/
theorem follows_flatten (s : Computer (SystemBus δ)) (backed : s.board.bus.Backed) (n : Nat)
    (confined : ∀ k < n, ∀ access ∈ (s.flatten.after k).traffic, access.Confined) :
    s.results n = s.flatten.results n ∧ ∀ k ≤ n, (s.after k).Follows (s.flatten.after k) := by
  have start : s.Follows s.flatten := ⟨rfl, SystemBus.mirrors_flatten backed⟩
  exact start.steps confined

/-- A program that pushes BC: the push is confined, and the bus is seen to follow flat memory. -/
theorem follows_flatten_push :
    (ofProgram #[0xC5]).board.bus.Backed ∧
      (∀ access ∈ (ofProgram #[0xC5]).flatten.traffic, access.Confined) ∧
      (ofProgram #[0xC5]).results 1 = (ofProgram #[0xC5]).flatten.results 1 ∧
      ∀ k ≤ 1, ((ofProgram #[0xC5]).after k).Follows ((ofProgram #[0xC5]).flatten.after k) := by
  have backed : (ofProgram #[0xC5]).board.bus.Backed := SystemBus.backed_ofCartridge _
  have made : (ofProgram #[0xC5]).accesses =
      [.read 0xFFFF 0, .read 0xFF0F 0xE0, .read 0 0xC5, .write 0xFFFD 0, .write 0xFFFC 0,
        .tick 16] := by
    decide +kernel
  have given (address : UInt16) : (ofProgram #[0xC5]).flatten.board.bus.get address =
      (ofProgram #[0xC5]).board.bus.peek address := FlatMemory.get_ofFn _ address
  have answers : Answers (ofProgram #[0xC5]).flatten.board.bus (ofProgram #[0xC5]).accesses := by
    rw [made]
    have opcode := (given 0).trans (show _ = 0xC5 by decide +kernel)
    exact ⟨given 0xFFFF, given 0xFF0F, opcode, trivial, trivial, trivial, trivial⟩
  -- The flat memory answers as the bus did, so its slot takes the same course.
  obtain ⟨same, outcome, -⟩ :=
    slot_of_course (s := (ofProgram #[0xC5]).flatten) (ofProgram #[0xC5]).course_slot answers
  have confined : ∀ access ∈ (ofProgram #[0xC5]).flatten.traffic, access.Confined := by
    rw [traffic, same, outcome]
    decide +kernel
  refine ⟨backed, confined, follows_flatten (ofProgram #[0xC5]) backed 1 fun k first => ?_⟩
  obtain rfl : k = 0 := by omega
  exact confined

end Computer

end Sm83
