import Sm83.Proofs.Steps

/-! # Steps that fail

A step fails only when the bytes at PC form no instruction.

* **Quiet buses.** Flat memory does not notice being read, and neither does a system bus with plain
  memory behind every region (`FlatMemory.quietReads`, `SystemBus.Plain.quietReads`).
* **What a failing step does.** `Faulted s e t` says that it has only read, that the core is
  unchanged but for having woken, and that the error tells the byte at PC and why it is refused
  (`faulted_of_slot`).
* **Repetition.** On a quiet bus the next step reads the same bytes and takes the same course
  (`Exec.Course.repeats`), so that it fails in the same way and changes nothing (`slot_repeats`).
* **Main statement.** `faulted_of_step`: both, for steps in any number. -/

namespace Sm83

/-! ### Quiet buses -/

theorem FlatMemory.quietReads (memory : FlatMemory) : QuietReads memory :=
  fun _ => ⟨_, rfl⟩

/-- Visiting a region in a way that leaves it as it was. -/
theorem PerRegion.visit_quiet {α γ : Type} {region : Region} {operation : α → Reply α γ}
    {values : PerRegion α} {value : γ}
    (h : operation (values.get region) = ⟨value, values.get region, []⟩) :
    values.visit region operation = ⟨value, values, []⟩ := by
  obtain ⟨videoRam, workRam, oam, io, highRam⟩ := values
  cases region with
  | videoRam | workRam | oam | io | highRam =>
    simp only [get] at h
    simp only [visit, h]
    rfl

namespace SystemBus

variable {δ : Type}

/-- Whether plain memory is behind every region. -/
def Plain (bus : SystemBus δ) : Prop := ∀ region, ∃ memory, bus.regions.get region = .ram memory

theorem plain_ofCartridge (cartridge : Cartridge) :
    (ofCartridge cartridge : SystemBus δ).Plain := by
  intro region
  exact ⟨.ofRegion region, PerRegion.get_ofFn _ region⟩

/-- With plain memory behind every region, no read leaves a trace. -/
theorem Plain.quietReads [Device δ] {bus : SystemBus δ} (plain : bus.Plain) : QuietReads bus := by
  intro address
  show ∃ value, SystemBus.read address bus = ⟨value, bus, []⟩
  unfold SystemBus.read
  split
  case h_3 region address owner =>
    obtain ⟨memory, backing⟩ := plain region
    have same : Device.read address (bus.regions.get region) =
        ⟨memory.get address, bus.regions.get region, []⟩ := by
      rw [backing]
      rfl
    refine ⟨memory.get address, ?_⟩
    rw [onRegions, PerRegion.visit_quiet same]
    rfl
  all_goals exact ⟨_, rfl⟩

end SystemBus

/-! ### What is refused -/

namespace Instruction.Refused

variable {address : UInt16} {opcode : UInt8} {fault : FetchError}

theorem opcode_eq (h : Refused address opcode fault) : fault.opcode = opcode := by
  cases h with
  | unassigned => rfl
  | truncated => rfl

/-- The fault of a hole in the table of opcodes, and of no other byte. -/
theorem eq_unassigned_iff (h : Refused address opcode fault) :
    fault = .unassigned opcode ↔ opcode ∈ Opcode.unassigned := by
  rw [← isUnassigned_decode_iff]
  cases h with
  | unassigned hole => exact ⟨fun _ => hole, fun _ => rfl⟩
  | truncated assigned =>
    rw [assigned]
    exact ⟨nofun, nofun⟩

/-- The fault of an instruction whose last byte would be past the last address. -/
theorem eq_truncated_iff (h : Refused address opcode fault) :
    fault = .truncated opcode ↔ opcode ∉ Opcode.unassigned ∧
      0xFFFF < address.toNat + (decode opcode).length - 1 := by
  rw [← isUnassigned_decode_iff]
  cases h with
  | unassigned hole =>
    rw [hole]
    exact ⟨nofun, fun out => absurd rfl out.1⟩
  | truncated assigned late =>
    rw [assigned]
    refine ⟨fun _ => ⟨Bool.false_ne_true, ?_⟩, fun _ => rfl⟩
    omega

end Instruction.Refused

/-! ### What a failing step does -/

namespace Computer

variable {β : Type} [Device β]

/-- A step of `s` that failed with `e` and left `t`. -/
structure Faulted (s : Computer β) (e : StepError) (t : Computer β) : Prop where
  /-- The bus was asked for `s.accesses`, which are reads. -/
  answers : Answers s.board.bus s.accesses
  reads : ∀ access ∈ s.accesses, access.isRead = true
  bus : t.board.bus = (replay s.accesses s.board.bus).state
  /-- The stop line is as it was, unless a device has raised it when it was read. -/
  stop : t.board.stopRaised = (s.board.stopRaised ||
    (replay s.accesses s.board.bus).effects.contains .requestStop)
  /-- Nothing in the core changes but that it is awake. -/
  cpu : t.cpu = s.cpu.awake
  /-- A core that was asleep has seen an enabled request. -/
  woken : s.cpu.asleep = true → ∃ enabled requested,
    pollAccesses enabled requested <:+: s.accesses ∧ pendingOf enabled requested ≠ 0
  pc : e.pc = s.cpu.regs.pc
  executed : e.executed = 0
  /-- The last access was the read of the byte at PC. -/
  opcode : s.accesses.getLast? = some (.read s.cpu.regs.pc e.opcode)
  unassigned : e.fault = .unassigned e.opcode ↔ e.opcode ∈ Opcode.unassigned
  truncated : e.fault = .truncated e.opcode ↔ e.opcode ∉ Opcode.unassigned ∧
    0xFFFF < s.cpu.regs.pc.toNat + (decode e.opcode).length - 1

end Computer

namespace Exec

variable {executed : Nat} {cpu after : Cpu} {accesses : List Access} {reports : List LogEvent}
  {e : StepError}

/-- The core after a slot that fails. -/
theorem Course.cpu_of_error (h : Course executed cpu accesses reports (.error e) after) :
    after = cpu.awake := by
  cases h
  rfl

/-- A core that was asleep is awake for a reason. -/
theorem Course.woken_of_error (h : Course executed cpu accesses reports (.error e) after)
    (asleep : cpu.asleep = true) : ∃ enabled requested,
      pollAccesses enabled requested <:+: accesses ∧ pendingOf enabled requested ≠ 0 := by
  cases h with
  | @faulted thaw fetch _ _ enabled requested _ thawed woken =>
    cases thawed with
    | running stopped =>
      rw [Cpu.asleep, stopped, Bool.or_false] at asleep
      exact ⟨enabled, requested, ⟨[], fetch, rfl⟩, woken asleep⟩
    | @left enabled' requested' _ pending =>
      exact ⟨enabled', requested', ⟨[], pollAccesses enabled requested ++ fetch,
        (List.append_assoc _ _ _).symm⟩, pending⟩

/-- The error of a slot that fails. -/
theorem Course.refused_of_error (h : Course executed cpu accesses reports (.error e) after) :
    e.pc = cpu.regs.pc ∧ accesses.getLast? = some (.read cpu.regs.pc e.opcode) ∧
      Instruction.Refused cpu.regs.pc e.opcode e.fault := by
  cases h with
  | faulted thawed woken masked fetched =>
    cases Instruction.ensures_fetch_fetched _ _ _ _ fetched with
    | refused refused =>
      rw [StepError.opcode, refused.opcode_eq]
      exact ⟨rfl, List.getLast?_concat, refused⟩

/-- On a quiet bus the slot after one that fails takes the same course, without the waking. -/
theorem Course.repeats {β : Type} [Device β] {bus : β} (quiet : QuietReads bus)
    (failed : Course executed cpu accesses reports (.error e) after)
    (answers : Answers bus accesses) {accesses' : List Access} {reports' : List LogEvent}
    {outcome : Except StepError Slot} {after' : Cpu}
    (again : Course executed after accesses' reports' outcome after')
    (answers' : Answers bus accesses') : outcome = .error e ∧ reports' = [] ∧ after' = after := by
  obtain ⟨enabled, readEnable⟩ := quiet Interrupt.enableAddress
  obtain ⟨requested, readRequest⟩ := quiet Interrupt.requestAddress
  obtain ⟨opcode, readOpcode⟩ := quiet cpu.regs.pc
  cases failed with
  | faulted thawed woken masked fetched =>
    obtain ⟨⟨rfl, rfl⟩, first⟩ := thawed.answers_append readEnable readRequest answers
    cases Instruction.ensures_fetch_fetched _ _ _ _ fetched with
    | refused refused =>
      obtain rfl := (congrArg Reply.value readOpcode).symm.trans first.1
      cases again with
      | frozen stopped => cases stopped
      | idled _ _ halted => cases halted
      | entered found thawed' urgent ime =>
        obtain ⟨⟨rfl, rfl⟩, -⟩ := thawed'.answers_append readEnable readRequest answers'
        cases (masked (pendingOf_ne_zero urgent)).symm.trans ime
      | executed thawed' _ _ fetched' =>
        obtain ⟨-, rest⟩ := thawed'.answers_append readEnable readRequest answers'
        cases Instruction.ensures_fetch_fetched _ _ _ _ fetched' with
        | accepted accepted =>
          obtain rfl := (congrArg Reply.value readOpcode).symm.trans rest.1
          exact absurd refused (accepted _)
      | faulted thawed' _ _ fetched' =>
        obtain ⟨-, rest⟩ := thawed'.answers_append readEnable readRequest answers'
        cases Instruction.ensures_fetch_fetched _ _ _ _ fetched' with
        | refused refused' =>
          obtain rfl := (congrArg Reply.value readOpcode).symm.trans rest.1
          cases thawed' with
          | left asleep => cases asleep
          | running => exact ⟨by rw [refused.unique refused']; rfl, rfl, rfl⟩

end Exec

namespace Computer

variable {β : Type} [Device β] {s t : Computer β} {e : StepError}

theorem faulted_of_slot (h : s.slot 0 = (.error e, t)) : Faulted s e t := by
  have course := s.course_slot
  have bus := s.bus_slot
  have stop := s.stopRaised_slot
  rw [h] at course bus stop
  obtain ⟨pc, opcode, refused⟩ := course.refused_of_error
  exact {
    answers := s.answers_slot
    reads := fun _ => course.isRead_of_error
    bus := bus
    stop := stop
    cpu := course.cpu_of_error
    woken := course.woken_of_error
    pc := pc
    executed := course.executed_of_error
    opcode := opcode
    unassigned := refused.eq_unassigned_iff
    truncated := refused.eq_truncated_iff }

/-! ### Repetition -/

/-- A quiet bus is left as it was by a step that fails. -/
theorem Faulted.bus_of_quiet (h : Faulted s e t) (quiet : QuietReads s.board.bus) :
    t.board.bus = s.board.bus := by
  rw [h.bus, replay_of_reads quiet h.reads]

/-- On a quiet bus a step that fails leaves a state that the next step does not change. -/
theorem slot_repeats (quiet : QuietReads s.board.bus) (h : s.slot 0 = (.error e, t)) :
    t.slot 0 = (.error e, t) := by
  have same := (faulted_of_slot h).bus_of_quiet quiet
  have failed := s.course_slot
  have answers := t.answers_slot
  have again := t.course_slot
  rw [h] at failed
  rw [same] at answers
  obtain ⟨outcome, silent, cpu⟩ := failed.repeats quiet s.answers_slot again answers
  rw [outcome] at again
  have board : (t.slot 0).2.board = t.board := by
    have played := Interaction.run_of_reads ((Exec.slot 0).run t.cpu) (same ▸ quiet)
      fun _ => again.isRead_of_error
    exact played.trans (congrArg (List.foldl _ t.board) silent)
  refine Prod.ext outcome (ext_parts cpu ?_ ?_ ?_)
  · rw [board]
  · rw [board]
  · rw [board]

/-- A state that a failing step does not change stays as it is, and all steps tell the same. -/
theorem after_eq_of_step (h : t.step = (.error e, t)) (n : Nat) :
    t.after n = t ∧ t.results n = List.replicate n (.error e) := by
  induction n with
  | zero => exact ⟨rfl, rfl⟩
  | succ n ih =>
    obtain ⟨state, told⟩ := ih
    refine ⟨?_, ?_⟩
    · rw [after, state, h]
    · rw [results, state, told, h, List.replicate_succ']

/-- **Failing steps**: a step that fails has only read, leaves the core as it was but awake, and
tells which byte is refused and why; and if reads leave no trace, then any number of further steps
tell the same and change nothing. -/
theorem faulted_of_step (h : s.step = (.error e, t)) :
    Faulted s e t ∧ (QuietReads s.board.bus →
      ∀ n, t.after n = t ∧ t.results n = List.replicate n (.error e)) := by
  have failed := slot_of_step_error h
  refine ⟨faulted_of_slot failed, fun quiet n => ?_⟩
  exact after_eq_of_step (step_of_slot_error (slot_repeats quiet failed)) n

/-- A program that begins with a hole in the table of opcodes fails there again and again. -/
theorem faulted_of_step_hole :
    Faulted (ofProgram #[0xD3]) ⟨.unassigned 0xD3, 0, 0⟩ ((ofProgram #[0xD3]).after 1) ∧
      ∀ n, ((ofProgram #[0xD3]).after 1).results n =
        List.replicate n (.error ⟨.unassigned 0xD3, 0, 0⟩) := by
  have told : (match (ofProgram #[0xD3]).step.1 with
      | .error e => some e
      | .ok _ => none) = some ⟨.unassigned 0xD3, 0, 0⟩ := by decide +kernel
  split at told
  case h_2 => cases told
  case h_1 e failed =>
    obtain rfl := Option.some.inj told
    have stepped : (ofProgram #[0xD3]).step = (.error ⟨.unassigned 0xD3, 0, 0⟩,
        (ofProgram #[0xD3]).after 1) := by
      rw [after, after, ← failed]
    obtain ⟨faulted, repeats⟩ := faulted_of_step stepped
    have quiet : QuietReads (ofProgram #[0xD3]).board.bus :=
      (SystemBus.plain_ofCartridge _).quietReads
    exact ⟨faulted, fun n => (repeats quiet n).2⟩

end Computer

end Sm83
