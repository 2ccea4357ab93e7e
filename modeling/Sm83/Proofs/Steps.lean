import Sm83.Bus.SystemBus
import Sm83.Computer
import Sm83.Proofs.SlotCourse

/-! # Single steps

What a slot does to a computer, and sequences of steps.

* **Playing.** Programs of the core are played one part after the other (`exec_bind`).
* **Slots.** A slot of a computer takes one of the courses (`course_slot`), the one whose answers
  the bus gives (`slot_of_course`); its accesses decide the bus it leaves (`bus_slot`) and whether
  the stop line is raised (`stopRaised_slot`).  The number it is given shows in its error only
  (`slot_eq`).
* **Sequences.** `s.after k` is the state after `k` steps, and `s.results k` lists what they told;
  a failing step is a step too. -/

namespace Sm83

/-- Counting with the first one told by a number. -/
theorem countP_cons_toNat {α : Type} (p : α → Bool) (first : α) (rest : List α) :
    (first :: rest).countP p = (p first).toNat + rest.countP p := by
  rw [List.countP_cons, Nat.add_comm]
  cases p first <;> rfl

namespace Computer

variable {α γ β : Type} [Device β]

omit [Device β] in
/-- A computer is its core, its bus, its stop line and its log. -/
theorem ext_parts {s t : Computer β} (cpu : s.cpu = t.cpu) (bus : s.board.bus = t.board.bus)
    (stop : s.board.stopRaised = t.board.stopRaised) (log : s.board.log = t.board.log) : s = t := by
  obtain ⟨_, _, _, _⟩ := s
  obtain ⟨_, _, _, _⟩ := t
  simp only at cpu bus stop log
  rw [cpu, bus, stop, log]

/-! ### Playing programs -/

section playing
variable (s : Computer β)

theorem exec_map (f : α → γ) (program : Exec α) :
    s.exec (f <$> program) = (f (s.exec program).1, (s.exec program).2) := by
  simp only [exec, StateT.run_map, Interaction.run_map]

theorem exec_bind (program : Exec α) (f : α → Exec γ) :
    s.exec (program >>= f) = (s.exec program).2.exec (f (s.exec program).1) := by
  simp only [exec, StateT.run_bind, Interaction.run_bind]

theorem exec_lift (t : Interaction α) : s.exec (StateT.lift t) = s.interact t := by
  have lifted : (StateT.lift t : Exec α).run s.cpu = (fun value => (value, s.cpu)) <$> t := rfl
  simp only [exec, interact, lifted, Interaction.run_map]

theorem exec_get : s.exec get = (s.cpu, s) := rfl

theorem exec_modify (f : Cpu → Cpu) : s.exec (modify f) = ((), s.mapCpu f) := rfl

end playing

/-- What a program ensures holds of its run on a computer. -/
theorem exec_of_ensures {program : Exec α} {s : Computer β}
    {Q : List Access → List LogEvent → α → Cpu → Prop} (h : Exec.Ensures program s.cpu Q) :
    Q ((program.run s.cpu).accesses s.board.bus) ((program.run s.cpu).reports s.board.bus)
      (s.exec program).1 (s.exec program).2.cpu :=
  Interaction.Ensures.run h s.board

/-- A computer with a program in ROM, about to execute its first byte. -/
def ofProgram (program : Array UInt8) : Computer (SystemBus Empty) :=
  ⟨.boot .zeroed 0, { bus := .ofImage ⟨program⟩ .romOnly 0 }⟩

/-! ### One slot -/

/-- The accesses of the next slot. -/
def accesses (s : Computer β) : List Access := ((Exec.slot 0).run s.cpu).accesses s.board.bus

/-- The events that the next slot reports, those of devices apart. -/
def reports (s : Computer β) : List LogEvent := ((Exec.slot 0).run s.cpu).reports s.board.bus

/-- The number given to a slot shows in its error and nowhere else. -/
theorem slot_eq (executed : Nat) (s : Computer β) :
    s.slot executed =
      (renumber executed (s.slot 0).1, (s.slot 0).2) := by
  rw [slot, Exec.slot_eq_map executed, exec_map]
  rfl

theorem course_slot (s : Computer β) :
    Exec.Course 0 s.cpu s.accesses s.reports (s.slot 0).1 (s.slot 0).2.cpu :=
  exec_of_ensures (Exec.ensures_slot 0 s.cpu)

theorem answers_slot (s : Computer β) : Answers s.board.bus s.accesses :=
  Interaction.answers_accesses _ _

/-- A course whose answers the bus gives is the one that the slot takes. -/
theorem slot_of_course {s : Computer β} {accesses : List Access} {reports : List LogEvent}
    {outcome : Except StepError Slot} {after : Cpu}
    (course : Exec.Course 0 s.cpu accesses reports outcome after)
    (answers : Answers s.board.bus accesses) :
    s.accesses = accesses ∧ (s.slot 0).1 = outcome ∧ (s.slot 0).2.cpu = after := by
  obtain ⟨made, -, result⟩ := course.path.taken answers
  exact ⟨made, congrArg Prod.fst result, congrArg Prod.snd result⟩

theorem bus_slot (s : Computer β) :
    (s.slot 0).2.board.bus = (replay s.accesses s.board.bus).state :=
  Interaction.bus_run _ _

theorem stopRaised_slot (s : Computer β) :
    (s.slot 0).2.board.stopRaised = (s.board.stopRaised ||
      (replay s.accesses s.board.bus).effects.contains .requestStop) :=
  Interaction.stopRaised_run _ _

theorem slot_eq_ok_iff {executed : Nat} {s t : Computer β} {done : Slot} :
    s.slot executed = (.ok done, t) ↔ s.slot 0 = (.ok done, t) := by
  rw [slot_eq executed]
  rcases s.slot 0 with ⟨e | other, u⟩ <;> simp

theorem executed_of_slot_error {s t : Computer β} {e : StepError} (h : s.slot 0 = (.error e, t)) :
    e.executed = 0 := by
  have course := s.course_slot
  rw [h] at course
  exact course.executed_of_error

theorem slot_eq_error_iff {executed : Nat} {s t : Computer β} {e : StepError} :
    s.slot executed = (.error e, t) ↔
      e.executed = executed ∧ s.slot 0 = (.error (e.withExecuted 0), t) := by
  rw [slot_eq executed]
  rcases played : s.slot 0 with ⟨e' | other, u⟩
  · have none := executed_of_slot_error played
    obtain ⟨fault, pc, _⟩ := e
    obtain ⟨fault', pc', _⟩ := e'
    simp only at none
    subst none
    simp only [renumber_error, StepError.withExecuted, Prod.mk.injEq, Except.error.injEq,
      StepError.mk.injEq]
    constructor
    · rintro ⟨⟨fault, pc, executed⟩, state⟩
      exact ⟨executed.symm, ⟨fault, pc, trivial⟩, state⟩
    · rintro ⟨executed, ⟨fault, pc, -⟩, state⟩
      exact ⟨⟨fault, pc, executed.symm⟩, state⟩
  · simp

/-- A successful slot adds its clock cycles and its instruction to the counters. -/
theorem tally_slot {executed : Nat} {s t : Computer β} {done : Slot}
    (h : s.slot executed = (.ok done, t)) :
    t.cpu.cycles = s.cpu.cycles + done.cycles ∧
      t.cpu.instructions = s.cpu.instructions + (if done.isExecuted then 1 else 0) := by
  have counted := exec_of_ensures (Exec.ensures_slot_tally executed s.cpu)
  change s.exec (Exec.slot executed) = (.ok done, t) at h
  rw [h] at counted
  exact counted

/-! ### Sequences of steps -/

theorem step_eq (s : Computer β) : s.step = ((s.slot 0).1.map Slot.cycles, (s.slot 0).2) := rfl

theorem step_of_slot_ok {s t : Computer β} {done : Slot} (h : s.slot 0 = (.ok done, t)) :
    s.step = (.ok done.cycles, t) := by
  rw [step_eq, h]
  rfl

theorem step_of_slot_error {s t : Computer β} {e : StepError} (h : s.slot 0 = (.error e, t)) :
    s.step = (.error e, t) := by
  rw [step_eq, h]
  rfl

theorem slot_of_step_error {s t : Computer β} {e : StepError} (h : s.step = (.error e, t)) :
    s.slot 0 = (.error e, t) := by
  rw [step_eq] at h
  obtain ⟨told, rfl⟩ := Prod.mk.inj h
  refine Prod.ext ?_ rfl
  cases outcome : (s.slot 0).1 with
  | ok done => rw [outcome] at told; cases told
  | error e' => rw [outcome] at told; exact congrArg _ (Except.error.inj told)

/-- The state after `k` steps, whether they succeed or not. -/
def after (s : Computer β) : Nat → Computer β
  | 0 => s
  | k + 1 => (s.after k).step.2

/-- What `k` steps tell. -/
def results (s : Computer β) : Nat → List (Except StepError Nat)
  | 0 => []
  | k + 1 => s.results k ++ [(s.after k).step.1]

/-- The last of some successful steps is a slot with its cost. -/
theorem slot_of_results {s : Computer β} {k : Nat} {costs : List Nat}
    (h : s.results (k + 1) = costs.map .ok) :
    ∃ earlier done, costs = earlier ++ [done.cycles] ∧ s.results k = earlier.map .ok ∧
      (s.after k).slot 0 = (.ok done, s.after (k + 1)) := by
  rw [results, eq_comm, List.map_eq_append_iff] at h
  obtain ⟨earlier, last, rfl, before, told⟩ := h
  obtain ⟨cost, rfl, cost_eq⟩ := List.map_eq_singleton_iff.mp told
  rcases played : (s.after k).slot 0 with ⟨e | done, t⟩
  · rw [step_of_slot_error played] at cost_eq
    cases cost_eq
  · have stepped := step_of_slot_ok played
    rw [stepped] at cost_eq
    cases cost_eq
    exact ⟨earlier, done, rfl, before.symm, by rw [after, stepped]⟩

/-- The clock cycles that successful steps told, added up. -/
def spent (costs : List Nat) : Nat := costs.foldr (· + ·) 0

theorem spent_cons (cost : Nat) (later : List Nat) :
    spent (cost :: later) = cost + spent later := rfl

theorem spent_append (earlier later : List Nat) :
    spent (earlier ++ later) = spent earlier + spent later := by
  induction earlier with
  | nil => exact (Nat.zero_add _).symm
  | cons cost earlier ih => rw [List.cons_append, spent_cons, spent_cons, ih, Nat.add_assoc]

theorem spent_singleton (cost : Nat) : spent [cost] = cost := Nat.add_zero cost

theorem spent_concat (earlier : List Nat) (cost : Nat) :
    spent (earlier ++ [cost]) = spent earlier + cost := by
  rw [spent_append, spent_singleton]

/-- Successful steps add their clock cycles to the counter, and take back no instruction. -/
theorem counters_after {s : Computer β} {k : Nat} {costs : List Nat}
    (h : s.results k = costs.map .ok) :
    (s.after k).cpu.cycles = s.cpu.cycles + spent costs ∧
      s.cpu.instructions ≤ (s.after k).cpu.instructions := by
  induction k generalizing costs with
  | zero =>
    obtain rfl := List.map_eq_nil_iff.mp h.symm
    exact ⟨rfl, Nat.le_refl _⟩
  | succ k ih =>
    obtain ⟨earlier, done, rfl, before, played⟩ := slot_of_results h
    obtain ⟨cycles, instructions⟩ := tally_slot played
    obtain ⟨sum, grown⟩ := ih before
    rw [spent_concat]
    omega

end Computer

end Sm83
