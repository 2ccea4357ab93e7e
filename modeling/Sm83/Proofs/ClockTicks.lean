import Sm83.Proofs.BusCalls
import Sm83.Proofs.RunCourse

/-! # Clock cycles on the bus

Every clock cycle that the core counts is reported to the bus, once.

* **Slots.** A slot reports all its cycles at once, and an executed instruction does so last
  (`Course.ticks_eq`, `Course.exists_memory`).  An idle slot in the STOP state and a failing slot
  report none.
* **Calls.** The search for a reason to end only reads, so what a call reports is what its slots
  report; what it tells to the host adds up to the same (`Makes.cycles_eq`).
* **Devices.** A system bus passes each report on to all five regions, and accesses of other kinds
  to one of them at most (`ticks_filterMap_asked`).
* **Main statement.** `ticks_of_session`: over any steps and runs, failing ones among them, what is
  reported to the bus, and to every device on it, adds up to the increase of the counter. -/

namespace Sm83

/-! ### Reports of cycles -/

/-- The clock cycles that an access reports, if it is a report. -/
def Access.ticked? : Access → Option Nat
  | .tick cycles => some cycles
  | _ => none

/-- The clock cycles that are reported by accesses, one number for each report. -/
def ticks (accesses : List Access) : List Nat := accesses.filterMap Access.ticked?

@[simp] theorem ticks_nil : ticks [] = [] := rfl

@[simp] theorem ticks_append (first last : List Access) :
    ticks (first ++ last) = ticks first ++ ticks last := List.filterMap_append

@[simp] theorem ticks_read (address : UInt16) (value : UInt8) (rest : List Access) :
    ticks (.read address value :: rest) = ticks rest := rfl

@[simp] theorem ticks_write (address : UInt16) (value : UInt8) (rest : List Access) :
    ticks (.write address value :: rest) = ticks rest := rfl

@[simp] theorem ticks_tick (cycles : Nat) (rest : List Access) :
    ticks (.tick cycles :: rest) = cycles :: ticks rest := rfl

/-- Reads report nothing. -/
theorem ticks_of_reads {accesses : List Access}
    (reads : ∀ access ∈ accesses, access.isRead = true) : ticks accesses = [] := by
  refine List.filterMap_eq_nil_iff.mpr fun access made => ?_
  have read := reads access made
  cases access with
  | read => rfl
  | write | tick => cases read

/-- The clock cycles of a slot; a slot that fails takes none. -/
def cyclesOf : Except StepError Slot → Nat
  | .ok done => done.cycles
  | .error _ => 0

/-- What a slot reports: all its clock cycles at once, and nothing if it is to take none. -/
def reported : Except StepError Slot → List Nat
  | .ok (.idle 0) => []
  | .ok done => [done.cycles]
  | .error _ => []

theorem spent_reported (outcome : Except StepError Slot) :
    Computer.spent (reported outcome) = cyclesOf outcome := by
  rcases outcome with e | ⟨ins, cost⟩ | source | _ | cost
  · rfl
  · exact Computer.spent_singleton _
  · exact Computer.spent_singleton _
  · rfl
  · exact Computer.spent_singleton _

theorem reported_of_pos {outcome : Except StepError Slot} (taken : 0 < cyclesOf outcome) :
    reported outcome = [cyclesOf outcome] := by
  rcases outcome with e | ⟨ins, cost⟩ | source | _ | cost
  · exact absurd taken (Nat.lt_irrefl 0)
  · rfl
  · rfl
  · exact absurd taken (Nat.lt_irrefl 0)
  · rfl

/-! ### Slots -/

namespace Exec

variable {cpu after : Cpu} {executed : Nat} {accesses : List Access} {reports : List LogEvent}
  {outcome : Except StepError Slot}

/-- Reads, writes and changes of registers report nothing. -/
theorem frame_ticks : Frame fun _ accesses _ => ticks accesses = [] where
  regs _ _ := rfl
  read _ _ _ := rfl
  write _ _ _ := rfl
  append silent silent' := by rw [ticks_append, silent, silent', List.append_nil]

/-- No operation reports anything: its cycles are charged by the slot. -/
theorem ticks_perform (address imm : UInt16) (op : Operation) (cpu : Cpu) :
    Ensures (perform address imm op) cpu fun accesses _ _ _ => ticks accesses = [] := by
  cases plain : op.isControl with
  | false => exact within_perform frame_ticks address imm plain cpu
  | true =>
    cases op with
    | stop | halt | di | ei => simp [perform, Exec.plain]
    | reti => simp [perform, Exec.plain, ret]
    | _ => cases plain

/-- A slot begins with reads. -/
theorem ticks_thaw_poll {thaw : List Access} {thawReports : List LogEvent}
    (thawed : Thaw cpu thaw thawReports) (enabled requested : UInt8) :
    ticks (thaw ++ pollAccesses enabled requested) = [] := by
  refine ticks_of_reads fun access made => ?_
  obtain thaw | polled := List.mem_append.mp made
  · exact thawed.isRead_of_mem thaw
  · exact isRead_of_mem_pollAccesses polled

/-- An executed instruction reports its cycles after all else that it does. -/
theorem Course.exists_memory {ins : Instruction} {cost : Nat}
    (course : Course executed cpu accesses reports (.ok (.executed ins cost)) after) :
    ∃ memory, accesses = memory ++ [.tick cost] ∧ ticks memory = [] := by
  cases course with
  | @executed thaw fetch performed _ _ _ enabled requested _ taken _ thawed _ _ fetched path =>
    have fetchSilent : ticks fetch = [] :=
      ticks_of_reads (Instruction.ensures_fetch_isRead _ _ _ _ fetched)
    have silent : ticks performed = [] := ticks_perform _ _ _ _ _ _ _ path
    refine ⟨thaw ++ pollAccesses enabled requested ++ (fetch ++ performed), ?_, ?_⟩
    · simp only [List.append_assoc]
    · rw [ticks_append, ticks_thaw_poll thawed, ticks_append, fetchSilent, silent]
      rfl

/-- **What a slot reports** on the bus, whatever its course. -/
theorem Course.ticks_eq (course : Course executed cpu accesses reports outcome after) :
    ticks accesses = reported outcome := by
  cases outcome with
  | error e => exact ticks_of_reads fun _ made => course.isRead_of_error made
  | ok done =>
    cases done with
    | executed ins cost =>
      obtain ⟨memory, rfl, silent⟩ := course.exists_memory
      rw [ticks_append, silent]
      rfl
    | interrupt source =>
      cases course with
      | entered acknowledged thawed =>
        rw [ticks_append, ticks_thaw_poll thawed]
        rfl
    | idle cost =>
      cases course with
      | frozen => rfl
      | idled thawed =>
        rw [ticks_append, ticks_thaw_poll thawed]
        rfl

/-- Only a core in the STOP state idles without its clock. -/
theorem Course.stopped_of_idle
    (course : Course executed cpu accesses reports (.ok (.idle 0)) after) :
    cpu.stopped = true := by
  cases course with
  | frozen stopped => exact stopped

end Exec

namespace Computer

variable {β : Type} [Device β] {limit : Option Nat} {tally : Tally} {s t u : Computer β}
  {accesses : List Access} {slots : List (Computer β)} {outcome : Except StepError RunResult}

theorem ticks_slot (u : Computer β) : ticks u.accesses = reported (u.slot 0).1 :=
  u.course_slot.ticks_eq

theorem cycles_slot (u : Computer β) :
    (u.slot 0).2.cpu.cycles = u.cpu.cycles + cyclesOf (u.slot 0).1 := by
  rcases played : u.slot 0 with ⟨e | done, t⟩
  · have counted := exec_of_ensures (Exec.ensures_slot_tally 0 u.cpu)
    change u.exec (Exec.slot 0) = (.error e, t) at played
    rw [played] at counted
    exact counted.1
  · exact (tally_slot played).1

/-- How a slot reports the clock cycles that it takes. -/
structure Clocked (u : Computer β) : Prop where
  once : ∀ c > 0, (u.slot 0).2.cpu.cycles = u.cpu.cycles + c → ticks u.accesses = [c]
  last : ∀ ins cost, (u.slot 0).1 = .ok (.executed ins cost) →
    ∃ memory, u.accesses = memory ++ [.tick cost] ∧ ticks memory = []
  frozen : (u.slot 0).1 = .ok (.idle 0) → u.cpu.stopped = true ∧ ticks u.accesses = []
  failed : ∀ e, (u.slot 0).1 = .error e → ticks u.accesses = []

theorem clocked (u : Computer β) : Clocked u where
  once c taken increased := by
    have same : cyclesOf (u.slot 0).1 = c := by
      rw [u.cycles_slot] at increased
      exact Nat.add_left_cancel increased
    rw [u.ticks_slot, reported_of_pos (by omega), same]
  last ins cost played := by
    have course := u.course_slot
    rw [played] at course
    exact course.exists_memory
  frozen played := by
    have course := u.course_slot
    rw [played] at course
    exact ⟨course.stopped_of_idle, course.ticks_eq⟩
  failed e played := by
    rw [u.ticks_slot, played]
    rfl

/-! ### Calls of the host -/

/-- The clock cycles of some slots. -/
def slotCycles (slots : List (Computer β)) : Nat := spent (slots.map fun u => cyclesOf (u.slot 0).1)

theorem slotCycles_cons (u : Computer β) (slots : List (Computer β)) :
    slotCycles (u :: slots) = cyclesOf (u.slot 0).1 + slotCycles slots := rfl

theorem slotCycles_singleton (u : Computer β) : slotCycles [u] = cyclesOf (u.slot 0).1 :=
  spent_singleton _

/-- A run counts the clock cycles of its slots. -/
theorem Plays.cycles_eq (h : Plays limit tally s slots accesses outcome t) :
    t.cpu.cycles = s.cpu.cycles + slotCycles slots := by
  induction h with
  | ended search => rw [search.cpu_eq]; rfl
  | @failed tally s u t searched e search played =>
    have counted := u.cycles_slot
    rw [slot_zero_of_error played] at counted
    rw [cpu_told, counted, search.cpu_eq, slotCycles_singleton, slot_zero_of_error played]
  | @slot tally s u v t searched accesses done slots outcome search played _ ih =>
    have counted := u.cycles_slot
    rw [slot_zero_of_ok played] at counted
    rw [ih, counted, search.cpu_eq, slotCycles_cons, slot_zero_of_ok played, Nat.add_assoc]

/-- A run that completes tells the clock cycles of its slots. -/
theorem Plays.result_cycles {result : RunResult}
    (h : Plays limit tally s slots accesses (.ok result) t) :
    result.cycles = tally.cycles + slotCycles slots := by
  generalize told : (Except.ok result : Except StepError RunResult) = outcome at h
  induction h with
  | ended =>
    cases told
    rfl
  | failed => cases told
  | @slot tally s u v t searched accesses done slots outcome search played _ ih =>
    rw [ih told, Tally.add_eq, slotCycles_cons, slot_zero_of_ok played]
    exact Nat.add_assoc _ _ _

/-- A run reports what its slots report. -/
theorem Plays.spent_ticks (h : Plays limit tally s slots accesses outcome t) :
    spent (ticks accesses) = slotCycles slots := by
  induction h with
  | ended search => rw [ticks_of_reads fun _ made => search.isRead made]; rfl
  | @failed tally s u t searched e search played =>
    rw [ticks_append, ticks_of_reads fun _ made => search.isRead made, List.nil_append,
      u.ticks_slot, spent_reported, slotCycles_singleton]
  | @slot tally s u v t searched accesses done slots outcome search played _ ih =>
    rw [ticks_append, spent_append, ticks_append, ticks_of_reads fun _ made => search.isRead made,
      List.nil_append, u.ticks_slot, spent_reported, ih, slotCycles_cons]

/-- The clock cycles that a call tells to the host; a run that fails does not tell those of the
slots before the failing one. -/
def HostCall.cycles (call : HostCall β) : Nat :=
  match call.answer with
  | .step (.ok cycles) => cycles
  | .step (.error _) => 0
  | .run (.ok result) => result.cycles
  | .run (.error _) => slotCycles call.slots

/-- A call counts the clock cycles that it tells, and reports them. -/
theorem Makes.cycles_eq {call : HostCall β} (h : Makes s call t) :
    t.cpu.cycles = s.cpu.cycles + call.cycles ∧ spent (ticks call.accesses) = call.cycles := by
  cases h with
  | step =>
    have told : HostCall.cycles ⟨[s], s.accesses, .step s.step.1⟩ = cyclesOf (s.slot 0).1 := by
      rw [HostCall.cycles, step_eq]
      cases (s.slot 0).1 with
      | ok done => rfl
      | error e => rfl
    rw [told, s.ticks_slot, spent_reported]
    exact ⟨s.cycles_slot, rfl⟩
  | @run limit _ _ slots accesses outcome plays =>
    have told : HostCall.cycles ⟨slots, accesses, .run outcome⟩ = slotCycles slots := by
      rw [HostCall.cycles]
      cases outcome with
      | ok result => exact plays.result_cycles.trans (Nat.zero_add _)
      | error e => rfl
    rw [told]
    exact ⟨plays.cycles_eq, plays.spent_ticks⟩

/-- Calls made one after the other, the earliest first. -/
inductive Session : Computer β → List (HostCall β) → Computer β → Prop
  | start (s : Computer β) : Session s [] s
  | call {s t u : Computer β} {call : HostCall β} {calls : List (HostCall β)} :
      Makes s call t → Session t calls u → Session s (call :: calls) u

/-- All that the calls of a session ask of the bus. -/
def sessionAccesses (calls : List (HostCall β)) : List Access := calls.flatMap HostCall.accesses

theorem Session.cycles_eq {calls : List (HostCall β)} (h : Session s calls t) :
    t.cpu.cycles = s.cpu.cycles + spent (ticks (sessionAccesses calls)) ∧
      spent (ticks (sessionAccesses calls)) = spent (calls.map HostCall.cycles) := by
  induction h with
  | start => exact ⟨rfl, rfl⟩
  | @call s t u call calls made _ ih =>
    obtain ⟨counted, told⟩ := made.cycles_eq
    obtain ⟨rest, toldRest⟩ := ih
    rw [sessionAccesses, List.flatMap_cons, ticks_append, spent_append, told, List.map_cons,
      spent_cons, ← toldRest, rest, counted, Nat.add_assoc]
    exact ⟨rfl, rfl⟩

theorem Session.bus_eq {calls : List (HostCall β)} (h : Session s calls t) :
    t.board.bus = (replay (sessionAccesses calls) s.board.bus).state := by
  induction h with
  | start => rfl
  | call made _ ih =>
    rw [ih, made.bus_eq, sessionAccesses, sessionAccesses, List.flatMap_cons, state_replay_append]

end Computer

/-! ### Devices -/

/-- A traced bus records every report. -/
theorem ticks_replay_traced {β : Type} [Device β] (accesses : List Access) (traced : Traced β) :
    ticks (replay accesses traced).state.accesses.toList =
      ticks traced.accesses.toList ++ ticks accesses := by
  induction accesses generalizing traced with
  | nil => exact (List.append_nil _).symm
  | cons access rest ih =>
    rw [state_replay_cons, ih]
    cases access with
    | read address value => simp [Access.operation, Device.read]
    | write address value => simp [Access.operation, Device.write]
    | tick cycles => simp [Access.operation, Device.tick]

section regions
variable {δ : Type} [Device δ]

/-- What an access to a system bus asks of a region. -/
def Region.asked (region : Region) : Access → Option Access
  | .read address value =>
    if route address = .region region (cell address) then some (.read (cell address) value)
    else none
  | .write address value =>
    if route address = .region region (cell address) then some (.write (cell address) value)
    else none
  | .tick cycles => some (.tick cycles)

/-- An access changes a region by what it asks of that region. -/
theorem SystemBus.get_operation (region : Region) (access : Access) (bus : SystemBus δ) :
    (access.operation bus).state.regions.get region =
      (replay (region.asked access).toList (bus.regions.get region)).state := by
  cases access with
  | read address value =>
    refine (get_regions_read address bus region).trans ?_
    rw [Region.asked]
    split
    · rfl
    · rfl
  | write address value =>
    refine (get_regions_write address value bus region).trans ?_
    rw [Region.asked]
    split
    · rfl
    · rfl
  | tick cycles => exact PerRegion.get_visitAll _ bus.regions region

/-- A region is changed by what is asked of it, and by nothing else. -/
theorem SystemBus.get_replay (region : Region) (accesses : List Access) (bus : SystemBus δ) :
    (replay accesses bus).state.regions.get region =
      (replay (accesses.filterMap region.asked) (bus.regions.get region)).state := by
  induction accesses generalizing bus with
  | nil => rfl
  | cons access rest ih =>
    rw [state_replay_cons, ih, get_operation, ← state_replay_append, List.filterMap_cons]
    cases region.asked access with
    | none => rfl
    | some own => rfl

/-- Every report reaches every region. -/
theorem ticks_filterMap_asked (region : Region) (accesses : List Access) :
    ticks (accesses.filterMap region.asked) = ticks accesses := by
  rw [ticks, List.filterMap_filterMap, ticks]
  refine congrArg (List.filterMap · accesses) (funext fun access => ?_)
  cases access with
  | tick cycles => rfl
  | read address value | write address value =>
    rw [Region.asked]
    split
    · rfl
    · rfl

/-- A peripheral stays where it is and is changed by what is asked of its region. -/
theorem replay_peripheral (accesses : List Access) (device : δ) :
    (replay accesses (Backing.peripheral device)).state =
      .peripheral (replay accesses device).state := by
  induction accesses generalizing device with
  | nil => rfl
  | cons access rest ih =>
    rw [state_replay_cons, state_replay_cons, ← ih]
    cases access with
    | read | write | tick => rfl

end regions

namespace Computer

variable {β δ : Type} [Device β] [Device δ]

/-- **Every cycle is reported once.**  The calls of a session are what `step` and `run` compute.
Each slot reports what it takes.  Over the calls of a session, failing ones among them, the reports
add up to the increase of the counter and to what the calls tell.  A traced bus has recorded them
all, and so has every traced device of a system bus, which is still in its region. -/
theorem ticks_of_session :
    (∀ (s t : Computer β) (answer : Answer),
      (∃ slots accesses, Makes s ⟨slots, accesses, answer⟩ t) ↔
        ∃ request, Tells request s answer t) ∧
    (∀ u : Computer β, Clocked u) ∧
    (∀ (s t : Computer β) (calls : List (HostCall β)), Session s calls t →
      t.cpu.cycles = s.cpu.cycles + spent (ticks (sessionAccesses calls)) ∧
        spent (ticks (sessionAccesses calls)) = spent (calls.map HostCall.cycles)) ∧
    (∀ (s t : Computer (Traced β)) (calls : List (HostCall (Traced β))), Session s calls t →
      ticks t.board.bus.accesses.toList =
        ticks s.board.bus.accesses.toList ++ ticks (sessionAccesses calls)) ∧
    ∀ (s t : Computer (SystemBus (Traced δ))) (calls : List (HostCall (SystemBus (Traced δ)))),
      Session s calls t → ∀ region device, s.board.bus.regions.get region = .peripheral device →
        ∃ device', t.board.bus.regions.get region = .peripheral device' ∧
          ticks device'.accesses.toList =
            ticks device.accesses.toList ++ ticks (sessionAccesses calls) ∧
          s.cpu.cycles + spent (ticks device'.accesses.toList) =
            t.cpu.cycles + spent (ticks device.accesses.toList) := by
  refine ⟨fun _ _ _ => exists_makes_iff, clocked, fun _ _ _ session => session.cycles_eq,
    fun s t calls session => ?_, fun s t calls session region device attached => ?_⟩
  · rw [session.bus_eq, ticks_replay_traced]
  · have recorded : ticks
        (replay ((sessionAccesses calls).filterMap region.asked) device).state.accesses.toList =
          ticks device.accesses.toList ++ ticks (sessionAccesses calls) := by
      rw [ticks_replay_traced, ticks_filterMap_asked]
    refine ⟨_, ?_, recorded, ?_⟩
    · rw [session.bus_eq, SystemBus.get_replay, attached, replay_peripheral]
    · obtain ⟨counted, -⟩ := session.cycles_eq
      rw [recorded, spent_append, counted]
      omega

/-- A computer with a traced device for its I/O, and a program that increments and then fails. -/
def timed : Computer (SystemBus (Traced Ram)) :=
  ⟨.boot .zeroed 0,
    { bus := ((SystemBus.ofImage ⟨#[0x3C, 0xD3]⟩ .romOnly 0).attach .io
        (.peripheral ⟨.ofRegion .io, #[]⟩)).state }⟩

/-- A step that succeeds, and after it a run that fails. -/
theorem ticks_of_session_timed : ∃ calls t device, Session timed calls t ∧ calls.length = 2 ∧
    t.cpu.cycles = 4 ∧ t.board.bus.regions.get .io = .peripheral device ∧
      spent (ticks device.accesses.toList) = 4 := by
  have fails : (timed.step.2.slot 0).1.toBool = false := by decide +kernel
  have cycles : (timed.step.2.slot 0).2.cpu.cycles = 4 := by decide +kernel
  rcases played : timed.step.2.slot 0 with ⟨e | done, t⟩
  · rw [played] at cycles
    have run : Plays none {} timed.step.2 _ _ _ _ := .failed (.awake rfl rfl rfl) played
    have session := Session.call (.step timed) (.call (.run run) (.start _))
    obtain ⟨device, attached, -, total⟩ :=
      (@ticks_of_session FlatMemory Ram _ _).2.2.2.2 _ _ _ session .io _ rfl
    rw [cpu_told, cycles] at total
    have start : timed.cpu.cycles = 0 := rfl
    rw [start, Nat.zero_add] at total
    exact ⟨_, _, device, session, rfl, (cpu_told _ _).symm ▸ cycles, attached, total⟩
  · rw [played] at fails
    cases fails

end Computer

end Sm83
