import Sm83.Proofs.Dialogues
import Sm83.Proofs.OperationTraffic

/-! # The trace log

A log that keeps everything is a record of what was executed.

* **Notes.** `t.notes bus` are the events that an interaction adds to the log, each with the one who
  reports it: the core, or a device.  They are what the log grows by (`log_run`).  Those of the core
  are the reports of its path (`filterMap_core?_notes`); those of devices are among the effects of
  the accesses (`filterMap_device?_notes`).
* **Slots.** The core reports at the lowest level when it executes an instruction, and then once
  (`Course.traced_eq`).  The message shows the instruction as a listing does, and the registers as
  they were before (`Shows.of_executed`).
* **Runs.** `s.Noted slots accesses notes t` says what is noted while some slots are played.  It
  composes (`Noted.append`), and so it holds of runs (`Plays.exists_noted`) and of all calls of a
  host (`Session.exists_noted`).
* **Main statement.** `faithful_of_dialogue`: the messages of the core at the lowest level are one
  for each executed instruction, in their order; and the same calls made with another log do the
  same. -/

namespace Sm83

/-! ### Notes -/

/-- The event that an effect reports. -/
def Effect.report? : Effect → Option LogEvent
  | .report event => some event
  | .requestStop => none

/-- An event as it reaches the log, with the one who reports it. -/
inductive Note where
  | core (event : LogEvent)
  | device (event : LogEvent)

namespace Note

/-- The event itself. -/
def event : Note → LogEvent
  | core event | device event => event

/-- The event, if the core reports it. -/
def core? : Note → Option LogEvent
  | core event => some event
  | device _ => none

/-- The event, if a device reports it. -/
def device? : Note → Option LogEvent
  | core _ => none
  | device event => some event

end Note

/-- Whether an event is one of the lowest level. -/
def LogEvent.isTrace (event : LogEvent) : Bool := event.level == .trace

namespace Log

/-- The log after some notes. -/
def addAll (log : Log) (notes : List Note) : Log :=
  notes.foldl (fun log note => log.add note.event) log

theorem addAll_append (log : Log) (first last : List Note) :
    log.addAll (first ++ last) = (log.addAll first).addAll last :=
  List.foldl_append

theorem toList_events_addAll (log : Log) (notes : List Note) :
    (log.addAll notes).events.toList =
      log.events.toList ++ (notes.map Note.event).filter log.keeps := by
  induction notes generalizing log with
  | nil => simp [addAll]
  | cons note rest ih =>
    have same : (log.add note.event).keeps = log.keeps := by
      funext event
      rw [keeps, threshold_add, keeps]
    have added : log.addAll (note :: rest) = (log.add note.event).addAll rest := rfl
    rw [added, ih, toList_events_add, same, List.map_cons, List.filter_cons, List.append_assoc]
    split <;> rfl

/-- A log of the lowest level keeps everything. -/
theorem toList_events_addAll_of_trace {log : Log} (everything : log.threshold = some .trace)
    (notes : List Note) :
    (log.addAll notes).events.toList = log.events.toList ++ notes.map Note.event := by
  have kept : (notes.map Note.event).filter log.keeps = notes.map Note.event := by
    rw [List.filter_eq_self]
    intro event _
    rw [keeps, everything]
    cases event.level <;> rfl
  rw [toList_events_addAll, kept]

end Log

/-- The notes of some effects. -/
def deviceNotes (effects : List Effect) : List Note :=
  (effects.filterMap Effect.report?).map Note.device

theorem Board.log_foldl_absorb {β : Type} (board : Board β) (effects : List Effect) :
    (effects.foldl Board.absorb board).log = board.log.addAll (deviceNotes effects) := by
  induction effects generalizing board with
  | nil => rfl
  | cons effect rest ih =>
    rw [List.foldl_cons, ih]
    cases effect with
    | requestStop => rfl
    | report event => rfl

theorem Board.log_perform {α β : Type} (operation : β → Reply β α) (board : Board β) :
    (board.perform operation).2.log =
      board.log.addAll (deviceNotes (operation board.bus).effects) :=
  Board.log_foldl_absorb _ _

namespace Interaction

variable {α β : Type} [Device β]

/-- What an interaction adds to the log. -/
def notes : Interaction α → β → List Note
  | done _, _ => []
  | read address next, bus =>
    deviceNotes (Device.read address bus).effects ++
      (next (Device.read address bus).value).notes (Device.read address bus).state
  | write address value next, bus =>
    deviceNotes (Device.write address value bus).effects ++
      next.notes (Device.write address value bus).state
  | tick cycles next, bus =>
    deviceNotes (Device.tick cycles bus).effects ++ next.notes (Device.tick cycles bus).state
  | report event next, bus => .core event :: next.notes bus

theorem log_run (t : Interaction α) (board : Board β) :
    (t.run board).2.log = board.log.addAll (t.notes board.bus) := by
  induction t generalizing board with
  | done value => rfl
  | read address next ih =>
    rw [run_read, ih, Board.bus_perform, Board.log_perform, notes, Log.addAll_append]
  | write address value next ih =>
    rw [run_write, ih, Board.bus_perform, Board.log_perform, notes, Log.addAll_append]
  | tick cycles next ih =>
    rw [run_tick, ih, Board.bus_perform, Board.log_perform, notes, Log.addAll_append]
  | report event next ih => exact ih (board.report event)

@[simp] theorem filterMap_core?_deviceNotes (effects : List Effect) :
    (deviceNotes effects).filterMap Note.core? = [] := by
  rw [deviceNotes, List.filterMap_map]
  exact List.filterMap_eq_nil_iff.mpr fun _ _ => rfl

@[simp] theorem filterMap_device?_deviceNotes (effects : List Effect) :
    (deviceNotes effects).filterMap Note.device? = effects.filterMap Effect.report? := by
  rw [deviceNotes, List.filterMap_map]
  exact List.filterMap_some

/-- What the core adds to the log are the reports of its path. -/
theorem filterMap_core?_notes (t : Interaction α) (bus : β) :
    (t.notes bus).filterMap Note.core? = t.reports bus := by
  induction t generalizing bus with
  | done value => rfl
  | read address next ih => simp [notes, reports, ih]
  | write address value next ih => simp [notes, reports, ih]
  | tick cycles next ih => simp [notes, reports, ih]
  | report event next ih => exact congrArg (event :: ·) (ih bus)

/-- What devices add to the log is among the effects of the accesses. -/
theorem filterMap_device?_notes (t : Interaction α) (bus : β) :
    (t.notes bus).filterMap Note.device? =
      (replay (t.accesses bus) bus).effects.filterMap Effect.report? := by
  induction t generalizing bus with
  | done value => rfl
  | read address next ih => simp [notes, accesses, replay, Access.operation, ih]
  | write address value next ih => simp [notes, accesses, replay, Access.operation, ih]
  | tick cycles next ih => simp [notes, accesses, replay, Access.operation, ih]
  | report event next ih => exact ih bus

end Interaction

/-! ### Slots -/

namespace Exec

variable {cpu : Cpu}

/-- What a slot reports at the lowest level. -/
def traced (cpu : Cpu) : Except StepError Slot → List LogEvent
  | .ok (.executed ins _) => [.executing ins cpu.regs]
  | _ => []

theorem Thaw.filter_isTrace {thaw : List Access} {reports : List LogEvent}
    (thawed : Thaw cpu thaw reports) : reports.filter LogEvent.isTrace = [] := by
  cases thawed with
  | running => rfl
  | left => rfl

/-- The core reports at the lowest level just when it executes an instruction. -/
theorem Course.traced_eq {executed : Nat} {accesses : List Access} {reports : List LogEvent}
    {outcome : Except StepError Slot} {after : Cpu}
    (course : Course executed cpu accesses reports outcome after) :
    reports.filter LogEvent.isTrace = traced cpu outcome := by
  cases course with
  | frozen => rfl
  | entered acknowledged thawed =>
    rw [List.filter_append, Thaw.filter_isTrace thawed]
    rfl
  | idled thawed => exact Thaw.filter_isTrace thawed
  | faulted thawed woken masked fetched =>
    have silent := (Instruction.ensures_fetch_encoded _ _ _ _ fetched).1
    rw [silent, List.append_nil]
    exact Thaw.filter_isTrace thawed
  | executed thawed woken masked fetched performed =>
    have silent := (Instruction.ensures_fetch_encoded _ _ _ _ fetched).1
    have reported := (ensures_perform_traffic _ _ _ _ _ _ _ performed).2
    rw [silent, reported, List.filter_append, Thaw.filter_isTrace thawed]
    generalize Instruction.operation _ = op
    cases op <;> rfl

end Exec

/-! ### Messages -/

/-- The line that a log shows for an instruction: where it stands, its text with some blanks behind
it, and the registers. -/
def traceLine (regs : Registers) (text : String) (blanks : Nat) : String :=
  hexWord regs.pc ++ ": " ++ text ++ String.ofList (List.replicate blanks ' ') ++
    " AF=" ++ hexWord (regs.getWord .af) ++ " BC=" ++ hexWord (regs.getWord .bc) ++
    " DE=" ++ hexWord (regs.getWord .de) ++ " HL=" ++ hexWord (regs.getWord .hl) ++
    " SP=" ++ hexWord (regs.getWord .sp)

theorem message_executing {ins : Instruction} {regs : Registers} (here : ins.address = regs.pc) :
    (LogEvent.executing ins regs).message =
      traceLine regs ins.text (18 - ins.text.length) := by
  have shown : (LogEvent.executing ins regs).message =
      hexWord ins.address ++ ": " ++ padRight 18 ins.text ++ " " ++
        LogEvent.registerColumns regs := rfl
  have joined : " AF=" = " " ++ "AF=" := by decide
  rw [shown, here, traceLine, joined]
  simp only [LogEvent.registerColumns, padRight, Registers.getWord, String.append_assoc]

namespace Computer

variable {β : Type} [Device β] {limit : Option Nat} {tally : Tally} {s t u : Computer β}

/-- Whether the next slot executes an instruction. -/
def executesNext (u : Computer β) : Bool :=
  match (u.slot 0).1 with
  | .ok done => done.isExecuted
  | .error _ => false

/-- Whether a message shows the instruction that the next slot executes. -/
structure Shows (u : Computer β) (message : String) : Prop where
  exists_line : ∃ ins cost blanks, (u.slot 0).1 = .ok (.executed ins cost) ∧
    message = traceLine u.cpu.regs ins.text blanks ∧
    ins.text.length + blanks = max 18 ins.text.length ∧
    (QuietReads u.board.bus → ins.text = (listed u.cpu.regs.pc u.board.bus).text)

theorem Shows.of_executed {ins : Instruction} {cost : Nat}
    (executes : (u.slot 0).1 = .ok (.executed ins cost)) :
    u.Shows (LogEvent.executing ins u.cpu.regs).message := by
  have course := u.course_slot
  have answers := u.answers_slot
  rw [executes] at course
  generalize u.accesses = accesses at course answers
  generalize u.reports = reports at course
  generalize (u.slot 0).2.cpu = after at course
  cases course with
  | executed thawed woken masked fetching performed =>
    obtain ⟨-, bytes, -, encoded, -⟩ := Instruction.ensures_fetch_encoded _ _ _ _ fetching
    refine ⟨ins, _, _, executes, message_executing encoded.address_eq, by omega, fun quiet => ?_⟩
    have rest := (thawed.answers_append (quiet.read _) (quiet.read _) answers).2
    have found := fetched_of_path fetching ((answers_append _ _ _).mp rest).1
    rw [listed_eq, found]
    rfl

/-! ### Runs -/

/-- The messages of the core at the lowest level. -/
def traceMessages (notes : List Note) : List String :=
  ((notes.filterMap Note.core?).filter LogEvent.isTrace).map LogEvent.message

/-- What is noted while some slots are played, with these accesses. -/
structure Noted (s : Computer β) (slots : List (Computer β)) (accesses : List Access)
    (notes : List Note) (t : Computer β) : Prop where
  log : t.board.log = s.board.log.addAll notes
  bus : t.board.bus = (replay accesses s.board.bus).state
  /-- Devices report as the accesses make them. -/
  devices : notes.filterMap Note.device? =
    (replay accesses s.board.bus).effects.filterMap Effect.report?
  shown : List.Forall₂ Shows (slots.filter executesNext) (traceMessages notes)
  counted : t.cpu.instructions = s.cpu.instructions + (traceMessages notes).length

namespace Noted

variable {slots slots' : List (Computer β)} {accesses accesses' : List Access}
  {notes notes' : List Note}

theorem refl (s : Computer β) : s.Noted [] [] [] s := ⟨rfl, rfl, rfl, .nil, rfl⟩

theorem append (first : s.Noted slots accesses notes u) (last : u.Noted slots' accesses' notes' t) :
    s.Noted (slots ++ slots') (accesses ++ accesses') (notes ++ notes') t where
  log := by rw [last.log, first.log, Log.addAll_append]
  bus := by rw [last.bus, first.bus, state_replay_append]
  devices := by
    rw [List.filterMap_append, first.devices, last.devices, first.bus, effects_replay_append,
      List.filterMap_append]
  shown := by
    rw [List.filter_append, traceMessages, List.filterMap_append, List.filter_append,
      List.map_append]
    exact List.rel_append first.shown last.shown
  counted := by
    rw [last.counted, first.counted, traceMessages, traceMessages, traceMessages,
      List.filterMap_append, List.filter_append, List.map_append, List.length_append, Nat.add_assoc]

/-- The core reports an event that is not of the lowest level. -/
theorem report {event : LogEvent} (higher : event.isTrace = false)
    (log : t.board.log = s.board.log.add event) (bus : t.board.bus = s.board.bus)
    (counted : t.cpu.instructions = s.cpu.instructions) : s.Noted [] [] [.core event] t := by
  have silent : traceMessages [.core event] = [] := by
    simp [traceMessages, Note.core?, higher]
  exact ⟨log, bus, rfl, silent ▸ .nil, by rw [silent]; exact counted⟩

end Noted

/-- A poll for interrupts, in which only devices report. -/
theorem noted_poll (s : Computer β) : ∃ notes,
    s.Noted [] (pendingRequests.accesses s.board.bus) notes (s.interact pendingRequests).2 := by
  have silent : pendingRequests.Ensures fun _ reports _ => reports = [] :=
    ensures_pendingRequests.mpr fun _ _ => rfl
  have messages : traceMessages (pendingRequests.notes s.board.bus) = [] := by
    rw [traceMessages, Interaction.filterMap_core?_notes, silent.run s.board]
    rfl
  exact ⟨_, pendingRequests.log_run s.board, pendingRequests.bus_run s.board,
    pendingRequests.filterMap_device?_notes _, messages ▸ .nil, by rw [messages]; rfl⟩

theorem Search.exists_noted {executed : Nat} {accesses : List Access} {found : Option RunEnd}
    (h : Search limit executed s accesses found t) : ∃ notes, s.Noted [] accesses notes t := by
  cases h with
  | limitReached | awake => exact ⟨_, .refl s⟩
  | interrupted => exact ⟨_, .report rfl rfl rfl rfl⟩
  | asleep | woken => exact s.noted_poll

theorem instructions_slot (u : Computer β) :
    (u.slot 0).2.cpu.instructions =
      u.cpu.instructions + (Exec.traced u.cpu (u.slot 0).1).length := by
  have counted := exec_of_ensures (Exec.ensures_slot_tally 0 u.cpu)
  change match (u.slot 0).1 with | .ok done => _ | .error _ => _ at counted
  cases outcome : (u.slot 0).1 with
  | error e =>
    rw [outcome] at counted
    exact counted.2
  | ok done =>
    rw [outcome] at counted
    cases done with
    | executed | interrupt | idle => exact counted.2

theorem shows_traced (u : Computer β) :
    List.Forall₂ Shows ([u].filter executesNext)
      ((Exec.traced u.cpu (u.slot 0).1).map LogEvent.message) := by
  have next : u.executesNext = match (u.slot 0).1 with
    | .ok done => done.isExecuted
    | .error _ => false := rfl
  cases outcome : (u.slot 0).1 with
  | error e =>
    rw [outcome] at next
    rw [List.filter_cons_of_neg (by simp [next])]
    exact .nil
  | ok done =>
    rw [outcome] at next
    cases done with
    | executed ins cost =>
      rw [List.filter_cons_of_pos next]
      exact .cons (.of_executed outcome) .nil
    | interrupt | idle =>
      rw [List.filter_cons_of_neg (by simp [next, Slot.isExecuted])]
      exact .nil

/-- A slot is noted if it executes an instruction, and then once. -/
theorem noted_slot (u : Computer β) : ∃ notes, u.Noted [u] u.accesses notes (u.slot 0).2 := by
  let whole := (Exec.slot 0).run u.cpu
  have messages : traceMessages (whole.notes u.board.bus) =
      (Exec.traced u.cpu (u.slot 0).1).map LogEvent.message := by
    rw [traceMessages, Interaction.filterMap_core?_notes]
    exact congrArg _ u.course_slot.traced_eq
  refine ⟨whole.notes u.board.bus, whole.log_run u.board, u.bus_slot,
    whole.filterMap_device?_notes _, ?_, ?_⟩
  · rw [messages]
    exact u.shows_traced
  · rw [messages, List.length_map]
    exact u.instructions_slot

theorem Plays.exists_noted {slots : List (Computer β)} {accesses : List Access}
    {outcome : Except StepError RunResult} (h : Plays limit tally s slots accesses outcome t) :
    ∃ notes, s.Noted slots accesses notes t := by
  induction h with
  | ended search => exact search.exists_noted
  | @failed tally s u t searched e search played =>
    obtain ⟨_, begun⟩ := search.exists_noted
    obtain ⟨_, slot⟩ := u.noted_slot
    rw [slot_zero_of_error played] at slot
    have told : t.Noted [] [] [.core (.runFailed e t.cpu.regs t.cpu.ime)] (t.told (.error e)) :=
      .report rfl rfl rfl rfl
    have whole := (begun.append slot).append told
    rw [List.append_nil, List.append_nil] at whole
    exact ⟨_, whole⟩
  | @slot tally s u v t searched accesses done slots outcome search played _ ih =>
    obtain ⟨_, begun⟩ := search.exists_noted
    obtain ⟨_, slot⟩ := u.noted_slot
    obtain ⟨_, rest⟩ := ih
    rw [slot_zero_of_ok played] at slot
    exact ⟨_, (begun.append slot).append rest⟩

/-! ### Calls -/

theorem Makes.exists_noted {call : HostCall β} (h : Makes s call t) :
    ∃ notes, s.Noted call.slots call.accesses notes t := by
  cases h with
  | step => exact s.noted_slot
  | run plays => exact plays.exists_noted

theorem Session.exists_noted {calls : List (HostCall β)} (h : Session s calls t) :
    ∃ notes, s.Noted (calls.flatMap HostCall.slots) (sessionAccesses calls) notes t := by
  induction h with
  | start => exact ⟨_, .refl _⟩
  | call made _ ih =>
    obtain ⟨_, first⟩ := made.exists_noted
    obtain ⟨_, rest⟩ := ih
    exact ⟨_, first.append rest⟩

/-- A log that keeps everything, as a record of the calls that the host has made. -/
structure Faithful (s : Computer β) (requests : List Request) (calls : List (HostCall β))
    (notes : List Note) (t : Computer β) : Prop where
  /-- What `step` and `run` compute for the requests is what the calls tell. -/
  told : ∀ answers u, Converses s requests answers u ↔
    answers = calls.map HostCall.answer ∧ u = t
  log : t.board.log.events.toList = s.board.log.events.toList ++ notes.map Note.event
  devices : notes.filterMap Note.device? =
    (replay (sessionAccesses calls) s.board.bus).effects.filterMap Effect.report?
  /-- The messages of the core show one executed instruction each, in their order. -/
  shown : List.Forall₂ Shows ((calls.flatMap HostCall.slots).filter executesNext)
    (traceMessages notes)
  counted : t.cpu.instructions = s.cpu.instructions + (traceMessages notes).length
  /-- Where no device reports at the lowest level there are no others. -/
  alone : (∀ event ∈ notes.filterMap Note.device?, event.isTrace = false) →
    ((notes.map Note.event).filter LogEvent.isTrace).map LogEvent.message = traceMessages notes
  /-- With any other log the same requests have one course, and it is the same. -/
  replayed : ∀ s', s.unlogged = s'.unlogged → ∃ others t',
    (∀ calls' u, Dialogue s' requests calls' u ↔ calls' = others ∧ u = t') ∧
      List.Forall₂ HostCall.Alike calls others ∧ t.unlogged = t'.unlogged

theorem filter_isTrace_of_devices {notes : List Note}
    (higher : ∀ event ∈ notes.filterMap Note.device?, event.isTrace = false) :
    (notes.map Note.event).filter LogEvent.isTrace =
      (notes.filterMap Note.core?).filter LogEvent.isTrace := by
  induction notes with
  | nil => rfl
  | cons note rest ih =>
    cases note with
    | core event =>
      have same := ih higher
      change (event :: rest.map Note.event).filter LogEvent.isTrace =
        (event :: rest.filterMap Note.core?).filter LogEvent.isTrace
      rw [List.filter_cons, List.filter_cons, same]
    | device event =>
      obtain ⟨first, others⟩ := List.forall_mem_cons.mp higher
      rw [List.map_cons, List.filter_cons_of_neg (by simp [Note.event, first])]
      exact ih others

/-- **The trace log is faithful**: with a log that keeps everything the messages of the core at the
lowest level are the executed instructions, in their order, as a listing shows them; and with any
other log the same calls do the same.  Whatever `step` and `run` compute for some requests is told
by such calls (`exists_dialogue_iff`). -/
theorem faithful_of_dialogue {requests : List Request} {calls : List (HostCall β)}
    (everything : s.board.log.threshold = some .trace) (h : Dialogue s requests calls t) :
    ∃ notes, s.Faithful requests calls notes t := by
  obtain ⟨notes, noted⟩ := h.session.exists_noted
  refine ⟨notes, fun answers u => ⟨fun conversation => ?_, ?_⟩, ?_, noted.devices, noted.shown,
    noted.counted, fun higher => ?_, fun s' alike => ?_⟩
  · obtain ⟨calls', dialogue, rfl⟩ := exists_dialogue_iff.mpr conversation
    obtain ⟨rfl, rfl⟩ := dialogue.unique h
    exact ⟨rfl, rfl⟩
  · rintro ⟨rfl, rfl⟩
    exact exists_dialogue_iff.mp ⟨calls, h, rfl⟩
  · rw [noted.log, Log.toList_events_addAll_of_trace everything]
  · rw [filter_isTrace_of_devices higher, traceMessages]
  · obtain ⟨others, t', replay, same, left⟩ := h.exists_alike alike
    refine ⟨others, t', fun calls' u => ⟨fun replay' => replay'.unique replay, ?_⟩, same, left⟩
    rintro ⟨rfl, rfl⟩
    exact replay

/-- A computer that logs everything, with two instructions of which the second jumps onto the
first. -/
def logging : Computer (SystemBus Empty) :=
  ⟨.boot .dmg 0, { (ofProgram #[0x3C, 0x18, 0xFD]).board with log := { threshold := some .trace } }⟩

/-- A step, and a run of one instruction. -/
theorem faithful_of_dialogue_logging : ∃ calls notes t,
    Dialogue logging [.step, .run (some 1)] calls t ∧
      logging.Faithful [.step, .run (some 1)] calls notes t ∧
      t.board.log.events.toList.map LogEvent.message =
        ["0000: INC A              AF=01B0 BC=0013 DE=00D8 HL=014D SP=FFFE",
          "0001: JR $0000           AF=0210 BC=0013 DE=00D8 HL=014D SP=FFFE"] := by
  have messages : (logging.step.2.run 2 (some 1)).map
      (fun left => left.2.board.log.events.toList.map LogEvent.message) =
        some ["0000: INC A              AF=01B0 BC=0013 DE=00D8 HL=014D SP=FFFE",
          "0001: JR $0000           AF=0210 BC=0013 DE=00D8 HL=014D SP=FFFE"] := by
    decide +kernel
  obtain ⟨⟨outcome, t⟩, run, shown⟩ := Option.map_eq_some_iff.mp messages
  obtain ⟨slots, accesses, plays⟩ := returns_iff_plays.mp ⟨2, run⟩
  have dialogue := Dialogue.call (.step logging) (.call (.run plays) (.start t))
  obtain ⟨notes, faithful⟩ := faithful_of_dialogue rfl dialogue
  exact ⟨_, notes, t, dialogue, faithful, shown⟩

end Computer

end Sm83
