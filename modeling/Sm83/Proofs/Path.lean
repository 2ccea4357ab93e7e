import Sm83.Bus.Interaction
import Sm83.Bus.Trace

/-! # Paths through interactions

What an interaction does, seen from the bus and seen from the core.

* **Paths.** `t.Path accesses reports value` says that some way through the tree makes these
  accesses, reports these events and ends with this value.  A read may be answered by any byte, so
  a fact about all paths is a fact about all buses.  `t.Ensures Q` is such a fact; it is computed
  along the tree (`ensures_bind`).
* **Accesses.** `t.accesses bus` lists the accesses that a given bus is asked for.  They form a path
  to the value of the run (`path_run`), the bus gives the answers recorded in them
  (`answers_accesses`) and in no other path (`Path.taken`), and the board after the run is what the
  accesses alone make of it (`bus_run`, `stopRaised_run`).  They are what a traced bus records
  (`accesses_run_traced`).
* **Quiet buses.** A bus with `QuietReads` does not notice being read, so an interaction that only
  reads leaves it as it was (`replay_of_reads`). -/

namespace Sm83

namespace Access

variable {β : Type}

/-- Whether an access is a read. -/
def isRead : Access → Bool
  | read _ _ => true
  | _ => false

/-- Whether an access is a write. -/
def isWrite : Access → Bool
  | write _ _ => true
  | _ => false

/-- The operation on the bus that an access stands for, without its answer. -/
def operation [Device β] : Access → β → Reply β Unit
  | read address _, bus => (Device.read address bus).ignore
  | write address value, bus => Device.write address value bus
  | tick cycles, bus => Device.tick cycles bus

/-- Whether the bus gives the answer that an access records. -/
def AnsweredBy [Device β] (bus : β) : Access → Prop
  | read address value => (Device.read address bus).value = value
  | _ => True

end Access

section bus
variable {β : Type} [Device β]

/-- A list of accesses made one after the other: the state they lead to and all their effects. -/
def replay : List Access → β → Reply β Unit
  | [], bus => ⟨(), bus, []⟩
  | access :: rest, bus =>
    let first := access.operation bus
    let last := replay rest first.state
    ⟨(), last.state, first.effects ++ last.effects⟩

/-- Whether a bus gives all the answers recorded in a list of accesses. -/
def Answers : β → List Access → Prop
  | _, [] => True
  | bus, access :: rest => access.AnsweredBy bus ∧ Answers (access.operation bus).state rest

@[simp] theorem state_replay_nil (bus : β) : (replay [] bus).state = bus := rfl

@[simp] theorem state_replay_cons (access : Access) (rest : List Access) (bus : β) :
    (replay (access :: rest) bus).state = (replay rest (access.operation bus).state).state := rfl

@[simp] theorem answers_nil (bus : β) : Answers bus [] := trivial

@[simp] theorem answers_cons (bus : β) (access : Access) (rest : List Access) :
    Answers bus (access :: rest) ↔
      access.AnsweredBy bus ∧ Answers (access.operation bus).state rest := Iff.rfl

theorem state_replay_append (first last : List Access) (bus : β) :
    (replay (first ++ last) bus).state = (replay last (replay first bus).state).state := by
  induction first generalizing bus with
  | nil => rfl
  | cons access rest ih => simp only [List.cons_append, state_replay_cons, ih]

theorem effects_replay_append (first last : List Access) (bus : β) :
    (replay (first ++ last) bus).effects =
      (replay first bus).effects ++ (replay last (replay first bus).state).effects := by
  induction first generalizing bus with
  | nil => rfl
  | cons access rest ih => simp only [List.cons_append, replay, ih, List.append_assoc]

theorem answers_append (first last : List Access) (bus : β) :
    Answers bus (first ++ last) ↔ Answers bus first ∧ Answers (replay first bus).state last := by
  induction first generalizing bus with
  | nil => simp
  | cons access rest ih =>
    rw [List.cons_append, answers_cons, answers_cons, ih, state_replay_cons, and_assoc]

/-- A bus that does not notice being read. -/
def QuietReads (bus : β) : Prop :=
  ∀ address, ∃ value, Device.read address bus = ⟨value, bus, []⟩

/-- Reads alone leave a quiet bus as it was. -/
theorem replay_of_reads {bus : β} (quiet : QuietReads bus) {accesses : List Access}
    (reads : ∀ access ∈ accesses, access.isRead = true) : replay accesses bus = ⟨(), bus, []⟩ := by
  induction accesses with
  | nil => rfl
  | cons access rest ih =>
    obtain ⟨first, others⟩ := List.forall_mem_cons.mp reads
    cases access with
    | read address value =>
      obtain ⟨answer, read⟩ := quiet address
      simp only [replay, Access.operation, read, Reply.ignore, ih others]
      rfl
    | write address value => cases first
    | tick cycles => cases first

omit [Device β] in
/-- Performing an operation that leaves no trace. -/
theorem Board.perform_quiet {α : Type} {operation : β → Reply β α} {board : Board β} {value : α}
    (quiet : operation board.bus = ⟨value, board.bus, []⟩) :
    board.perform operation = (value, board) := by
  obtain ⟨bus, stopRaised, log⟩ := board
  simp only at quiet
  simp [perform, quiet]

end bus

namespace Interaction

variable {α γ β : Type}

/-! ### Paths -/

/-- One way through a tree: the accesses made on it, the events reported, and the value at its
end. -/
inductive Path : Interaction α → List Access → List LogEvent → α → Prop
  | done (value : α) : Path (done value) [] [] value
  | read {address : UInt16} {next : UInt8 → Interaction α} {accesses : List Access}
      {reports : List LogEvent} {value : α} (byte : UInt8) :
      Path (next byte) accesses reports value →
      Path (read address next) (.read address byte :: accesses) reports value
  | write {address : UInt16} {byte : UInt8} {next : Interaction α} {accesses : List Access}
      {reports : List LogEvent} {value : α} :
      Path next accesses reports value →
      Path (write address byte next) (.write address byte :: accesses) reports value
  | tick {cycles : Nat} {next : Interaction α} {accesses : List Access}
      {reports : List LogEvent} {value : α} :
      Path next accesses reports value →
      Path (tick cycles next) (.tick cycles :: accesses) reports value
  | report {event : LogEvent} {next : Interaction α} {accesses : List Access}
      {reports : List LogEvent} {value : α} :
      Path next accesses reports value →
      Path (report event next) accesses (event :: reports) value

/-- Whether `Q` holds of the accesses, the events and the value of every path. -/
def Ensures (t : Interaction α) (Q : List Access → List LogEvent → α → Prop) : Prop :=
  ∀ accesses reports value, t.Path accesses reports value → Q accesses reports value

section ensures
variable {Q : List Access → List LogEvent → α → Prop}

@[simp] theorem ensures_done (value : α) : (done value).Ensures Q ↔ Q [] [] value := by
  refine ⟨fun h => h _ _ _ (.done value), fun h accesses reports result path => ?_⟩
  cases path
  exact h

@[simp] theorem ensures_pure (value : α) : (pure value : Interaction α).Ensures Q ↔ Q [] [] value :=
  ensures_done value

@[simp] theorem ensures_read (address : UInt16) (next : UInt8 → Interaction α) :
    (read address next).Ensures Q ↔
      ∀ byte, (next byte).Ensures fun accesses => Q (.read address byte :: accesses) := by
  refine ⟨fun h byte accesses reports value path => h _ _ _ (.read byte path),
    fun h accesses reports value path => ?_⟩
  cases path with
  | read byte path => exact h byte _ _ _ path

@[simp] theorem ensures_write (address : UInt16) (byte : UInt8) (next : Interaction α) :
    (write address byte next).Ensures Q ↔
      next.Ensures fun accesses => Q (.write address byte :: accesses) := by
  refine ⟨fun h accesses reports value path => h _ _ _ (.write path),
    fun h accesses reports value path => ?_⟩
  cases path with
  | write path => exact h _ _ _ path

@[simp] theorem ensures_tick (cycles : Nat) (next : Interaction α) :
    (tick cycles next).Ensures Q ↔
      next.Ensures fun accesses => Q (.tick cycles :: accesses) := by
  refine ⟨fun h accesses reports value path => h _ _ _ (.tick path),
    fun h accesses reports value path => ?_⟩
  cases path with
  | tick path => exact h _ _ _ path

@[simp] theorem ensures_report (event : LogEvent) (next : Interaction α) :
    (report event next).Ensures Q ↔
      next.Ensures fun accesses reports => Q accesses (event :: reports) := by
  refine ⟨fun h accesses reports value path => h _ _ _ (.report path),
    fun h accesses reports value path => ?_⟩
  cases path with
  | report path => exact h _ _ _ path

theorem Ensures.mono {R : List Access → List LogEvent → α → Prop} {t : Interaction α}
    (h : t.Ensures Q) (imp : ∀ accesses reports value, Q accesses reports value →
      R accesses reports value) : t.Ensures R :=
  fun accesses reports value path => imp _ _ _ (h accesses reports value path)

/-- Every path is a path. -/
theorem ensures_path (t : Interaction α) : t.Ensures t.Path := fun _ _ _ path => path

/-- What has every property that all paths have is a path. -/
theorem path_of_ensures {t : Interaction α} {accesses : List Access} {reports : List LogEvent}
    {value : α} (h : ∀ Q, t.Ensures Q → Q accesses reports value) :
    t.Path accesses reports value :=
  h _ t.ensures_path

end ensures

/-- A path through a composed tree is a path through its first part followed by one through the
second. -/
@[simp] theorem ensures_bind (t : Interaction α) (f : α → Interaction γ)
    {Q : List Access → List LogEvent → γ → Prop} :
    (t >>= f).Ensures Q ↔ t.Ensures fun accesses reports value =>
      (f value).Ensures fun accesses' reports' =>
        Q (accesses ++ accesses') (reports ++ reports') := by
  change (t.bind f).Ensures Q ↔ _
  induction t generalizing Q with
  | done value => simp only [bind, ensures_done, List.nil_append]
  | read address next ih => simp only [bind, ensures_read, ih, List.cons_append]
  | write address byte next ih => simp only [bind, ensures_write, ih, List.cons_append]
  | tick cycles next ih => simp only [bind, ensures_tick, ih, List.cons_append]
  | report event next ih => simp only [bind, ensures_report, ih, List.cons_append]

@[simp] theorem ensures_map (f : α → γ) (t : Interaction α)
    {Q : List Access → List LogEvent → γ → Prop} :
    (f <$> t).Ensures Q ↔
      t.Ensures fun accesses reports value => Q accesses reports (f value) := by
  rw [map_eq_pure_bind, ensures_bind]
  simp only [ensures_pure, List.append_nil]

/-! ### The path that a bus leads along -/

section run
variable [Device β]

/-- The accesses that a bus is asked for. -/
def accesses : Interaction α → β → List Access
  | done _, _ => []
  | read address next, bus =>
    .read address (Device.read address bus).value ::
      (next (Device.read address bus).value).accesses (Device.read address bus).state
  | write address value next, bus =>
    .write address value :: next.accesses (Device.write address value bus).state
  | tick cycles next, bus => .tick cycles :: next.accesses (Device.tick cycles bus).state
  | report _ next, bus => next.accesses bus

/-- The events reported when the tree is played on a bus, those of its devices apart. -/
def reports : Interaction α → β → List LogEvent
  | done _, _ => []
  | read address next, bus =>
    (next (Device.read address bus).value).reports (Device.read address bus).state
  | write address value next, bus => next.reports (Device.write address value bus).state
  | tick cycles next, bus => next.reports (Device.tick cycles bus).state
  | report event next, bus => event :: next.reports bus

theorem run_read (address : UInt16) (next : UInt8 → Interaction α) (board : Board β) :
    (read address next).run board =
      (next (Device.read address board.bus).value).run (board.perform (Device.read address)).2 :=
  rfl

theorem run_write (address : UInt16) (value : UInt8) (next : Interaction α) (board : Board β) :
    (write address value next).run board =
      next.run (board.perform (Device.write address value)).2 := rfl

theorem run_tick (cycles : Nat) (next : Interaction α) (board : Board β) :
    (tick cycles next).run board = next.run (board.perform (Device.tick cycles)).2 := rfl

theorem run_report (event : LogEvent) (next : Interaction α) (board : Board β) :
    (report event next).run board = next.run (board.report event) := rfl

theorem run_map (f : α → γ) (t : Interaction α) (board : Board β) :
    (f <$> t).run board = (f (t.run board).1, (t.run board).2) := by
  rw [map_eq_pure_bind, run_bind]
  rfl

theorem path_run (t : Interaction α) (board : Board β) :
    t.Path (t.accesses board.bus) (t.reports board.bus) (t.run board).1 := by
  induction t generalizing board with
  | done value => exact .done value
  | read address next ih =>
    have path := ih (Device.read address board.bus).value (board.perform (Device.read address)).2
    rw [Board.bus_perform] at path
    exact .read _ path
  | write address value next ih =>
    have path := ih (board.perform (Device.write address value)).2
    rw [Board.bus_perform] at path
    exact .write path
  | tick cycles next ih =>
    have path := ih (board.perform (Device.tick cycles)).2
    rw [Board.bus_perform] at path
    exact .tick path
  | report event next ih => exact .report (ih (board.report event))

/-- What holds of every path holds of every run. -/
theorem Ensures.run {Q : List Access → List LogEvent → α → Prop} {t : Interaction α}
    (h : t.Ensures Q) (board : Board β) :
    Q (t.accesses board.bus) (t.reports board.bus) (t.run board).1 :=
  h _ _ _ (t.path_run board)

theorem answers_accesses (t : Interaction α) (bus : β) : Answers bus (t.accesses bus) := by
  induction t generalizing bus with
  | done value => trivial
  | read address next ih => exact ⟨rfl, ih _ _⟩
  | write address value next ih => exact ⟨trivial, ih _⟩
  | tick cycles next ih => exact ⟨trivial, ih _⟩
  | report event next ih => exact ih bus

/-- A bus that gives the answers recorded along a path leads along it. -/
theorem Path.taken {t : Interaction α} {accesses : List Access}
    {reports : List LogEvent} {value : α} (path : t.Path accesses reports value) {board : Board β}
    (answers : Answers board.bus accesses) :
    t.accesses board.bus = accesses ∧ t.reports board.bus = reports ∧
      (t.run board).1 = value := by
  induction path generalizing board with
  | done value => exact ⟨rfl, rfl, rfl⟩
  | @read address next accesses reports value byte path ih =>
    obtain ⟨given, rest⟩ := answers
    obtain rfl : (Device.read address board.bus).value = byte := given
    obtain ⟨made, reported, result⟩ := @ih (board.perform (Device.read address)).2
      (by rw [Board.bus_perform]; exact rest)
    rw [Board.bus_perform] at made reported
    exact ⟨congrArg _ made, reported, result⟩
  | @write address value next accesses reports result path ih =>
    obtain ⟨made, reported, result⟩ := @ih (board.perform (Device.write address value)).2
      (by rw [Board.bus_perform]; exact answers.2)
    rw [Board.bus_perform] at made reported
    exact ⟨congrArg _ made, reported, result⟩
  | @tick cycles next accesses reports result path ih =>
    obtain ⟨made, reported, result⟩ := @ih (board.perform (Device.tick cycles)).2
      (by rw [Board.bus_perform]; exact answers.2)
    rw [Board.bus_perform] at made reported
    exact ⟨congrArg _ made, reported, result⟩
  | @report event next accesses reports result path ih =>
    obtain ⟨made, reported, result⟩ := @ih (board.report event) answers
    exact ⟨made, congrArg _ reported, result⟩

/-- The accesses alone decide the state that the bus is left in. -/
theorem bus_run (t : Interaction α) (board : Board β) :
    (t.run board).2.bus = (replay (t.accesses board.bus) board.bus).state := by
  induction t generalizing board with
  | done value => rfl
  | read address next ih => rw [run_read, ih, Board.bus_perform]; rfl
  | write address value next ih => rw [run_write, ih, Board.bus_perform]; rfl
  | tick cycles next ih => rw [run_tick, ih, Board.bus_perform]; rfl
  | report event next ih => rw [run_report, ih, Board.bus_report]; rfl

/-- The stop line is raised by devices that are accessed, and by nothing else. -/
theorem stopRaised_run (t : Interaction α) (board : Board β) :
    (t.run board).2.stopRaised = (board.stopRaised ||
      (replay (t.accesses board.bus) board.bus).effects.contains .requestStop) := by
  induction t generalizing board with
  | done value => exact (Bool.or_false _).symm
  | read address next ih =>
    rw [run_read, ih, Board.bus_perform, Board.stopRaised_perform, Bool.or_assoc,
      ← List.contains_append]
    rfl
  | write address value next ih =>
    rw [run_write, ih, Board.bus_perform, Board.stopRaised_perform, Bool.or_assoc,
      ← List.contains_append]
    rfl
  | tick cycles next ih =>
    rw [run_tick, ih, Board.bus_perform, Board.stopRaised_perform, Bool.or_assoc,
      ← List.contains_append]
    rfl
  | report event next ih => rw [run_report, ih, Board.stopRaised_report, Board.bus_report]; rfl

/-- An interaction that only reads a quiet bus does no more than report its events. -/
theorem run_of_reads (t : Interaction α) {board : Board β} (quiet : QuietReads board.bus)
    (reads : ∀ access ∈ t.accesses board.bus, access.isRead = true) :
    (t.run board).2 =
      (t.reports board.bus).foldl (fun board event => board.report event) board := by
  induction t generalizing board with
  | done value => rfl
  | read address next ih =>
    obtain ⟨value, read⟩ := quiet address
    have same : board.perform (Device.read address) = (value, board) := Board.perform_quiet read
    rw [accesses, read] at reads
    rw [run_read, same, read, reports, read]
    exact ih value quiet (List.forall_mem_cons.mp reads).2
  | write address value next ih => cases (List.forall_mem_cons.mp reads).1
  | tick cycles next ih => cases (List.forall_mem_cons.mp reads).1
  | report event next ih => exact ih quiet reads

/-- A traced bus records the accesses that the bus inside is asked for. -/
theorem accesses_run_traced (t : Interaction α) (board : Board (Traced β)) :
    (t.run board).2.bus.accesses.toList =
      board.bus.accesses.toList ++ t.accesses board.bus.bus := by
  induction t generalizing board with
  | done value => exact (List.append_nil _).symm
  | read address next ih =>
    rw [run_read, ih, Board.bus_perform]
    simp [Device.read, accesses]
  | write address value next ih =>
    rw [run_write, ih, Board.bus_perform]
    simp [Device.write, accesses]
  | tick cycles next ih =>
    rw [run_tick, ih, Board.bus_perform]
    simp [Device.tick, accesses]
  | report event next ih => rw [run_report, ih, Board.bus_report]; rfl

end run

end Interaction

end Sm83
