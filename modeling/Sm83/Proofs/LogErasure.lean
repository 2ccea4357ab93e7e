import Sm83.Proofs.RunCourse

/-! # Erasing the log

Nothing looks at the log, so everything can be done without one.

* **Erasure.** `s.unlogged` is a computer whose log is empty and keeps nothing.  What is done to it
  is what is done to `s`, with the log erased: an operation on the bus (`Board.perform_unlogged`),
  an interaction (`Interaction.run_unlogged`), a slot (`slot_unlogged`) and a run (`run_unlogged`).
* **Courses.** The course of a run can be erased (`Plays.unlogged`).  A run has only one
  (`Plays.unique`).
* **Alike.** Two computers are alike if they are the same with their logs erased.  A run from one of
  them is a run from the other, with the same accesses and the same outcome, through states that are
  alike (`Plays.exists_alike`). -/

namespace Sm83

/-! ### Boards -/

namespace Board

variable {α β : Type}

/-- The board with an empty log that keeps nothing. -/
def unlogged (board : Board β) : Board β := { board with log := {} }

@[simp] theorem unlogged_report (event : LogEvent) (board : Board β) :
    (board.report event).unlogged = board.unlogged := rfl

@[simp] theorem report_unlogged (event : LogEvent) (board : Board β) :
    board.unlogged.report event = board.unlogged := rfl

theorem absorb_unlogged (board : Board β) (effect : Effect) :
    board.unlogged.absorb effect = (board.absorb effect).unlogged := by
  cases effect <;> rfl

theorem foldl_absorb_unlogged (board : Board β) (effects : List Effect) :
    effects.foldl absorb board.unlogged = (effects.foldl absorb board).unlogged := by
  induction effects generalizing board with
  | nil => rfl
  | cons effect rest ih => rw [List.foldl_cons, absorb_unlogged, ih, List.foldl_cons]

theorem perform_unlogged (operation : β → Reply β α) (board : Board β) :
    board.unlogged.perform operation =
      ((board.perform operation).1, (board.perform operation).2.unlogged) := by
  obtain ⟨bus, stopRaised, log⟩ := board
  exact Prod.ext rfl (foldl_absorb_unlogged ⟨(operation bus).state, stopRaised, log⟩ _)

end Board

theorem Interaction.run_unlogged {α β : Type} [Device β] (t : Interaction α) (board : Board β) :
    t.run board.unlogged = ((t.run board).1, (t.run board).2.unlogged) := by
  induction t generalizing board with
  | done value => rfl
  | read address next ih =>
    rw [run_read, Board.perform_unlogged, run_read]
    exact ih _ _
  | write address value next ih =>
    rw [run_write, Board.perform_unlogged, run_write]
    exact ih _
  | tick cycles next ih =>
    rw [run_tick, Board.perform_unlogged, run_tick]
    exact ih _
  | report event next ih =>
    rw [run_report, Board.report_unlogged, run_report, ← Board.unlogged_report event]
    exact ih _

/-! ### Computers -/

namespace Computer

variable {α β : Type} {limit : Option Nat} {executed : Nat} {tally : Tally} {s t s' t' : Computer β}

/-- The computer with an empty log that keeps nothing. -/
def unlogged (s : Computer β) : Computer β := s.mapBoard Board.unlogged

@[simp] theorem cpu_unlogged (s : Computer β) : s.unlogged.cpu = s.cpu := rfl

theorem close_unlogged (s : Computer β) (exit : RunEnd) :
    s.unlogged.close exit = (s.close exit).unlogged := by
  cases exit <;> rfl

/-- What computers have in common that are alike. -/
theorem unlogged_eq_iff : s.unlogged = t.unlogged ↔
    s.cpu = t.cpu ∧ s.board.bus = t.board.bus ∧ s.board.stopRaised = t.board.stopRaised := by
  refine ⟨fun alike => ⟨congrArg (·.cpu) alike, congrArg (·.board.bus) alike,
    congrArg (·.board.stopRaised) alike⟩, ?_⟩
  rintro ⟨cpu, bus, stop⟩
  exact ext_parts cpu bus stop rfl

variable [Device β]

theorem interact_unlogged (t : Interaction α) (s : Computer β) :
    s.unlogged.interact t = ((s.interact t).1, (s.interact t).2.unlogged) := by
  obtain ⟨cpu, board⟩ := s
  simp only [interact, unlogged, mapBoard, t.run_unlogged board]

theorem exec_unlogged (program : Exec α) (s : Computer β) :
    s.unlogged.exec program = ((s.exec program).1, (s.exec program).2.unlogged) := by
  obtain ⟨cpu, board⟩ := s
  simp only [exec, unlogged, mapBoard, (program.run cpu).run_unlogged board]

theorem slot_unlogged (executed : Nat) (s : Computer β) :
    s.unlogged.slot executed = ((s.slot executed).1, (s.slot executed).2.unlogged) :=
  exec_unlogged _ s

theorem step_unlogged (s : Computer β) :
    s.unlogged.step = (s.step.1, s.step.2.unlogged) := by
  rw [step_eq, step_eq, slot_unlogged]

@[simp] theorem accesses_unlogged (s : Computer β) : s.unlogged.accesses = s.accesses := rfl

theorem pending_unlogged (s : Computer β) : s.unlogged.pending = s.pending := by
  rw [pending, interact_unlogged, pending]

/-! ### Courses -/

theorem Search.unlogged {accesses : List Access} {found : Option RunEnd}
    (h : Search limit executed s accesses found t) :
    Search limit executed s.unlogged accesses found t.unlogged := by
  have polled : (s.interact pendingRequests).2.unlogged =
      (s.unlogged.interact pendingRequests).2 := by
    rw [interact_unlogged]
  cases h with
  | limitReached reached => exact .limitReached reached
  | interrupted left raised =>
    rw [← close_unlogged]
    exact .interrupted left raised
  | asleep left lowered asleep quiet =>
    rw [polled]
    exact .asleep left lowered asleep (s.pending_unlogged.trans quiet)
  | woken left lowered asleep pending =>
    rw [polled]
    exact .woken left lowered asleep (s.pending_unlogged ▸ pending)
  | awake left lowered awake => exact .awake left lowered awake

theorem endReason?_unlogged (limit : Option Nat) (executed : Nat) (s : Computer β) :
    s.unlogged.endReason? limit executed =
      ((s.endReason? limit executed).1, (s.endReason? limit executed).2.unlogged) := by
  obtain ⟨accesses, search⟩ := search_endReason? limit executed s
  exact search.unlogged.endReason?_eq

theorem runFrom_unlogged (limit : Option Nat) (fuel : Nat) (tally : Tally) (s : Computer β) :
    runFrom limit fuel tally s.unlogged =
      (runFrom limit fuel tally s).map fun left => (left.1, left.2.unlogged) := by
  induction fuel generalizing tally s with
  | zero => rfl
  | succ fuel ih =>
    rw [runFrom, runFrom, endReason?_unlogged]
    rcases s.endReason? limit tally.instructions with ⟨_ | exit, u⟩
    · dsimp only
      rw [slot_unlogged]
      rcases u.slot tally.instructions with ⟨e | done, v⟩
      · rfl
      · exact ih _ _
    · rfl

theorem run_unlogged (fuel : Nat) (limit : Option Nat) (s : Computer β) :
    s.unlogged.run fuel limit =
      (s.run fuel limit).map fun left => (left.1, left.2.unlogged) :=
  runFrom_unlogged limit fuel {} s

section plays
variable {slots slots' : List (Computer β)} {accesses accesses' : List Access}
  {outcome outcome' : Except StepError RunResult}

theorem Plays.unlogged (h : Plays limit tally s slots accesses outcome t) :
    Plays limit tally s.unlogged (slots.map Computer.unlogged) accesses outcome t.unlogged := by
  induction h with
  | ended search => exact .ended search.unlogged
  | @failed tally s u t searched e search played =>
    have slot := u.slot_unlogged tally.instructions
    rw [played] at slot
    exact .failed search.unlogged slot
  | @slot tally s u v t searched accesses done slots outcome search played _ ih =>
    have slot := u.slot_unlogged tally.instructions
    rw [played] at slot
    exact .slot search.unlogged slot ih

/-- A search polls when it meets neither the limit nor a raised stop line, and the core sleeps. -/
theorem Search.accesses_eq {found : Option RunEnd} (h : Search limit executed s accesses found t) :
    accesses =
      if limit.any (· ≤ executed) || s.board.stopRaised || !s.cpu.asleep then []
      else pendingRequests.accesses s.board.bus := by
  cases h with
  | limitReached reached =>
    rw [reached]
    rfl
  | interrupted left raised =>
    rw [left, raised]
    rfl
  | asleep left lowered asleep | woken left lowered asleep =>
    rw [left, lowered, asleep]
    rfl
  | awake left lowered awake =>
    rw [left, lowered, awake]
    rfl

theorem Search.unique {found found' : Option RunEnd}
    (h : Search limit executed s accesses found t)
    (h' : Search limit executed s accesses' found' t') :
    accesses = accesses' ∧ found = found' ∧ t = t' := by
  have same := h.endReason?_eq.symm.trans h'.endReason?_eq
  exact ⟨h.accesses_eq.trans h'.accesses_eq.symm, congrArg Prod.fst same, congrArg Prod.snd same⟩

/-- A run has only one course. -/
theorem Plays.unique (h : Plays limit tally s slots accesses outcome t)
    (h' : Plays limit tally s slots' accesses' outcome' t') :
    slots = slots' ∧ accesses = accesses' ∧ outcome = outcome' ∧ t = t' := by
  induction h generalizing slots' accesses' with
  | ended search =>
    cases h' with
    | ended other =>
      obtain ⟨rfl, exit, rfl⟩ := search.unique other
      obtain rfl := Option.some.inj exit
      exact ⟨rfl, rfl, rfl, rfl⟩
    | failed other | slot other => cases (search.unique other).2.1
  | failed search played =>
    cases h' with
    | ended other => cases (search.unique other).2.1
    | failed other played' =>
      obtain ⟨rfl, -, rfl⟩ := search.unique other
      obtain ⟨told, rfl⟩ := Prod.mk.inj (played.symm.trans played')
      obtain rfl := Except.error.inj told
      exact ⟨rfl, rfl, rfl, rfl⟩
    | slot other played' =>
      obtain ⟨rfl, -, rfl⟩ := search.unique other
      cases played.symm.trans played'
  | slot search played _ ih =>
    cases h' with
    | ended other => cases (search.unique other).2.1
    | failed other played' =>
      obtain ⟨rfl, -, rfl⟩ := search.unique other
      cases played.symm.trans played'
    | slot other played' rest =>
      obtain ⟨rfl, -, rfl⟩ := search.unique other
      obtain ⟨told, rfl⟩ := Prod.mk.inj (played.symm.trans played')
      obtain rfl := Except.ok.inj told
      obtain ⟨rfl, rfl, rfl, rfl⟩ := ih rest
      exact ⟨rfl, rfl, rfl, rfl⟩

/-- **The log is not looked at**: a run has a course from each of two computers that are alike, and
the courses differ in the logs only. -/
theorem Plays.exists_alike (alike : s.unlogged = s'.unlogged)
    (h : Plays limit tally s slots accesses outcome t) :
    ∃ slots' t', Plays limit tally s' slots' accesses outcome t' ∧
      slots.map Computer.unlogged = slots'.map Computer.unlogged ∧ t.unlogged = t'.unlogged := by
  have erased := h.unlogged
  have returned := runFrom_unlogged limit (slots.length + 1) tally s'
  rw [alike] at erased
  rw [erased.runFrom_eq (by simp)] at returned
  obtain ⟨⟨outcome', t'⟩, run, -⟩ := Option.map_eq_some_iff.mp returned.symm
  obtain ⟨slots', accesses', other⟩ := (RunsTo.of_runFrom run).exists_plays
  obtain ⟨slots, rfl, rfl, left⟩ := erased.unique other.unlogged
  exact ⟨slots', t', other, slots, left⟩

end plays

end Computer

end Sm83
