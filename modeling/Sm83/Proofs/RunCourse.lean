import Sm83.Proofs.RunSplit

/-! # The course of a run

Which slots a run plays, and what it asks of the bus, whatever the bus.

* **The search.** `Search limit executed s accesses found t` lists what the search for a reason to
  end can do, each time with its accesses.  The search does one of these (`search_endReason?`), and
  only one (`Search.endReason?_eq`).
* **Courses.** `Plays limit tally s slots accesses outcome t` is a run with the states in which it
  plays its slots, and with all that it asks of the bus, of its searches and of its slots.  The runs
  that return are those with a course (`returns_iff_plays`).
* **Length.** A course takes as much fuel as it has slots, and one more to see that it ends
  (`Plays.runFrom_eq`).
* **Calls.** `Makes s call t` is a step or a run that the host calls for, with the same record, and
  `Serves request s call t` names the request as well.  `Tells request s answer t` is what `step`
  and `run` compute; every call has a record, and one call only (`exists_serves_iff`). -/

namespace Sm83

namespace Computer

variable {β : Type} [Device β] {limit : Option Nat} {executed : Nat} {tally : Tally}
  {s t u : Computer β} {accesses : List Access} {outcome : Except StepError RunResult}

/-! ### The search for a reason to end -/

/-- What the search for a reason to end can do: the accesses that it makes, the reason that it
finds, and the state that it leaves. -/
inductive Search (limit : Option Nat) (executed : Nat) (s : Computer β) :
    List Access → Option RunEnd → Computer β → Prop
  | limitReached (reached : limit.any (· ≤ executed) = true) :
      Search limit executed s [] (some .limitReached) s
  /-- The stop line is seen, and lowered. -/
  | interrupted (left : limit.any (· ≤ executed) = false) (raised : s.board.stopRaised = true) :
      Search limit executed s [] (some .interrupted) (s.close .interrupted)
  /-- The core sleeps, and a poll finds nothing that would wake it. -/
  | asleep (left : limit.any (· ≤ executed) = false) (lowered : s.board.stopRaised = false)
      (asleep : s.cpu.asleep = true) (quiet : s.pending = 0) :
      Search limit executed s (pendingRequests.accesses s.board.bus)
        (some (if s.cpu.stopped then .stopped else .halted)) (s.interact pendingRequests).2
  /-- The core sleeps, and a poll finds something that wakes it. -/
  | woken (left : limit.any (· ≤ executed) = false) (lowered : s.board.stopRaised = false)
      (asleep : s.cpu.asleep = true) (pending : s.pending ≠ 0) :
      Search limit executed s (pendingRequests.accesses s.board.bus) none
        (s.interact pendingRequests).2
  | awake (left : limit.any (· ≤ executed) = false) (lowered : s.board.stopRaised = false)
      (awake : s.cpu.asleep = false) : Search limit executed s [] none s

theorem search_endReason? (limit : Option Nat) (executed : Nat) (s : Computer β) :
    ∃ accesses, Search limit executed s accesses (s.endReason? limit executed).1
      (s.endReason? limit executed).2 := by
  unfold endReason?
  split
  case isTrue reached => exact ⟨[], .limitReached reached⟩
  case isFalse left =>
    rw [Bool.not_eq_true] at left
    split
    case isTrue raised => exact ⟨[], .interrupted left raised⟩
    case isFalse lowered =>
      rw [Bool.not_eq_true] at lowered
      split
      case isTrue asleep =>
        refine ⟨pendingRequests.accesses s.board.bus, ?_⟩
        change Search limit executed s _ (if s.pending = 0 then
          some (if s.cpu.stopped = true then .stopped else .halted) else none)
            (s.interact pendingRequests).2
        by_cases quiet : s.pending = 0
        · rw [if_pos quiet]
          exact .asleep left lowered asleep quiet
        · rw [if_neg quiet]
          exact .woken left lowered asleep quiet
      case isFalse awake => exact ⟨[], .awake left lowered (eq_false_of_ne_true awake)⟩

theorem Search.endReason?_eq {found : Option RunEnd}
    (h : Search limit executed s accesses found t) :
    s.endReason? limit executed = (found, t) := by
  cases h with
  | limitReached reached => simp [endReason?, reached]
  | interrupted left raised => simp [endReason?, left, raised, close]
  | asleep left lowered asleep quiet =>
    rw [endReason?, if_neg (by simp [left]), if_neg (by simp [lowered]), if_pos asleep]
    exact congrArg (·, (s.interact pendingRequests).2) (if_pos quiet)
  | woken left lowered asleep pending =>
    rw [endReason?, if_neg (by simp [left]), if_neg (by simp [lowered]), if_pos asleep]
    exact congrArg (·, (s.interact pendingRequests).2) (if_neg pending)
  | awake left lowered awake => simp [endReason?, left, lowered, awake]

section search
variable {found : Option RunEnd}

theorem Search.cpu_eq (h : Search limit executed s accesses found t) : t.cpu = s.cpu := by
  cases h with
  | limitReached | asleep | woken | awake => rfl
  | interrupted => exact cpu_close s .interrupted

/-- A search only reads. -/
theorem Search.isRead (h : Search limit executed s accesses found t) {access : Access}
    (made : access ∈ accesses) : access.isRead = true := by
  cases h with
  | limitReached | interrupted | awake => cases made
  | asleep | woken =>
    have reads : pendingRequests.Ensures fun accesses _ _ =>
        ∀ access ∈ accesses, access.isRead = true :=
      ensures_pendingRequests.mpr fun _ _ _ polled => isRead_of_mem_pollAccesses polled
    exact reads.run s.board access made

theorem Search.bus_eq (h : Search limit executed s accesses found t) :
    t.board.bus = (replay accesses s.board.bus).state := by
  cases h with
  | limitReached | awake => rfl
  | interrupted => exact bus_close s .interrupted
  | asleep | woken => exact Interaction.bus_run pendingRequests s.board

/-- A search that goes on and the slot after it, together. -/
theorem Search.bus_slot (h : Search limit executed s accesses none u) :
    (u.slot 0).2.board.bus = (replay (accesses ++ u.accesses) s.board.bus).state := by
  rw [Computer.bus_slot, h.bus_eq, state_replay_append]

/-- A search that goes on has found the stop line low. -/
theorem Search.low (h : Search limit executed s accesses none t) :
    s.board.stopRaised = false := by
  cases h with
  | woken _ lowered | awake _ lowered => exact lowered

/-- Only the search that sees the stop line lowers it; a poll may raise it. -/
theorem Search.stopRaised_eq (h : Search limit executed s accesses found t) :
    t.board.stopRaised = ((s.board.stopRaised ||
      (replay accesses s.board.bus).effects.contains .requestStop) &&
        decide (found ≠ some .interrupted)) := by
  cases h with
  | limitReached | awake => simp [replay]
  | interrupted => simp
  | asleep =>
    have polled := Interaction.stopRaised_run pendingRequests s.board
    have exit : some (if s.cpu.stopped = true then RunEnd.stopped else .halted) ≠
        some .interrupted := by
      split <;> simp
    rw [decide_eq_true exit, Bool.and_true]
    exact polled
  | woken =>
    have polled := Interaction.stopRaised_run pendingRequests s.board
    rw [decide_eq_true (by simp), Bool.and_true]
    exact polled

end search

/-! ### Courses of runs -/

/-- A run that has already done what `tally` says: the states in which it plays its slots, what it
asks of the bus, its outcome, and the state that it leaves. -/
inductive Plays (limit : Option Nat) : Tally → Computer β → List (Computer β) → List Access →
    Except StepError RunResult → Computer β → Prop
  | ended {tally : Tally} {s t : Computer β} {searched : List Access} {exit : RunEnd} :
      Search limit tally.instructions s searched (some exit) t →
      Plays limit tally s [] searched (.ok ⟨tally, exit⟩) t
  | failed {tally : Tally} {s u t : Computer β} {searched : List Access} {e : StepError} :
      Search limit tally.instructions s searched none u →
      u.slot tally.instructions = (.error e, t) →
      Plays limit tally s [u] (searched ++ u.accesses) (.error e) (t.told (.error e))
  | slot {tally : Tally} {s u v t : Computer β} {searched accesses : List Access} {done : Slot}
      {slots : List (Computer β)} {outcome : Except StepError RunResult} :
      Search limit tally.instructions s searched none u →
      u.slot tally.instructions = (.ok done, v) →
      Plays limit (tally.add done) v slots accesses outcome t →
      Plays limit tally s (u :: slots) (searched ++ u.accesses ++ accesses) outcome t

theorem RunsTo.exists_plays (h : RunsTo limit tally s outcome t) :
    ∃ slots accesses, Plays limit tally s slots accesses outcome t := by
  induction h with
  | @ended tally s t exit found =>
    obtain ⟨searched, search⟩ := search_endReason? limit tally.instructions s
    rw [found] at search
    exact ⟨_, _, .ended search⟩
  | @failed tally s u t e found played =>
    obtain ⟨searched, search⟩ := search_endReason? limit tally.instructions s
    rw [found] at search
    exact ⟨_, _, .failed search played⟩
  | @slot tally s u v t done outcome found played _ ih =>
    obtain ⟨searched, search⟩ := search_endReason? limit tally.instructions s
    rw [found] at search
    obtain ⟨slots, accesses, rest⟩ := ih
    exact ⟨_, _, .slot search played rest⟩

section plays
variable {slots : List (Computer β)}

theorem Plays.runFrom_eq (h : Plays limit tally s slots accesses outcome t) {fuel : Nat}
    (enough : slots.length < fuel) : runFrom limit fuel tally s = some (outcome, t) := by
  induction h generalizing fuel with
  | ended search =>
    obtain ⟨fuel, rfl⟩ := Nat.exists_eq_add_one_of_ne_zero (Nat.ne_of_gt enough)
    simp [runFrom, search.endReason?_eq]
  | failed search played =>
    obtain ⟨fuel, rfl⟩ := Nat.exists_eq_add_one_of_ne_zero (Nat.ne_of_gt (Nat.zero_lt_of_lt enough))
    simp [runFrom, search.endReason?_eq, played, told]
  | slot search played rest ih =>
    obtain ⟨fuel, rfl⟩ := Nat.exists_eq_add_one_of_ne_zero (Nat.ne_of_gt (Nat.zero_lt_of_lt enough))
    simp [runFrom, search.endReason?_eq, played, ih (Nat.lt_of_succ_lt_succ enough)]

/-- The runs that return are those with a course. -/
theorem returns_iff_plays :
    Returns limit s outcome t ↔ ∃ slots accesses, Plays limit {} s slots accesses outcome t :=
  ⟨fun run => (returns_iff_runsTo.mp run).exists_plays,
    fun ⟨slots, _, plays⟩ => ⟨slots.length + 1, plays.runFrom_eq (Nat.lt_succ_self _)⟩⟩

end plays

/-- A slot of a run is the slot of its state; the number it is given shows in its error only. -/
theorem slot_zero_of_ok {done : Slot} (played : u.slot executed = (.ok done, t)) :
    u.slot 0 = (.ok done, t) :=
  slot_eq_ok_iff.mp played

theorem slot_zero_of_error {e : StepError} (played : u.slot executed = (.error e, t)) :
    u.slot 0 = (.error (e.withExecuted 0), t) :=
  (slot_eq_error_iff.mp played).2

/-- The accesses of a run alone decide the bus that it leaves. -/
theorem Plays.bus_eq {slots : List (Computer β)}
    (h : Plays limit tally s slots accesses outcome t) :
    t.board.bus = (replay accesses s.board.bus).state := by
  induction h with
  | ended search => exact search.bus_eq
  | @failed tally s u t searched e search played =>
    have slot := search.bus_slot
    rw [slot_zero_of_error played] at slot
    rw [bus_told, slot]
  | @slot tally s u v t searched accesses done slots outcome search played _ ih =>
    have slot := search.bus_slot
    rw [slot_zero_of_ok played] at slot
    rw [ih, slot, ← state_replay_append]

/-! ### Calls of the host -/

/-- What the host can call for. -/
inductive Request where
  | step
  | run (limit : Option Nat)
deriving DecidableEq, Repr

/-- What a call of the host tells. -/
inductive Answer where
  | step (outcome : Except StepError Nat)
  | run (outcome : Except StepError RunResult)

/-- A call of the host that has returned: the states in which it played its slots, what it asked of
the bus, and what it told. -/
structure HostCall (β : Type) where
  slots : List (Computer β)
  accesses : List Access
  answer : Answer

/-- The calls that the host can make, with the state that each leaves. -/
inductive Makes : Computer β → HostCall β → Computer β → Prop
  | step (s : Computer β) : Makes s ⟨[s], s.accesses, .step s.step.1⟩ s.step.2
  | run {limit : Option Nat} {s t : Computer β} {slots : List (Computer β)}
      {accesses : List Access} {outcome : Except StepError RunResult} :
      Plays limit {} s slots accesses outcome t → Makes s ⟨slots, accesses, .run outcome⟩ t

/-- A call that the host makes for a request. -/
inductive Serves : Request → Computer β → HostCall β → Computer β → Prop
  | step (s : Computer β) : Serves .step s ⟨[s], s.accesses, .step s.step.1⟩ s.step.2
  | run {limit : Option Nat} {s t : Computer β} {slots : List (Computer β)}
      {accesses : List Access} {outcome : Except StepError RunResult} :
      Plays limit {} s slots accesses outcome t →
      Serves (.run limit) s ⟨slots, accesses, .run outcome⟩ t

/-- What the computer tells the host that makes a request, and the state that it leaves. -/
inductive Tells : Request → Computer β → Answer → Computer β → Prop
  | step (s : Computer β) : Tells .step s (.step s.step.1) s.step.2
  | run {limit : Option Nat} {s t : Computer β} {outcome : Except StepError RunResult} :
      Returns limit s outcome t → Tells (.run limit) s (.run outcome) t

section calls
variable {request : Request} {call : HostCall β} {answer : Answer}

theorem makes_iff_exists_serves : Makes s call t ↔ ∃ request, Serves request s call t := by
  constructor
  · intro made
    cases made with
    | step => exact ⟨.step, .step s⟩
    | run plays => exact ⟨.run _, .run plays⟩
  · rintro ⟨request, served⟩
    cases served with
    | step => exact .step s
    | run plays => exact .run plays

/-- The records of calls are those of what the computer tells. -/
theorem exists_serves_iff :
    (∃ slots accesses, Serves request s ⟨slots, accesses, answer⟩ t) ↔
      Tells request s answer t := by
  constructor
  · rintro ⟨slots, accesses, served⟩
    cases served with
    | step => exact .step s
    | run plays => exact .run (returns_iff_plays.mpr ⟨slots, accesses, plays⟩)
  · intro told
    cases told with
    | step => exact ⟨_, _, .step s⟩
    | run returned =>
      obtain ⟨slots, accesses, plays⟩ := returns_iff_plays.mp returned
      exact ⟨slots, accesses, .run plays⟩

theorem exists_makes_iff :
    (∃ slots accesses, Makes s ⟨slots, accesses, answer⟩ t) ↔
      ∃ request, Tells request s answer t := by
  simp only [makes_iff_exists_serves, ← exists_serves_iff]
  constructor
  · rintro ⟨slots, accesses, request, served⟩
    exact ⟨request, slots, accesses, served⟩
  · rintro ⟨request, slots, accesses, served⟩
    exact ⟨slots, accesses, request, served⟩

/-- The accesses of a call alone decide the bus that it leaves. -/
theorem Makes.bus_eq (h : Makes s call t) :
    t.board.bus = (replay call.accesses s.board.bus).state := by
  cases h with
  | step => exact s.bus_slot
  | run plays => exact plays.bus_eq

end calls

end Computer

end Sm83
