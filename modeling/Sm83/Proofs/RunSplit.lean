import Sm83.Proofs.Run

/-! # Runs cut in two

A run within a limit can be cut at any number of instructions and gone on with later.

* **The limit.** A limit matters only through the question whether it is reached
  (`endReason?_congr`), and what a run has already done matters only through that question and the
  numbers that it tells.  So a run can be moved to another limit and another tally, as long as the
  question has the same answers (`RunsTo.realign`).
* **Going on.** A run that ends at its limit leaves the state from which a run within a larger limit
  goes on (`RunsTo.resume_iff`).
* **Main statement.** `returns_add`: a run that does not use up its limit is the same within every
  larger one, and one that does is the first part of it; the second part is a run of its own.

Nothing is asked of the bus here: reading it may change it and may raise the stop line. -/

namespace Sm83

/-- The number of instructions that a run tells it executed. -/
def executedBy : Except StepError RunResult → Nat
  | .ok result => result.instructions
  | .error e => e.executed

/-- Whether a run ended because its limit was reached. -/
def endsAtLimit : Except StepError RunResult → Bool
  | .ok result => decide (result.exit = .limitReached)
  | .error _ => false

namespace Tally

/-- What a run that had already done `before` tells, when what it did since then is `later`. -/
def continued (before : Tally) : Except StepError RunResult → Except StepError RunResult
  | .ok later =>
    .ok ⟨⟨before.instructions + later.instructions, before.cycles + later.cycles⟩, later.exit⟩
  | .error e => .error (e.withExecuted (before.instructions + e.executed))

theorem continued_start (later : Except StepError RunResult) :
    ({} : Tally).continued later = later := by
  cases later with
  | ok later => simp [continued]
  | error e => simp [continued, StepError.withExecuted]

theorem continued_add (before : Tally) (done : Slot) (later : Except StepError RunResult) :
    (before.add done).continued later =
      before.continued ((({} : Tally).add done).continued later) := by
  cases later with
  | ok later => simp [continued, add_eq, Nat.add_assoc]
  | error e => simp [continued, add_eq, StepError.withExecuted, Nat.add_assoc]

end Tally

theorem executedBy_continued (before : Tally) (later : Except StepError RunResult) :
    executedBy (before.continued later) = before.instructions + executedBy later := by
  cases later with
  | ok later => rfl
  | error e => rfl

/-- What was reported last can be taken off a log again. -/
theorem Log.add_injective {event : LogEvent} {log log' : Log}
    (h : log.add event = log'.add event) : log = log' := by
  have threshold : log.threshold = log'.threshold := by
    simpa using congrArg Log.threshold h
  have keeps : log.keeps event = log'.keeps event := by rw [Log.keeps, threshold, Log.keeps]
  unfold add at h
  rw [keeps] at h
  split at h
  · have events := Array.push_inj_left.mp (congrArg Log.events h)
    cases log
    cases log'
    congr
  · exact h

namespace Computer

variable {β : Type}

/-- The state with the error of a run reported to the log. -/
def told (s : Computer β) : Except StepError RunResult → Computer β
  | .ok _ => s
  | .error e => s.mapBoard (Board.report (.runFailed e s.cpu.regs s.cpu.ime))

section told
variable (s : Computer β) (outcome : Except StepError RunResult)

@[simp] theorem cpu_told : (s.told outcome).cpu = s.cpu := by
  cases outcome <;> rfl

@[simp] theorem bus_told : (s.told outcome).board.bus = s.board.bus := by
  cases outcome <;> rfl

@[simp] theorem stopRaised_told : (s.told outcome).board.stopRaised = s.board.stopRaised := by
  cases outcome <;> rfl

/-- The report can be taken off again. -/
theorem told_injective {s t : Computer β} {outcome : Except StepError RunResult}
    (h : s.told outcome = t.told outcome) : s = t := by
  cases outcome with
  | ok => exact h
  | error e =>
    have cpu : s.cpu = t.cpu := by simpa using congrArg Computer.cpu h
    have log := congrArg (fun u => u.board.log) h
    refine ext_parts cpu ?_ ?_ (Log.add_injective (log.trans (by rw [cpu]; rfl)))
    · simpa using congrArg (fun u => u.board.bus) h
    · simpa using congrArg (fun u => u.board.stopRaised) h

end told

variable [Device β] {limit limit' : Option Nat} {tally first : Tally} {s t u : Computer β}
  {outcome : Except StepError RunResult}

/-- Whether a run within a limit ends with an outcome and leaves a state.  It ends in one way only
(`Returns.unique`). -/
def Returns (limit : Option Nat) (s : Computer β) (outcome : Except StepError RunResult)
    (t : Computer β) : Prop :=
  ∃ fuel, s.run fuel limit = some (outcome, t)

theorem returns_iff_runsTo : Returns limit s outcome t ↔ RunsTo limit {} s outcome t :=
  exists_run_iff_runsTo

/-! ### The search for a reason to end -/

/-- The search looks at a limit only to see whether it is reached. -/
theorem endReason?_congr {executed executed' : Nat}
    (same : limit.any (· ≤ executed) = limit'.any (· ≤ executed')) (s : Computer β) :
    s.endReason? limit executed = s.endReason? limit' executed' := by
  unfold endReason?
  rw [same]

/-- Two runs that ask whether their limits are reached get the same answers, for as long as they
execute `span` more instructions. -/
def Aligned (span : Nat) (limit limit' : Option Nat) (executed executed' : Nat) : Prop :=
  ∀ j ≤ span, limit.any (· ≤ executed + j) = limit'.any (· ≤ executed' + j)

theorem Aligned.endReason?_eq {span executed executed' : Nat}
    (h : Aligned span limit limit' executed executed') (s : Computer β) :
    s.endReason? limit executed = s.endReason? limit' executed' :=
  endReason?_congr (h 0 (Nat.zero_le span)) s

/-- A search that finds that the limit is reached changes nothing. -/
theorem eq_of_limitReached {executed : Nat}
    (found : s.endReason? limit executed = (some .limitReached, t)) :
    limit.any (· ≤ executed) = true ∧ t = s := by
  unfold endReason? at found
  split at found
  case isTrue reached => exact ⟨reached, (congrArg Prod.snd found).symm⟩
  case isFalse =>
    split at found
    · cases congrArg Prod.fst found
    · split at found
      · have exit := congrArg Prod.fst found
        dsimp only at exit
        split at exit
        · split at exit <;> cases exit
        · cases exit
      · cases congrArg Prod.fst found

/-- A search that finds anything else has seen that the limit is not reached. -/
theorem not_reached_of_ne {executed : Nat}
    (other : (s.endReason? limit executed).1 ≠ some .limitReached) :
    limit.any (· ≤ executed) = false := by
  refine eq_false_of_ne_true fun reached => other ?_
  rw [endReason?, if_pos reached]

theorem not_reached_of_none {executed : Nat} (found : s.endReason? limit executed = (none, t)) :
    limit.any (· ≤ executed) = false := by
  refine not_reached_of_ne (s := s) ?_
  rw [found]
  exact nofun

/-! ### Moving a run -/

/-- A run is determined by its limit, what it has done, and its state. -/
theorem RunsTo.unique {outcome' : Except StepError RunResult} {t' : Computer β}
    (h : RunsTo limit tally s outcome t) (h' : RunsTo limit tally s outcome' t') :
    outcome = outcome' ∧ t = t' := by
  induction h with
  | ended found =>
    cases h' with
    | ended found' => cases found.symm.trans found'; exact ⟨rfl, rfl⟩
    | failed found' | slot found' => cases found.symm.trans found'
  | failed found played =>
    cases h' with
    | ended found' => cases found.symm.trans found'
    | failed found' played' =>
      cases found.symm.trans found'
      cases played.symm.trans played'
      exact ⟨rfl, rfl⟩
    | slot found' played' =>
      cases found.symm.trans found'
      cases played.symm.trans played'
  | slot found played _ ih =>
    cases h' with
    | ended found' => cases found.symm.trans found'
    | failed found' played' =>
      cases found.symm.trans found'
      cases played.symm.trans played'
    | slot found' played' rest =>
      cases found.symm.trans found'
      cases played.symm.trans played'
      exact ih rest

theorem Returns.unique {outcome' : Except StepError RunResult} {t' : Computer β}
    (h : Returns limit s outcome t) (h' : Returns limit s outcome' t') :
    outcome = outcome' ∧ t = t' :=
  (returns_iff_runsTo.mp h).unique (returns_iff_runsTo.mp h')

/-- A run that is moved to another limit and another tally, aligned with its own, does the same and
tells it on top of the other tally. -/
theorem RunsTo.realign (h : RunsTo limit tally s outcome t) :
    ∃ (later : Except StepError RunResult) (v : Computer β),
      outcome = tally.continued later ∧ t = v.told outcome ∧
      ∀ (limit' : Option Nat) (tally' : Tally),
        Aligned (executedBy later) limit limit' tally.instructions tally'.instructions →
        RunsTo limit' tally' s (tally'.continued later) (v.told (tally'.continued later)) := by
  induction h with
  | @ended tally s t exit found =>
    refine ⟨.ok ⟨{}, exit⟩, t, rfl, rfl, fun limit' tally' aligned => ?_⟩
    rw [aligned.endReason?_eq] at found
    exact .ended found
  | @failed tally s u t e found played =>
    obtain ⟨executed, plain⟩ := slot_eq_error_iff.mp played
    have told : Except.error e = tally.continued (.error (e.withExecuted 0)) := by
      simp [Tally.continued, StepError.withExecuted, ← executed]
    refine ⟨.error (e.withExecuted 0), t, told, rfl, fun limit' tally' aligned => ?_⟩
    rw [aligned.endReason?_eq] at found
    exact .failed found (slot_eq_error_iff.mpr ⟨rfl, plain⟩)
  | @slot tally s u v t done outcome found played rest ih =>
    obtain ⟨later, w, rfl, rfl, again⟩ := ih
    refine ⟨(({} : Tally).add done).continued later, w, tally.continued_add done later, rfl,
      fun limit' tally' aligned => ?_⟩
    rw [aligned.endReason?_eq] at found
    rw [← Tally.continued_add]
    refine .slot found (slot_eq_ok_iff.mpr (slot_eq_ok_iff.mp played)) (again limit' _ ?_)
    intro j hj
    have shifted := aligned ((({} : Tally).add done).instructions + j) (by
      rw [executedBy_continued]
      omega)
    simpa [Tally.add_eq, Nat.add_assoc] using shifted

/-- A run from the start that is moved to another limit. -/
theorem RunsTo.relimit (h : RunsTo limit {} s outcome t)
    (aligned : Aligned (executedBy outcome) limit limit' 0 0) : RunsTo limit' {} s outcome t := by
  obtain ⟨later, v, told, rfl, again⟩ := h.realign
  rw [Tally.continued_start] at told
  subst told
  have moved := again limit' {} aligned
  rwa [Tally.continued_start] at moved

/-- A run that does not end at its limit has not reached it. -/
theorem RunsTo.not_reached (h : RunsTo limit tally s outcome t)
    (early : endsAtLimit outcome = false) : limit.any (· ≤ executedBy outcome) = false := by
  induction h with
  | @ended tally s _ _ found =>
    have other : (s.endReason? limit tally.instructions).1 ≠ some .limitReached := by
      rw [found]
      exact fun same => of_decide_eq_false early (Option.some.inj same)
    exact not_reached_of_ne other
  | @failed _ s _ _ _ found played =>
    obtain ⟨executed, -⟩ := slot_eq_error_iff.mp played
    rw [executedBy, executed]
    exact not_reached_of_none found
  | slot _ _ _ ih => exact ih early

/-! ### Going on -/

/-- A run that ends at its limit has executed as many instructions as that. -/
theorem RunsTo.instructions_eq {n : Nat} (within : tally.instructions ≤ n)
    (h : RunsTo (some n) tally s (.ok ⟨first, .limitReached⟩) t) : first.instructions = n := by
  generalize ended : (Except.ok ⟨first, .limitReached⟩ : Except StepError RunResult) = outcome at h
  induction h with
  | ended found =>
    cases ended
    exact Nat.le_antisymm within (of_decide_eq_true (eq_of_limitReached found).1)
  | failed => cases ended
  | @slot tally s u v t done outcome found _ _ ih =>
    have below := of_decide_eq_false (not_reached_of_none found)
    refine ih ?_ ended
    rw [Tally.add]
    dsimp only
    split <;> omega

/-- A run that ends at its limit leaves the state from which runs within larger limits go on. -/
theorem RunsTo.resume_iff (larger : ∀ j, limit.any (· ≤ j) = false → limit'.any (· ≤ j) = false)
    (h : RunsTo limit tally s (.ok ⟨first, .limitReached⟩) t) {whole : Except StepError RunResult} :
    RunsTo limit' tally s whole u ↔ RunsTo limit' first t whole u := by
  generalize ended : (Except.ok ⟨first, .limitReached⟩ : Except StepError RunResult) = outcome at h
  induction h with
  | ended found =>
    cases ended
    rw [(eq_of_limitReached found).2]
  | failed => cases ended
  | @slot tally s v w t done outcome found played _ ih =>
    -- The larger limit is not reached here either, so that the same slot is played.
    have left := not_reached_of_none found
    rw [endReason?_congr (left.trans (larger _ left).symm)] at found
    rw [← ih ended]
    refine ⟨fun run => ?_, .slot found played⟩
    cases run with
    | ended found' => cases found.symm.trans found'
    | failed found' played' =>
      cases found.symm.trans found'
      cases played.symm.trans played'
    | slot found' played' rest =>
      cases found.symm.trans found'
      cases played.symm.trans played'
      exact rest

/-- What a run within a larger limit does after a run that has ended at its limit is a run of its
own, within what is left of the limit. -/
theorem runsTo_continued_iff (first : Tally) (m : Nat) {whole : Except StepError RunResult} :
    RunsTo (some (first.instructions + m)) first s whole u ↔
      ∃ (later : Except StepError RunResult) (v : Computer β),
        RunsTo (some m) {} s later (v.told later) ∧ whole = first.continued later ∧
          u = v.told whole := by
  have reached (j : Nat) : (some (first.instructions + m)).any (· ≤ first.instructions + j) =
      (some m).any (· ≤ 0 + j) := by
    simp
  refine ⟨fun run => ?_, ?_⟩
  · obtain ⟨later, v, told, left, again⟩ := run.realign
    have own := again (some m) {} fun j _ => reached j
    rw [Tally.continued_start] at own
    exact ⟨later, v, own, told, left⟩
  · rintro ⟨later, v, own, rfl, rfl⟩
    obtain ⟨later', w, told, left, again⟩ := own.realign
    rw [Tally.continued_start] at told
    subst told
    rw [told_injective left]
    exact again (some (first.instructions + m)) first fun j _ => (reached j).symm

/-- **Runs cut in two.**  A run that does not end at its limit `n` is the same within `n + m`.  One
that does is the first part of the run within `n + m`: the rest is what a run within `m` does from
there, its counts are added, its exit is the exit, and an error is told with the instructions of
the first part counted in.  A run without a limit is the same within every limit that it does not
reach. -/
theorem returns_add (s : Computer β) (n m : Nat) :
    (∀ outcome t, Returns (some n) s outcome t → endsAtLimit outcome = false →
      Returns (some (n + m)) s outcome t) ∧
    (∀ first t, Returns (some n) s (.ok ⟨first, .limitReached⟩) t → first.instructions = n ∧
      ∀ whole u, Returns (some (n + m)) s whole u ↔
        ∃ (later : Except StepError RunResult) (v : Computer β),
          Returns (some m) t later (v.told later) ∧ whole = first.continued later ∧
            u = v.told whole) ∧
    ∀ outcome t, Returns none s outcome t → ∀ k > executedBy outcome,
      Returns (some k) s outcome t := by
  simp only [returns_iff_runsTo]
  refine ⟨fun outcome t run early => ?_, fun first t run => ?_, fun outcome t run k above => ?_⟩
  · have left : n > executedBy outcome := by simpa using run.not_reached early
    exact run.relimit fun j below => by simp; omega
  · obtain rfl := run.instructions_eq (Nat.zero_le n)
    refine ⟨rfl, fun whole u => ?_⟩
    rw [← runsTo_continued_iff]
    exact run.resume_iff fun j left => by simp at left ⊢; omega
  · exact run.relimit fun j below => by simp; omega

/-- A program that increments twice and ends in the HALT state, stopped after the first
increment. -/
theorem returns_add_increment :
    Returns (some 1) (ofProgram #[0x3C, 0x3C, 0x76]) (.ok ⟨⟨1, 4⟩, .limitReached⟩)
        ((ofProgram #[0x3C, 0x3C, 0x76]).after 1) ∧
      Returns (some 3) ((ofProgram #[0x3C, 0x3C, 0x76]).after 1) (.ok ⟨⟨2, 8⟩, .halted⟩)
        ((ofProgram #[0x3C, 0x3C, 0x76]).after 3) ∧
      Returns (some (1 + 3)) (ofProgram #[0x3C, 0x3C, 0x76]) (.ok ⟨⟨3, 12⟩, .halted⟩)
        ((ofProgram #[0x3C, 0x3C, 0x76]).after 3) := by
  have first : Returns (some 1) (ofProgram #[0x3C, 0x3C, 0x76]) (.ok ⟨⟨1, 4⟩, .limitReached⟩)
      ((ofProgram #[0x3C, 0x3C, 0x76]).after 1) := ⟨2, rfl⟩
  have later : Returns (some 3) ((ofProgram #[0x3C, 0x3C, 0x76]).after 1)
      (.ok ⟨⟨2, 8⟩, .halted⟩) ((ofProgram #[0x3C, 0x3C, 0x76]).after 3) := ⟨3, rfl⟩
  obtain ⟨-, whole⟩ := (returns_add _ 1 3).2.1 _ _ first
  exact ⟨first, later, (whole _ _).mpr ⟨_, _, later, rfl, rfl⟩⟩

end Computer

end Sm83
