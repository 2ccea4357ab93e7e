import Sm83.Proofs.RunEnd

/-! # Runs as repeated steps

A run is single steps, one after the other, up to the first state that gives a reason to end.

* **Without fuel.** `RunsTo limit tally s outcome t` is the run as a relation; some fuel is enough
  for a run if and only if the relation holds (`exists_run_iff_runsTo`).
* **Unrolling.** `Unrolls limit s k costs tally` says that `k` steps from `s` succeed with these
  costs, that `tally` counts them, and that none of the states they are made in gives a reason to
  end.  It grows by one step at a time (`Unrolls.next`), and a run keeps it.
* **Main statement.** `exists_run_iff`: a run returns a result if and only if it unrolls to steps
  up to a state in which the exit of the result is the first reason that is due, and an error if
  and only if it unrolls to steps up to one that fails. -/

namespace Sm83

theorem Tally.add_eq (tally : Tally) (done : Slot) :
    tally.add done = ⟨tally.instructions + (if done.isExecuted then 1 else 0),
      tally.cycles + done.cycles⟩ := by
  rw [Tally.add]
  split
  · rfl
  · rfl

namespace Computer

variable {β : Type} [Device β]

/-! ### Runs without fuel -/

/-- A run that has already done what `tally` says, with its outcome and the state it leaves. -/
inductive RunsTo (limit : Option Nat) :
    Tally → Computer β → Except StepError RunResult → Computer β → Prop
  | ended {tally : Tally} {s t : Computer β} {exit : RunEnd} :
      s.endReason? limit tally.instructions = (some exit, t) →
      RunsTo limit tally s (.ok ⟨tally, exit⟩) t
  | failed {tally : Tally} {s u t : Computer β} {e : StepError} :
      s.endReason? limit tally.instructions = (none, u) →
      u.slot tally.instructions = (.error e, t) →
      RunsTo limit tally s (.error e)
        (t.mapBoard (Board.report (.runFailed e t.cpu.regs t.cpu.ime)))
  | slot {tally : Tally} {s u v t : Computer β} {done : Slot}
      {outcome : Except StepError RunResult} :
      s.endReason? limit tally.instructions = (none, u) →
      u.slot tally.instructions = (.ok done, v) →
      RunsTo limit (tally.add done) v outcome t → RunsTo limit tally s outcome t

theorem RunsTo.of_runFrom {limit : Option Nat} {fuel : Nat} {tally : Tally} {s t : Computer β}
    {outcome : Except StepError RunResult} (h : runFrom limit fuel tally s = some (outcome, t)) :
    RunsTo limit tally s outcome t := by
  induction fuel generalizing tally s with
  | zero => cases h
  | succ fuel ih =>
    rw [runFrom] at h
    rcases found : s.endReason? limit tally.instructions with ⟨_ | exit, u⟩
    · simp only [found] at h
      rcases played : u.slot tally.instructions with ⟨e | done, v⟩
      · simp only [played] at h
        cases h
        exact .failed found played
      · simp only [played] at h
        exact .slot found played (ih h)
    · simp only [found] at h
      cases h
      exact .ended found

theorem RunsTo.exists_runFrom {limit : Option Nat} {tally : Tally} {s t : Computer β}
    {outcome : Except StepError RunResult} (h : RunsTo limit tally s outcome t) :
    ∃ fuel, runFrom limit fuel tally s = some (outcome, t) := by
  induction h with
  | ended found => exact ⟨1, by simp [runFrom, found]⟩
  | failed found played => exact ⟨1, by simp [runFrom, found, played]⟩
  | slot found played _ ih =>
    obtain ⟨fuel, rest⟩ := ih
    exact ⟨fuel + 1, by simp [runFrom, found, played, rest]⟩

/-- Some fuel is enough for a run if and only if the run ends. -/
theorem exists_run_iff_runsTo {limit : Option Nat} {s t : Computer β}
    {outcome : Except StepError RunResult} :
    (∃ fuel, s.run fuel limit = some (outcome, t)) ↔ RunsTo limit {} s outcome t :=
  ⟨fun ⟨_, h⟩ => .of_runFrom h, fun h => h.exists_runFrom⟩

/-! ### Unrolling a run -/

/-- The beginning of a run within `limit` from `s`: its first `k` steps. -/
structure Unrolls (limit : Option Nat) (s : Computer β) (k : Nat) (costs : List Nat)
    (tally : Tally) : Prop where
  /-- The steps succeed, and tell these clock cycles. -/
  results : s.results k = costs.map .ok
  cycles : tally.cycles = spent costs
  cpu_cycles : (s.after k).cpu.cycles = s.cpu.cycles + tally.cycles
  cpu_instructions : (s.after k).cpu.instructions = s.cpu.instructions + tally.instructions
  within : ∀ l ∈ limit, tally.instructions ≤ l
  /-- No state in which one of the steps is made gives a reason to end. -/
  undue : ∀ j < k, ∀ exit,
    ¬ (s.after j).Due limit ((s.after j).cpu.instructions - s.cpu.instructions) exit

theorem Unrolls.start (limit : Option Nat) (s : Computer β) : Unrolls limit s 0 [] {} where
  results := rfl
  cycles := rfl
  cpu_cycles := rfl
  cpu_instructions := rfl
  within _ _ := Nat.zero_le _
  undue j before := absurd before (Nat.not_lt_zero j)

section unrolls
variable {limit : Option Nat} {s : Computer β} {k : Nat} {costs : List Nat} {tally : Tally}

theorem Unrolls.executed (h : Unrolls limit s k costs tally) :
    (s.after k).cpu.instructions - s.cpu.instructions = tally.instructions := by
  rw [h.cpu_instructions]
  omega

/-- One more slot, made in a state that gives no reason to end. -/
theorem Unrolls.next (h : Unrolls limit s k costs tally)
    (undue : ∀ exit, ¬ (s.after k).Due limit tally.instructions exit) {done : Slot}
    {t : Computer β} (played : (s.after k).slot tally.instructions = (.ok done, t)) :
    t = s.after (k + 1) ∧ Unrolls limit s (k + 1) (costs ++ [done.cycles]) (tally.add done) := by
  obtain ⟨cycles, instructions⟩ := tally_slot played
  have stepped := step_of_slot_ok (slot_eq_ok_iff.mp played)
  have reached : s.after (k + 1) = t := congrArg Prod.snd stepped
  have counted : (tally.add done).instructions =
      tally.instructions + (if done.isExecuted then 1 else 0) := by
    rw [Tally.add_eq]
  refine ⟨reached.symm, ?_, ?_, ?_, ?_, ?_, ?_⟩
  · rw [Computer.results, h.results, stepped, List.map_append]
    rfl
  · rw [spent_concat, ← h.cycles]
    rfl
  · rw [reached, cycles, h.cpu_cycles, Nat.add_assoc]
    rfl
  · rw [reached, instructions, h.cpu_instructions, counted, Nat.add_assoc]
  · intro l hl
    have below : ¬ l ≤ tally.instructions := fun reached => undue .limitReached ⟨l, hl, reached⟩
    rw [counted]
    split <;> omega
  · intro j before
    rcases Nat.lt_succ_iff_lt_or_eq.mp before with before | rfl
    · exact h.undue j before
    · rw [h.executed]
      exact undue

/-- The last slot of an unrolled run, and the run before it. -/
theorem Unrolls.pred (h : Unrolls limit s (k + 1) costs tally) :
    ∃ earlier done before, Unrolls limit s k earlier before ∧ tally = before.add done ∧
      (∀ exit, ¬ (s.after k).Due limit before.instructions exit) ∧
      (s.after k).slot before.instructions = (.ok done, s.after (k + 1)) := by
  obtain ⟨earlier, done, rfl, results, played⟩ := slot_of_results h.results
  obtain ⟨-, instructions⟩ := tally_slot played
  obtain ⟨sum, grown⟩ := counters_after results
  have cycles := h.cycles
  have all := h.cpu_instructions
  rw [spent_concat] at cycles
  -- The earlier tally is read off the counters of the core.
  obtain ⟨executed, counter⟩ := Nat.exists_eq_add_of_le grown
  have counted : tally.instructions = executed + (if done.isExecuted then 1 else 0) := by
    omega
  refine ⟨earlier, done, ⟨executed, spent earlier⟩,
    ⟨results, rfl, sum, counter, fun l hl => ?_, fun j before => ?_⟩, ?_, ?_,
    slot_eq_ok_iff.mpr played⟩
  · have bound := h.within l hl
    show executed ≤ l
    omega
  · exact h.undue j (Nat.lt_succ_of_lt before)
  · rw [Tally.add_eq, ← counted, ← cycles]
  · have undue := h.undue k (Nat.lt_succ_self k)
    rw [counter, Nat.add_sub_cancel_left] at undue
    exact undue

/-- A run goes on from where its unrolled beginning ends. -/
theorem Unrolls.runsTo [QuietPolling β] (h : Unrolls limit s k costs tally) {t : Computer β}
    {outcome : Except StepError RunResult} (rest : RunsTo limit tally (s.after k) outcome t) :
    RunsTo limit {} s outcome t := by
  induction k generalizing costs tally with
  | zero =>
    obtain rfl := List.map_eq_nil_iff.mp h.results.symm
    have cycles := h.cycles
    have instructions := h.executed
    rw [after, Nat.sub_self] at instructions
    have none : tally = {} := by
      obtain ⟨executed, total⟩ := tally
      rw [show total = 0 from cycles, show executed = 0 from instructions.symm]
    rw [none] at rest
    exact rest
  | succ k ih =>
    obtain ⟨earlier, done, before, begun, rfl, undue, played⟩ := h.pred
    exact ih begun (.slot (endReason?_eq_none_iff.mpr ⟨undue, rfl⟩) played rest)

end unrolls

/-- A run that returned a result: it unrolls to the first state in which a reason is due, and the
exit of the result is that reason. -/
structure Completes (limit : Option Nat) (s : Computer β) (result : RunResult) (t : Computer β)
    (k : Nat) (costs : List Nat) : Prop extends Unrolls limit s k costs result.toTally where
  first : (s.after k).FirstDue limit result.instructions result.exit
  limit_eq : result.exit = .limitReached → limit = some result.instructions
  /-- The state is that after the steps, but for a stop line that was seen. -/
  cpu : t.cpu = (s.after k).cpu
  bus : t.board.bus = (s.after k).board.bus
  stop : t.board.stopRaised = ((s.after k).board.stopRaised && decide (result.exit ≠ .interrupted))
  log : t.board.log = ((s.after k).close result.exit).board.log

/-- A run that returned an error: it unrolls to the first step that fails. -/
structure Fails (limit : Option Nat) (s : Computer β) (e : StepError) (t : Computer β)
    (k : Nat) (costs : List Nat) (tally : Tally) : Prop extends Unrolls limit s k costs tally where
  goesOn : ∀ exit, ¬ (s.after k).Due limit tally.instructions exit
  fault : (s.after k).step.1 = .error (e.withExecuted 0)
  executed : e.executed = tally.instructions
  cpu : t.cpu = (s.after (k + 1)).cpu
  bus : t.board.bus = (s.after (k + 1)).board.bus
  stop : t.board.stopRaised = (s.after (k + 1)).board.stopRaised
  log : t.board.log = (s.after (k + 1)).board.log.add (.runFailed e t.cpu.regs t.cpu.ime)

/-- The outcome of a run told by its steps. -/
def UnrollsTo (limit : Option Nat) (s : Computer β) :
    Except StepError RunResult → Computer β → Prop
  | .ok result, t => ∃ k costs, Completes limit s result t k costs
  | .error e, t => ∃ k costs tally, Fails limit s e t k costs tally

/-- A run that continues an unrolled beginning completes or fails. -/
theorem RunsTo.unrolls [QuietPolling β] {limit : Option Nat} {s t : Computer β}
    {outcome : Except StepError RunResult} {tally : Tally} {u : Computer β}
    (h : RunsTo limit tally u outcome t) {k : Nat} {costs : List Nat} (reached : u = s.after k)
    (begun : Unrolls limit s k costs tally) : UnrollsTo limit s outcome t := by
  induction h generalizing k costs with
  | @ended tally u t exit found =>
    subst reached
    obtain ⟨due, rfl⟩ := endReason?_eq_some_iff.mp found
    refine ⟨k, costs, begun, due, fun limited => ?_, by simp, by simp, by simp, rfl⟩
    obtain rfl : exit = .limitReached := limited
    obtain ⟨l, rfl, below⟩ := due.1
    exact congrArg some (Nat.le_antisymm below (begun.within l rfl))
  | @failed tally u v t e found played =>
    obtain ⟨undue, rfl⟩ := endReason?_eq_none_iff.mp found
    subst reached
    obtain ⟨executed, plain⟩ := slot_eq_error_iff.mp played
    have stepped := step_of_slot_error plain
    have last : s.after (k + 1) = t := congrArg Prod.snd stepped
    exact ⟨k, costs, tally, begun, undue, congrArg Prod.fst stepped, executed, by rw [last]; rfl,
      by rw [last]; rfl, by rw [last]; rfl, by rw [last]; rfl⟩
  | @slot tally u v w t done outcome found played _ ih =>
    obtain ⟨undue, rfl⟩ := endReason?_eq_none_iff.mp found
    subst reached
    obtain ⟨last, longer⟩ := begun.next undue played
    exact ih last longer

theorem Completes.runsTo [QuietPolling β] {limit : Option Nat} {s t : Computer β}
    {result : RunResult} {k : Nat} {costs : List Nat} (h : Completes limit s result t k costs) :
    RunsTo limit {} s (.ok result) t := by
  refine h.toUnrolls.runsTo (.ended (endReason?_eq_some_iff.mpr ⟨h.first, ?_⟩))
  exact ext_parts (by simp [h.cpu]) (by simp [h.bus]) (by simp [h.stop]) h.log

theorem Fails.runsTo [QuietPolling β] {limit : Option Nat} {s t : Computer β} {e : StepError}
    {k : Nat} {costs : List Nat} {tally : Tally} (h : Fails limit s e t k costs tally) :
    RunsTo limit {} s (.error e) t := by
  have played := slot_of_step_error (Prod.ext h.fault rfl : (s.after k).step = (_, _))
  have failed := RunsTo.failed (endReason?_eq_none_iff.mpr ⟨h.goesOn, rfl⟩)
    (slot_eq_error_iff.mpr ⟨h.executed, played⟩)
  have closed : t = (s.after (k + 1)).mapBoard (Board.report
      (.runFailed e (s.after (k + 1)).cpu.regs (s.after (k + 1)).cpu.ime)) :=
    ext_parts h.cpu h.bus h.stop (by rw [h.log, h.cpu]; rfl)
  rw [closed]
  exact h.toUnrolls.runsTo failed

/-- **A run is repeated steps** up to the first state in which a reason to end is due, or up to
the first step that fails. -/
theorem exists_run_iff [QuietPolling β] (limit : Option Nat) (s t : Computer β) :
    (∀ result, (∃ fuel, s.run fuel limit = some (.ok result, t)) ↔
      ∃ k costs, Completes limit s result t k costs) ∧
    ∀ e, (∃ fuel, s.run fuel limit = some (.error e, t)) ↔
      ∃ k costs tally, Fails limit s e t k costs tally := by
  refine ⟨fun result => ?_, fun e => ?_⟩
  · rw [exists_run_iff_runsTo]
    exact ⟨fun run => run.unrolls rfl (.start limit s), fun ⟨_, _, completes⟩ => completes.runsTo⟩
  · rw [exists_run_iff_runsTo]
    exact ⟨fun run => run.unrolls rfl (.start limit s), fun ⟨_, _, _, fails⟩ => fails.runsTo⟩

/-- A run that increments and ends in the HALT state. -/
theorem exists_run_iff_increment : ∃ k costs,
    Completes none (ofProgram #[0x3C, 0x76]) ⟨⟨2, 8⟩, .halted⟩ ((ofProgram #[0x3C, 0x76]).after 2)
      k costs :=
  ((exists_run_iff none _ _).1 _).mp ⟨3, rfl⟩

end Computer

end Sm83
