import Sm83.Proofs.RunCourse

/-! # The stop line

A request on the stop line is never lost, and ends one run at most.

* **Raising.** Devices raise the line in accesses: `lineRaises accesses bus` counts how often.
* **Calls.** `Heeds s call t` says what a call does with the line: no slot lowers it, a slot that
  leaves it raised is the last, a run that ends for it lowers it and does nothing else from then on,
  and any other call keeps it.
* **Histories.** `Heard line events final` lists what happens to a line: the host raises it, or
  makes a call on one of the computers that share it.  Clones of a core share a line, whatever state
  they are in, and whatever buses they are on.
* **Main statement.** `stops_le_raises`: every call heeds the line, a line once raised stays so for
  as long as no run ends for it, and there are no more such runs than times that it is raised. -/

namespace Sm83

section raising
variable {β : Type} [Device β]

/-- Whether accesses raise the stop line. -/
def raisesLine (accesses : List Access) (bus : β) : Bool :=
  (replay accesses bus).effects.contains .requestStop

/-- How often accesses raise the stop line. -/
def lineRaises (accesses : List Access) (bus : β) : Nat :=
  (replay accesses bus).effects.count .requestStop

theorem raisesLine_append (first last : List Access) (bus : β) :
    raisesLine (first ++ last) bus =
      (raisesLine first bus || raisesLine last (replay first bus).state) := by
  rw [raisesLine, effects_replay_append, List.contains_append]
  rfl

theorem raisesLine_eq_decide (accesses : List Access) (bus : β) :
    raisesLine accesses bus = decide (0 < lineRaises accesses bus) := by
  rw [Bool.eq_iff_iff, decide_eq_true_iff, raisesLine, List.contains_iff_mem, lineRaises,
    List.count_pos_iff]

end raising

/-- Whether a run ended because it saw the stop line raised. -/
def endsInterrupted : Except StepError RunResult → Bool
  | .ok result => decide (result.exit = .interrupted)
  | .error _ => false

namespace Computer

variable {β : Type} [Device β] {limit : Option Nat} {executed : Nat} {tally : Tally}
  {s t u : Computer β} {accesses : List Access} {slots : List (Computer β)}
  {outcome : Except StepError RunResult}

/-! ### Runs -/

/-- A search that sees the stop line does nothing but lower it. -/
theorem Search.seen (h : Search limit executed s accesses (some .interrupted) t) :
    s.board.stopRaised = true ∧ t = s.close .interrupted := by
  generalize found : some RunEnd.interrupted = exit at h
  cases h with
  | interrupted _ raised => exact ⟨raised, rfl⟩
  | limitReached => cases found
  | asleep =>
    split at found
    · cases found
    · cases found
  | woken | awake => cases found

/-- What has raised the line before a search has either been seen by it or is kept. -/
theorem Search.line_eq {exit : RunEnd} (h : Search limit executed s accesses (some exit) t) :
    (s.board.stopRaised || raisesLine accesses s.board.bus) =
      (decide (exit = .interrupted) || t.board.stopRaised) := by
  by_cases interrupted : exit = .interrupted
  · subst interrupted
    rw [h.seen.1, decide_eq_true rfl, Bool.true_or, Bool.true_or]
  · have kept : some exit ≠ some .interrupted := fun same => interrupted (Option.some.inj same)
    rw [h.stopRaised_eq, decide_eq_true kept, decide_eq_false interrupted, Bool.and_true,
      Bool.false_or]
    rfl

/-- The line after a slot of a run, in terms of the line before its search. -/
theorem Search.stopRaised_slot (h : Search limit executed s accesses none u) :
    (u.slot 0).2.board.stopRaised =
      (s.board.stopRaised || raisesLine (accesses ++ u.accesses) s.board.bus) := by
  have searched := h.stopRaised_eq
  rw [decide_eq_true (by simp), Bool.and_true] at searched
  rw [Computer.stopRaised_slot, searched, h.bus_eq, raisesLine_append, Bool.or_assoc]
  rfl

/-- What raises the line before or in a run is either seen by it, at its end, or is kept. -/
theorem Plays.line_eq (h : Plays limit tally s slots accesses outcome t) :
    (s.board.stopRaised || raisesLine accesses s.board.bus) =
      (endsInterrupted outcome || t.board.stopRaised) := by
  induction h with
  | ended search => exact search.line_eq
  | @failed tally s u t searched e search played =>
    have slot := search.stopRaised_slot
    rw [slot_zero_of_error played] at slot
    rw [stopRaised_told, endsInterrupted, Bool.false_or, slot]
  | @slot tally s u v t searched accesses done slots outcome search played _ ih =>
    have slot := search.stopRaised_slot
    have bus := search.bus_slot
    rw [slot_zero_of_ok played] at slot bus
    rw [← ih, slot, bus, raisesLine_append, Bool.or_assoc]

/-- A run plays a slot only if it begins with the line low. -/
theorem Plays.low (h : Plays limit tally s slots accesses outcome t) (plays : slots ≠ []) :
    s.board.stopRaised = false := by
  cases h with
  | ended => exact absurd rfl plays
  | failed search => exact search.low
  | slot search => exact search.low

/-- A slot of a run that leaves the line raised is the last. -/
theorem Plays.last (h : Plays limit tally s slots accesses outcome t)
    {before after : List (Computer β)} (split : slots = before ++ u :: after)
    (raised : (u.slot 0).2.board.stopRaised = true) : after = [] := by
  induction h generalizing before with
  | ended => simp at split
  | failed =>
    cases before with
    | nil => exact (List.cons.inj split).2.symm
    | cons => simp at split
  | @slot tally s w v t searched accesses done slots outcome search played rest ih =>
    cases before with
    | nil =>
      obtain ⟨rfl, rfl⟩ := List.cons.inj split
      rw [slot_zero_of_ok played] at raised
      -- A further slot would have found the line low.
      exact Classical.byContradiction fun further =>
        Bool.false_ne_true ((rest.low further).symm.trans raised)
    | cons first before => exact ih (List.cons.inj split).2

/-- The state after some slots of a call. -/
def reached (s : Computer β) : List (Computer β) → Computer β
  | [] => s
  | u :: slots => (u.slot 0).2.reached slots

/-- A run that ends for the line has seen it after its last slot, and has only lowered it since. -/
theorem Plays.seen (h : Plays limit tally s slots accesses outcome t)
    (interrupted : endsInterrupted outcome = true) :
    (s.reached slots).board.stopRaised = true ∧ t = (s.reached slots).close .interrupted := by
  induction h with
  | ended search =>
    obtain rfl := of_decide_eq_true interrupted
    exact search.seen
  | failed => cases interrupted
  | slot search played _ ih =>
    rw [reached, slot_zero_of_ok played]
    exact ih interrupted

/-- A run that ends for another reason has not lowered the line after its last slot. -/
theorem Plays.unlowered (h : Plays limit tally s slots accesses outcome t)
    (other : endsInterrupted outcome = false) (raised : (s.reached slots).board.stopRaised = true) :
    t.board.stopRaised = true := by
  induction h with
  | @ended tally s t searched exit search =>
    have seen : s.board.stopRaised = true := raised
    have goesOn : decide (exit = .interrupted) = false := other
    have line := search.line_eq
    rw [seen, goesOn, Bool.true_or, Bool.false_or] at line
    exact line.symm
  | failed search played =>
    rw [reached, slot_zero_of_error played] at raised
    rw [stopRaised_told]
    exact raised
  | slot search played _ ih =>
    rw [reached, slot_zero_of_ok played] at raised
    exact ih other raised

/-! ### Calls -/

/-- Whether a call is a run that ended because it saw the stop line raised. -/
def HostCall.isInterrupted (call : HostCall β) : Bool :=
  match call.answer with
  | .run outcome => endsInterrupted outcome
  | .step _ => false

/-- What a call does with the stop line. -/
structure Heeds (s : Computer β) (call : HostCall β) (t : Computer β) : Prop where
  /-- A slot raises the line, or leaves it as it is. -/
  slots : ∀ u ∈ call.slots, (u.slot 0).2.board.stopRaised =
    (u.board.stopRaised || raisesLine u.accesses u.board.bus)
  /-- A run plays no slot if it begins with the line raised. -/
  low : ∀ outcome, call.answer = .run outcome → call.slots ≠ [] → s.board.stopRaised = false
  /-- A slot by whose end the line is raised is the last. -/
  last : ∀ before u after, call.slots = before ++ u :: after →
    (u.slot 0).2.board.stopRaised = true → after = []
  /-- A run that ends for the line has seen it after its slots, and has only lowered it since. -/
  seen : call.isInterrupted = true → (s.reached call.slots).board.stopRaised = true ∧
    t = (s.reached call.slots).close .interrupted
  /-- Any other call does not lower the line after its slots. -/
  unlowered : call.isInterrupted = false → (s.reached call.slots).board.stopRaised = true →
    t.board.stopRaised = true
  /-- Any other call leaves the line raised if it was so at first or was raised meanwhile. -/
  kept : call.isInterrupted = false →
    t.board.stopRaised = (s.board.stopRaised || raisesLine call.accesses s.board.bus)

theorem Makes.line_eq {call : HostCall β} (h : Makes s call t) :
    (s.board.stopRaised || raisesLine call.accesses s.board.bus) =
      (call.isInterrupted || t.board.stopRaised) := by
  cases h with
  | step => exact s.stopRaised_slot.symm
  | run plays => exact plays.line_eq

theorem Makes.heeds {call : HostCall β} (h : Makes s call t) : Heeds s call t where
  slots u _ := u.stopRaised_slot
  low outcome run plays := by
    cases h with
    | step => cases run
    | run course => exact course.low plays
  last before u after split raised := by
    cases h with
    | step =>
      cases before with
      | nil => exact (List.cons.inj split).2.symm
      | cons => simp at split
    | run plays => exact plays.last split raised
  seen interrupted := by
    cases h with
    | step => cases interrupted
    | run plays => exact plays.seen interrupted
  unlowered other raised := by
    cases h with
    | step => exact raised
    | run plays => exact plays.unlowered other raised
  kept other := by rw [h.line_eq, other, Bool.false_or]

omit [Device β] in
theorem toNat_or_decide_le (line : Bool) (raises : Nat) :
    (line || decide (0 < raises)).toNat ≤ line.toNat + raises := by
  cases line with
  | true => exact Nat.le_add_right 1 raises
  | false =>
    by_cases raised : 0 < raises
    · rw [decide_eq_true raised, Bool.or_true, Bool.toNat_true]
      exact Nat.le_add_left_of_le raised
    · rw [decide_eq_false raised]
      exact Nat.zero_le _

/-- A run that ends for the line takes one raise: it leaves the line low. -/
theorem Makes.stops_le {call : HostCall β} (h : Makes s call t) :
    call.isInterrupted.toNat + t.board.stopRaised.toNat ≤
      s.board.stopRaised.toNat + lineRaises call.accesses s.board.bus := by
  have either : call.isInterrupted.toNat + t.board.stopRaised.toNat =
      (call.isInterrupted || t.board.stopRaised).toNat := by
    cases interrupted : call.isInterrupted with
    | false => rw [Bool.false_or, Bool.toNat_false, Nat.zero_add]
    | true =>
      rw [(h.heeds.seen interrupted).2, stopRaised_close, decide_eq_false (by simp), Bool.and_false]
      rfl
  calc call.isInterrupted.toNat + t.board.stopRaised.toNat
      = (s.board.stopRaised || decide (0 < lineRaises call.accesses s.board.bus)).toNat := by
        rw [either, ← h.line_eq, raisesLine_eq_decide]
    _ ≤ s.board.stopRaised.toNat + lineRaises call.accesses s.board.bus :=
        toNat_or_decide_le _ _

/-! ### Histories -/

/-- What can happen to a stop line. -/
inductive LineEvent (β : Type) where
  /-- The host raises the line of a computer. -/
  | raise (s : Computer β)
  /-- The host makes a call, which leaves the last state. -/
  | call (s : Computer β) (made : HostCall β) (t : Computer β)

/-- How often an event raises the line. -/
def LineEvent.raises : LineEvent β → Nat
  | .raise _ => 1
  | .call s made _ => lineRaises made.accesses s.board.bus

/-- How often events raise the line. -/
def raisesOf : List (LineEvent β) → Nat
  | [] => 0
  | event :: later => event.raises + raisesOf later

/-- Whether an event is a run that ends for the line. -/
def LineEvent.isStop : LineEvent β → Bool
  | .raise _ => false
  | .call _ made _ => made.isInterrupted

/-- What happens to a line, the earliest first.  The computers of the events share nothing else. -/
inductive Heard : Bool → List (LineEvent β) → Bool → Prop
  | start (line : Bool) : Heard line [] line
  | raise {s : Computer β} {events : List (LineEvent β)} {final : Bool} :
      Heard s.raiseStop.board.stopRaised events final →
      Heard s.board.stopRaised (.raise s :: events) final
  | call {s t : Computer β} {call : HostCall β} {events : List (LineEvent β)} {final : Bool} :
      Makes s call t → Heard t.board.stopRaised events final →
      Heard s.board.stopRaised (.call s call t :: events) final

section heard
variable {line final : Bool} {events : List (LineEvent β)}

/-- A line that no run ends for stays raised from the first raise on. -/
theorem Heard.line_eq (h : Heard line events final)
    (unseen : ∀ event ∈ events, event.isStop = false) :
    final = (line || events.any fun event => decide (0 < event.raises)) := by
  induction h with
  | start => exact (Bool.or_false _).symm
  | raise _ ih =>
    rw [ih fun event later => unseen event (List.mem_cons_of_mem _ later)]
    exact (Bool.or_true _).symm
  | @call s t call events final made _ ih =>
    have first : call.isInterrupted = false := unseen _ List.mem_cons_self
    rw [ih fun event later => unseen event (List.mem_cons_of_mem _ later), made.heeds.kept first,
      raisesLine_eq_decide, Bool.or_assoc]
    rfl

/-- Every run that ends for the line takes a raise of its own, and so does a line still raised. -/
theorem Heard.stops_le (h : Heard line events final) :
    events.countP LineEvent.isStop + final.toNat ≤
      line.toNat + raisesOf events := by
  induction h with
  | start => exact Nat.le_of_eq (Nat.zero_add _)
  | @raise s events final _ ih =>
    rw [show s.raiseStop.board.stopRaised = true from rfl, Bool.toNat_true] at ih
    rw [countP_cons_toNat, raisesOf, LineEvent.isStop, LineEvent.raises, Bool.toNat_false]
    omega
  | @call s t call events final made _ ih =>
    have one := made.stops_le
    rw [countP_cons_toNat, raisesOf, LineEvent.isStop, LineEvent.raises]
    omega

end heard

/-- **No request is lost, and none acts twice.**  The calls of the host are what `step` and `run`
compute, and every one heeds the line.  Through any history of
raises and calls in which no run ends for the line, it is raised at the end if it was so at first or
was raised meanwhile.  From a low line on, no more runs end for it than times that it is raised. -/
theorem stops_le_raises :
    (∀ (s t : Computer β) (answer : Answer),
      (∃ slots accesses, Makes s ⟨slots, accesses, answer⟩ t) ↔
        ∃ request, Tells request s answer t) ∧
    (∀ (s t : Computer β) (call : HostCall β), Makes s call t → Heeds s call t) ∧
    (∀ (line final : Bool) (events : List (LineEvent β)), Heard line events final →
      (∀ event ∈ events, event.isStop = false) →
        final = (line || events.any fun event => decide (0 < event.raises))) ∧
    ∀ (final : Bool) (events : List (LineEvent β)), Heard false events final →
      events.countP LineEvent.isStop + final.toNat ≤ raisesOf events := by
  refine ⟨fun _ _ _ => exists_makes_iff, fun _ _ _ made => made.heeds,
    fun _ _ _ heard => heard.line_eq, fun final events heard => ?_⟩
  have bound := heard.stops_le
  rwa [Bool.toNat_false, Nat.zero_add] at bound

/-- A computer with a program that halts, and with the stop line raised. -/
def hailed : Computer (SystemBus Empty) := (ofProgram #[0x76]).raiseStop

/-- A raise that a run within a limit of zero leaves to the next run. -/
theorem stops_le_raises_hailed : ∃ (first : HostCall (SystemBus Empty))
    (early late : List (LineEvent (SystemBus Empty))),
    Heeds hailed first hailed ∧
      Heard false early true ∧ early.any (fun event => decide (0 < event.raises)) = true ∧
      Heard false late false ∧ late.countP LineEvent.isStop = 1 ∧
        late.countP LineEvent.isStop ≤ raisesOf late := by
  have limited : Plays (some 0) {} hailed [] [] _ _ := .ended (.limitReached rfl)
  have seen : Plays none {} hailed [] [] _ _ := .ended (.interrupted rfl rfl)
  have early : Heard false [.raise (ofProgram #[0x76]), .call hailed _ hailed] true :=
    .raise (.call (.run limited) (.start _))
  have late : Heard false [.raise (ofProgram #[0x76]), .call hailed _ hailed,
      .call hailed _ (hailed.close .interrupted)] false :=
    .raise (.call (.run limited) (.call (.run seen) (.start _)))
  have unseen : ∀ event ∈ [LineEvent.raise (ofProgram #[0x76]),
      .call hailed ⟨[], [], .run (.ok ⟨{}, .limitReached⟩)⟩ hailed], event.isStop = false := by
    simp [LineEvent.isStop, HostCall.isInterrupted, endsInterrupted]
  obtain ⟨-, heeds, kept, bound⟩ := stops_le_raises (β := SystemBus Empty)
  exact ⟨_, _, _, heeds _ _ _ (.run limited), early, (kept _ _ _ early unseen).symm, late, rfl,
    bound _ _ late⟩

end Computer

end Sm83
