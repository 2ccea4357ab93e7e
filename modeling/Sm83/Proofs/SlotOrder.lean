import Sm83.Proofs.BankFaults
import Sm83.Proofs.EnableDelay
import Sm83.Proofs.RunCourse

/-! # The order of the slots of a run

A run within a limit ends, because no slot of it is wasted.

* **The grammar.** `Alternates may outcomes` is the order that slots of a run keep: none is idle,
  only the last can fail, an entry into a handler is followed by no other entry, and the first may
  be an entry only if `may` says so.
* **Why.** The search for a reason to end and the slot poll the same registers.  Where polling is
  quiet they find the same, so a core that the search does not leave asleep does not idle in its
  slot (`isIdle_slot`); and an entry disables interrupts, so that the next slot is none
  (`Plays.alternates`).
* **The measure.** `slotsLeft` counts two slots for every instruction that is left, and one less
  when interrupts are disabled.  Every slot lowers it (`slotsLeft_slot`).
* **Main statement.** `run_of_limit`: a run within a limit returns, after at most twice as many
  slots, which are in that order.  On a system bus it does so without a fault, unless it selects a
  bank where none are counted. -/

namespace Sm83

/-! ### Orders of slots -/

/-- Whether a slot entered a handler. -/
def isEntry : Except StepError Slot → Bool
  | .ok (.interrupt _) => true
  | _ => false

/-- Whether a slot executed an instruction. -/
def isExecution : Except StepError Slot → Bool
  | .ok (.executed _ _) => true
  | _ => false

/-- Whether a slot was idle. -/
def isIdle : Except StepError Slot → Bool
  | .ok (.idle _) => true
  | _ => false

/-- The order of the slots of a run; `may` says whether the first may be an entry. -/
inductive Alternates : Bool → List (Except StepError Slot) → Prop
  | nil {may : Bool} : Alternates may []
  | entry {source : Interrupt} {rest : List (Except StepError Slot)} :
      Alternates false rest → Alternates true (.ok (.interrupt source) :: rest)
  | executed {may next : Bool} {ins : Instruction} {cost : Nat}
      {rest : List (Except StepError Slot)} :
      Alternates next rest → Alternates may (.ok (.executed ins cost) :: rest)
  | failed {may : Bool} {e : StepError} : Alternates may [.error e]

namespace Alternates

variable {may : Bool} {outcomes : List (Except StepError Slot)}

/-- What comes last in an order is in order. -/
theorem suffix {first last : List (Except StepError Slot)} (h : Alternates may (first ++ last)) :
    ∃ next, Alternates next last := by
  induction first generalizing may with
  | nil => exact ⟨may, h⟩
  | cons outcome first ih =>
    rw [List.cons_append] at h
    generalize others : first ++ last = rest at h
    cases h with
    | entry rest => exact ih (others ▸ rest)
    | executed rest => exact ih (others ▸ rest)
    | failed =>
      rw [(List.append_eq_nil_iff.mp others).2]
      exact ⟨may, .nil⟩

/-- No slot is idle. -/
theorem not_isIdle (h : Alternates may outcomes) {outcome : Except StepError Slot}
    (made : outcome ∈ outcomes) : isIdle outcome = false := by
  induction h with
  | nil => cases made
  | entry _ ih | executed _ ih =>
    obtain rfl | made := List.mem_cons.mp made
    · rfl
    · exact ih made
  | failed =>
    obtain rfl := List.mem_singleton.mp made
    rfl

/-- Between any two entries an instruction is executed. -/
theorem exists_isExecution {before middle after : List (Except StepError Slot)}
    {first last : Except StepError Slot}
    (h : Alternates may (before ++ first :: (middle ++ last :: after)))
    (entry : isEntry first = true) (entry' : isEntry last = true) :
    ∃ outcome ∈ middle, isExecution outcome = true := by
  obtain ⟨next, rest⟩ := h.suffix
  generalize others : middle ++ last :: after = tail at rest
  cases rest with
  | executed => cases entry
  | failed => cases entry
  | entry rest =>
    cases middle with
    | nil =>
      subst others
      cases rest with
      | executed => cases entry'
      | failed => cases entry'
    | cons outcome middle =>
      rw [List.cons_append] at others
      cases rest with
      | nil => cases others
      | executed =>
        obtain rfl := (List.cons.inj others).1
        exact ⟨_, List.mem_cons_self, rfl⟩
      | failed => simp at others

/-- There is at most one entry more than there are executed instructions. -/
theorem countP_isEntry_le (h : Alternates may outcomes) :
    outcomes.countP isEntry ≤ outcomes.countP isExecution + may.toNat := by
  induction h with
  | nil => exact Nat.zero_le _
  | entry _ ih =>
    simp only [List.countP_cons, isEntry, isExecution, Bool.false_eq_true, if_false, if_true,
      Bool.toNat_true, Bool.toNat_false] at ih ⊢
    omega
  | @executed may next ins cost rest _ ih =>
    have bound := Bool.toNat_le next
    simp only [List.countP_cons, isEntry, isExecution, Bool.false_eq_true, if_false, if_true]
    omega
  | failed => simp [isEntry]

end Alternates

/-! ### What a slot can be -/

namespace Exec

variable {executed : Nat} {cpu after : Cpu} {accesses : List Access} {reports : List LogEvent}
  {outcome : Except StepError Slot}

/-- Only a core with interrupts enabled enters a handler. -/
theorem Course.ime_of_isEntry (course : Course executed cpu accesses reports outcome after)
    (entry : isEntry outcome = true) : cpu.ime = true := by
  cases course with
  | entered _ _ _ ime => exact ime
  | frozen | idled | faulted | executed => cases entry

/-- A slot is not idle if the core is awake or polling finds what wakes it. -/
theorem Course.not_isIdle {β : Type} [Device β] {bus : β} {enabled requested : UInt8}
    (readEnable : Device.read Interrupt.enableAddress bus = ⟨enabled, bus, []⟩)
    (readRequest : Device.read Interrupt.requestAddress bus = ⟨requested, bus, []⟩)
    (course : Course executed cpu accesses reports outcome after) (answers : Answers bus accesses)
    (woken : cpu.asleep = true → pendingOf enabled requested ≠ 0) : isIdle outcome = false := by
  cases course with
  | @frozen enabled' requested' stopped quiet =>
    rw [← List.append_nil (pollAccesses enabled' requested')] at answers
    obtain ⟨⟨rfl, rfl⟩, -⟩ := (answers_poll_append readEnable readRequest _ _ _).mp answers
    exact absurd quiet (woken (by rw [Cpu.asleep, stopped, Bool.or_true]))
  | idled thawed quiet halted =>
    obtain ⟨⟨rfl, rfl⟩, -⟩ := thawed.answers_append readEnable readRequest answers
    exact absurd quiet (woken (by rw [Cpu.asleep, halted, Bool.true_or]))
  | entered | faulted | executed => rfl

end Exec

namespace Computer

variable {β : Type} [Device β] {limit : Option Nat} {executed : Nat} {tally : Tally}
  {s t u v : Computer β} {accesses : List Access} {slots : List (Computer β)}
  {outcome : Except StepError RunResult}

/-- A search that goes on where polling is quiet leaves no slot to be idle. -/
theorem isIdle_slot [QuietPolling β] (search : Search limit executed s accesses none u) :
    isIdle (u.slot 0).1 = false := by
  obtain ⟨undue, rfl⟩ := endReason?_eq_none_iff.mp search.endReason?_eq
  obtain ⟨enabled, readEnable⟩ := QuietPolling.read_enable u.board.bus
  obtain ⟨requested, readRequest⟩ := QuietPolling.read_request u.board.bus
  have polled : u.pending = pendingOf enabled requested :=
    congrArg Prod.fst (run_pendingRequests readEnable readRequest)
  exact u.course_slot.not_isIdle readEnable readRequest u.answers_slot fun asleep quiet =>
    undue _ (due_of_asleep asleep (polled.trans quiet))

/-- A core that has entered a handler has interrupts disabled. -/
theorem ime_after_entry {source : Interrupt} (played : u.slot 0 = (.ok (.interrupt source), v)) :
    v.cpu.ime = false := by
  have enabled := u.enable_slot
  rw [played] at enabled
  exact congrArg Enable.ime enabled

/-- The slots of a run are in order, and begin with an entry only if interrupts are enabled. -/
theorem Plays.alternates [QuietPolling β] (h : Plays limit tally s slots accesses outcome t) :
    Alternates s.cpu.ime (slots.map fun u => (u.slot 0).1) := by
  induction h with
  | ended => exact .nil
  | failed search played =>
    rw [List.map_singleton, slot_zero_of_error played]
    exact .failed
  | @slot tally s u v t searched accesses done slots outcome search played _ ih =>
    have plain := slot_zero_of_ok played
    have busy := isIdle_slot search
    rw [List.map_cons, plain, ← search.cpu_eq]
    rw [plain] at busy
    cases done with
    | executed ins cost => exact .executed ih
    | interrupt source =>
      have enabled : u.cpu.ime = true := u.course_slot.ime_of_isEntry (by rw [plain]; rfl)
      rw [ime_after_entry plain] at ih
      rw [enabled]
      exact .entry ih
    | idle cost => cases busy

/-- A run tells how many of its slots executed an instruction. -/
theorem Plays.executedBy_eq (h : Plays limit tally s slots accesses outcome t) :
    executedBy outcome =
      tally.instructions + (slots.map fun u => (u.slot 0).1).countP isExecution := by
  induction h with
  | ended => rfl
  | failed search played =>
    rw [List.map_singleton, slot_zero_of_error played]
    exact (slot_eq_error_iff.mp played).1
  | @slot tally s u v t searched accesses done slots outcome search played _ ih =>
    rw [ih, List.map_cons, slot_zero_of_ok played, List.countP_cons, Tally.add_eq]
    cases done with
    | executed => exact Nat.add_right_comm _ _ _
    | interrupt | idle => rfl

/-! ### The measure -/

/-- How many slots a run within a limit has left at most. -/
def slotsLeft (l : Nat) (tally : Tally) (s : Computer β) : Nat :=
  2 * (l - tally.instructions) - (!s.cpu.ime).toNat

theorem slotsLeft_pos {l : Nat} (search : Search (some l) tally.instructions s accesses none u) :
    0 < slotsLeft l tally s := by
  have left := of_decide_eq_false (not_reached_of_none search.endReason?_eq)
  have one := Bool.toNat_le (!s.cpu.ime)
  unfold slotsLeft
  omega

/-- Every slot that does not fail leaves fewer slots to come. -/
theorem slotsLeft_slot [QuietPolling β] {l : Nat}
    (search : Search (some l) tally.instructions s accesses none u) {done : Slot}
    (played : u.slot tally.instructions = (.ok done, v)) :
    slotsLeft l (tally.add done) v < slotsLeft l tally s := by
  have left := of_decide_eq_false (not_reached_of_none search.endReason?_eq)
  have plain := slot_zero_of_ok played
  have busy := isIdle_slot search
  rw [plain] at busy
  unfold slotsLeft
  rw [← search.cpu_eq, Tally.add_eq]
  cases done with
  | executed ins cost =>
    have one := Bool.toNat_le (!u.cpu.ime)
    simp only [Slot.isExecuted, if_true]
    omega
  | interrupt source =>
    have enabled : u.cpu.ime = true := u.course_slot.ime_of_isEntry (by rw [plain]; rfl)
    rw [ime_after_entry plain, enabled]
    simp only [Slot.isExecuted, Bool.false_eq_true, if_false, Bool.not_true, Bool.not_false,
      Bool.toNat_true, Bool.toNat_false]
    omega
  | idle cost => cases busy

/-- A run plays no more slots than are left at its start. -/
theorem Plays.length_le [QuietPolling β] {l : Nat}
    (h : Plays (some l) tally s slots accesses outcome t) : slots.length ≤ slotsLeft l tally s := by
  induction h with
  | ended => exact Nat.zero_le _
  | failed search => exact slotsLeft_pos search
  | slot search played _ ih => exact Nat.lt_of_le_of_lt ih (slotsLeft_slot search played)

/-- A run within a limit has a course. -/
theorem exists_plays_of_limit [QuietPolling β] (l : Nat) (tally : Tally) (s : Computer β) :
    ∃ slots accesses outcome t, Plays (some l) tally s slots accesses outcome t := by
  induction left : slotsLeft l tally s using Nat.strongRecOn generalizing tally s with
  | ind left ih =>
    subst left
    obtain ⟨searched, search⟩ := search_endReason? (some l) tally.instructions s
    rcases found : s.endReason? (some l) tally.instructions with ⟨_ | exit, u⟩
    · rw [found] at search
      rcases played : u.slot tally.instructions with ⟨e | done, v⟩
      · exact ⟨_, _, _, _, .failed search played⟩
      · obtain ⟨slots, accesses, outcome, t, rest⟩ := ih _ (slotsLeft_slot search played) _ _ rfl
        exact ⟨_, _, _, _, .slot search played rest⟩
    · rw [found] at search
      exact ⟨_, _, _, _, .ended search⟩

/-! ### Runs within a limit -/

/-- How the slots of a run follow each other. -/
structure Spaced (outcomes : List (Except StepError Slot)) : Prop where
  busy : ∀ outcome ∈ outcomes, isIdle outcome = false
  apart : ∀ before first next after, outcomes = before ++ first :: next :: after →
    isEntry first = true → isEntry next = false
  between : ∀ before first middle last after,
    outcomes = before ++ first :: (middle ++ last :: after) →
    isEntry first = true → isEntry last = true → ∃ outcome ∈ middle, isExecution outcome = true
  entries : outcomes.countP isEntry ≤ outcomes.countP isExecution + 1

theorem spaced_of_alternates {may : Bool} {outcomes : List (Except StepError Slot)}
    (h : Alternates may outcomes) : Spaced outcomes where
  busy _ := h.not_isIdle
  apart before first next after split entry := by
    refine eq_false_of_ne_true fun entry' => ?_
    have adjacent : Alternates may (before ++ first :: ([] ++ next :: after)) := split ▸ h
    obtain ⟨outcome, none, -⟩ := adjacent.exists_isExecution entry entry'
    cases none
  between _ _ _ _ _ split := (split ▸ h).exists_isExecution
  entries := Nat.le_trans h.countP_isEntry_le (Nat.add_le_add_left (Bool.toNat_le may) _)

/-- What holds of a run within a limit, with the states in which it plays its slots. -/
structure WithinLimit (l : Nat) (s : Computer β) (slots : List (Computer β))
    (outcome : Except StepError RunResult) (t : Computer β) : Prop where
  /-- Fuel for two slots for every instruction, and for the end, is enough. -/
  returns : s.run (2 * l + 1) (some l) = some (outcome, t)
  length : slots.length ≤ 2 * l
  spaced : Spaced (slots.map fun u => (u.slot 0).1)
  executed : (slots.map fun u => (u.slot 0).1).countP isExecution = executedBy outcome

theorem Plays.withinLimit [QuietPolling β] {l : Nat}
    (h : Plays (some l) {} s slots accesses outcome t) : WithinLimit l s slots outcome t where
  returns := h.runFrom_eq (Nat.lt_succ_of_le (Nat.le_trans h.length_le (Nat.sub_le _ _)))
  length := Nat.le_trans h.length_le (Nat.sub_le _ _)
  spaced := spaced_of_alternates h.alternates
  executed := by rw [h.executedBy_eq, Nat.zero_add]

/-- A run faults if it selects a bank where none are counted. -/
theorem Plays.faulted_eq {δ : Type} [Device δ] {s t : Computer (SystemBus δ)}
    {slots : List (Computer (SystemBus δ))}
    (h : Plays limit tally s slots accesses outcome t) :
    t.board.bus.faulted = (s.board.bus.faulted ||
      (accesses.any (fun access => access.call.selects s.board.bus.cartridge.mapper) &&
        decide (s.board.bus.bankCount = 0))) := by
  rw [h.bus_eq, SystemBus.faulted_replay]

/-- **Runs within a limit end**: whatever the state, the run returns after at most two slots for
every instruction of the limit, none of which is idle.  Entries are apart from each other, so that
there is at most one more of them than of executed instructions.  On a system bus the run comes to
its end without a fault exactly if banks are counted, as they are for any image but whole turns of
65536 banks (`bankCount_ofImage_eq_zero_iff`), or if it selects none. -/
theorem run_of_limit {δ : Type} [Device δ] [QuietPolling β] :
    (∀ (s : Computer β) (l : Nat),
      (∃ slots accesses outcome t, Plays (some l) {} s slots accesses outcome t) ∧
        ∀ slots accesses outcome t, Plays (some l) {} s slots accesses outcome t →
          WithinLimit l s slots outcome t) ∧
    ∀ (s : Computer (SystemBus δ)) (l : Nat) (slots : List (Computer (SystemBus δ)))
      (accesses : List Access) (outcome : Except StepError RunResult) (t : Computer (SystemBus δ)),
      Plays (some l) {} s slots accesses outcome t → s.board.bus.faulted = false →
        (t.board.bus.faulted = false ↔ s.board.bus.bankCount ≠ 0 ∨
          ∀ access ∈ accesses, access.call.selects s.board.bus.cartridge.mapper = false) := by
  refine ⟨fun s l => ⟨exists_plays_of_limit l {} s, fun _ _ _ _ plays => plays.withinLimit⟩,
    fun s l slots accesses outcome t plays sound => ?_⟩
  rw [plays.faulted_eq, sound, Bool.false_or, Bool.and_eq_false_iff, decide_eq_false_iff_not,
    List.any_eq_false, or_comm]
  simp only [Bool.not_eq_true, Ne]

/-- A computer without a program, about to enter a handler. -/
def interrupted : Computer (SystemBus Empty) :=
  ⟨{ Cpu.boot .zeroed 0 with ime := true },
    { bus := { SystemBus.ofImage ⟨#[]⟩ .romOnly 0 with requested := 1, enabled := 1 } }⟩

/-- A run within one instruction that enters a handler first, and so takes two slots. -/
theorem run_of_limit_interrupted : ∃ slots accesses,
    Plays (some 1) {} interrupted slots accesses (.ok ⟨⟨1, 36⟩, .limitReached⟩)
        (interrupted.after 2) ∧
      WithinLimit 1 interrupted slots (.ok ⟨⟨1, 36⟩, .limitReached⟩) (interrupted.after 2) ∧
      (interrupted.after 2).board.bus.faulted = false := by
  have run : Returns (some 1) interrupted (.ok ⟨⟨1, 36⟩, .limitReached⟩) (interrupted.after 2) :=
    ⟨3, rfl⟩
  obtain ⟨slots, accesses, plays⟩ := returns_iff_plays.mp run
  obtain ⟨ends, sound⟩ := run_of_limit (β := SystemBus Empty) (δ := Empty)
  have counted : interrupted.board.bus.bankCount ≠ 0 := by decide
  exact ⟨slots, accesses, plays, (ends interrupted 1).2 _ _ _ _ plays,
    (sound _ _ _ _ _ _ plays rfl).mpr (.inl counted)⟩

end Computer

end Sm83
