import Sm83.Proofs.Steps

/-! # The delay of EI

Which instructions a core has executed decides whether its interrupts are enabled.

* **The enable state.** `Cpu.enable` is the part of the core that decides: `ime` and the two flags
  of the delay.  It is a machine of its own, driven by what the slots do (`enable_slot`).
* **The history.** `justEnabled past` says that the last instruction executed was EI, with no entry
  into a handler since; `imeAfter past` is what a slot then does to `ime`.
* **The invariant.** `Tracks past` relates the two flags, `ime` and the history.  It holds at the
  start, every slot keeps it (`Tracks.next`), and so it holds in every state that can be reached
  (`Reaches.tracks`).
* **Main statement.** `Reaches.ime_slot`: in every such state `imeAfter` tells `ime` after the next
  slot. -/

namespace Sm83

/-! ### The enable state -/

/-- The part of the core that decides when interrupts are enabled. -/
structure Enable where
  ime : Bool
  /-- The last instruction was EI, as far as the core recalls. -/
  pending : Bool
  /-- Interrupts are enabled when the current instruction ends. -/
  delay : Bool
deriving DecidableEq, Repr

/-- The enable state of a core. -/
def Cpu.enable (cpu : Cpu) : Enable := ⟨cpu.ime, cpu.enablePending, cpu.enableDelay⟩

namespace Enable

/-- Interrupts are disabled, and no EI is left to take effect. -/
def off : Enable := ⟨false, false, false⟩

/-- The end of an instruction. -/
def advance (enable : Enable) : Enable :=
  if enable.delay then { enable with ime := true, delay := false }
  else if enable.pending then { enable with pending := false, delay := true }
  else enable

/-- What an operation does to the enable state, before the end of its instruction. -/
def perform : Operation → Enable → Enable
  | .di, _ => off
  | .ei, enable => { enable with pending := true }
  | .reti, enable => { enable with ime := true }
  | _, enable => enable

/-- What a slot does to the enable state. -/
def next : Except StepError Slot → Enable → Enable
  | .ok (.executed ins _), enable => (perform ins.operation enable).advance
  | .ok (.interrupt _), _ => off
  | .ok (.idle _), enable => enable
  | .error _, enable => enable

end Enable

theorem Cpu.enable_advanceEnable (cpu : Cpu) : cpu.advanceEnable.enable = cpu.enable.advance := by
  unfold advanceEnable Enable.advance
  show _ = if cpu.enableDelay = true then _ else if cpu.enablePending = true then _ else _
  split
  · rfl
  · split
    · rfl
    · rfl

theorem Operation.enable_control (op : Operation) (cpu : Cpu) :
    (op.control cpu).enable = Enable.perform op cpu.enable := by
  cases op <;> rfl

/-- The enable state after a slot is a function of the one before it and of what the slot did. -/
theorem Exec.Course.enable {executed : Nat} {cpu after : Cpu} {accesses : List Access}
    {reports : List LogEvent} {outcome : Except StepError Slot}
    (course : Course executed cpu accesses reports outcome after) :
    after.enable = Enable.next outcome cpu.enable := by
  cases course with
  | frozen | entered | idled | faulted => rfl
  | executed thawed woken masked fetched performed =>
    have changed := ensures_perform_control _ _ _ _ _ _ _ performed
    dsimp only at changed
    rw [changed, Cpu.finish, Cpu.enable_advanceEnable, Enable.next]
    exact congrArg Enable.advance (Operation.enable_control _ _)

theorem Computer.enable_slot {β : Type} [Device β] (s : Computer β) :
    (s.slot 0).2.cpu.enable = Enable.next (s.slot 0).1 s.cpu.enable :=
  s.course_slot.enable

/-! ### The history -/

/-- Whether the last instruction executed was EI, and no handler was entered since.  The outcomes of
the slots are listed from the latest on. -/
def justEnabled : List (Except StepError Slot) → Bool
  | [] => false
  | .ok (.executed ins _) :: _ => decide (ins.operation = .ei)
  | .ok (.interrupt _) :: _ => false
  | .ok (.idle _) :: past => justEnabled past
  | .error _ :: past => justEnabled past

/-- Whether interrupts are enabled after an instruction that ends right after an EI or not. -/
def Operation.imeAfter (due : Bool) : Operation → Bool → Bool
  | .di, _ => false
  | .reti, _ => true
  | _, ime => ime || due

/-- Whether interrupts are enabled after a slot, by the history and by whether they were before. -/
def imeAfter (past : List (Except StepError Slot)) (ime : Bool) : Except StepError Slot → Bool
  | .ok (.executed ins _) => ins.operation.imeAfter (justEnabled past) ime
  | .ok (.interrupt _) => false
  | .ok (.idle _) => ime
  | .error _ => ime

/-! ### The invariant -/

/-- What the enable state recalls of an EI just executed.  With interrupts enabled its flags may be
out of date, as after two EI in a row, and then they do not matter. -/
structure Tracks (due : Bool) (enable : Enable) : Prop where
  pending : enable.pending = true → enable.ime = true
  delay : enable.delay = true → enable.ime = true ∨ due = true
  due : due = true → enable.ime = true ∨ enable.delay = true

theorem tracks_off : Tracks false .off := by
  refine ⟨?_, ?_, ?_⟩ <;> rintro ⟨⟩

section instruction
variable {due : Bool} {enable : Enable}

/-- Interrupts that are already enabled stay so, and it does not matter what the flags recall. -/
theorem tracks_of_ime (h : enable.ime = true) : Tracks due enable :=
  ⟨fun _ => h, fun _ => .inl h, fun _ => .inl h⟩

theorem Enable.ime_advance (h : enable.ime = true) : enable.advance.ime = true := by
  unfold advance
  split
  · rfl
  · split
    · exact h
    · exact h

theorem Tracks.ime_or_due_of_delay (h : Tracks due enable) (delayed : enable.delay = true) :
    (enable.ime || due) = true := by
  rcases h.delay delayed with ime | due
  · rw [ime, Bool.true_or]
  · rw [due, Bool.or_true]

/-- With no EI delayed, an EI just executed has already taken effect. -/
theorem Tracks.ime_or_due (h : Tracks due enable) (none : ¬ enable.delay = true) :
    (enable.ime || due) = enable.ime := by
  cases due with
  | false => exact Bool.or_false _
  | true => rw [(h.due rfl).resolve_right none, Bool.true_or]

/-- The end of an instruction that is not EI. -/
theorem Tracks.advance (h : Tracks due enable) :
    Tracks false enable.advance ∧ enable.advance.ime = (enable.ime || due) := by
  unfold Enable.advance
  split
  case isTrue delayed =>
    rw [h.ime_or_due_of_delay delayed]
    exact ⟨tracks_of_ime rfl, rfl⟩
  case isFalse none =>
    rw [h.ime_or_due none]
    split
    case isTrue pending => exact ⟨tracks_of_ime (h.pending pending), rfl⟩
    case isFalse quiet =>
      refine ⟨⟨fun pending => absurd pending quiet, fun delayed => absurd delayed none, ?_⟩, rfl⟩
      rintro ⟨⟩

/-- The end of an EI: it is delayed, unless the EI before it enables interrupts now. -/
theorem Tracks.advance_ei (h : Tracks due enable) :
    Tracks true (Enable.perform .ei enable).advance ∧
      (Enable.perform .ei enable).advance.ime = (enable.ime || due) := by
  unfold Enable.advance
  split
  case isTrue delayed =>
    rw [h.ime_or_due_of_delay delayed]
    exact ⟨tracks_of_ime rfl, rfl⟩
  case isFalse none =>
    rw [h.ime_or_due none, if_pos (show (Enable.perform .ei enable).pending = true from rfl)]
    refine ⟨⟨?_, fun _ => .inr rfl, fun _ => .inr rfl⟩, rfl⟩
    rintro ⟨⟩

/-- Every instruction keeps the invariant, and does to `ime` what `Operation.imeAfter` says. -/
theorem Tracks.instruction (h : Tracks due enable) (op : Operation) :
    Tracks (decide (op = .ei)) (Enable.perform op enable).advance ∧
      (Enable.perform op enable).advance.ime = op.imeAfter due enable.ime := by
  cases op with
  | di => exact ⟨tracks_off, rfl⟩
  | reti =>
    have ime : (Enable.perform .reti enable).advance.ime = true := Enable.ime_advance rfl
    exact ⟨tracks_of_ime ime, ime⟩
  | ei => exact h.advance_ei
  | _ => exact h.advance

end instruction

/-- Every slot keeps the invariant, and does to `ime` what the history says. -/
theorem Tracks.next {past : List (Except StepError Slot)} {enable : Enable}
    (h : Tracks (justEnabled past) enable) (outcome : Except StepError Slot) :
    Tracks (justEnabled (outcome :: past)) (Enable.next outcome enable) ∧
      (Enable.next outcome enable).ime = imeAfter past enable.ime outcome := by
  rcases outcome with e | ⟨ins, cost⟩ | source | cost
  · exact ⟨h, rfl⟩
  · exact h.instruction ins.operation
  · exact ⟨tracks_off, rfl⟩
  · exact ⟨h, rfl⟩

/-! ### Reachable states -/

namespace Computer

variable {β : Type} [Device β]

/-- The states that can be reached from a fresh core by steps, with the outcomes of the steps since,
the latest first.  Between steps the host may do anything but write `ime`; the flags of the delay
are not its to write. -/
inductive Reaches : List (Except StepError Slot) → Computer β → Prop
  | boot (state : BootState) (entry : UInt16) (board : Board β) :
      Reaches [] ⟨.boot state entry, board⟩
  | step {past : List (Except StepError Slot)} {s : Computer β} :
      Reaches past s → Reaches ((s.slot 0).1 :: past) s.step.2
  | host {past : List (Except StepError Slot)} {s t : Computer β} :
      Reaches past s → t.cpu.enable = s.cpu.enable → Reaches past t

theorem Reaches.tracks {past : List (Except StepError Slot)} {s : Computer β}
    (h : Reaches past s) : Tracks (justEnabled past) s.cpu.enable := by
  induction h with
  | boot state entry board => exact tracks_off
  | @step past s _ ih =>
    have kept := (ih.next (s.slot 0).1).1
    rw [← enable_slot] at kept
    exact kept
  | host _ same ih =>
    rw [same]
    exact ih

/-- **The history decides**: in a state that is reached by steps, whether interrupts are enabled
after the next one follows from what it did and from the last instruction before it. -/
theorem Reaches.ime_slot {past : List (Except StepError Slot)} {s : Computer β}
    (h : Reaches past s) : s.step.2.cpu.ime = imeAfter past s.cpu.ime (s.slot 0).1 := by
  have enabled := (h.tracks.next (s.slot 0).1).2
  rw [← enable_slot] at enabled
  exact enabled

/-- Interrupts are enabled by the instruction after EI. -/
theorem Reaches.ime_slot_ei_nop :
    ((ofProgram #[0xFB, 0x00]).after 1).cpu.ime = false ∧
      ((ofProgram #[0xFB, 0x00]).after 2).cpu.ime = true :=
  ⟨(Reaches.boot .zeroed 0 _).ime_slot, (Reaches.boot .zeroed 0 _).step.ime_slot⟩

end Computer

end Sm83
