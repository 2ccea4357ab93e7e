import Sm83.Proofs.Faults

/-! # The stack

Pushing and popping on plain memory.

* **Histories.** A history lists the calls of `Exec.push` and `Exec.pop`, the latest first.
  `Balanced` says that no pop of it finds the stack empty, and `depth` how many words it leaves; the
  words themselves are `wordsOf`.
* **Matching.** A push matches the calls after it if those are `Closed`; it is still there if they
  are `Balanced`.  What `wordsOf` lists are the pushes that are still there
  (`wordsOf_append`, `exists_push_of_wordsOf`).
* **Invariant.** `StackIs base words` says that the words lie below `base`, each with its low byte
  first.  A push keeps it as long as there is room (`StackIs.push`), and a pop gives the first word
  (`StackIs.pop`).
* **Main statement.** `faithfulStack`: every pop gives the value of its matching push, wherever the
  stack begins and whether or not it wraps around. -/

namespace Sm83

/-- A call of one of the two programs of the core that use the stack. -/
inductive StackCall where
  | push (value : UInt16)
  | pop
deriving DecidableEq

namespace StackCall

/-! ### Histories -/

/-- The number of pushes in a history. -/
def pushes : List StackCall → Nat
  | [] => 0
  | push _ :: past => pushes past + 1
  | pop :: past => pushes past

/-- The number of pops in a history. -/
def pops : List StackCall → Nat
  | [] => 0
  | push _ :: past => pops past
  | pop :: past => pops past + 1

/-- The number of words that a history leaves on the stack. -/
def depth (past : List StackCall) : Nat := pushes past - pops past

/-- The greatest depth that a history reached. -/
def peak : List StackCall → Nat
  | [] => 0
  | call :: past => max (depth (call :: past)) (peak past)

/-- Whether the pops of a history never outnumbered its pushes. -/
def Balanced (past : List StackCall) : Prop :=
  ∀ earlier, earlier <:+ past → pops earlier ≤ pushes earlier

/-- Whether a history took back all that it pushed, and nothing else. -/
def Closed (past : List StackCall) : Prop := Balanced past ∧ pops past = pushes past

/-- The words that a history leaves on the stack, the top first. -/
def wordsOf : List StackCall → List UInt16
  | [] => []
  | push value :: past => value :: wordsOf past
  | pop :: past => (wordsOf past).tail

theorem balanced_nil : Balanced [] := by
  intro earlier suffix
  obtain rfl := List.suffix_nil.mp suffix
  exact Nat.le_refl 0

theorem balanced_cons {call : StackCall} {past : List StackCall} :
    Balanced (call :: past) ↔ pops (call :: past) ≤ pushes (call :: past) ∧ Balanced past := by
  constructor
  · intro balanced
    exact ⟨balanced _ (List.suffix_refl _),
      fun earlier suffix => balanced earlier (suffix.trans (List.suffix_cons call past))⟩
  · rintro ⟨now, balanced⟩ earlier suffix
    rcases List.suffix_cons_iff.mp suffix with rfl | suffix
    · exact now
    · exact balanced earlier suffix

theorem Balanced.suffix {past earlier : List StackCall} (h : Balanced past)
    (suffix : earlier <:+ past) : Balanced earlier :=
  fun other inside => h other (inside.trans suffix)

/-- Each word on the stack is one that was pushed and not popped. -/
theorem length_wordsOf_add {past : List StackCall} (balanced : Balanced past) :
    (wordsOf past).length + pops past = pushes past := by
  induction past with
  | nil => rfl
  | cons call past ih =>
    obtain ⟨now, before⟩ := balanced_cons.mp balanced
    have earlier := ih before
    cases call with
    | push value =>
      rw [wordsOf, List.length_cons, pops, pushes]
      omega
    | pop =>
      rw [pops, pushes] at now ⊢
      rw [wordsOf, List.length_tail]
      omega

theorem length_wordsOf {past : List StackCall} (balanced : Balanced past) :
    (wordsOf past).length = depth past := by
  have counted := length_wordsOf_add balanced
  rw [depth]
  omega

/-- A closed history leaves no word. -/
theorem Closed.wordsOf_eq_nil {past : List StackCall} (closed : Closed past) :
    wordsOf past = [] := by
  have counted := length_wordsOf_add closed.1
  rw [closed.2] at counted
  exact List.eq_nil_of_length_eq_zero (by omega)

/-- Where something is popped there is a top. -/
theorem Balanced.exists_top {past : List StackCall} (balanced : Balanced (pop :: past)) :
    ∃ top rest, wordsOf past = top :: rest := by
  obtain ⟨now, before⟩ := balanced_cons.mp balanced
  have counted := length_wordsOf_add before
  rw [pops, pushes] at now
  cases words : wordsOf past with
  | nil =>
    rw [words, List.length_nil] at counted
    omega
  | cons top rest => exact ⟨top, rest, rfl⟩

/-! ### Matching -/

/-- A balanced history does not touch the words below it. -/
theorem wordsOf_append {mid : List StackCall} (balanced : Balanced mid) (first : List StackCall) :
    wordsOf (mid ++ first) = wordsOf mid ++ wordsOf first := by
  induction mid with
  | nil => rfl
  | cons call mid ih =>
    have before := (balanced_cons.mp balanced).2
    cases call with
    | push value => exact congrArg (value :: ·) (ih before)
    | pop =>
      obtain ⟨top, rest, words⟩ := balanced.exists_top
      rw [List.cons_append, wordsOf, wordsOf, ih before, words]
      rfl

/-- Every word on the stack was pushed, and the calls since then are balanced. -/
theorem exists_push_of_wordsOf {past : List StackCall} (balanced : Balanced past)
    {above below : List UInt16} {value : UInt16} (words : wordsOf past = above ++ value :: below) :
    ∃ mid first, past = mid ++ push value :: first ∧ Balanced mid ∧ wordsOf mid = above := by
  induction past generalizing above with
  | nil =>
    rw [wordsOf] at words
    exact absurd words (by simp)
  | cons call past ih =>
    have before := (balanced_cons.mp balanced).2
    cases call with
    | push top =>
      cases above with
      | nil =>
        obtain ⟨rfl, -⟩ := List.cons.inj words
        exact ⟨[], past, rfl, balanced_nil, rfl⟩
      | cons top' above =>
        obtain ⟨rfl, rest⟩ := List.cons.inj words
        obtain ⟨mid, first, rfl, after, left⟩ := ih before rest
        have now : pops (push top :: mid) ≤ pushes (push top :: mid) :=
          Nat.le_succ_of_le (after mid (List.suffix_refl mid))
        exact ⟨push top :: mid, first, rfl, balanced_cons.mpr ⟨now, after⟩,
          congrArg (top :: ·) left⟩
    | pop =>
      -- The word that the last call took off stood above all the others.
      obtain ⟨top, rest, stack⟩ := balanced.exists_top
      rw [wordsOf, stack] at words
      have deeper : wordsOf past = (top :: above) ++ value :: below :=
        stack.trans (congrArg (top :: ·) words)
      obtain ⟨mid, first, rfl, after, left⟩ := ih before deeper
      have counted := length_wordsOf_add after
      rw [left, List.length_cons] at counted
      have now : pops (pop :: mid) ≤ pushes (pop :: mid) := by
        rw [pops, pushes]
        omega
      refine ⟨pop :: mid, first, rfl, balanced_cons.mpr ⟨now, after⟩, ?_⟩
      rw [wordsOf, left]
      rfl

/-- Before every pop there is a matching push. -/
theorem Balanced.exists_match {past : List StackCall} (balanced : Balanced (pop :: past)) :
    ∃ mid value first, past = mid ++ push value :: first ∧ Closed mid := by
  have before := (balanced_cons.mp balanced).2
  obtain ⟨value, below, words⟩ := balanced.exists_top
  have top : wordsOf past = [] ++ value :: below := words
  obtain ⟨mid, first, rfl, after, left⟩ := exists_push_of_wordsOf before top
  have counted := length_wordsOf_add after
  rw [left, List.length_nil, Nat.zero_add] at counted
  exact ⟨mid, value, first, rfl, after, counted⟩

end StackCall

/-! ### Addresses -/

/-- The address at a distance below a base. -/
def below (base : UInt16) (distance : Nat) : UInt16 := base - UInt16.ofNat distance

section below
variable (base : UInt16) (m n : Nat)

theorem below_add : below base (m + n) = below base m - UInt16.ofNat n := by
  rw [below, below, UInt16.ofNat_add]
  grind

theorem below_add_add : below base (m + n) + UInt16.ofNat n = below base m := by
  rw [below_add]
  grind

/-- The addresses below a base differ, all the way around. -/
theorem below_inj {base : UInt16} {m n : Nat} (positive : 0 < m) (last : m ≤ 0x10000)
    (positive' : 0 < n) (last' : n ≤ 0x10000) : below base m = below base n ↔ m = n := by
  refine ⟨fun same => ?_, fun same => same ▸ rfl⟩
  have offset : UInt16.ofNat m = UInt16.ofNat n := by
    rw [below, below] at same
    grind
  have wrapped := congrArg UInt16.toNat offset
  rw [UInt16.toNat_ofNat', UInt16.toNat_ofNat'] at wrapped
  omega

end below

/-! ### The invariant -/

namespace FlatMemory

/-- Whether a memory holds some words below a base, the last of them highest and each with its low
byte first. -/
def HoldsWords (memory : FlatMemory) (base : UInt16) : List UInt16 → Prop
  | [] => True
  | value :: rest =>
    memory.get (below base (2 * rest.length + 2)) = lowByte value ∧
      memory.get (below base (2 * rest.length + 1)) = highByte value ∧
      memory.HoldsWords base rest

variable {memory : FlatMemory} {base : UInt16} {words : List UInt16}

/-- Words are not touched by a write further below. -/
theorem HoldsWords.set (h : memory.HoldsWords base words) {distance : Nat} (value : UInt8)
    (apart : 2 * words.length < distance) (last : distance ≤ 0x10000) :
    (memory.set (below base distance) value).HoldsWords base words := by
  induction words with
  | nil => trivial
  | cons word rest ih =>
    obtain ⟨low, high, others⟩ := h
    rw [List.length_cons] at apart
    have elsewhere {other : Nat} (positive : 0 < other) (above : other < distance) :
        (memory.set (below base distance) value).get (below base other) =
          memory.get (below base other) := by
      have address : below base distance ≠ below base other := by
        rw [Ne, below_inj (by omega) last positive (by omega)]
        omega
      rw [get_set, if_neg address]
    refine ⟨?_, ?_, ih others (by omega)⟩
    · rw [elsewhere (by omega) (by omega), low]
    · rw [elsewhere (by omega) (by omega), high]

/-- Each of the words lies at its own distance below the base. -/
theorem HoldsWords.get {above rest : List UInt16} {value : UInt16}
    (h : memory.HoldsWords base (above ++ value :: rest)) :
    memory.get (below base (2 * rest.length + 2)) = lowByte value ∧
      memory.get (below base (2 * rest.length + 1)) = highByte value := by
  induction above with
  | nil => exact ⟨h.1, h.2.1⟩
  | cons word above ih => exact ih h.2.2

end FlatMemory

namespace Computer

variable {s : Computer FlatMemory} {base : UInt16} {words : List UInt16}

/-- The accesses of a program decide the memory that it leaves. -/
theorem bus_exec {α : Type} (program : Exec α) (s : Computer FlatMemory) :
    (s.exec program).2.board.bus =
      (replay ((program.run s.cpu).accesses s.board.bus) s.board.bus).state :=
  Interaction.bus_run (program.run s.cpu) s.board

/-- A push writes two bytes. -/
theorem exec_push (s : Computer FlatMemory) (value : UInt16) :
    (s.exec (Exec.push value)).2.cpu.regs.sp = s.cpu.regs.sp - 2 ∧
      (s.exec (Exec.push value)).2.board.bus =
        (s.board.bus.set (s.cpu.regs.sp - 1) (highByte value)).set (s.cpu.regs.sp - 2)
          (lowByte value) := by
  have pushed : Exec.Ensures (Exec.push value) s.cpu fun accesses _ _ after =>
      accesses = [.write (s.cpu.regs.sp - 1) (highByte value),
        .write (s.cpu.regs.sp - 2) (lowByte value)] ∧ after.regs.sp = s.cpu.regs.sp - 2 := by
    rw [Exec.ensures_push]
    exact ⟨rfl, rfl⟩
  obtain ⟨made, sp⟩ := exec_of_ensures pushed
  have bus := bus_exec (Exec.push value) s
  rw [made] at bus
  exact ⟨sp, bus⟩

/-- A pop reads two bytes, and writes none. -/
theorem exec_pop (s : Computer FlatMemory) :
    (s.exec Exec.pop).1 =
        word (s.board.bus.get (s.cpu.regs.sp + 1)) (s.board.bus.get s.cpu.regs.sp) ∧
      (s.exec Exec.pop).2.cpu.regs.sp = s.cpu.regs.sp + 2 ∧
      (s.exec Exec.pop).2.board.bus = s.board.bus := by
  have popped : Exec.Ensures Exec.pop s.cpu fun accesses _ value after =>
      ∃ low high, accesses = [.read s.cpu.regs.sp low, .read (s.cpu.regs.sp + 1) high] ∧
        value = word high low ∧ after.regs.sp = s.cpu.regs.sp + 2 := by
    rw [Exec.ensures_pop]
    exact fun low high => ⟨low, high, rfl, rfl, rfl⟩
  obtain ⟨low, high, made, value, sp⟩ := exec_of_ensures popped
  have answers := Interaction.answers_accesses (Exec.pop.run s.cpu) s.board.bus
  have bus := bus_exec Exec.pop s
  rw [made] at answers bus
  obtain ⟨first, second, -⟩ := answers
  have low : s.board.bus.get s.cpu.regs.sp = low := first
  have high : s.board.bus.get (s.cpu.regs.sp + 1) = high := second
  rw [low, high]
  exact ⟨value, sp, bus⟩

/-- Whether the stack of a computer consists of some words below a base. -/
structure StackIs (base : UInt16) (words : List UInt16) (s : Computer FlatMemory) : Prop where
  sp : s.cpu.regs.sp = below base (2 * words.length)
  bytes : s.board.bus.HoldsWords base words

/-- A push writes just below the words that are there. -/
theorem StackIs.exec_push (h : StackIs base words s) (value : UInt16) :
    (s.exec (Exec.push value)).2.cpu.regs.sp = below base (2 * words.length + 2) ∧
      (s.exec (Exec.push value)).2.board.bus =
        (s.board.bus.set (below base (2 * words.length + 1)) (highByte value)).set
          (below base (2 * words.length + 2)) (lowByte value) := by
  obtain ⟨sp, bus⟩ := Computer.exec_push s value
  have low : s.cpu.regs.sp - 2 = below base (2 * words.length + 2) := by
    rw [below_add, h.sp]
    rfl
  have high : s.cpu.regs.sp - 1 = below base (2 * words.length + 1) := by
    rw [below_add, h.sp]
    rfl
  rw [low, high] at bus
  rw [low] at sp
  exact ⟨sp, bus⟩

/-- A push puts a word on the stack, where there is room. -/
theorem StackIs.push (h : StackIs base words s) (room : words.length < 0x8000) (value : UInt16) :
    StackIs base (value :: words) (s.exec (Exec.push value)).2 := by
  obtain ⟨sp, bus⟩ := h.exec_push value
  have apart : below base (2 * words.length + 2) ≠ below base (2 * words.length + 1) := by
    rw [Ne, below_inj (by omega) (by omega) (by omega) (by omega)]
    omega
  refine ⟨sp, ?_⟩
  rw [bus]
  refine ⟨?_, ?_, ?_⟩
  · rw [FlatMemory.get_set, if_pos rfl]
  · rw [FlatMemory.get_set, if_neg apart, FlatMemory.get_set, if_pos rfl]
  · exact (h.bytes.set _ (by omega) (by omega)).set _ (by omega) (by omega)

/-- A pop gives the word on top of the stack and takes it off. -/
theorem StackIs.pop {value : UInt16} (h : StackIs base (value :: words) s) :
    (s.exec Exec.pop).1 = value ∧ StackIs base words (s.exec Exec.pop).2 := by
  obtain ⟨popped, sp, bus⟩ := exec_pop s
  obtain ⟨low, high, others⟩ := h.bytes
  have top : s.cpu.regs.sp = below base (2 * words.length + 2) := h.sp
  have above : s.cpu.regs.sp + 1 = below base (2 * words.length + 1) := by
    rw [top]
    exact below_add_add base _ 1
  have next : s.cpu.regs.sp + 2 = below base (2 * words.length) := by
    rw [top]
    exact below_add_add base _ 2
  refine ⟨?_, ?_, ?_⟩
  · rw [popped, above, top, low, high, word_highByte_lowByte]
  · rw [sp, next]
  · rw [bus]
    exact others

/-! ### Histories of a computer -/

/-- The computer after a call. -/
def stackCall (s : Computer FlatMemory) : StackCall → Computer FlatMemory
  | .push value => (s.exec (Exec.push value)).2
  | .pop => (s.exec Exec.pop).2

/-- The computer after some calls, the latest first. -/
def stackCalls (s : Computer FlatMemory) : List StackCall → Computer FlatMemory
  | [] => s
  | call :: past => (s.stackCalls past).stackCall call

/-- **The invariant**: as long as no pop finds the stack empty and there is room, the stack holds the
words that the history leaves on it. -/
theorem stackIs_stackCalls (s : Computer FlatMemory) {past : List StackCall}
    (balanced : StackCall.Balanced past)
    (room : ∀ earlier, earlier <:+ past → StackCall.depth earlier ≤ 0x8000) :
    StackIs s.cpu.regs.sp (StackCall.wordsOf past) (s.stackCalls past) := by
  induction past with
  | nil => exact ⟨(UInt16.sub_zero _).symm, trivial⟩
  | cons call past ih =>
    have before := (StackCall.balanced_cons.mp balanced).2
    have earlier := ih before fun other suffix => room other (suffix.trans (List.suffix_cons _ _))
    cases call with
    | push value =>
      refine earlier.push ?_ value
      have depth := room _ (List.suffix_refl _)
      rw [← StackCall.length_wordsOf balanced] at depth
      exact depth
    | pop =>
      obtain ⟨value, rest, words⟩ := balanced.exists_top
      rw [words] at earlier
      rw [StackCall.wordsOf, words]
      exact earlier.pop.2

/-- The calls write nowhere but in the bytes below the base that they used. -/
theorem get_stackCalls (s : Computer FlatMemory) {past : List StackCall}
    (balanced : StackCall.Balanced past)
    (room : ∀ earlier, earlier <:+ past → StackCall.depth earlier ≤ 0x8000) {address : UInt16}
    (outside : ∀ distance, 0 < distance → distance ≤ 2 * StackCall.peak past →
      address ≠ s.cpu.regs.sp - UInt16.ofNat distance) :
    (s.stackCalls past).board.bus.get address = s.board.bus.get address := by
  induction past with
  | nil => rfl
  | cons call past ih =>
    have before := (StackCall.balanced_cons.mp balanced).2
    have roomBefore : ∀ earlier, earlier <:+ past → StackCall.depth earlier ≤ 0x8000 :=
      fun earlier suffix => room earlier (suffix.trans (List.suffix_cons _ _))
    have deepest : StackCall.peak past ≤ StackCall.peak (call :: past) := Nat.le_max_right _ _
    have unchanged := ih before roomBefore fun distance positive inside =>
      outside distance positive (by omega)
    cases call with
    | push value =>
      have stack := stackIs_stackCalls s before roomBefore
      have depth : (StackCall.wordsOf past).length + 1 ≤
          StackCall.peak (.push value :: past) := by
        have length := StackCall.length_wordsOf balanced
        rw [StackCall.wordsOf, List.length_cons] at length
        rw [length]
        exact Nat.le_max_left _ _
      have low : address ≠ below s.cpu.regs.sp (2 * (StackCall.wordsOf past).length + 2) :=
        outside _ (by omega) (by omega)
      have high : address ≠ below s.cpu.regs.sp (2 * (StackCall.wordsOf past).length + 1) :=
        outside _ (by omega) (by omega)
      rw [stackCalls, stackCall, (stack.exec_push value).2, FlatMemory.get_set,
        if_neg low.symm, FlatMemory.get_set, if_neg high.symm, unchanged]
    | pop => rw [stackCalls, stackCall, (exec_pop _).2.2, unchanged]

/-! ### The stack is faithful -/

/-- What the calls of a history do on a computer with plain memory. -/
structure FaithfulStack (s : Computer FlatMemory) (past : List StackCall) : Prop where
  /-- The stack pointer tells the depth. -/
  sp : ∀ earlier, earlier <:+ past → (s.stackCalls earlier).cpu.regs.sp =
    s.cpu.regs.sp - UInt16.ofNat (2 * StackCall.depth earlier)
  /-- Every pop has a matching push. -/
  matched : ∀ earlier, .pop :: earlier <:+ past → ∃ mid value first,
    earlier = mid ++ .push value :: first ∧ StackCall.Closed mid
  /-- A pop gives the value of the matching push. -/
  popped : ∀ earlier mid value first, .pop :: earlier <:+ past →
    earlier = mid ++ .push value :: first → StackCall.Closed mid →
      ((s.stackCalls earlier).exec Exec.pop).1 = value
  /-- A word that is still there lies where its push left the stack pointer. -/
  live : ∀ earlier mid value first, earlier <:+ past →
    earlier = mid ++ .push value :: first → StackCall.Balanced mid →
      (s.stackCalls earlier).board.bus.get (s.stackCalls (.push value :: first)).cpu.regs.sp =
          lowByte value ∧
        (s.stackCalls earlier).board.bus.get
            ((s.stackCalls (.push value :: first)).cpu.regs.sp + 1) = highByte value
  /-- Nothing changes but the bytes below the first stack pointer that were needed. -/
  frame : ∀ address, (∀ distance, 0 < distance → distance ≤ 2 * StackCall.peak past →
      address ≠ s.cpu.regs.sp - UInt16.ofNat distance) →
    (s.stackCalls past).board.bus.get address = s.board.bus.get address

/-- **A faithful stack**: on plain memory, wherever the stack begins, a history whose pops never
outnumber its pushes and whose depth never exceeds the memory gives every pop the value of its
matching push. -/
theorem faithfulStack (s : Computer FlatMemory) (past : List StackCall)
    (balanced : ∀ earlier, earlier <:+ past → StackCall.pops earlier ≤ StackCall.pushes earlier)
    (room : ∀ earlier, earlier <:+ past → StackCall.depth earlier ≤ 0x8000) :
    s.FaithfulStack past := by
  have stack {earlier : List StackCall} (suffix : earlier <:+ past) :
      StackIs s.cpu.regs.sp (StackCall.wordsOf earlier) (s.stackCalls earlier) :=
    s.stackIs_stackCalls (StackCall.Balanced.suffix balanced suffix)
      fun other inside => room other (inside.trans suffix)
  refine ⟨?_, ?_, ?_, ?_, ?_⟩
  · intro earlier suffix
    rw [(stack suffix).sp,
      StackCall.length_wordsOf (StackCall.Balanced.suffix balanced suffix)]
    rfl
  · intro earlier suffix
    exact (StackCall.Balanced.suffix balanced suffix).exists_match
  · rintro _ mid value first suffix rfl closed
    have stack := stack ((List.suffix_cons _ _).trans suffix)
    rw [StackCall.wordsOf_append closed.1, closed.wordsOf_eq_nil] at stack
    exact stack.pop.1
  · rintro _ mid value first suffix rfl after
    have now := (stack suffix).bytes
    have before := stack ((List.suffix_append mid _).trans suffix)
    rw [StackCall.wordsOf_append after] at now
    obtain ⟨low, high⟩ := now.get
    have sp : (s.stackCalls (.push value :: first)).cpu.regs.sp =
        below s.cpu.regs.sp (2 * (StackCall.wordsOf first).length + 2) := before.sp
    have next := below_add_add s.cpu.regs.sp (2 * (StackCall.wordsOf first).length + 1) 1
    rw [sp]
    exact ⟨low, (congrArg _ next).trans high⟩
  · intro address outside
    exact s.get_stackCalls balanced room outside

/-- A computer whose stack begins at the beginning of the memory. -/
def lowStack : Computer FlatMemory where
  cpu := { regs := { sp := 0x0001 } }
  board := { bus := {} }

/-- The stack goes on at the end of the memory. -/
theorem faithfulStack_lowStack :
    lowStack.FaithfulStack [.pop, .push 0xBEEF, .push 0x1234] ∧
      ((lowStack.stackCalls [.push 0xBEEF, .push 0x1234]).exec Exec.pop).1 = 0xBEEF ∧
      (lowStack.stackCalls [.push 0xBEEF, .push 0x1234]).cpu.regs.sp = 0xFFFD := by
  have faithful : lowStack.FaithfulStack [.pop, .push 0xBEEF, .push 0x1234] := by
    apply faithfulStack
    · intro earlier suffix
      simp only [List.suffix_cons_iff, List.suffix_nil] at suffix
      rcases suffix with rfl | rfl | rfl | rfl
      all_goals decide
    · intro earlier suffix
      simp only [List.suffix_cons_iff, List.suffix_nil] at suffix
      rcases suffix with rfl | rfl | rfl | rfl
      all_goals decide
  refine ⟨faithful, ?_, ?_⟩
  · exact faithful.popped _ [] 0xBEEF [.push 0x1234] (List.suffix_refl _) rfl
      ⟨StackCall.balanced_nil, rfl⟩
  · exact faithful.sp _ (List.suffix_cons _ _)

end Computer

end Sm83
