import Mathlib.Data.List.Forall2
import Sm83.Proofs.ClockTicks
import Sm83.Proofs.LogErasure

/-! # Dialogues

What the host calls for, and what it is told.

* **Calls.** `Dialogue s requests calls t` are calls that the host makes one after the other, each
  for a request.
* **Answers.** `Converses s requests answers t` is what `step` and `run` compute for some requests.
  It is what dialogues tell (`exists_dialogue_iff`).
* **Replies.** The requests and the state decide the calls (`Dialogue.unique`), and the log has no
  part in it: from computers that are alike the same requests lead to calls that are alike
  (`Dialogue.exists_alike`). -/

namespace Sm83

namespace Computer

variable {β : Type} [Device β] {s t : Computer β}

/-- Calls that the host makes one after the other. -/
inductive Dialogue : Computer β → List Request → List (HostCall β) → Computer β → Prop
  | start (s : Computer β) : Dialogue s [] [] s
  | call {request : Request} {requests : List Request} {s t u : Computer β} {call : HostCall β}
      {calls : List (HostCall β)} :
      Serves request s call t → Dialogue t requests calls u →
      Dialogue s (request :: requests) (call :: calls) u

/-- What the computer tells the host that makes requests one after the other. -/
inductive Converses : Computer β → List Request → List Answer → Computer β → Prop
  | start (s : Computer β) : Converses s [] [] s
  | request {request : Request} {requests : List Request} {s t u : Computer β} {answer : Answer}
      {answers : List Answer} :
      Tells request s answer t → Converses t requests answers u →
      Converses s (request :: requests) (answer :: answers) u

/-- Whether two calls differ at most in the logs: they make the same accesses, tell the same, and
go through states that are alike. -/
structure HostCall.Alike (call other : HostCall β) : Prop where
  accesses : call.accesses = other.accesses
  answer : call.answer = other.answer
  slots : call.slots.map unlogged = other.slots.map unlogged

section calls
variable {request : Request} {requests : List Request} {call other : HostCall β}
  {calls others : List (HostCall β)} {s' t' : Computer β}

theorem Serves.unique (h : Serves request s call t) (h' : Serves request s other t') :
    call = other ∧ t = t' := by
  cases h with
  | step =>
    cases h'
    exact ⟨rfl, rfl⟩
  | run plays =>
    cases h' with
    | run plays' =>
      obtain ⟨rfl, rfl, rfl, rfl⟩ := plays.unique plays'
      exact ⟨rfl, rfl⟩

theorem Serves.exists_alike (alike : s.unlogged = s'.unlogged) (h : Serves request s call t) :
    ∃ other t', Serves request s' other t' ∧ call.Alike other ∧ t.unlogged = t'.unlogged := by
  cases h with
  | step =>
    have accesses : s.accesses = s'.accesses := by
      rw [← accesses_unlogged, alike, accesses_unlogged]
    have step : s.unlogged.step = s'.unlogged.step := by rw [alike]
    rw [step_unlogged, step_unlogged] at step
    obtain ⟨told, left⟩ := Prod.mk.inj step
    exact ⟨_, _, .step s', ⟨accesses, congrArg Answer.step told, congrArg ([·]) alike⟩, left⟩
  | run plays =>
    obtain ⟨slots', t', plays', slots, left⟩ := plays.exists_alike alike
    exact ⟨_, t', .run plays', ⟨rfl, rfl, slots⟩, left⟩

/-- A dialogue is a session in which the requests are known. -/
theorem Dialogue.session (h : Dialogue s requests calls t) : Session s calls t := by
  induction h with
  | start s => exact .start s
  | call served _ ih => exact .call (makes_iff_exists_serves.mpr ⟨_, served⟩) ih

/-- The host is told the same again if it makes the same calls in the same state. -/
theorem Dialogue.unique (h : Dialogue s requests calls t) (h' : Dialogue s requests others t') :
    calls = others ∧ t = t' := by
  induction h generalizing others with
  | start =>
    cases h'
    exact ⟨rfl, rfl⟩
  | call served _ ih =>
    cases h' with
    | call served' rest =>
      obtain ⟨rfl, rfl⟩ := served.unique served'
      obtain ⟨rfl, rfl⟩ := ih rest
      exact ⟨rfl, rfl⟩

/-- The answers in a dialogue are those of the computer. -/
theorem exists_dialogue_iff {answers : List Answer} :
    (∃ calls, Dialogue s requests calls t ∧ calls.map HostCall.answer = answers) ↔
      Converses s requests answers t := by
  constructor
  · rintro ⟨calls, dialogue, rfl⟩
    induction dialogue with
    | start s => exact .start s
    | call served _ ih => exact .request (exists_serves_iff.mp ⟨_, _, served⟩) ih
  · intro conversation
    induction conversation with
    | start s => exact ⟨[], .start s, rfl⟩
    | request told _ ih =>
      obtain ⟨slots, accesses, served⟩ := exists_serves_iff.mpr told
      obtain ⟨calls, rest, rfl⟩ := ih
      exact ⟨_, .call served rest, rfl⟩

theorem Dialogue.exists_alike (alike : s.unlogged = s'.unlogged)
    (h : Dialogue s requests calls t) :
    ∃ others t', Dialogue s' requests others t' ∧ List.Forall₂ HostCall.Alike calls others ∧
      t.unlogged = t'.unlogged := by
  induction h generalizing s' with
  | start => exact ⟨_, s', .start s', .nil, alike⟩
  | call served _ ih =>
    obtain ⟨other, u, served', same, left⟩ := served.exists_alike alike
    obtain ⟨others, t', rest, sameRest, last⟩ := ih left
    exact ⟨_, t', .call served' rest, .cons same sameRest, last⟩

end calls

end Computer

end Sm83
