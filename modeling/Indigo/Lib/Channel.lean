import Indigo.Lib.Machine

/-!
# A reliable connection

A connection between two ends carries, each way, the messages one end sends to the other, in
the order they were sent: it loses none, duplicates none and reorders none. `Fifo.step` is such
a connection as a machine: its state is, for each end, the messages that end sent and the
other has not yet received; a send appends, a receive takes the oldest. The connection may
refuse a message (`accepts`), and then nothing changes.

## Main results

- `Fifo.conserves`: over every run, what an end had in flight and then sent is what the other
  end received, followed by what is still in flight.
- `Fifo.received_prefix`: from an idle connection, the messages an end receives are the first
  of the messages the other end sent, in order.
-/

namespace Indigo.Lib

/-- The two ends of a connection. -/
inductive End
  | initiator
  | recipient
  deriving DecidableEq, Repr

/-- The end at the other side. -/
def End.other : End → End
  | .initiator => .recipient
  | .recipient => .initiator

@[simp] theorem End.other_other (e : End) : e.other.other = e := by
  cases e <;> rfl

theorem End.other_ne (e : End) : e.other ≠ e := by
  cases e <;> decide

theorem End.eq_or_eq_other (e e' : End) : e' = e ∨ e' = e.other := by
  cases e <;> cases e' <;> decide

/-- What the ends ask of a connection. -/
inductive Action (α : Type)
  | send (e : End) (a : α)
  | recv (e : End)

/-- What an end sees of its action: whether the connection took its message, or what it
received, if anything had come. -/
inductive Seen (α : Type)
  | sent (accepted : Bool)
  | received (a : Option α)
  deriving DecidableEq

variable {α : Type}

/-- A reliable connection that takes the messages `accepts` admits: the state holds, for each
end, what it sent and the other end has not yet received, oldest first. -/
def Fifo.step (accepts : α → Bool) (q : End → List α) : Action α → Seen α × (End → List α)
  | .send e a =>
    if accepts a then (.sent true, Function.update q e (q e ++ [a])) else (.sent false, q)
  | .recv e =>
    match q e.other with
    | [] => (.received none, q)
    | a :: rest => (.received (some a), Function.update q e.other rest)

/-- The messages end `e` sent that the connection took, over a run. -/
def accepted (accepts : α → Bool) (e : End) : List (Action α) → List α
  | [] => []
  | .send e' a :: as => (if e' = e ∧ accepts a then [a] else []) ++ accepted accepts e as
  | .recv _ :: as => accepted accepts e as

/-- The messages end `e` received over a run, from the answers to its receives. -/
def received (e : End) : List (Action α × Seen α) → List α
  | [] => []
  | (.recv e', .received (some a)) :: rest => (if e' = e then [a] else []) ++ received e rest
  | _ :: rest => received e rest

variable {accepts : α → Bool}

/-- What was in flight from `e` and what `e` then sent is what the other end received, then
what is still in flight. -/
theorem Fifo.conserves (q : End → List α) (e : End) (actions : List (Action α)) :
    q e ++ accepted accepts e actions =
      received e.other (actions.zip (answers (Fifo.step accepts) q actions)) ++
        final (Fifo.step accepts) q actions e := by
  induction actions generalizing q with
  | nil => simp [accepted, received, answers, final]
  | cons action actions ih =>
    cases action with
    | send e' a =>
      by_cases taken : accepts a
      · rcases End.eq_or_eq_other e e' with rfl | rfl
        · -- the message joins what its sender has in flight
          have step := ih (Function.update q e' (q e' ++ [a]))
          rw [Function.update_self] at step
          simp [accepted, received, answers, final, Fifo.step, taken, ← step]
        · -- a message the other way leaves what `e` has in flight
          have step := ih (Function.update q e.other (q e.other ++ [a]))
          rw [Function.update_of_ne (End.other_ne e).symm] at step
          simp [accepted, received, answers, final, Fifo.step, taken, End.other_ne e, ← step]
      · simp [accepted, received, answers, final, Fifo.step, taken, ← ih q]
    | recv e' =>
      rcases End.eq_or_eq_other e e' with rfl | rfl
      · -- the receiver's own messages in flight stay as they were
        cases pending : q e'.other with
        | nil => simp [accepted, received, answers, final, Fifo.step, pending, ← ih q]
        | cons b rest =>
          have step := ih (Function.update q e'.other rest)
          rw [Function.update_of_ne (End.other_ne e').symm] at step
          simp [accepted, received, answers, final, Fifo.step, pending,
            (End.other_ne e').symm, ← step]
      · -- the other end receives the oldest message `e` has in flight
        cases pending : q e with
        | nil => simp [accepted, received, answers, final, Fifo.step, pending, ← ih q]
        | cons b rest =>
          have step := ih (Function.update q e rest)
          rw [Function.update_self] at step
          simp [accepted, received, answers, final, Fifo.step, pending, ← step]

/-- From an idle connection, an end receives the first of the messages the other end sent, in
order: none lost, none duplicated, none reordered. -/
theorem Fifo.received_prefix (e : End) (actions : List (Action α)) :
    received e.other (actions.zip (answers (Fifo.step accepts) (fun _ => []) actions)) <+:
      accepted accepts e actions := by
  exact ⟨_, (Fifo.conserves (fun _ => []) e actions).symm.trans (List.nil_append _)⟩

end Indigo.Lib
