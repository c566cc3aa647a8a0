import Mathlib.Logic.Basic

/-!
# Computations that may panic

A Go function that returns a value or an error can also panic: an index out of range, a slice
expression with bad bounds. Such a function is a computation in `ExceptT ε Option`: `none` is
the panic, `some (.error e)` the error it returns and `some (.ok a)` its value. A `do` block
in this monad reads like the Go code, and a Go slice or index expression is an `Option` lifted
into it.

The equations of a bind say what follows a step that returned or panicked, and a loop whose
every step returns returns the list of their values.

## Main results

- `run_bind_of_ok`, `run_bind_of_none`: a bind after a step that returned, or that panicked.
- `run_mapM_of_ok`: a loop over a list whose every step returns.
-/

namespace Indigo.Lib

/-- A computation that returns a value of type `α` or an error of type `ε`, or panics (`none`). -/
abbrev Panicky (ε α : Type) := ExceptT ε Option α

namespace Panicky

variable {ε α β : Type}

/-- A runtime panic. -/
def panic : Panicky ε α := ExceptT.lift none

@[simp] theorem run_panic : (panic : Panicky ε α).run = none := rfl

@[simp] theorem run_pure (a : α) : (pure a : Panicky ε α).run = some (.ok a) := rfl

@[simp] theorem run_lift (o : Option α) :
    (ExceptT.lift o : Panicky ε α).run = o.map Except.ok := by
  cases o <;> rfl

/-- An `Option` in a `do` block, as the slice and index expressions of the code are. -/
@[simp] theorem run_liftM (o : Option α) : (liftM o : Panicky ε α).run = o.map Except.ok := by
  cases o <;> rfl

theorem run_bind_of_ok {x : Panicky ε α} {a : α} (ok : x.run = some (.ok a))
    (f : α → Panicky ε β) : (x >>= f).run = (f a).run := by
  rw [ExceptT.run_bind, ok]
  rfl

theorem run_bind_of_none {x : Panicky ε α} (panicked : x.run = none) (f : α → Panicky ε β) :
    (x >>= f).run = none := by
  rw [ExceptT.run_bind, panicked]
  rfl

/-- A bind that returned: its first step returned, and the rest returned from that. -/
theorem ok_of_bind_ok {x : Panicky ε α} {f : α → Panicky ε β} {b : β}
    (ok : (x >>= f).run = some (.ok b)) : ∃ a, x.run = some (.ok a) ∧ (f a).run = some (.ok b) := by
  rw [ExceptT.run_bind] at ok
  match run : x.run, ok with
  | some (.ok a), ok => exact ⟨a, rfl, ok⟩
  | some (.error _), ok => cases ok
  | none, ok => cases ok

/-- After a slice or index expression that is in range. -/
@[simp] theorem run_liftM_some_bind (a : α) (f : α → Panicky ε β) :
    (liftM (some a) >>= f).run = (f a).run :=
  rfl

theorem run_pure_bind (a : α) (f : α → Panicky ε β) : (pure a >>= f).run = (f a).run := rfl

/-- A loop over a list whose every step returns. -/
theorem run_mapM_of_ok {f : α → Panicky ε β} {g : α → β} :
    ∀ {xs : List α}, (∀ x ∈ xs, (f x).run = some (.ok (g x))) →
      (xs.mapM f).run = some (.ok (xs.map g))
  | [], _ => rfl
  | x :: xs, each => by
    rw [List.mapM_cons, run_bind_of_ok (each x (.head _)),
      run_bind_of_ok (run_mapM_of_ok fun y mem => each y (.tail _ mem))]
    rfl

end Panicky

end Indigo.Lib
