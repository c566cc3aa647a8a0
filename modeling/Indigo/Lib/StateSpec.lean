import Mathlib.Logic.Basic

/-!
# Specifications of stateful computations that may fail

A computation in `ExceptT ε (StateT σ Option)` runs from a state to a result, a value or an
error, and an end state, or does not end (`none`). The state it ends in is kept on failure
too, as a Go method keeps what it changed before it returned an error. `Spec x s Q` says that
every run of `x` from `s` that ends satisfies `Q` of its result and end state: a partial
correctness triple whose precondition is the start state itself, so that a postcondition
can relate the end of a run to its start.

The rules below are the only way proofs about such computations go through the monad: one
rule for each operation (`pure`, `throw`, `get`, `set`, `modify`, a bind, a computation whose
error is caught as a value), so that a property of a `do` block is proved from the
properties of the computations it calls, each cited by its own lemma, and no callee is
unfolded.

## Main results

- `Spec.bind`: the rule of sequencing, with a middle assertion matched on the result.
- `Spec.get_bind`, `Spec.set_bind`: reading and writing the state, which the rest of the
  block sees as its start state.
- `Spec.result`: a computation whose error is returned as a value.
- `Spec.mono`: a postcondition can be weakened.
-/

namespace Indigo.Lib

variable {ε σ α β : Type}

/-- Every run of `x` from `s` that ends satisfies `Q` of its result and the state it ends in. -/
def Spec (x : ExceptT ε (StateT σ Option) α) (s : σ) (Q : Except ε α → σ → Prop) : Prop :=
  ∀ r s', x.run.run s = some (r, s') → Q r s'

section Rules

variable {x : ExceptT ε (StateT σ Option) α} {f : α → ExceptT ε (StateT σ Option) β}
  {s : σ} {Q Q' : Except ε α → σ → Prop}

/-- A bind runs its first computation, and the rest only after a value. -/
theorem run_bind (x : ExceptT ε (StateT σ Option) α) (f : α → ExceptT ε (StateT σ Option) β)
    (s : σ) : (x >>= f).run.run s = match x.run.run s with
      | none => none
      | some (.error e, s') => some (.error e, s')
      | some (.ok a, s') => (f a).run.run s' := by
  rcases h : x.run.run s with _ | ⟨_ | a, s'⟩
  all_goals simp [ExceptT.run_bind, StateT.run_bind, h, Option.bind]

theorem Spec.mono (spec : Spec x s Q) (weaker : ∀ r s', Q r s' → Q' r s') : Spec x s Q' :=
  fun r s' run => weaker r s' (spec r s' run)

theorem Spec.pure (a : α) (post : Q (.ok a) s) :
    Spec (Pure.pure a : ExceptT ε (StateT σ Option) α) s Q := by
  intro r s' run
  cases run
  exact post

theorem Spec.throw (e : ε) (post : Q (.error e) s) :
    Spec (MonadExcept.throw e : ExceptT ε (StateT σ Option) α) s Q := by
  intro r s' run
  cases run
  exact post

/-- A computation that never ends meets every specification. -/
theorem Spec.none : Spec (ExceptT.lift (StateT.lift Option.none) : ExceptT ε (StateT σ Option) α) s Q := by
  intro r s' run
  cases run

theorem Spec.set {t : σ} {Q : Except ε PUnit → σ → Prop} (post : Q (.ok ⟨⟩) t) :
    Spec (MonadState.set t : ExceptT ε (StateT σ Option) PUnit) s Q := by
  intro r s' run
  cases run
  exact post

theorem Spec.modify_bind {g : σ → σ} {f : PUnit → ExceptT ε (StateT σ Option) β}
    {Q : Except ε β → σ → Prop} (rest : Spec (f ⟨⟩) (g s) Q) : Spec (modify g >>= f) s Q := by
  intro r s' run
  rw [run_bind] at run
  exact rest r s' run

theorem Spec.modify {g : σ → σ} {Q : Except ε PUnit → σ → Prop} (post : Q (.ok ⟨⟩) (g s)) :
    Spec (modify g : ExceptT ε (StateT σ Option) PUnit) s Q := by
  intro r s' run
  cases run
  exact post

/-- The rule of sequencing. The middle assertion `Mid` holds after the first computation; the
rest starts from a value it returned, and a failure of the first is a failure of the whole. -/
theorem Spec.bind {Mid : Except ε α → σ → Prop} {Q : Except ε β → σ → Prop}
    (first : Spec x s Mid) (rest : ∀ a s₁, Mid (.ok a) s₁ → Spec (f a) s₁ Q)
    (fail : ∀ e s₁, Mid (.error e) s₁ → Q (.error e) s₁) : Spec (x >>= f) s Q := by
  intro r s' run
  rw [run_bind] at run
  rcases h : x.run.run s with _ | ⟨_ | a, s₁⟩
  · rw [h] at run
    cases run
  · rw [h] at run
    cases run
    exact fail _ _ (first _ _ h)
  · rw [h] at run
    exact rest a s₁ (first _ _ h) r s' run

/-- Reading the state: the rest of the block runs from the state it read. -/
theorem Spec.get_bind {f : σ → ExceptT ε (StateT σ Option) β} {Q : Except ε β → σ → Prop}
    (rest : Spec (f s) s Q) : Spec (MonadState.get >>= f) s Q := by
  intro r s' run
  rw [run_bind] at run
  exact rest r s' run

/-- Writing the state: the rest of the block runs from the state written. -/
theorem Spec.set_bind {t : σ} {f : PUnit → ExceptT ε (StateT σ Option) β} {Q : Except ε β → σ → Prop}
    (rest : Spec (f ⟨⟩) t Q) : Spec (MonadState.set t >>= f) s Q := by
  intro r s' run
  rw [run_bind] at run
  exact rest r s' run

/-- A failure skips the rest of the block. -/
theorem Spec.throw_bind {e : ε} {f : α → ExceptT ε (StateT σ Option) β} {Q : Except ε β → σ → Prop}
    (post : Q (.error e) s) : Spec (MonadExcept.throw e >>= f) s Q := by
  intro r s' run
  rw [run_bind] at run
  cases run
  exact post

/-- Go's `if cond { return err }`: the rest runs only where the condition fails. -/
theorem Spec.guard {c : Prop} [Decidable c] {e : ε} {Q : Except ε α → σ → Prop}
    (post : c → Q (.error e) s) (rest : ¬c → Spec x s Q) :
    Spec (if c then (MonadExcept.throw e : ExceptT ε (StateT σ Option) PUnit) >>= (fun _ => x) else x) s Q := by
  split
  · rename_i holds
    exact Spec.throw_bind (post holds)
  · rename_i fails
    exact rest fails

/-- A computation whose error is handed back as a value (Go's `v, err := f()`): it runs as the
computation does, and always returns. -/
theorem Spec.result {Q : Except ε (Except ε α) → σ → Prop}
    (spec : Spec x s fun r s' => Q (.ok r) s') :
    Spec (ExceptT.mk (Except.ok <$> x.run) : ExceptT ε (StateT σ Option) (Except ε α)) s Q := by
  intro r s' run
  rcases ran : x.run.run s with _ | ⟨r₁, s₁⟩
  · simp [ran] at run
  · simp only [ExceptT.run_mk, StateT.run_map, ran] at run
    cases run
    exact spec r₁ s₁ ran

end Rules

end Indigo.Lib
