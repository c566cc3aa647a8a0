import Mathlib.Logic.Basic

/-!
# Computations that may fail

A computation in `Except ε` either returns a value or fails with an error. `Meets post fail x`
is what `x` promises: `post` of its value, or `fail` of its error. The rules below compose
such promises along the binds of a `do` block, so that reasoning about a block goes step by
step, each step cited by the promise of the function it calls, with no unfolding of the
callee.

## Main results

- `Meets.bind`: the rule of sequencing, with what the first step promises as the
  precondition of the rest.
- `Meets.mono`: a promise can be weakened on both sides.
- `bind_eq_ok`, `bind_eq_error`, `map_eq_ok`: the inversion of a bind that succeeded or
  failed, and of a map that succeeded.
- `foldlM_ok_invariant`: the invariant rule of a loop that may fail.
-/

namespace Indigo.Lib

variable {ε α β : Type}

/-- `x` returns a value that satisfies `post`, or fails with an error that satisfies `fail`. -/
def Meets (post : α → Prop) (fail : ε → Prop) : Except ε α → Prop
  | .ok a => post a
  | .error e => fail e

section Meets

variable {post post' : α → Prop} {fail fail' : ε → Prop}

@[simp] theorem meets_ok (a : α) : Meets post fail (.ok a) ↔ post a := Iff.rfl

@[simp] theorem meets_error (e : ε) : Meets post fail (.error e : Except ε α) ↔ fail e := Iff.rfl

@[simp] theorem meets_pure (a : α) : Meets post fail (pure a : Except ε α) ↔ post a := Iff.rfl

@[simp] theorem meets_throw (e : ε) : Meets post fail (throw e : Except ε α) ↔ fail e := Iff.rfl

theorem meets_iff {x : Except ε α} :
    Meets post fail x ↔ (∀ a, x = .ok a → post a) ∧ (∀ e, x = .error e → fail e) := by
  cases x with
  | ok a => simp
  | error e => simp

theorem Meets.mono {x : Except ε α} (meets : Meets post fail x) (posts : ∀ a, post a → post' a)
    (fails : ∀ e, fail e → fail' e) : Meets post' fail' x := by
  cases x with
  | ok a => exact posts a meets
  | error e => exact fails e meets

theorem Meets.and {x : Except ε α} (first : Meets post fail x) (second : Meets post' fail x) :
    Meets (fun a => post a ∧ post' a) fail x := by
  cases x with
  | ok a => exact ⟨first, second⟩
  | error e => exact first

/-- A promise about the value alone joins a promise about both outcomes. -/
theorem Meets.and_post {x : Except ε α} (first : Meets post fail x)
    (second : Meets post' (fun _ => True) x) : Meets (fun a => post a ∧ post' a) fail x := by
  cases x with
  | ok a => exact ⟨first, second⟩
  | error e => exact first

/-- A computation that is known to return `a` meets what `a` satisfies. -/
theorem Meets.of_eq_ok {x : Except ε α} {a : α} (ok : x = .ok a) (holds : post a) :
    Meets post fail x := by
  subst ok
  exact holds

/-- A computation that fails meets its promise with the failure. -/
theorem Meets.of_error {x : Except ε α} {e : ε} (meets : Meets post fail x) (fails : x = .error e) :
    fail e := by
  subst fails
  exact meets

/-- The rule of sequencing: what the first step promises is what the rest may assume. -/
theorem Meets.bind {x : Except ε α} {f : α → Except ε β} {mid : α → Prop} {post : β → Prop}
    (first : Meets mid fail x) (rest : ∀ a, mid a → Meets post fail (f a)) :
    Meets post fail (x >>= f) := by
  cases x with
  | error e => exact first
  | ok a => exact rest a first

/-- Sequencing after a step that is only known not to fail. -/
theorem Meets.bind_true {x : Except ε α} {f : α → Except ε β} {post : β → Prop}
    (first : Meets (fun _ => True) fail x) (rest : ∀ a, Meets post fail (f a)) :
    Meets post fail (x >>= f) :=
  first.bind fun a _ => rest a

/-- Sequencing after a step whose value is only known to be one it returns. -/
theorem Meets.bind_ok {x : Except ε α} {f : α → Except ε β} {post : β → Prop}
    (first : ∀ e, x = .error e → fail e) (rest : ∀ a, x = .ok a → Meets post fail (f a)) :
    Meets post fail (x >>= f) := by
  cases x with
  | error e => exact first e rfl
  | ok a => exact rest a rfl

end Meets

/-! ### Inversion of binds -/

theorem ok_bind (a : α) (f : α → Except ε β) : (Except.ok a >>= f) = f a := rfl

/-- A check that throws before the rest of a block: the error, or the rest. -/
theorem ite_throw_bind {p : Prop} [Decidable p] (e : ε) (x : Except ε α) :
    (if p then (throw e : Except ε PUnit) >>= fun _ => x else x) = if p then .error e else x := by
  split <;> rfl

theorem bind_eq_ok {x : Except ε α} {f : α → Except ε β} {b : β} :
    x >>= f = .ok b ↔ ∃ a, x = .ok a ∧ f a = .ok b := by
  cases x with
  | ok a => simp [bind, Except.bind]
  | error e => simp [bind, Except.bind]

theorem bind_eq_error {x : Except ε α} {f : α → Except ε β} {e : ε} :
    x >>= f = .error e ↔ x = .error e ∨ ∃ a, x = .ok a ∧ f a = .error e := by
  cases x with
  | ok a => simp [bind, Except.bind]
  | error e' => simp [bind, Except.bind]

theorem map_eq_ok {x : Except ε α} {f : α → β} {b : β} :
    x.map f = .ok b ↔ ∃ a, x = .ok a ∧ f a = b := by
  cases x with
  | ok a => simp [Except.map]
  | error e => simp [Except.map]

theorem mapError_eq_ok {δ : Type} {x : Except ε α} {f : ε → δ} {a : α} :
    x.mapError f = .ok a ↔ x = .ok a := by
  cases x with
  -- `mapError` is the identity on a success and keeps a failure a failure
  | ok a' => exact ⟨fun same => (by cases same; rfl), fun same => (by cases same; rfl)⟩
  | error e => exact ⟨fun never => (by cases never), fun never => (by cases never)⟩

/-! ### Loops -/

/-- The invariant rule of `List.foldlM` in `Except`: an invariant over the elements done so
far, kept by every step that goes through, holds of what a loop that goes through returns.
The step may use where its element stands in the list. -/
theorem foldlM_ok_invariant {f : β → α → Except ε β} (P : List α → β → Prop) :
    ∀ (xs : List α) {init out : β}, P [] init →
      (∀ pre x rest acc acc', xs = pre ++ x :: rest → P pre acc → f acc x = .ok acc' →
        P (pre ++ [x]) acc') →
      xs.foldlM f init = .ok out → P xs out
  | [], init, out, start, _, done => by
    simp only [List.foldlM_nil, pure, Except.pure, Except.ok.injEq] at done
    exact done ▸ start
  | x :: xs, init, out, start, step, done => by
    simp only [List.foldlM_cons, bind_eq_ok] at done
    obtain ⟨acc, first, rest⟩ := done
    -- the rest of the loop, with the invariant shifted past `x`
    exact foldlM_ok_invariant (fun pre => P (x :: pre)) xs (step [] x xs init acc rfl start first)
      (fun pre y rest acc acc' split inv => step (x :: pre) y rest acc acc' (by simp [split]) inv)
      rest

end Indigo.Lib
