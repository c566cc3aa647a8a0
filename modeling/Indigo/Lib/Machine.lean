import Mathlib.Logic.Function.Basic

/-!
# Machines and their runs

A machine answers each input it is given and moves to its next state; over a run of inputs it
gives a list of answers (`answers`). Two machines that a relation between their states relates
at the start, and that every valid input keeps related while both give the same answer
(`Simulation`), give the same answers over every run of valid inputs
(`Simulation.answers_eq`): the first refines the second as far as anyone who sees only the
answers can tell.
-/

namespace Indigo.Lib

variable {σ τ ι ο : Type}

/-- The answers of a machine over a run of inputs from state `s`. -/
def answers (step : σ → ι → ο × σ) : σ → List ι → List ο
  | _, [] => []
  | s, i :: is => (step s i).1 :: answers step (step s i).2 is

/-- The state of a machine after a run of inputs from state `s`. -/
def final (step : σ → ι → ο × σ) : σ → List ι → σ
  | s, [] => s
  | s, i :: is => final step (step s i).2 is

/-- `R` relates the states of `impl` and `spec` so that on every valid input both give the same
answer and move to related states. -/
def Simulation (impl : σ → ι → ο × σ) (spec : τ → ι → ο × τ) (valid : ι → Prop)
    (R : σ → τ → Prop) : Prop :=
  ∀ s t i, valid i → R s t → (impl s i).1 = (spec t i).1 ∧ R (impl s i).2 (spec t i).2

variable {impl : σ → ι → ο × σ} {spec : τ → ι → ο × τ} {valid : ι → Prop} {R : σ → τ → Prop}

/-- Related machines give the same answers over a run of valid inputs, and end related. -/
theorem Simulation.answers_eq (sim : Simulation impl spec valid R) {s : σ} {t : τ}
    (related : R s t) {is : List ι} (inputs : ∀ i ∈ is, valid i) :
    answers impl s is = answers spec t is ∧ R (final impl s is) (final spec t is) := by
  induction is generalizing s t with
  | nil => exact ⟨rfl, related⟩
  | cons i is ih =>
    obtain ⟨same, next⟩ := sim s t i (inputs i (.head _)) related
    obtain ⟨rest, last⟩ := ih next fun j mem => inputs j (.tail _ mem)
    exact ⟨by rw [answers, answers, same, rest], last⟩

end Indigo.Lib
