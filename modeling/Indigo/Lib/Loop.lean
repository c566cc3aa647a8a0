import Mathlib

/-!
# Loops that may fail

A loop over a list in `Option`, `xs.foldlM f init`, fails as soon as one step fails. Its
rule: an invariant over the elements done so far that holds at the start and that every
step keeps, going through, proves that the whole loop goes through and ends in a state
that satisfies the invariant for the whole list.
-/

namespace Indigo.Lib

variable {α β : Type}

/-- The invariant rule of `List.foldlM` in `Option`. The step may use where its element
stands in the list. -/
theorem foldlM_invariant {f : β → α → Option β} (P : List α → β → Prop) :
    ∀ (xs : List α) {init : β}, P [] init →
      (∀ pre x rest acc, xs = pre ++ x :: rest → P pre acc →
        ∃ acc', f acc x = some acc' ∧ P (pre ++ [x]) acc') →
      ∃ out, xs.foldlM f init = some out ∧ P xs out
  | [], init, start, _ => ⟨init, rfl, start⟩
  | x :: xs, init, start, step => by
    obtain ⟨acc, first, inv⟩ := step [] x xs init rfl start
    -- the rest of the loop, with the invariant shifted past `x`
    obtain ⟨out, rest, final⟩ := foldlM_invariant (fun pre => P (x :: pre)) xs inv
      (fun pre y rest acc split inv => step (x :: pre) y rest acc (by simp [split]) inv)
    exact ⟨out, by simp [first, rest], final⟩

/-- The invariant rule for a loop followed by the rest of a computation. -/
theorem foldlM_bind_invariant {γ : Type} {f : β → α → Option β} {g : β → Option γ}
    (P : List α → β → Prop) (Q : γ → Prop) (xs : List α) {init : β} (start : P [] init)
    (step : ∀ pre x rest acc, xs = pre ++ x :: rest → P pre acc →
      ∃ acc', f acc x = some acc' ∧ P (pre ++ [x]) acc')
    (finish : ∀ out, P xs out → ∃ r, g out = some r ∧ Q r) :
    ∃ r, (xs.foldlM f init >>= g) = some r ∧ Q r := by
  obtain ⟨out, loop, inv⟩ := foldlM_invariant P xs start step
  obtain ⟨r, rest, done⟩ := finish out inv
  exact ⟨r, by simp [loop, rest], done⟩

end Indigo.Lib
