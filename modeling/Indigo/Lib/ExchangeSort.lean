import Mathlib.Data.List.Basic

/-!
# Exchange sort

The sort written out as two nested loops over a slice: for each position `i`, every later
element `a[j]` smaller than `a[i]` is swapped into place, so that after the inner loop `a[i]`
is the least of `a[i:]`. One round of the inner loop is `exchangePass`, which returns the new
front and the rest in their new order; the outer loop takes one round per position.

## Main results

- `length_exchangeSort`: the sort keeps the length.
-/

namespace Indigo.Lib

variable {α : Type} [LT α] [DecidableRel (α := α) (· < ·)]

/-- One round of the inner loop: the front against each later element, swapped with it
whenever it is larger. The new front, and the later elements in their new order. -/
def exchangePass (front : α) : List α → α × List α
  | [] => (front, [])
  | y :: ys =>
    if y < front then
      -- `a[i] > a[j]`: the two are swapped, and the old front takes `y`'s place
      ((exchangePass y ys).1, front :: (exchangePass y ys).2)
    else ((exchangePass front ys).1, y :: (exchangePass front ys).2)

/-- The outer loop, one round per position; `rounds` is the number of positions left. -/
def exchangeSortLoop : Nat → List α → List α
  | 0, _ => []
  | _, [] => []
  | rounds + 1, x :: xs => (exchangePass x xs).1 :: exchangeSortLoop rounds (exchangePass x xs).2

/-- The exchange sort of a list. -/
def exchangeSort (xs : List α) : List α := exchangeSortLoop xs.length xs

theorem length_exchangePass (front : α) (xs : List α) : (exchangePass front xs).2.length = xs.length := by
  induction xs generalizing front with
  | nil => rfl
  | cons y ys ih =>
    simp only [exchangePass]
    split <;> simp [ih]

/-- With a round for each position, the loop keeps the length. -/
theorem length_exchangeSortLoop : ∀ (rounds : Nat) (xs : List α), xs.length ≤ rounds →
    (exchangeSortLoop rounds xs).length = xs.length
  | 0, [], _ => rfl
  | 0, _ :: _, enough => absurd enough (by simp)
  | _ + 1, [], _ => rfl
  | rounds + 1, x :: xs, enough => by
    have rest := length_exchangeSortLoop rounds (exchangePass x xs).2
      (by rw [length_exchangePass]; simpa using enough)
    simp [exchangeSortLoop, rest, length_exchangePass]

theorem length_exchangeSort (xs : List α) : (exchangeSort xs).length = xs.length :=
  length_exchangeSortLoop xs.length xs (Nat.le_refl _)

end Indigo.Lib
