import Mathlib.Order.Basic

/-!
# Binary search for the first index a predicate holds at

Go's `sort.Search(n, f)`: for `f` false and then true on `[0, n)`, the smallest index at
which `f` holds, and `n` if there is none. The loop halves `[i, j)` at `h := (i + j) / 2`
until it is empty. Each round shrinks the interval, so `n + 1` rounds of fuel are enough.

## Main results

- `Search_spec`: for `f` monotone on `[0, n)`, `Search n f ≤ n`, `f` fails below it and
  holds at it when it is below `n`.
- `Search_eq_findIdx`: searching the indices of a list with a predicate that, once true,
  stays true along the list is `List.findIdx`.

## Proof strategy

The loop keeps `SearchInv` (`i ≤ j ≤ n`, `f` false below `i`, true at `j` unless `j = n`);
`SearchInv.step` is one round and `searchLoop_inv` the loop, by induction on the fuel.
-/

namespace Indigo.Lib

/-- The loop of `sort.Search` on `[i, j)`, at most `fuel` rounds. -/
def searchLoop (f : Nat → Bool) : Nat → Nat → Nat → Nat
  | 0, i, _ => i
  | fuel + 1, i, j =>
    if i < j then
      let h := (i + j) / 2
      if !f h then searchLoop f fuel (h + 1) j else searchLoop f fuel i h
    else i

/-- `sort.Search`: the first index in `[0, n)` at which `f` holds, `n` if none. -/
def Search (n : Nat) (f : Nat → Bool) : Nat := searchLoop f (n + 1) 0 n

example : Search 5 (fun i => decide (3 ≤ i)) = 3 := by decide
example : Search 5 (fun _ => false) = 5 := by decide

/-- `f`, once true on `[0, n)`, stays true. -/
def MonotoneBelow (n : Nat) (f : Nat → Bool) : Prop :=
  ∀ a b, a ≤ b → b < n → f a = true → f b = true

/-- What the search keeps of `[i, j)`: the answer lies in `[i, j]`. -/
structure SearchInv (n : Nat) (f : Nat → Bool) (i j : Nat) : Prop where
  le : i ≤ j
  le_n : j ≤ n
  below : ∀ k < i, f k = false
  at_top : j < n → f j = true

variable {n : Nat} {f : Nat → Bool}

theorem SearchInv.start (n : Nat) (f : Nat → Bool) : SearchInv n f 0 n :=
  ⟨Nat.zero_le n, Nat.le_refl n, fun _ below => absurd below (Nat.not_lt_zero _), fun top => absurd top (Nat.lt_irrefl n)⟩

/-- One round: the midpoint decides which half keeps the answer. -/
theorem SearchInv.step (mono : MonotoneBelow n f) {i j : Nat} (inv : SearchInv n f i j)
    (nonempty : i < j) :
    (f ((i + j) / 2) = false → SearchInv n f ((i + j) / 2 + 1) j) ∧
      (f ((i + j) / 2) = true → SearchInv n f i ((i + j) / 2)) := by
  have inside : (i + j) / 2 < n := by have := inv.le_n; omega
  refine ⟨fun fails => ⟨by omega, inv.le_n, fun k below => ?_, inv.at_top⟩,
    fun holds => ⟨by omega, by omega, inv.below, fun _ => holds⟩⟩
  -- below the failing midpoint `f` fails too, else it would hold at the midpoint
  cases found : f k
  · rfl
  · rw [mono k _ (by omega) inside found] at fails
    cases fails

/-- With more fuel than `j - i`, the loop ends where the invariant pins the answer. -/
theorem searchLoop_inv (mono : MonotoneBelow n f) :
    ∀ (fuel : Nat) {i j : Nat}, j - i < fuel → SearchInv n f i j →
      SearchInv n f (searchLoop f fuel i j) (searchLoop f fuel i j)
  | 0, _, _, enough, _ => absurd enough (Nat.not_lt_zero _)
  | fuel + 1, i, j, enough, inv => by
    unfold searchLoop
    by_cases nonempty : i < j
    · obtain ⟨left, right⟩ := inv.step mono nonempty
      simp only [nonempty, if_true]
      cases found : f ((i + j) / 2)
      · exact searchLoop_inv mono fuel (by omega) (left found)
      · exact searchLoop_inv mono fuel (by omega) (right found)
    · simp only [nonempty, if_false]
      have same : i = j := by have := inv.le; omega
      subst same
      exact inv

theorem Search_spec (mono : MonotoneBelow n f) :
    Search n f ≤ n ∧ (∀ k < Search n f, f k = false) ∧
      (Search n f < n → f (Search n f) = true) := by
  have done := searchLoop_inv mono (n + 1) (by omega) (SearchInv.start n f)
  exact ⟨done.le_n, done.below, done.at_top⟩

/-- On a list whose predicate, once true, stays true, `sort.Search` over its indices finds
the first element the predicate holds at. -/
theorem Search_eq_findIdx {α : Type} (xs : List α) (p : α → Bool)
    (mono : ∀ (a b : Nat) (hab : a ≤ b) (hb : b < xs.length),
      p (xs.get ⟨a, by omega⟩) = true → p (xs.get ⟨b, hb⟩) = true) :
    Search xs.length (fun i => xs[i]?.any p) = xs.findIdx p := by
  have monotone : MonotoneBelow xs.length fun i => xs[i]?.any p := by
    intro a b hab hb found
    dsimp only at found ⊢
    rw [List.getElem?_eq_getElem (by omega), Option.any_some] at found
    rw [List.getElem?_eq_getElem hb, Option.any_some]
    exact mono a b hab hb found
  obtain ⟨bounded, below, at_top⟩ := Search_spec monotone
  have before : ∀ k (hk : k < Search xs.length fun i => xs[i]?.any p),
      p (xs.get ⟨k, by omega⟩) = false := by
    intro k hk
    have := below k hk
    rwa [List.getElem?_eq_getElem (by omega), Option.any_some] at this
  rcases Nat.lt_or_eq_of_le bounded with inside | last
  · -- the search stops at an element the predicate holds at
    have holds := at_top inside
    rw [List.getElem?_eq_getElem inside, Option.any_some] at holds
    exact ((List.findIdx_eq inside).mpr ⟨holds, before⟩).symm
  · -- the search runs off the end: the predicate holds nowhere
    rw [last]
    refine (List.findIdx_eq_length.mpr fun x member => ?_).symm
    obtain ⟨k, hk, rfl⟩ := List.getElem_of_mem member
    exact before k (by omega)

end Indigo.Lib
