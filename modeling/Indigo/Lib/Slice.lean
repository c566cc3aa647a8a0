import Mathlib.Logic.Function.Basic
import Mathlib.Data.List.Perm.Basic

/-!
# Go slices over shared backing arrays

A Go slice sees the first `len(s)` elements of an array. Reslicing `s[:k]` only changes that
length, and Go allows it up to the array's capacity, past the slice's own end. Writes through
a slice go to the array, so every slice of the same array sees them. This module models slices
that start at the beginning of their array, over a heap of named arrays, with the two ways a
list held in a slice loses an element:

- `swapRemove`: `s[i], s[last] = s[last], s[i]; s = s[:last]`, which moves the element at `i`
  just past the new end;
- `removeAt`: `append(s[:i], s[i+1:]...)`, which shifts the rest of the array one place left
  in place and leaves the old last element just past the new end.

## Main results

- `view_removeAt`, `removeAt_array`: removal erases the element from the view; the array past
  the new end still holds what it held from the old last element on.
- `view_swapRemove_perm`: the swap and drop erases the element from the view up to order.
- `getElem?_swapRemove`: the swap moves nothing but the two elements it swaps.
- `removeAt_ne`, `swapRemove_ne`, `length_removeAt`, `length_swapRemove`: the other arrays
  are untouched, and no array changes its capacity.
-/

namespace Indigo.Lib

/-- Setting element `i` to element `last` and cutting at `last` erases element `i` from the first
`last + 1`, up to order. -/
theorem List.perm_take_set_last {α : Type} (l : List α) {i last : Nat} (before : i ≤ last)
    (within : last < l.length) :
    ((l.set i l[last]).take last).Perm ((l.take (last + 1)).eraseIdx i) := by
  have split : l.take (last + 1) = l.take last ++ [l[last]] := by
    rw [List.take_add_one, List.getElem?_eq_getElem within]
    rfl
  have short : (l.take last).length = last := by simp only [List.length_take]; omega
  rw [split]
  rcases Nat.lt_or_ge i last with earlier | atLast
  · -- element `i` is replaced by the last one, which leaves the end
    rw [List.take_set, List.eraseIdx_append_of_lt_length (by omega),
      List.set_eq_take_append_cons_drop, if_pos (by omega), List.eraseIdx_eq_take_drop_succ]
    exact List.perm_middle.trans (List.perm_append_singleton _ _).symm
  · -- `i` is the last element itself, which just leaves the end
    have same : i = last := by omega
    subst same
    rw [List.take_set_of_le (Nat.le_refl _), List.eraseIdx_append_of_length_le (by omega), short,
      Nat.sub_self, List.eraseIdx_cons_zero, List.append_nil]

/-- A slice from the start of a backing array: which array, and how many elements it sees. -/
structure Slice (ρ : Type) where
  array : ρ
  len : Nat
  deriving DecidableEq, Repr

/-- The arrays a program has allocated, by name, each up to its capacity. -/
abbrev Heap (ρ α : Type) := ρ → List α

namespace Slice

variable {ρ α : Type} [DecidableEq ρ]

/-- The elements the slice sees. -/
def view (heap : Heap ρ α) (s : Slice ρ) : List α := (heap s.array).take s.len

/-- A slice is never longer than its array. -/
def Fits (heap : Heap ρ α) (s : Slice ρ) : Prop := s.len ≤ (heap s.array).length

/-- `s[:k]`: Go allows any length up to the capacity of the array and panics beyond it. -/
def reslice (heap : Heap ρ α) (s : Slice ρ) (k : Nat) : Option (Slice ρ) :=
  if k ≤ (heap s.array).length then some { s with len := k } else none

/-- `s[i], s[last] = s[last], s[i]` and then `s[:last]`, with `last = len(s) - 1`. Go panics
unless `i < len(s)` (a slice never outgrows its array). -/
def swapRemove (heap : Heap ρ α) (s : Slice ρ) (i : Nat) : Option (Heap ρ α × Slice ρ) :=
  if h : i < s.len ∧ s.len ≤ (heap s.array).length then
    some (Function.update heap s.array
        (((heap s.array).set i (heap s.array)[s.len - 1]).set (s.len - 1) (heap s.array)[i]),
      { s with len := s.len - 1 })
  else none

/-- `append(s[:i], s[i+1:]...)`: `s[:i]` has the capacity for the rest, so the elements after
`i` move one place left within the same array. Go panics unless `0 ≤ i < len(s)`. -/
def removeAt (heap : Heap ρ α) (s : Slice ρ) (i : Int) : Option (Heap ρ α × Slice ρ) :=
  if 0 ≤ i ∧ i < s.len then
    some (Function.update heap s.array
        ((s.view heap).eraseIdx i.toNat ++ (heap s.array).drop (s.len - 1)),
      { s with len := s.len - 1 })
  else none

theorem view_update_ne {heap : Heap ρ α} {s : Slice ρ} {a : ρ} (other : s.array ≠ a)
    (arr : List α) : s.view (Function.update heap a arr) = s.view heap := by
  simp only [view, Function.update_of_ne other]

/-! ### `reslice` -/

omit [DecidableEq ρ] in
theorem reslice_eq_some {heap : Heap ρ α} {s s' : Slice ρ} {k : Nat}
    (resliced : s.reslice heap k = some s') : s' = { s with len := k } ∧ s'.Fits heap := by
  unfold reslice at resliced
  split at resliced
  · cases resliced
    exact ⟨rfl, by assumption⟩
  · cases resliced

/-! ### `removeAt` -/

section RemoveAt

variable {heap heap' : Heap ρ α} {s s' : Slice ρ} {i : Int}

theorem removeAt_eq_some (removed : s.removeAt heap i = some (heap', s')) :
    0 ≤ i ∧ i < s.len ∧ s' = { s with len := s.len - 1 } ∧
      heap' = Function.update heap s.array
        ((s.view heap).eraseIdx i.toNat ++ (heap s.array).drop (s.len - 1)) := by
  unfold removeAt at removed
  split at removed
  · rename_i inside
    cases removed
    exact ⟨inside.1, inside.2, rfl, rfl⟩
  · cases removed

theorem removeAt_isSome (nonneg : 0 ≤ i) (inside : i < s.len) : (s.removeAt heap i).isSome := by
  simp only [removeAt, if_pos (And.intro nonneg inside), Option.isSome_some]

theorem removeAt_array (removed : s.removeAt heap i = some (heap', s')) :
    heap' s.array = (s.view heap).eraseIdx i.toNat ++ (heap s.array).drop (s.len - 1) := by
  obtain ⟨-, -, -, rfl⟩ := removeAt_eq_some removed
  exact Function.update_self ..

theorem removeAt_ne (removed : s.removeAt heap i = some (heap', s')) {a : ρ}
    (other : a ≠ s.array) : heap' a = heap a := by
  obtain ⟨-, -, -, rfl⟩ := removeAt_eq_some removed
  exact Function.update_of_ne other ..

omit [DecidableEq ρ] in
theorem length_view_eraseIdx (fits : s.Fits heap) {k : Nat} (inside : k < s.len) :
    ((s.view heap).eraseIdx k).length = s.len - 1 := by
  unfold Fits at fits
  simp only [view, List.length_eraseIdx, List.length_take]
  split <;> omega

theorem view_removeAt (removed : s.removeAt heap i = some (heap', s')) (fits : s.Fits heap) :
    s'.array = s.array ∧ s'.view heap' = (s.view heap).eraseIdx i.toNat := by
  obtain ⟨nonneg, inside, rfl, -⟩ := removeAt_eq_some removed
  have shorter := length_view_eraseIdx fits (k := i.toNat) (by omega)
  refine ⟨rfl, ?_⟩
  show (heap' s.array).take (s.len - 1) = _
  rw [removeAt_array removed, List.take_append_of_le_length (by omega),
    List.take_of_length_le (by omega)]

theorem length_removeAt (removed : s.removeAt heap i = some (heap', s')) (fits : s.Fits heap) :
    (heap' s.array).length = (heap s.array).length := by
  obtain ⟨nonneg, inside, -, -⟩ := removeAt_eq_some removed
  have shorter := length_view_eraseIdx fits (k := i.toNat) (by omega)
  unfold Fits at fits
  rw [removeAt_array removed, List.length_append, shorter, List.length_drop]
  omega

theorem fits_removeAt (removed : s.removeAt heap i = some (heap', s')) (fits : s.Fits heap) :
    s'.Fits heap' := by
  have same := length_removeAt removed fits
  obtain ⟨-, -, rfl, -⟩ := removeAt_eq_some removed
  unfold Fits at fits ⊢
  dsimp only
  omega

end RemoveAt

/-! ### `swapRemove` -/

section SwapRemove

variable {heap heap' : Heap ρ α} {s s' : Slice ρ} {i : Nat}

theorem swapRemove_eq_some (removed : s.swapRemove heap i = some (heap', s')) :
    ∃ (inside : i < s.len) (fits : s.len ≤ (heap s.array).length),
      s' = { s with len := s.len - 1 } ∧
      heap' = Function.update heap s.array
        (((heap s.array).set i (heap s.array)[s.len - 1]).set (s.len - 1) (heap s.array)[i]) := by
  unfold swapRemove at removed
  split at removed
  · rename_i inside
    cases removed
    exact ⟨inside.1, inside.2, rfl, rfl⟩
  · cases removed

theorem swapRemove_ne (removed : s.swapRemove heap i = some (heap', s')) {a : ρ}
    (other : a ≠ s.array) : heap' a = heap a := by
  obtain ⟨-, -, -, rfl⟩ := swapRemove_eq_some removed
  exact Function.update_of_ne other ..

theorem length_swapRemove (removed : s.swapRemove heap i = some (heap', s')) :
    (heap' s.array).length = (heap s.array).length := by
  obtain ⟨-, -, -, rfl⟩ := swapRemove_eq_some removed
  simp only [Function.update_self, List.length_set]

theorem swapRemove_array (removed : s.swapRemove heap i = some (heap', s')) :
    s'.array = s.array ∧ s'.len = s.len - 1 := by
  obtain ⟨-, -, rfl, -⟩ := swapRemove_eq_some removed
  exact ⟨rfl, rfl⟩

theorem fits_swapRemove (removed : s.swapRemove heap i = some (heap', s')) : s'.Fits heap' := by
  have same := length_swapRemove removed
  obtain ⟨-, fits, rfl, -⟩ := swapRemove_eq_some removed
  unfold Fits
  dsimp only
  omega

/-- The swap moves nothing but the element at `i` and the last one. -/
theorem getElem?_swapRemove (removed : s.swapRemove heap i = some (heap', s')) {j : Nat}
    (notI : j ≠ i) (notLast : j ≠ s.len - 1) : (heap' s.array)[j]? = (heap s.array)[j]? := by
  obtain ⟨-, -, -, rfl⟩ := swapRemove_eq_some removed
  simp only [Function.update_self, List.getElem?_set_ne (Ne.symm notLast),
    List.getElem?_set_ne (Ne.symm notI)]

/-- Up to order, the view after the swap and drop is the old view without element `i`. -/
theorem view_swapRemove_perm (removed : s.swapRemove heap i = some (heap', s')) :
    (s'.view heap').Perm ((s.view heap).eraseIdx i) := by
  obtain ⟨inside, fits, rfl, rfl⟩ := swapRemove_eq_some removed
  have moved := List.perm_take_set_last (heap s.array) (by omega : i ≤ s.len - 1) (by omega)
  rw [Nat.sub_add_cancel (by omega)] at moved
  simpa only [view, Function.update_self, List.take_set_of_le (Nat.le_refl _)] using moved

end SwapRemove

end Slice

end Indigo.Lib
