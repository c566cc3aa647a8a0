import Mathlib.Data.List.Perm.Basic

/-!
# Binary heaps as `container/heap` keeps them

Go's `container/heap` keeps a min-heap in a slice through the methods `Len`, `Less`, `Swap`,
`Push` and `Pop` of its argument: `Push` appends and sifts the new element `up`, `Pop` swaps the
root to the end, sifts the new root `down` and takes the last element off, and `Remove(i)` does
the same for position `i`, sifting `down` or else `up`. The slice is a list here and `Less` a
boolean order on the elements.

Every operation only moves elements around: this module proves that each of them permutes the
list, with the element pushed added and the element popped or removed taken off. Nothing here
depends on the order `less`; the heap order itself is not needed by the users of this module.

## Main results

- `swap_perm`, `up_perm`, `downFrom_perm`: the moves permute the list.
- `push_perm`, `pop_perm`, `remove_perm`: `Push` adds its element, `Pop` and `Remove` take
  one off.
-/

namespace Indigo.Lib.Heap

variable {α : Type} (less : α → α → Bool)

/-- `h.Swap(i, j)`: `h[i], h[j] = h[j], h[i]`. -/
def swap (h : List α) (i j : Nat) : List α :=
  match h[i]?, h[j]? with
  | some a, some b => (h.set i b).set j a
  | _, _ => h

/-- `h.Less(i, j)` on positions. Every call is on positions of the list; one past its end, where
Go panics, reads as `false`. -/
def lessAt (h : List α) (i j : Nat) : Bool :=
  match h[i]?, h[j]? with
  | some a, some b => less a b
  | _, _ => false

/-- `up(h, j)`: the element at `j` moves towards the root while it is less than its parent.
The parent `(j - 1) / 2` of `0` is `0` itself in Go's truncating division, which ends the loop. -/
def up (h : List α) (j : Nat) : List α :=
  if j = 0 then h
  else if lessAt less h j ((j - 1) / 2) then up (swap h ((j - 1) / 2) j) ((j - 1) / 2)
  else h
termination_by j
decreasing_by omega

/-- The child of `i` that `down` compares with it: the left one `2 * i + 1`, or the right one
if it is below `n` and less. -/
def lesserChild (h : List α) (n i : Nat) : Nat :=
  if 2 * i + 2 < n ∧ lessAt less h (2 * i + 2) (2 * i + 1) = true then 2 * i + 2 else 2 * i + 1

theorem lt_lesserChild (h : List α) (n i : Nat) : i < lesserChild less h n i := by
  unfold lesserChild
  split <;> omega

theorem lesserChild_lt {h : List α} {n i : Nat} (inner : ¬n ≤ 2 * i + 1) :
    lesserChild less h n i < n := by
  unfold lesserChild
  split <;> omega

/-- The loop of `down(h, i0, n)`, from position `i`: the element there moves towards the leaves
while its lesser child below `n` is less than it. It returns the list and the position where the
element stopped. -/
def downFrom (h : List α) (n i : Nat) : List α × Nat :=
  if n ≤ 2 * i + 1 then (h, i)
  else if lessAt less h (lesserChild less h n i) i then
    downFrom (swap h i (lesserChild less h n i)) n (lesserChild less h n i)
  else (h, i)
termination_by n - i
decreasing_by
  have := lt_lesserChild less h n i
  have := lesserChild_lt less (h := h) ‹_›
  omega

/-- `down(h, i0, n)`: the list, and whether the element at `i0` moved. -/
def down (h : List α) (i0 n : Nat) : List α × Bool :=
  ((downFrom less h n i0).1, i0 < (downFrom less h n i0).2)

/-- `heap.Push(h, x)`. -/
def push (h : List α) (x : α) : List α := up less (h ++ [x]) h.length

/-- `h.Pop()` of the interface: the last element off the slice, and that element. -/
def popLast (h : List α) : List α × Option α := (h.dropLast, h.getLast?)

/-- `heap.Pop(h)`: the root swapped to the end, the new root sifted down over the rest, and the
last element taken off. -/
def pop (h : List α) : List α × Option α :=
  popLast ((down less (swap h 0 (h.length - 1)) 0 (h.length - 1)).1)

/-- `heap.Remove(h, i)`: unless `i` is the last position, the element at `i` is swapped to the
end and the one put in its place sifted down, or up if it did not move down; then the last
element is taken off. -/
def remove (h : List α) (i : Nat) : List α × Option α :=
  if h.length - 1 ≠ i then
    let moved := down less (swap h i (h.length - 1)) i (h.length - 1)
    popLast (if !moved.2 then up less moved.1 i else moved.1)
  else popLast h

/-! ### The operations permute the list -/

/-- Writing `a` at `i` of `l` puts the old `l[i]` beside the rest in place of `a`. -/
theorem cons_perm_getElem_cons_set {l : List α} {i : Nat} (inside : i < l.length) (a : α) :
    (a :: l).Perm (l[i] :: l.set i a) := by
  have unset : (a :: l).Perm (a :: l[i] :: l.eraseIdx i) :=
    (List.perm_cons a).mpr (List.getElem_cons_eraseIdx_perm inside).symm
  exact unset.trans ((List.Perm.swap _ _ _).trans
    ((List.perm_cons l[i]).mpr (List.set_perm_cons_eraseIdx inside a).symm))

theorem swap_perm (h : List α) (i j : Nat) : (swap h i j).Perm h := by
  unfold swap
  split
  · next a b at_i at_j =>
    obtain ⟨i_lt, rfl⟩ := List.getElem?_eq_some_iff.mp at_i
    obtain ⟨j_lt, rfl⟩ := List.getElem?_eq_some_iff.mp at_j
    -- the first write leaves `h[j]` at `j`, whether or not `i = j`
    have j_lt' : j < (h.set i h[j]).length := by simpa using j_lt
    have at_j' : (h.set i h[j])[j] = h[j] := by
      rw [List.getElem_set]
      split <;> simp_all
    have first := cons_perm_getElem_cons_set i_lt h[j]
    have second := cons_perm_getElem_cons_set j_lt' h[i]
    rw [at_j'] at second
    exact ((List.perm_cons h[j]).mp (first.trans second)).symm
  · exact List.Perm.refl h

theorem length_swap (h : List α) (i j : Nat) : (swap h i j).length = h.length :=
  (swap_perm h i j).length_eq

theorem up_perm (h : List α) (j : Nat) : (up less h j).Perm h := by
  induction h, j using up.induct less with
  | case1 h => rw [up, if_pos rfl]
  | case2 h j nonzero less_parent ih =>
    rw [up, if_neg nonzero, if_pos less_parent]
    exact ih.trans (swap_perm h _ j)
  | case3 h j nonzero not_less =>
    rw [up, if_neg nonzero, if_neg not_less]

theorem downFrom_perm (h : List α) (n i : Nat) : (downFrom less h n i).1.Perm h := by
  induction h, i using downFrom.induct less n with
  | case1 h i leaf => rw [downFrom, if_pos leaf]
  | case2 h i inner less_child ih =>
    rw [downFrom, if_neg inner, if_pos less_child]
    exact ih.trans (swap_perm h i _)
  | case3 h i inner not_less =>
    rw [downFrom, if_neg inner, if_neg not_less]

theorem down_perm (h : List α) (i0 n : Nat) : (down less h i0 n).1.Perm h :=
  downFrom_perm less h n i0

/-- Taking the last element off and putting it back gives the list. -/
theorem popLast_perm (h : List α) : (popLast h).1 ++ (popLast h).2.toList = h := by
  cases last : h.getLast? with
  | none => simp_all [popLast]
  | some x => simp [popLast, last, List.dropLast_append_getLast? x last]

theorem push_perm (h : List α) (x : α) : (push less h x).Perm (h ++ [x]) :=
  up_perm less (h ++ [x]) h.length

theorem pop_perm (h : List α) : ((pop less h).1 ++ (pop less h).2.toList).Perm h := by
  rw [pop, popLast_perm]
  exact (down_perm less _ 0 _).trans (swap_perm h 0 _)

theorem remove_perm (h : List α) (i : Nat) :
    ((remove less h i).1 ++ (remove less h i).2.toList).Perm h := by
  unfold remove
  split
  · rw [popLast_perm]
    -- the sift down, and the sift up when the element did not move down
    have sifted := (down_perm less (swap h i (h.length - 1)) i (h.length - 1)).trans
      (swap_perm h i _)
    split
    · exact (up_perm less _ i).trans sifted
    · exact sifted
  · rw [popLast_perm]

/-- What `Pop` leaves was in the heap. -/
theorem mem_of_mem_pop {h : List α} {x : α} (mem : x ∈ (pop less h).1) : x ∈ h :=
  (pop_perm less h).subset (List.mem_append_left _ mem)

/-- What `Remove` leaves was in the heap. -/
theorem mem_of_mem_remove {h : List α} {i : Nat} {x : α} (mem : x ∈ (remove less h i).1) : x ∈ h :=
  (remove_perm less h i).subset (List.mem_append_left _ mem)

/-- The heap after `Push` holds the heap and the element pushed. -/
theorem mem_push {h : List α} {x y : α} : y ∈ push less h x ↔ y ∈ h ∨ y = x := by
  rw [(push_perm less h x).mem_iff, List.mem_append, List.mem_singleton]

end Indigo.Lib.Heap
