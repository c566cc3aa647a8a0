import Mathlib.Data.List.Sort

/-!
# Keeping the nearest elements seen

A list kept sorted by a key and cut to `k` elements, into which elements are inserted one
at a time: each goes after those not farther than it (`List.orderedInsert` with the strict
order on keys) and the farthest beyond `k` fall off. This is how a search keeps the `k`
nearest candidates it has met.

## Main results

- `orderedInsert_eq_findIdx`: the insertion point is the first element strictly farther.
- `sorted_insertNearest`, `length_insertNearest`, `mem_insertNearest`: the list stays sorted,
  holds `min (n + 1) k` elements, and only what was inserted or kept.
- `insertNearest_keeps`: an element inserted or kept either stays or falls off a full list
  all of whose elements are at least as near.
- `insertNearest_dominated`: an element at least as far as every element of a full list is
  still so after an insertion.
-/

namespace Indigo.Lib

section Nearest

variable {α β : Type} [LinearOrder β] (key : α → β)

/-- Insert `x` after the elements not farther than it and keep the first `k`. -/
def insertNearest (k : Nat) (x : α) (xs : List α) : List α :=
  (xs.orderedInsert (fun a b => key a < key b) x).take k

/-- Sorted by key, nearest first. -/
def NearestFirst (xs : List α) : Prop := xs.Pairwise fun a b => key a ≤ key b

variable {key}

theorem nearestFirst_orderedInsert (x : α) :
    ∀ xs : List α, NearestFirst key xs →
      NearestFirst key (xs.orderedInsert (fun a b => key a < key b) x)
  | [], _ => List.pairwise_singleton _ x
  | b :: l, sorted => by
    have tail := nearestFirst_orderedInsert x l sorted.of_cons
    by_cases before : key x < key b
    · -- `x` goes in front of `b`, and so of everything after `b`
      rw [List.orderedInsert_cons_of_le (fun a b : α => key a < key b) l before]
      refine List.Pairwise.cons (fun y member => ?_) sorted
      rcases List.mem_cons.mp member with rfl | later
      · exact before.le
      · exact before.le.trans (List.rel_of_pairwise_cons sorted later)
    · rw [List.orderedInsert_of_not_le (fun a b : α => key a < key b) l before]
      refine List.Pairwise.cons (fun y member => ?_) tail
      rcases (List.mem_orderedInsert _).mp member with rfl | later
      · exact not_lt.mp before
      · exact List.rel_of_pairwise_cons sorted later

/-- Inserting after the ties at the end when nothing is farther. -/
theorem orderedInsert_of_forall_not {x : α} :
    ∀ xs : List α, (∀ b ∈ xs, ¬key x < key b) →
      xs.orderedInsert (fun a b => key a < key b) x = xs ++ [x]
  | [], _ => rfl
  | b :: l, nearer => by
    rw [List.orderedInsert_of_not_le (fun a b : α => key a < key b) l (nearer b List.mem_cons_self),
      orderedInsert_of_forall_not l fun c member => nearer c (List.mem_cons_of_mem b member)]
    rfl

/-- The insertion point is the first element strictly farther than `x`. -/
theorem orderedInsert_eq_findIdx (x : α) : ∀ xs : List α,
    xs.orderedInsert (fun a b => key a < key b) x =
      xs.take (xs.findIdx fun b => decide (key x < key b)) ++
        x :: xs.drop (xs.findIdx fun b => decide (key x < key b))
  | [] => rfl
  | b :: l => by
    by_cases before : key x < key b
    · rw [List.orderedInsert_cons_of_le (fun a b : α => key a < key b) l before, List.findIdx_cons]
      simp [before]
    · rw [List.orderedInsert_of_not_le (fun a b : α => key a < key b) l before, List.findIdx_cons,
        orderedInsert_eq_findIdx x l]
      simp [before]

theorem sorted_insertNearest {k : Nat} (x : α) {xs : List α} (sorted : NearestFirst key xs) :
    NearestFirst key (insertNearest key k x xs) :=
  (nearestFirst_orderedInsert x xs sorted).sublist (List.take_sublist _ _)

theorem length_insertNearest (k : Nat) (x : α) (xs : List α) :
    (insertNearest key k x xs).length = min (xs.length + 1) k := by
  rw [insertNearest, List.length_take, List.orderedInsert_length, Nat.min_comm]

theorem mem_insertNearest {k : Nat} {x y : α} {xs : List α}
    (member : y ∈ insertNearest key k x xs) : y = x ∨ y ∈ xs :=
  (List.mem_orderedInsert _).mp (List.mem_of_mem_take member)

/-- What falls off a sorted list cut at `k` is at least as far as all that stays. -/
theorem le_of_mem_drop {k : Nat} {xs : List α} (sorted : NearestFirst key xs) {y : α}
    (dropped : y ∈ xs.drop k) : ∀ z ∈ xs.take k, key z ≤ key y := by
  rw [NearestFirst, ← List.take_append_drop k xs, List.pairwise_append] at sorted
  exact fun z kept => sorted.2.2 z kept y dropped

theorem insertNearest_keeps {k : Nat} (x : α) {xs : List α} (sorted : NearestFirst key xs)
    {y : α} (member : y ∈ x :: xs) :
    y ∈ insertNearest key k x xs ∨
      ((insertNearest key k x xs).length = k ∧ ∀ z ∈ insertNearest key k x xs, key z ≤ key y) := by
  set inserted := xs.orderedInsert (fun a b => key a < key b) x
  have listed : y ∈ inserted := (List.perm_orderedInsert _ x xs).symm.subset member
  rw [← List.take_append_drop k inserted, List.mem_append] at listed
  rcases listed with kept | dropped
  · exact .inl kept
  · -- `y` fell off, so the list was longer than `k`
    have longer : k < inserted.length := by
      by_contra short
      rw [List.drop_eq_nil_of_le (by omega)] at dropped
      cases dropped
    refine .inr ⟨?_, le_of_mem_drop (nearestFirst_orderedInsert x xs sorted) dropped⟩
    show (inserted.take k).length = k
    rw [List.length_take]
    omega

theorem insertNearest_dominated {k : Nat} (x : α) {xs : List α} (full : k ≤ xs.length) {y : α}
    (far : ∀ z ∈ xs, key z ≤ key y) : ∀ z ∈ insertNearest key k x xs, key z ≤ key y := by
  intro z member
  rcases mem_insertNearest member with rfl | kept
  · -- a new element farther than `y` goes after all of the full list, past `k`
    by_contra farther
    have nearer : ∀ b ∈ xs, ¬key z < key b := fun b listed =>
      not_lt.mpr ((far b listed).trans (le_of_lt (not_le.mp farther)))
    rw [insertNearest, orderedInsert_of_forall_not xs nearer, List.take_append_of_le_length full]
      at member
    exact farther (far z (List.mem_of_mem_take member))
  · exact far z kept

end Nearest

end Indigo.Lib
