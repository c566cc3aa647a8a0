import Mathlib.Data.List.Sort

/-!
# Lists sorted by a key, and heaps of numbers

A list is `KeySorted key` when the keys of its elements increase strictly. Such a list is
determined by its elements: sorting any permutation of it by key gives it back. Its elements
below a bound form a prefix, and `runFrom` takes the prefix whose keys count up one by one.

A binary heap of numbers (Go's `container/heap` over a slice) is abstracted as the sorted list
of its elements: `heap.Init` sorts, `heap.Push` inserts in order, `heap.Pop` takes the head. A
program that reads a heap only at its least element, or after sorting it, sees the same thing
in the heap and in the sorted list.

## Main results

- `mergeSort_eq_of_keySorted`, `heapInit_eq`, `heapPush_eq`: sorting gives back the sorted
  permutation.
- `KeySorted.takeWhile_lt`, `KeySorted.dropWhile_lt`: the elements below a bound, and the rest.
- `take_findIdx_le`, `drop_findIdx_le`: the same split at the first element at or above the bound.
- `rel_find?_reverse`: the last match in a sorted list is above every match.
-/

namespace Indigo.Lib

section KeySorted

variable {α : Type} (key : α → Nat)

/-- The keys of the elements increase strictly. -/
def KeySorted (l : List α) : Prop := l.Pairwise fun a b => key a < key b

/-- The longest prefix whose keys count up from `next`. -/
def runFrom : Nat → List α → List α
  | _, [] => []
  | next, a :: l => if key a = next then a :: runFrom (next + 1) l else []

variable {key} {l l' : List α}

@[simp] theorem keySorted_nil : KeySorted key ([] : List α) := List.Pairwise.nil

theorem keySorted_cons {a : α} : KeySorted key (a :: l) ↔ (∀ b ∈ l, key a < key b) ∧ KeySorted key l :=
  List.pairwise_cons

theorem KeySorted.sublist (sorted : KeySorted key l') (sub : l.Sublist l') : KeySorted key l :=
  List.Pairwise.sublist sub sorted

theorem KeySorted.filter (sorted : KeySorted key l) (p : α → Bool) : KeySorted key (l.filter p) :=
  List.Pairwise.filter p sorted

/-- The keys of a sorted list increase strictly. -/
theorem keySorted_iff_map : KeySorted key l ↔ (l.map key).Pairwise (· < ·) := by
  rw [KeySorted, List.pairwise_map]

/-- Two elements of a sorted list with the same key are one. -/
theorem KeySorted.eq_of_key_eq (sorted : KeySorted key l) {a b : α} (ma : a ∈ l) (mb : b ∈ l)
    (same : key a = key b) : a = b := by
  induction l with
  | nil => cases ma
  | cons c l ih =>
    obtain ⟨below, rest⟩ := keySorted_cons.1 sorted
    rcases List.mem_cons.1 ma with rfl | inA <;> rcases List.mem_cons.1 mb with rfl | inB
    · rfl
    · exact absurd same (Nat.ne_of_lt (below b inB))
    · exact absurd same.symm (Nat.ne_of_lt (below a inA))
    · exact ih rest inA inB

/-- A sorted list's keys are distinct. -/
theorem KeySorted.nodup_map (sorted : KeySorted key l) : (l.map key).Nodup :=
  (keySorted_iff_map.1 sorted).imp Nat.ne_of_lt

/-- A sorted list has no element twice. -/
theorem KeySorted.nodup (sorted : KeySorted key l) : l.Nodup :=
  sorted.imp fun below same => by rw [same] at below; exact Nat.lt_irrefl _ below

/-- Two sorted lists with the same elements are one. -/
theorem KeySorted.eq_of_mem_iff (sorted : KeySorted key l) (sorted' : KeySorted key l')
    (same : ∀ a, a ∈ l ↔ a ∈ l') : l = l' := by
  have perm : l.Perm l' := (List.perm_ext_iff_of_nodup sorted.nodup sorted'.nodup).2 same
  exact List.Perm.eq_of_pairwise (fun a b _ mb ab ba => sorted'.eq_of_key_eq ((same a).1 ‹_›) mb
    (Nat.le_antisymm ab ba)) (sorted.imp Nat.le_of_lt) (sorted'.imp Nat.le_of_lt) perm

/-- Sorting a permutation of a sorted list by key gives the list. -/
theorem mergeSort_eq_of_keySorted (perm : l.Perm l') (sorted : KeySorted key l') :
    l.mergeSort (fun a b => decide (key a ≤ key b)) = l' := by
  have ordered : (l.mergeSort fun a b => decide (key a ≤ key b)).Pairwise fun a b => key a ≤ key b := by
    have sortedBool : (l.mergeSort fun a b => decide (key a ≤ key b)).Pairwise
        fun a b => decide (key a ≤ key b) = true :=
      List.pairwise_mergeSort (fun a b c ab bc => by simp only [decide_eq_true_eq] at *; omega)
        (fun a b => by simp only [Bool.or_eq_true, decide_eq_true_eq]; omega) l
    exact sortedBool.imp fun holds => by simpa using holds
  refine List.Perm.eq_of_pairwise (fun a b ma mb ab ba => ?_) ordered
    (List.Pairwise.imp Nat.le_of_lt sorted) ((List.mergeSort_perm l _).trans perm)
  have ma' : a ∈ l' := ((List.mergeSort_perm l _).trans perm).subset ma
  exact sorted.eq_of_key_eq ma' mb (Nat.le_antisymm ab ba)

/-- In a sorted list the elements below a bound are a prefix... -/
theorem KeySorted.takeWhile_lt (sorted : KeySorted key l) (t : Nat) :
    l.takeWhile (fun a => decide (key a < t)) = l.filter fun a => decide (key a < t) := by
  induction l with
  | nil => rfl
  | cons a l ih =>
    obtain ⟨above, rest⟩ := keySorted_cons.1 sorted
    by_cases below : key a < t
    · simp [below, ih rest]
    · -- every later key is above `key a`, so at or above the bound too
      have none : l.filter (fun b => decide (key b < t)) = [] :=
        List.filter_eq_nil_iff.2 fun b mb => by have := above b mb; simp only [decide_eq_true_eq]; omega
      simp [below, none]

/-- ...and the rest are the elements at or above it. -/
theorem KeySorted.dropWhile_lt (sorted : KeySorted key l) (t : Nat) :
    l.dropWhile (fun a => decide (key a < t)) = l.filter fun a => decide (t ≤ key a) := by
  induction l with
  | nil => rfl
  | cons a l ih =>
    obtain ⟨above, rest⟩ := keySorted_cons.1 sorted
    by_cases below : key a < t
    · simp [below, ih rest]
    · have all : l.filter (fun b => decide (t ≤ key b)) = l :=
        List.filter_eq_self.2 fun b mb => by have := above b mb; simp only [decide_eq_true_eq]; omega
      simp [below, all, Nat.not_lt.1 below]

/-- The first element at or above a bound splits a sorted list into the elements below it... -/
theorem take_findIdx_le (sorted : KeySorted key l) (t : Nat) :
    l.take (l.findIdx fun a => decide (t ≤ key a)) = l.filter fun a => decide (key a < t) := by
  have flip : (fun a => decide (t ≤ key a)) = fun a => !decide (key a < t) := by
    funext a
    by_cases below : key a < t
    · simp [below]
    · simp [below, Nat.not_lt.1 below]
  rw [flip, ← List.takeWhile_eq_take_findIdx_not, sorted.takeWhile_lt]

/-- ...and those at or above it. -/
theorem drop_findIdx_le (sorted : KeySorted key l) (t : Nat) :
    l.drop (l.findIdx fun a => decide (t ≤ key a)) = l.filter fun a => decide (t ≤ key a) := by
  have whole := List.takeWhile_append_dropWhile (p := fun a => decide (key a < t)) (l := l)
  rw [sorted.takeWhile_lt, sorted.dropWhile_lt, ← take_findIdx_le sorted t] at whole
  exact List.append_cancel_left (whole.trans (List.take_append_drop _ l).symm).symm

/-- Erasing the first element at or above the key of `a`, which is `a`, leaves the others. -/
theorem KeySorted.eraseIdx_findIdx (sorted : KeySorted key l) {a : α} (mem : a ∈ l) :
    l.eraseIdx (l.findIdx fun b => decide (key a ≤ key b)) = l.filter fun b => decide (key b ≠ key a) := by
  induction l with
  | nil => cases mem
  | cons c l ih =>
    obtain ⟨above, rest⟩ := keySorted_cons.1 sorted
    rcases List.mem_cons.1 mem with rfl | later
    · -- `a` is the head, and every later key is above it
      have first : (a :: l).findIdx (fun b => decide (key a ≤ key b)) = 0 := by simp [List.findIdx_cons]
      have others : l.filter (fun b => decide (key b ≠ key a)) = l :=
        List.filter_eq_self.2 fun b mb => by have := above b mb; simp only [ne_eq, decide_eq_true_eq]; omega
      rw [first, List.eraseIdx_cons_zero, List.filter_cons_of_neg (by simp), others]
    · have before : key c < key a := above a later
      simp [List.findIdx_cons, Nat.not_le.2 before, Nat.ne_of_lt before, ih rest later]

/-- The elements after `a` in a sorted list are those above its key. -/
theorem KeySorted.drop_findIdx_succ (sorted : KeySorted key l) {a : α} (mem : a ∈ l) :
    l.drop ((l.findIdx fun b => decide (key a ≤ key b)) + 1) = l.filter fun b => decide (key a < key b) := by
  induction l with
  | nil => cases mem
  | cons c l ih =>
    obtain ⟨above, rest⟩ := keySorted_cons.1 sorted
    rcases List.mem_cons.1 mem with rfl | later
    · have first : (a :: l).findIdx (fun b => decide (key a ≤ key b)) = 0 := by simp [List.findIdx_cons]
      have others : l.filter (fun b => decide (key a < key b)) = l :=
        List.filter_eq_self.2 fun b mb => by simpa using above b mb
      rw [first, Nat.zero_add, List.drop_one, List.tail_cons, List.filter_cons_of_neg (by simp), others]
    · have before : key c < key a := above a later
      simp [List.findIdx_cons, Nat.not_le.2 before, Nat.not_lt.2 (Nat.le_of_lt before), ih rest later]

/-- The run from `next` is a prefix. -/
theorem runFrom_append_drop (next : Nat) (l : List α) :
    runFrom key next l ++ l.drop (runFrom key next l).length = l := by
  induction l generalizing next with
  | nil => rfl
  | cons a l ih =>
    simp only [runFrom]
    split
    · simp [ih]
    · rfl

end KeySorted

/-! ### A heap of numbers as the sorted list of its elements -/

/-- `heap.Init`: the elements, sorted. -/
def heapInit (h : List Nat) : List Nat := h.mergeSort fun a b => decide (a ≤ b)

/-- `heap.Push`: the element inserted in order. -/
def heapPush (n : Nat) (h : List Nat) : List Nat := h.orderedInsert (· ≤ ·) n

variable {h h' : List Nat}

/-- Initialising a heap of distinct numbers gives their increasing list. -/
theorem heapInit_eq (perm : h.Perm h') (sorted : h'.Pairwise (· < ·)) : heapInit h = h' :=
  @mergeSort_eq_of_keySorted Nat id h h' perm sorted

/-- Pushing a number gives the increasing list of the heap's numbers and the new one. -/
theorem heapPush_eq {n : Nat} (heap : h.Pairwise (· < ·)) (perm : (n :: h).Perm h')
    (sorted : h'.Pairwise (· < ·)) : heapPush n h = h' := by
  have ordered : (heapPush n h).Pairwise (· ≤ ·) :=
    List.Pairwise.orderedInsert n h (heap.imp Nat.le_of_lt)
  exact List.Perm.eq_of_pairwise (fun a b _ _ ab ba => Nat.le_antisymm ab ba) ordered
    (sorted.imp Nat.le_of_lt) ((List.perm_orderedInsert _ n h).trans perm)

/-! ### The last match in a sorted list -/

section Last

variable {α : Type} {R : α → α → Prop}

/-- In a list sorted by a reflexive `R`, the last element that satisfies `p` is `R`-above every
element that does. -/
theorem rel_find?_reverse (refl : ∀ a, R a a) {l : List α} (sorted : l.Pairwise R)
    {p : α → Bool} {last : α} (found : l.reverse.find? p = some last) {a : α} (mem : a ∈ l)
    (holds : p a) : R a last := by
  obtain ⟨-, later, earlier, split, skipped⟩ := List.find?_eq_some_iff_append.mp found
  have whole : l = earlier.reverse ++ last :: later.reverse := by
    rw [← List.reverse_reverse l, split]
    simp
  rw [whole] at sorted mem
  rcases List.mem_append.mp mem with early | late
  · exact (List.pairwise_append.mp sorted).2.2 a early last List.mem_cons_self
  · rcases List.mem_cons.mp late with rfl | late
    · exact refl a
    · -- the elements after `last` were passed over by `find?`
      have passed := skipped a (List.mem_reverse.mp late)
      simp [holds] at passed

end Last

end Indigo.Lib
