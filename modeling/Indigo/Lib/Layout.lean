import Mathlib.Data.List.Infix
import Mathlib.Algebra.BigOperators.Group.List.Basic

/-!
# Where a piece stands in a buffer

An encoder lays its pieces out one after the other in a buffer, and a decoder reads each back
at the position it computes. `Occurs d p xs` says that `xs` stands at position `p` of `d`:
what a decoder reads there is `xs`, whatever stands around it. A piece of a piece stands in the
buffer (`left`, `right`), a piece of a prefix stands in the whole (`of_prefix`), and the `k`-th
of pieces of `n` elements laid one after the other stands `n * k` further on (`flatten_chunks`).

Ranges of numbers, such as the message codes given out one block after another, lie one after
the other (`Tiles lo rs hi`: the ranges `[start, start + length)` of `rs` fill `[lo, hi)` in
order). A point then lies in at most one of the ranges (`Tiles.eq_of_mem`), the lengths from a
start determine the ranges (`Tiles.eq_of_lengths`), and the last range can be taken back and given
out again (`Tiles.snoc_iff`).
-/

namespace Indigo.Lib

variable {α : Type}

/-- `xs` stands at position `p` of `d`. -/
def Occurs (d : List α) (p : Nat) (xs : List α) : Prop :=
  ∃ before after, d = before ++ xs ++ after ∧ before.length = p

/-- Pieces of `n` elements laid one after the other take `n` for each. -/
theorem length_flatten_of_sized {n : Nat} {pieces : List (List α)}
    (sized : ∀ piece ∈ pieces, piece.length = n) : pieces.flatten.length = n * pieces.length := by
  induction pieces with
  | nil => rfl
  | cons piece pieces ih =>
    rw [List.flatten_cons, List.length_append, sized piece (.head _),
      ih fun piece' mem => sized piece' (.tail _ mem), List.length_cons, Nat.mul_succ,
      Nat.add_comm]

namespace Occurs

variable {d a b xs : List α} {p : Nat}

theorem left (o : Occurs d p (a ++ b)) : Occurs d p a := by
  obtain ⟨before, after, rfl, rfl⟩ := o
  exact ⟨before, b ++ after, by simp, rfl⟩

theorem right (o : Occurs d p (a ++ b)) : Occurs d (p + a.length) b := by
  obtain ⟨before, after, rfl, rfl⟩ := o
  exact ⟨before ++ a, after, by simp, by simp⟩

theorem append_left (o : Occurs a p xs) (b : List α) : Occurs (a ++ b) p xs := by
  obtain ⟨before, after, rfl, rfl⟩ := o
  exact ⟨before, after ++ b, by simp, rfl⟩

theorem append_right (o : Occurs b p xs) (a : List α) : Occurs (a ++ b) (a.length + p) xs := by
  obtain ⟨before, after, rfl, rfl⟩ := o
  exact ⟨a ++ before, after, by simp, by simp⟩

/-- What follows a prefix of the buffer. -/
theorem of_prefix (pre : a ++ xs <+: d) : Occurs d a.length xs := by
  obtain ⟨after, rfl⟩ := pre
  exact ⟨a, after, rfl, rfl⟩

theorem le_length (o : Occurs d p xs) : p + xs.length ≤ d.length := by
  obtain ⟨before, after, rfl, rfl⟩ := o
  simp only [List.length_append]
  omega

/-- What a decoder reads at `p`. -/
theorem take_drop (o : Occurs d p xs) : (d.drop p).take xs.length = xs := by
  obtain ⟨before, after, rfl, rfl⟩ := o
  simp

/-- The `k`-th of pieces of `n` elements that stand one after the other at `p`. -/
theorem flatten_chunks {n : Nat} {pieces : List (List α)} (o : Occurs d p pieces.flatten)
    (sized : ∀ piece ∈ pieces, piece.length = n) {k : Nat} (inside : k < pieces.length) :
    Occurs d (p + n * k) pieces[k] := by
  induction pieces generalizing p k with
  | nil => simp at inside
  | cons piece pieces ih =>
    rw [List.flatten_cons] at o
    cases k with
    | zero => simpa using o.left
    | succ k =>
      -- the rest stands past the first piece
      have rest := ih o.right (fun piece' mem => sized piece' (.tail _ mem))
        (by simpa using inside)
      rw [sized piece (.head _)] at rest
      simpa [Nat.mul_succ, Nat.add_assoc, Nat.add_comm n] using rest

end Occurs

/-! ### Ranges laid one after the other -/

/-- The ranges `[start, start + length)` of `rs` lie one after the other from `lo` and end at
`hi`. -/
def Tiles : Nat → List (Nat × Nat) → Nat → Prop
  | lo, [], hi => lo = hi
  | lo, r :: rs, hi => r.1 = lo ∧ Tiles (lo + r.2) rs hi

namespace Tiles

variable {lo hi : Nat} {r : Nat × Nat} {rs : List (Nat × Nat)}

@[simp] theorem nil_iff : Tiles lo [] hi ↔ lo = hi := Iff.rfl

@[simp] theorem cons_iff : Tiles lo (r :: rs) hi ↔ r.1 = lo ∧ Tiles (lo + r.2) rs hi := Iff.rfl

/-- The last range of a layout ends it. -/
theorem snoc_iff : Tiles lo (rs ++ [r]) hi ↔ Tiles lo rs r.1 ∧ hi = r.1 + r.2 := by
  induction rs generalizing lo with
  | nil =>
    simp only [List.nil_append, cons_iff, nil_iff]
    constructor
    · rintro ⟨rfl, rfl⟩
      exact ⟨rfl, rfl⟩
    · rintro ⟨rfl, rfl⟩
      exact ⟨rfl, rfl⟩
  | cons s rs ih => simp [ih, and_assoc]

/-- The ranges lie within `[lo, hi)`. -/
theorem within (t : Tiles lo rs hi) : lo ≤ hi ∧ ∀ s ∈ rs, lo ≤ s.1 ∧ s.1 + s.2 ≤ hi := by
  induction rs generalizing lo with
  | nil => exact ⟨Nat.le_of_eq t, by simp⟩
  | cons s rs ih =>
    obtain ⟨start, rest⟩ := t
    obtain ⟨below, inside⟩ := ih rest
    refine ⟨by omega, ?_⟩
    intro s' mem
    rcases List.mem_cons.mp mem with rfl | mem
    · omega
    · have := inside s' mem
      omega

/-- A point lies in at most one of the ranges of a layout. -/
theorem eq_of_mem {ι : Type} {span : ι → Nat × Nat} {xs : List ι}
    (t : Tiles lo (xs.map span) hi) {a b : ι} (ina : a ∈ xs) (inb : b ∈ xs) {x : Nat}
    (ha : (span a).1 ≤ x ∧ x < (span a).1 + (span a).2)
    (hb : (span b).1 ≤ x ∧ x < (span b).1 + (span b).2) : a = b := by
  induction xs generalizing lo with
  | nil => simp at ina
  | cons y ys ih =>
    rw [List.map_cons, cons_iff] at t
    obtain ⟨start, rest⟩ := t
    -- the ranges after the first begin where it ends
    have after : ∀ z ∈ ys, (span y).1 + (span y).2 ≤ (span z).1 := fun z mem =>
      start ▸ ((within rest).2 (span z) (List.mem_map_of_mem mem)).1
    rcases List.mem_cons.mp ina with rfl | ta <;> rcases List.mem_cons.mp inb with rfl | tb
    · rfl
    · have := after b tb
      omega
    · have := after a ta
      omega
    · exact ih rest ta tb

/-- Ranges laid from one start with the same lengths are the same ranges. -/
theorem eq_of_lengths {rs rs' : List (Nat × Nat)} {hi' : Nat} (t : Tiles lo rs hi)
    (t' : Tiles lo rs' hi') (lengths : rs.map Prod.snd = rs'.map Prod.snd) : rs = rs' := by
  induction rs generalizing lo rs' with
  | nil =>
    cases rs' with
    | nil => rfl
    | cons _ _ => simp at lengths
  | cons r rs ih =>
    cases rs' with
    | nil => simp at lengths
    | cons r' rs' =>
      obtain ⟨start, rest⟩ := t
      obtain ⟨start', rest'⟩ := t'
      simp only [List.map_cons, List.cons.injEq] at lengths
      have same : r = r' := Prod.ext (start.trans start'.symm) lengths.1
      subst same
      rw [ih rest rest' lengths.2]

end Tiles

end Indigo.Lib
