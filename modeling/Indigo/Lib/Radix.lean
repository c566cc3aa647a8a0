import Mathlib.Data.Nat.Digits.Lemmas

/-!
# Big-endian digit strings

A string of digits written most significant first, in a base `b`, denotes the number
`digitsValue b ds`: Mathlib's `Nat.ofDigits` of the reversed list. A parser reads such a
string left to right by Horner's rule, `acc * b + d`, often in a machine word that wraps; a
printer writes the digits of a number from the top. This module gives the facts that relate
the three.

## Main results

- `digitsValue_append`: the value of a string split in two.
- `foldl_horner_mod`: Horner's rule in a word of modulus `M` computes the value, as long as
  the value fits.
- `digitsValue_digits` and `digits_digitsValue`: printing and reading back, both ways.
-/

namespace Indigo

open Nat (ofDigits)

/-- The number the big-endian digits `ds` denote in base `b`. -/
def digitsValue (b : Nat) (ds : List Nat) : Nat := ofDigits b ds.reverse

@[simp] theorem digitsValue_nil (b : Nat) : digitsValue b [] = 0 := rfl

theorem digitsValue_append (b : Nat) (xs ys : List Nat) :
    digitsValue b (xs ++ ys) = digitsValue b xs * b ^ ys.length + digitsValue b ys := by
  simp only [digitsValue, List.reverse_append, Nat.ofDigits_append, List.length_reverse]
  ring

theorem digitsValue_cons (b d : Nat) (ds : List Nat) :
    digitsValue b (d :: ds) = d * b ^ ds.length + digitsValue b ds := by
  simpa [digitsValue] using digitsValue_append b [d] ds

theorem digitsValue_lt {b : Nat} (hb : 1 < b) {ds : List Nat} (small : ∀ d ∈ ds, d < b) :
    digitsValue b ds < b ^ ds.length := by
  have lt := Nat.ofDigits_lt_base_pow_length hb (l := ds.reverse) (by simpa using small)
  simpa [digitsValue] using lt

/-- Horner's rule, from an accumulator `acc`, in a word that wraps at `M`: no step wraps while
the final value is below `M`, since every partial value is at most the final one. -/
theorem foldl_horner_mod {b : Nat} (hb : 0 < b) (M : Nat) :
    ∀ (ds : List Nat) (acc : Nat), acc * b ^ ds.length + digitsValue b ds < M →
      ds.foldl (fun acc d => (acc * b + d) % M) acc = acc * b ^ ds.length + digitsValue b ds
  | [], acc, _ => by simp
  | d :: ds, acc, fits => by
    have value : acc * b ^ (d :: ds).length + digitsValue b (d :: ds) =
        (acc * b + d) * b ^ ds.length + digitsValue b ds := by
      rw [digitsValue_cons, List.length_cons, pow_succ]
      ring
    -- the partial value `acc * b + d` is the final one with the rest of the digits left out
    have partial_le : acc * b + d ≤ (acc * b + d) * b ^ ds.length + digitsValue b ds :=
      le_add_right (Nat.le_mul_of_pos_right _ (Nat.pow_pos hb))
    rw [value] at fits ⊢
    rw [List.foldl_cons, Nat.mod_eq_of_lt (lt_of_le_of_lt partial_le fits)]
    exact foldl_horner_mod hb M ds (acc * b + d) fits

/-- Printing `n` from its top digit and reading it back gives `n`. -/
@[simp] theorem digitsValue_digits (b n : Nat) : digitsValue b (Nat.digits b n).reverse = n := by
  simp [digitsValue, Nat.ofDigits_digits]

/-- Reading digits with no leading zero and printing the value gives the digits back. -/
theorem digits_digitsValue {b : Nat} (hb : 1 < b) {ds : List Nat} (small : ∀ d ∈ ds, d < b)
    (leading : ds.head? ≠ some 0) : (Nat.digits b (digitsValue b ds)).reverse = ds := by
  have last : ∀ (h : ds.reverse ≠ []), ds.reverse.getLast h ≠ 0 := by
    cases ds with
    | nil => simp
    | cons d rest =>
      intro _
      simpa using leading
  rw [digitsValue, Nat.digits_ofDigits b hb _ (by simpa using small) last, List.reverse_reverse]

end Indigo
