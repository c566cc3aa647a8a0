import Mathlib

/-!
# Two's complement words

An `n`-bit word is a natural number below `2^n`. Its signed reading (`toSigned`) takes the
words from `2^(n-1)` on as the negative numbers, and the word of an integer (`toWord`) is its
residue modulo `2^n`; on words the two are inverse. `land_two_pow_sub_one` is the bitwise
form of the residue that big-integer libraries use: masking with `2^n - 1`, also for
negative numbers, whose bits are those of their two's complement.
-/

namespace Indigo.Lib

/-- The signed reading of an `n`-bit word: the words from `2^(n-1)` on are negative. -/
def toSigned (n x : Nat) : Int := if x < 2 ^ (n - 1) then x else x - 2 ^ n

/-- The `n`-bit word of an integer: its residue modulo `2^n`. -/
def toWord (n : Nat) (i : Int) : Nat := (i % 2 ^ n).toNat

/-- The word as an integer is the residue. -/
theorem toWord_cast (n : Nat) (i : Int) : (toWord n i : Int) = i % 2 ^ n :=
  Int.toNat_of_nonneg (Int.emod_nonneg i (by positivity))

theorem toWord_lt (n : Nat) (i : Int) : toWord n i < 2 ^ n := by
  have lt := Int.emod_lt_of_pos i (show (0 : Int) < 2 ^ n by positivity)
  rw [← toWord_cast] at lt
  exact_mod_cast lt

theorem toWord_natCast (n x : Nat) : toWord n x = x % 2 ^ n := by
  have cast := toWord_cast n x
  have mod : ((x % 2 ^ n : Nat) : Int) = (x : Int) % 2 ^ n := by push_cast; rfl
  exact_mod_cast cast.trans mod.symm

theorem toWord_of_lt {n x : Nat} (lt : x < 2 ^ n) : toWord n x = x := by
  rw [toWord_natCast, Nat.mod_eq_of_lt lt]

/-- Integers congruent modulo `2^n` have the same word. -/
theorem toWord_congr {n : Nat} {i j : Int} (h : i ≡ j [ZMOD 2 ^ n]) : toWord n i = toWord n j := by
  unfold toWord; rw [h]

theorem toWord_toSigned {n x : Nat} (lt : x < 2 ^ n) : toWord n (toSigned n x) = x := by
  unfold toSigned
  split
  · exact toWord_of_lt lt
  · have cast := toWord_cast n (x - 2 ^ n)
    rw [Int.sub_emod_right, Int.emod_eq_of_lt (by omega) (by exact_mod_cast lt)] at cast
    omega

/-- The signed reading of a word lies in `[-2^(n-1), 2^(n-1))`. -/
theorem toSigned_bounds {n x : Nat} (pos : 0 < n) (lt : x < 2 ^ n) :
    -(2 ^ (n - 1) : Int) ≤ toSigned n x ∧ toSigned n x < 2 ^ (n - 1) := by
  have two : (2 : Int) ^ n = 2 * 2 ^ (n - 1) := by
    rw [← pow_succ']; congr 1; omega
  have lt' : (x : Int) < 2 ^ n := by exact_mod_cast lt
  unfold toSigned
  split
  · constructor
    · have : (0 : Int) ≤ 2 ^ (n - 1) := by positivity
      omega
    · exact_mod_cast ‹_›
  · rename_i ge
    have ge' : (2 : Int) ^ (n - 1) ≤ x := by exact_mod_cast not_lt.mp ge
    omega

/-- On `[-2^(n-1), 2^(n-1))` the signed reading of the word is the integer back. -/
theorem toSigned_toWord {n : Nat} {i : Int} (pos : 0 < n) (lo : -2 ^ (n - 1) ≤ i)
    (hi : i < 2 ^ (n - 1)) : toSigned n (toWord n i) = i := by
  have two : (2 : Int) ^ n = 2 * 2 ^ (n - 1) := by
    rw [← pow_succ']; congr 1; omega
  have cast := toWord_cast n i
  -- a negative integer's residue is the integer plus `2^n`
  have negative : i < 0 → i % 2 ^ n = i + 2 ^ n := fun neg => by
    rw [Int.emod_eq_add_self_emod, Int.emod_eq_of_lt (by omega) (by omega)]
  unfold toSigned
  split
  · next small =>
    have : (toWord n i : Int) < 2 ^ (n - 1) := by exact_mod_cast small
    rcases le_or_gt 0 i with nonneg | neg
    · rw [cast, Int.emod_eq_of_lt nonneg (by omega)]
    · have := negative neg
      omega
  · next large =>
    have : (2 : Int) ^ (n - 1) ≤ toWord n i := by exact_mod_cast not_lt.mp large
    rcases le_or_gt 0 i with nonneg | neg
    · rw [Int.emod_eq_of_lt nonneg (by omega)] at cast
      omega
    · have := negative neg
      omega

/-- Clearing the bits of `m` from the `n` low ones leaves `2^n - 1 - m mod 2^n`. -/
theorem ldiff_two_pow_sub_one (n m : Nat) : Nat.ldiff (2 ^ n - 1) m = 2 ^ n - 1 - m % 2 ^ n := by
  have lt : m % 2 ^ n < 2 ^ n := Nat.mod_lt _ (by positivity)
  have flip : 2 ^ n - 1 - m % 2 ^ n = (~~~(BitVec.ofNat n (m % 2 ^ n))).toNat := by
    rw [BitVec.toNat_not, BitVec.toNat_ofNat, Nat.mod_eq_of_lt lt]
  apply Nat.eq_of_testBit_eq
  intro i
  rw [flip, BitVec.testBit_toNat, BitVec.getLsbD_not, BitVec.getLsbD_ofNat, Nat.testBit_ldiff,
    Nat.testBit_two_pow_sub_one, Nat.testBit_mod_two_pow]
  by_cases h : i < n <;> simp [h]

/-- Masking with `2^n - 1` is the residue modulo `2^n`, for negative integers too. -/
theorem land_two_pow_sub_one (i : Int) (n : Nat) : Int.land i (2 ^ n - 1) = i % 2 ^ n := by
  have one : 1 ≤ 2 ^ n := Nat.one_le_two_pow
  have mask : (2 : Int) ^ n - 1 = ((2 ^ n - 1 : Nat) : Int) := by push_cast [one]; ring
  rw [mask]
  cases i with
  | ofNat m =>
    show ((m &&& (2 ^ n - 1) : Nat) : Int) = _
    rw [Nat.and_two_pow_sub_one_eq_mod]
    push_cast; rfl
  | negSucc m =>
    show ((Nat.ldiff (2 ^ n - 1) m : Nat) : Int) = _
    rw [ldiff_two_pow_sub_one, Int.negSucc_emod m (by positivity)]
    have lt : m % 2 ^ n < 2 ^ n := Nat.mod_lt _ (by positivity)
    have mod : ((m % 2 ^ n : Nat) : Int) = (m : Int) % 2 ^ n := by push_cast; rfl
    rw [Nat.cast_sub (by omega), Nat.cast_sub one, mod]
    push_cast; ring

/-- Copying bit `k` of `x` into all the bits above it, by the mask `2^k - 1`, gives the
signed reading of the low `k + 1` bits of `x`. -/
theorem extend_eq_toSigned (x k : Nat) :
    (if (x : Int).testBit k then Int.lor x (Int.lnot (2 ^ k - 1)) else Int.land x (2 ^ k - 1)) =
      toSigned (k + 1) (x % 2 ^ (k + 1)) := by
  have one : 1 ≤ 2 ^ k := Nat.one_le_two_pow
  have low : x % 2 ^ (k + 1) = x % 2 ^ k + 2 ^ k * (x / 2 ^ k % 2) := Nat.mod_pow_succ
  have lt : x % 2 ^ k < 2 ^ k := Nat.mod_lt _ (by positivity)
  have bit : (x : Int).testBit k = decide (x / 2 ^ k % 2 = 1) := Nat.testBit_eq_decide_div_mod_eq
  rw [bit, toSigned, Nat.add_sub_cancel]
  rcases Nat.mod_two_eq_zero_or_one (x / 2 ^ k) with clear | set
  · -- bit `k` is clear: the low `k` bits, a non-negative number
    rw [clear, mul_zero, add_zero] at low
    rw [if_neg (by simp [clear]), land_two_pow_sub_one, low, if_pos lt]
    push_cast; rfl
  · -- bit `k` is set: the low `k` bits minus `2^k`
    rw [set, mul_one] at low
    have mask : (2 : Int) ^ k - 1 = ((2 ^ k - 1 : Nat) : Int) := by push_cast [one]; ring
    have lor : Int.lor x (Int.lnot ((2 ^ k - 1 : Nat) : Int)) =
        Int.negSucc (Nat.ldiff (2 ^ k - 1) x) := rfl
    rw [if_pos (by simp [set]), mask, lor, ldiff_two_pow_sub_one, low, if_neg (by omega),
      Int.negSucc_eq, pow_succ]
    push_cast [Nat.cast_sub one, Nat.cast_sub (show x % 2 ^ k ≤ 2 ^ k - 1 by omega)]
    ring
/-! ### Division of absolute values -/

/-- Dividing the absolute values and putting back the sign of the product is division
rounded toward zero: the sign of the quotient times the quotient of the magnitudes. -/
theorem abs_ediv_abs_mul_sign (x y : Int) :
    |x| / |y| * (if x * y < 0 then -1 else 1) = x.sign * y.sign * (x.natAbs / y.natAbs : Nat) := by
  rw [Int.abs_eq_natAbs, Int.abs_eq_natAbs, ← Int.natCast_ediv]
  rcases eq_or_ne x 0 with rfl | nonzero
  · simp
  rcases eq_or_ne y 0 with rfl | nonzero'
  · simp
  rcases nonzero.lt_or_gt with xneg | xpos <;> rcases nonzero'.lt_or_gt with yneg | ypos
  · have : ¬ x * y < 0 := not_lt.mpr (mul_pos_of_neg_of_neg xneg yneg).le
    simp [Int.sign_eq_neg_one_of_neg xneg, Int.sign_eq_neg_one_of_neg yneg, this]
  · simp [Int.sign_eq_neg_one_of_neg xneg, Int.sign_eq_one_of_pos ypos,
      mul_neg_of_neg_of_pos xneg ypos]
  · simp [Int.sign_eq_one_of_pos xpos, Int.sign_eq_neg_one_of_neg yneg,
      mul_neg_of_pos_of_neg xpos yneg]
  · have : ¬ x * y < 0 := not_lt.mpr (mul_pos xpos ypos).le
    simp [Int.sign_eq_one_of_pos xpos, Int.sign_eq_one_of_pos ypos, this]

/-- The remainder of the absolute values with the sign of the dividend put back. -/
theorem abs_emod_abs_mul_sign (x y : Int) :
    |x| % |y| * (if x < 0 then -1 else 1) = x.sign * (x.natAbs % y.natAbs : Nat) := by
  rw [Int.abs_eq_natAbs, Int.abs_eq_natAbs, ← Int.natCast_emod]
  rcases lt_trichotomy x 0 with xneg | rfl | xpos
  · simp [Int.sign_eq_neg_one_of_neg xneg, xneg]
  · simp
  · simp [Int.sign_eq_one_of_pos xpos, not_lt.mpr xpos.le]

end Indigo.Lib
