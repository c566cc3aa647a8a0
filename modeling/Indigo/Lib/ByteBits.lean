import Mathlib.Data.Nat.Bitwise

/-!
# Bit strings packed in bytes

A byte string holds a bit string eight bits to a byte, the most significant bit of each byte
first: bit `i` is bit `7 - i % 8` of byte `i / 8`, read as `bs[i/8] & (1 << (7 - i%8)) != 0`
and set as `bs[i/8] |= 1 << (7 - i%8)`. A bit past the end of the string reads as clear.

## Main results

- `bitAt_setBit`: setting a bit sets that one bit and no other.
- `ext_bitAt`: two byte strings of one length with the same bits are equal.
- `exists_ne_zero_of_bitAt`: a string with a bit set has a byte that is not zero.

## Proof strategy

Everything goes through `bitAt_eq_testBit`, which reads bit `i` as `Nat.testBit` of the
byte's value; the library's `testBit` lemmas then do the work.
-/

namespace Indigo.Lib

/-- The mask `1 << (7 - i % 8)` of bit `i` within its byte. -/
def bitMask (i : Nat) : UInt8 := 1 <<< (7 - i % 8).toUInt8

/-- Bit `i`: `bs[i/8] & (1 << (7 - i%8)) != 0`. -/
def bitAt (bs : List UInt8) (i : Nat) : Bool := (bs.getD (i / 8) 0 &&& bitMask i) != 0

/-- Setting bit `i`: `bs[i/8] |= 1 << (7 - i%8)`. -/
def setBit (bs : List UInt8) (i : Nat) : List UInt8 := bs.modify (i / 8) (· ||| bitMask i)

theorem toNat_bitMask (i : Nat) : (bitMask i).toNat = 2 ^ (7 - i % 8) := by
  have small : 7 - i % 8 < 8 := by omega
  have shift : ((7 - i % 8).toUInt8).toNat = 7 - i % 8 := by
    simp only [Nat.toUInt8, UInt8.toNat_ofNat']
    omega
  have fits : 2 ^ (7 - i % 8) < 2 ^ 8 := Nat.pow_lt_pow_right Nat.one_lt_two small
  rw [bitMask, UInt8.toNat_shiftLeft, shift, UInt8.toNat_one, Nat.one_shiftLeft,
    Nat.mod_eq_of_lt small, Nat.mod_eq_of_lt fits]

/-- Bit `i` is bit `7 - i % 8` of the value of byte `i / 8`. -/
theorem bitAt_eq_testBit (bs : List UInt8) (i : Nat) :
    bitAt bs i = (bs.getD (i / 8) 0).toNat.testBit (7 - i % 8) := by
  have masked : (bs.getD (i / 8) 0 &&& bitMask i).toNat =
      ((bs.getD (i / 8) 0).toNat.testBit (7 - i % 8)).toNat * 2 ^ (7 - i % 8) := by
    rw [UInt8.toNat_and, toNat_bitMask, Nat.and_two_pow]
  have iff : (bs.getD (i / 8) 0 &&& bitMask i) ≠ 0 ↔ (bs.getD (i / 8) 0).toNat.testBit (7 - i % 8) := by
    rw [ne_eq, ← UInt8.toNat_inj, masked, UInt8.toNat_zero]
    cases (bs.getD (i / 8) 0).toNat.testBit (7 - i % 8) <;> simp
  rw [bitAt, Bool.eq_iff_iff, bne_iff_ne]
  exact iff

@[simp] theorem length_setBit (bs : List UInt8) (i : Nat) : (setBit bs i).length = bs.length :=
  List.length_modify ..

theorem bitAt_of_length_le {bs : List UInt8} {i : Nat} (past : bs.length ≤ i / 8) :
    bitAt bs i = false := by
  rw [bitAt_eq_testBit, List.getD_eq_default _ _ past]
  simp

@[simp] theorem bitAt_replicate_zero (n i : Nat) : bitAt (List.replicate n 0) i = false := by
  have zero : (List.replicate n (0 : UInt8)).getD (i / 8) 0 = 0 := by
    by_cases inside : i / 8 < n
    · exact List.getD_replicate 0 inside
    · exact List.getD_eq_default _ _ (by simpa using inside)
  rw [bitAt_eq_testBit, zero]
  simp

/-- Setting bit `i` of the string sets that bit and leaves every other. -/
theorem bitAt_setBit {bs : List UInt8} {i : Nat} (inside : i / 8 < bs.length) (j : Nat) :
    bitAt (setBit bs i) j = (bitAt bs j || j == i) := by
  rw [bitAt_eq_testBit, bitAt_eq_testBit]
  by_cases same : j / 8 = i / 8
  · -- the byte of `i`: its value gains the bit `7 - i % 8`
    have byte : (setBit bs i).getD (j / 8) 0 = bs.getD (i / 8) 0 ||| bitMask i := by
      rw [same, setBit, List.getD_eq_getElem _ _ (by simpa using inside), List.getElem_modify,
        if_pos rfl, List.getD_eq_getElem _ _ inside]
    rw [byte, UInt8.toNat_or, Nat.testBit_or, toNat_bitMask, Nat.testBit_two_pow, same]
    congr 1
    rw [Bool.eq_iff_iff, decide_eq_true_iff, beq_iff_eq]
    omega
  · -- another byte, untouched
    have byte : (setBit bs i).getD (j / 8) 0 = bs.getD (j / 8) 0 := by
      simp [setBit, List.getD_eq_getElem?_getD, Ne.symm same]
    have other : (j == i) = false := by
      simp only [beq_eq_false_iff_ne]
      rintro rfl
      exact same rfl
    rw [byte, other, Bool.or_false]

/-- Two byte strings of one length with the same bits are equal. -/
theorem ext_bitAt {bs bs' : List UInt8} (length_eq : bs.length = bs'.length)
    (bits : ∀ i, bitAt bs i = bitAt bs' i) : bs = bs' := by
  apply List.ext_getElem length_eq
  intro n inside inside'
  rw [← UInt8.toNat_inj]
  apply Nat.eq_of_testBit_eq
  intro t
  by_cases low : t < 8
  · -- bit `t` of byte `n` is bit `8 * n + 7 - t` of the string
    have at_t := bits (8 * n + (7 - t))
    rw [bitAt_eq_testBit, bitAt_eq_testBit, show (8 * n + (7 - t)) / 8 = n by omega,
      show 7 - (8 * n + (7 - t)) % 8 = t by omega, List.getD_eq_getElem _ _ inside,
      List.getD_eq_getElem _ _ inside'] at at_t
    exact at_t
  · -- a byte has no bit from `8` on
    have high : ∀ b : UInt8, b.toNat.testBit t = false := fun b =>
      Nat.testBit_lt_two_pow (lt_of_lt_of_le b.toNat_lt (Nat.pow_le_pow_right Nat.two_pos (by omega)))
    rw [high, high]

/-- A string with a bit set has a byte that is not zero. -/
theorem exists_ne_zero_of_bitAt {bs : List UInt8} {i : Nat} (set : bitAt bs i = true) :
    ∃ b ∈ bs, b ≠ 0 := by
  by_cases inside : i / 8 < bs.length
  · refine ⟨bs[i / 8], List.getElem_mem inside, fun zero => ?_⟩
    rw [bitAt_eq_testBit, List.getD_eq_getElem _ _ inside, zero] at set
    simp at set
  · rw [bitAt_of_length_le (by omega)] at set
    cases set

end Indigo.Lib
