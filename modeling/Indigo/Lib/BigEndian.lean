import Mathlib

/-!
# Big-endian byte strings

The minimal big-endian base-256 representation of a natural number and the number a
byte string stands for. Both are read through `Nat.digits` and `Nat.ofDigits`, which
store the least significant digit first.
-/

namespace Indigo.Lib

/-- The minimal big-endian bytes of `n`; empty for zero. -/
def beBytes (n : Nat) : List UInt8 := ((Nat.digits 256 n).map Nat.toUInt8).reverse

/-- The number a big-endian byte string stands for. -/
def beValue (bs : List UInt8) : Nat := Nat.ofDigits 256 (bs.reverse.map UInt8.toNat)

section Minimal

-- the lemmas of this section compute `beBytes` by `simp`
attribute [local simp] beBytes

private theorem toNat_toUInt8_of_mem {n d : Nat} (member : d ∈ Nat.digits 256 n) :
    d.toUInt8.toNat = d := by
  have small := Nat.digits_lt_base (by norm_num) member
  simp [Nat.toUInt8, Nat.mod_eq_of_lt small]

private theorem digits_map_toUInt8 (n : Nat) :
    ((Nat.digits 256 n).map Nat.toUInt8).map UInt8.toNat = Nat.digits 256 n := by
  rw [List.map_map]
  conv_rhs => rw [← List.map_id (Nat.digits 256 n)]
  exact List.map_congr_left fun d member => toNat_toUInt8_of_mem member

@[simp] theorem beValue_beBytes (n : Nat) : beValue (beBytes n) = n := by
  simp only [beValue, beBytes, List.reverse_reverse, digits_map_toUInt8, Nat.ofDigits_digits]

@[simp] theorem beBytes_zero : beBytes 0 = [] := by simp

@[simp] theorem beValue_nil : beValue [] = 0 := rfl

theorem beValue_append (bs : List UInt8) (b : UInt8) :
    beValue (bs ++ [b]) = beValue bs * 256 + b.toNat := by
  simp only [beValue, List.reverse_append, List.reverse_singleton, List.singleton_append,
    List.map_cons, Nat.ofDigits_cons]
  ring

theorem beValue_cons (b : UInt8) (bs : List UInt8) :
    beValue (b :: bs) = b.toNat * 256 ^ bs.length + beValue bs := by
  simp only [beValue, List.reverse_cons, List.map_append, List.map_reverse, List.map_cons,
    List.map_nil, Nat.ofDigits_append, List.length_reverse, List.length_map, Nat.ofDigits_singleton]
  ring

theorem beValue_lt (bs : List UInt8) : beValue bs < 256 ^ bs.length := by
  induction bs using List.reverseRecOn with
  | nil => simp
  | append_singleton bs b ih =>
    have bound := b.toNat_lt
    rw [beValue_append, List.length_append, List.length_singleton, pow_succ]
    nlinarith

/-- The last bytes of a string stand for its value modulo their weight. -/
theorem beValue_drop (bs : List UInt8) (m : Nat) :
    beValue (bs.drop m) = beValue bs % 256 ^ (bs.length - m) := by
  induction bs generalizing m with
  | nil => simp
  | cons b bs ih =>
    cases m with
    | zero => rw [List.drop_zero, Nat.sub_zero, Nat.mod_eq_of_lt (beValue_lt _)]
    | succ m =>
      rw [List.drop_succ_cons, ih, beValue_cons, List.length_cons, Nat.add_sub_add_right]
      -- the first byte's weight is a multiple of the modulus
      have dvd : 256 ^ (bs.length - m) ∣ 256 ^ bs.length := Nat.pow_dvd_pow 256 (Nat.sub_le _ _)
      rw [Nat.add_mod, Nat.mod_eq_zero_of_dvd (Dvd.dvd.mul_left dvd _), zero_add, Nat.mod_mod]

theorem length_beBytes_le_iff (n k : Nat) : (beBytes n).length ≤ k ↔ n < 256 ^ k := by
  simpa using Nat.digits_length_le_iff (b := 256) (by norm_num) n

theorem beBytes_eq_nil_iff (n : Nat) : beBytes n = [] ↔ n = 0 := by
  simp [Nat.digits_eq_nil_iff_eq_zero]

/-- A minimal representation never starts with a zero byte. -/
theorem beBytes_head_ne_zero (n : Nat) : (beBytes n).head? ≠ some 0 := by
  rcases Nat.eq_zero_or_pos n with rfl | positive
  · simp
  · have nonempty : Nat.digits 256 n ≠ [] := Nat.digits_ne_nil_iff_ne_zero.mpr positive.ne'
    have last := Nat.getLast_digit_ne_zero 256 positive.ne'
    have member := List.getLast_mem nonempty
    rw [beBytes, List.head?_reverse, List.getLast?_map, List.getLast?_eq_some_getLast nonempty]
    intro same
    simp only [Option.map_some, Option.some.injEq] at same
    have back := congrArg UInt8.toNat same
    rw [toNat_toUInt8_of_mem member] at back
    exact last back

/-- A byte string without a leading zero is the minimal representation of its value. -/
theorem beBytes_beValue (bs : List UInt8) (canonical : bs.head? ≠ some 0) :
    beBytes (beValue bs) = bs := by
  have digits : Nat.digits 256 (beValue bs) = bs.reverse.map UInt8.toNat := by
    apply Nat.digits_ofDigits 256 (by norm_num)
    · intro d member
      obtain ⟨b, -, rfl⟩ := List.mem_map.mp member
      exact b.toNat_lt
    · intro nonempty
      rw [List.getLast_map, List.getLast_reverse]
      intro zero
      apply canonical
      rw [List.head?_eq_some_head (by simpa using nonempty)]
      congr 1
      exact UInt8.toNat_inj.mp (by simpa using zero)
  rw [beBytes, digits, List.map_map]
  conv_rhs => rw [← List.reverse_reverse bs, ← List.map_id bs.reverse]
  congr 1
  exact List.map_congr_left fun b _ => by simp [Nat.toUInt8, UInt8.ofNat_toNat]

/-- A positive number has one more byte than its quotient by `256`. -/
theorem length_beBytes_of_pos {n : Nat} (positive : 0 < n) :
    (beBytes n).length = (beBytes (n / 256)).length + 1 := by
  simp [Nat.digits_def' (by norm_num : 1 < 256) positive]

theorem beBytes_of_lt {n : Nat} (positive : 0 < n) (small : n < 256) : beBytes n = [n.toUInt8] := by
  simp [Nat.digits_of_lt 256 n positive.ne' small]

end Minimal

/-- The big-endian bytes of `n`, left-padded with zeros to `k` bytes unless they are longer. -/
def bePadded (n k : Nat) : List UInt8 := List.replicate (k - (beBytes n).length) 0 ++ beBytes n

/-- Leading zero bytes do not change the value. -/
theorem beValue_replicate_zero_append (k : Nat) (bs : List UInt8) :
    beValue (List.replicate k 0 ++ bs) = beValue bs := by
  induction k with
  | zero => rfl
  | succ k ih =>
    rw [List.replicate_succ, List.cons_append, beValue_cons, ih]
    simp

@[simp] theorem beValue_bePadded (n k : Nat) : beValue (bePadded n k) = n := by
  rw [bePadded, beValue_replicate_zero_append, beValue_beBytes]

theorem length_bePadded {n k : Nat} (small : n < 256 ^ k) : (bePadded n k).length = k := by
  have fits := (length_beBytes_le_iff n k).2 small
  rw [bePadded, List.length_append, List.length_replicate]
  omega

/-- Padding the value of `k` bytes back to `k` bytes gives them back, leading zeros included. -/
theorem bePadded_beValue (bs : List UInt8) : bePadded (beValue bs) bs.length = bs := by
  induction bs with
  | nil => simp [bePadded]
  | cons b bs ih =>
    by_cases zero : b = 0
    · -- a leading zero adds nothing to the value, and a byte to the padding
      subst zero
      have fits : (beBytes (beValue bs)).length ≤ bs.length :=
        (length_beBytes_le_iff _ _).2 (beValue_lt bs)
      have value : beValue (0 :: bs) = beValue bs := by simp [beValue_cons]
      rw [value, List.length_cons, bePadded, Nat.sub_add_comm fits, List.replicate_succ,
        List.cons_append, ← bePadded, ih]
    · have canonical : (b :: bs).head? ≠ some 0 := by simpa using zero
      rw [bePadded, beBytes_beValue _ canonical, Nat.sub_self, List.replicate_zero, List.nil_append]

end Indigo.Lib
