import Indigo.Lib.TwosComplement

/-!
# Words of the EVM as big integers

`common/math/big.go`: the interpreter keeps its words in `big.Int`s and brings every result
back to 256 bits with `U256` (a mask), reads words as signed numbers with `S256`, takes bytes
of a word through its machine words (`bigEndianByteAt`, `Byte`) and exponentiates by squaring
over the bits of the exponent (`Exp`). Integers stand for `big.Int`s; `Int.land` and the
other bitwise operations of `Int` have the two's complement meaning of Go's.

## Main results

- `U256_eq`, `S256_eq`: the mask is the residue modulo `2^256`, and `S256` of a word is its
  signed reading.
- `Byte_eq`: `Byte` of a natural number is its byte `n`, counted from the most significant.
- `Exp_eq`: `Exp` of natural numbers is the power modulo `2^256`.

## Proof strategy

`Byte_eq` reads the machine word out of `Nat.digits` (`Nat.getD_digits`) and the byte out of
the word bit by bit. `Exp_eq` is two invariants: over the bits of one word (`expBits_spec`)
and over the words (`expWords_spec`), each a congruence modulo `2^256` kept by `U256`.
-/

namespace Indigo.Evm

open Indigo.Lib

/-! ### Constants and the 256-bit reading -/

/-- `tt255 = 2^255`. -/
def tt255 : Int := 2 ^ 255

/-- `tt256 = 2^256`. -/
def tt256 : Int := 2 ^ 256

/-- `tt256m1 = 2^256 - 1`. -/
def tt256m1 : Int := tt256 - 1

/-- `U256`: `x & tt256m1`, the two's complement word of `x` (destructive in Go). -/
def U256 (x : Int) : Int := Int.land x tt256m1

/-- `S256`: the signed reading of a word. -/
def S256 (x : Int) : Int := if x < tt255 then x else x - tt256

/-- `U256` is the 256-bit word of its argument. -/
theorem U256_eq (x : Int) : U256 x = toWord 256 x := by
  rw [U256, tt256m1, tt256, land_two_pow_sub_one, toWord_cast]

/-- A word is its own `U256`. -/
theorem U256_of_lt {a : Nat} (lt : a < 2 ^ 256) : U256 a = a := by
  rw [U256_eq, toWord_of_lt lt]

/-- `U256` keeps the residue modulo `2^256`. -/
theorem U256_modEq (x : Int) : U256 x ≡ x [ZMOD 2 ^ 256] := by
  rw [U256_eq, toWord_cast]
  exact Int.mod_modEq _ _

/-- `U256` gives a word. -/
theorem U256_bounds (x : Int) : 0 ≤ U256 x ∧ U256 x < 2 ^ 256 := by
  rw [U256_eq]
  exact ⟨by positivity, by exact_mod_cast toWord_lt 256 x⟩

/-- `S256` of a word is its signed reading. -/
theorem S256_eq {a : Nat} : S256 a = toSigned 256 a := by
  have iff : (a : Int) < tt255 ↔ a < 2 ^ (256 - 1) := by
    rw [tt255]; norm_cast
  unfold S256 toSigned
  by_cases small : a < 2 ^ (256 - 1)
  · rw [if_pos (iff.mpr small), if_pos small]
  · rw [if_neg (iff.not.mpr small), if_neg small, tt256]

/-! ### Bytes -/

/-- The number of bits of a `big.Word` on the 64-bit platforms. -/
def wordBits : Nat := 64

/-- The number of bytes of a `big.Word`. -/
def wordBytes : Nat := wordBits / 8

/-- `Int.Bits`: the words of the absolute value, least significant first, without leading
zero words. -/
def bits (x : Int) : List Nat := Nat.digits (2 ^ wordBits) x.natAbs

/-- `bigEndianByteAt`: the byte at position `n` counted from the least significant one. -/
def bigEndianByteAt (bigint : Int) (n : Nat) : UInt8 :=
  let words := bits bigint
  -- check word-bucket the byte will reside in
  let i := n / wordBytes
  if i ≥ words.length then 0
  else
    let word := words.getD i 0
    -- offset of the byte
    let shift := 8 * (n % wordBytes)
    (word >>> shift).toUInt8

/-- `Byte`: the byte at position `n` of the `padlength`-byte big-endian encoding, `n = 0`
the most significant one. -/
def Byte (bigint : Int) (padlength n : Nat) : UInt8 :=
  if n ≥ padlength then 0 else bigEndianByteAt bigint (padlength - 1 - n)

/-- Within a word, a byte is taken from the word's low bits. -/
theorem mod_div_mod {y s : Nat} (fits : s + 8 ≤ 64) :
    y % 2 ^ 64 / 2 ^ s % 2 ^ 8 = y / 2 ^ s % 2 ^ 8 := by
  apply Nat.eq_of_testBit_eq
  intro j
  simp only [Nat.testBit_mod_two_pow, Nat.testBit_div_two_pow]
  by_cases small : j < 8
  · simp [small, show j + s < 64 by omega]
  · simp [small]

/-- `bigEndianByteAt` of a natural number: its `n`-th byte from the least significant end. -/
theorem bigEndianByteAt_eq (a n : Nat) : (bigEndianByteAt a n).toNat = a / 2 ^ (8 * n) % 256 := by
  have base : 2 ≤ 2 ^ wordBits := by simp [wordBits]
  have split : 8 * n = wordBits * (n / wordBytes) + 8 * (n % wordBytes) := by
    simp only [wordBits, wordBytes]; omega
  unfold bigEndianByteAt bits
  simp only [Int.natAbs_natCast]
  split
  · -- beyond the last word the number has no bits left
    rename_i beyond
    have small := Nat.lt_base_pow_length_digits (m := a) base
    have le : (2 ^ wordBits) ^ (Nat.digits (2 ^ wordBits) a).length ≤ 2 ^ (8 * n) := by
      have words := Nat.mul_le_mul_left wordBits beyond
      rw [← pow_mul, split]
      exact Nat.pow_le_pow_right (by norm_num) (by omega)
    simp [Nat.div_eq_of_lt (Nat.lt_of_lt_of_le small le)]
  · simp only [Nat.toUInt8]
    rw [Nat.getD_digits _ _ base, Nat.shiftRight_eq_div_pow, ← pow_mul, split, pow_add,
      ← Nat.div_div_eq_div_mul]
    exact mod_div_mod (by simp only [wordBytes, wordBits]; omega)

/-- `Byte` of a natural number: its byte `n` of `padlength`, big-endian. -/
theorem Byte_eq (a padlength n : Nat) (lt : n < padlength) :
    (Byte a padlength n).toNat = a / 2 ^ (8 * (padlength - 1 - n)) % 256 := by
  rw [Byte, if_neg (by omega), bigEndianByteAt_eq]

/-! ### Exponentiation -/

/-- The rounds of `Exp` over one word of the exponent: `i` bits of `word` left, the lowest
first; the result takes the base when the bit is set, and the base is squared. -/
def expBits : Nat → Nat → Int × Int → Int × Int
  | 0, _, acc => acc
  | i + 1, word, (result, base) =>
    let result := if word &&& 1 = 1 then U256 (result * base) else result
    expBits i (word >>> 1) (result, U256 (base * base))

/-- `Exp`: exponentiation by squaring over the words of the exponent, truncated to 256 bits. -/
def Exp (base exponent : Int) : Int :=
  ((bits exponent).foldl (fun acc word => expBits wordBits word acc) (1, base)).1

/-- The bit loop: with `i` bits left of `word`, the result gains the base to the power of
those bits and the base is raised to `2^i`, modulo `2^256`; the result stays a word. -/
theorem expBits_spec : ∀ (i word : Nat) (base : Int) {result : Int},
    0 ≤ result → result < 2 ^ 256 →
    (expBits i word (result, base)).1 ≡ result * base ^ (word % 2 ^ i) [ZMOD 2 ^ 256] ∧
    (expBits i word (result, base)).2 ≡ base ^ 2 ^ i [ZMOD 2 ^ 256] ∧
    0 ≤ (expBits i word (result, base)).1 ∧ (expBits i word (result, base)).1 < 2 ^ 256
  | 0, word, base, result, nonneg, lt => by
    simp only [expBits, pow_zero, Nat.mod_one, pow_one, mul_one]
    exact ⟨Int.ModEq.refl _, Int.ModEq.refl _, nonneg, lt⟩
  | i + 1, word, base, result, nonneg, lt => by
    set result' := if word &&& 1 = 1 then U256 (result * base) else result
    -- the next result is `result · base^(word mod 2)`, still a word
    have taken : result' ≡ result * base ^ (word % 2) [ZMOD 2 ^ 256] ∧
        0 ≤ result' ∧ result' < 2 ^ 256 := by
      rcases Nat.mod_two_eq_zero_or_one word with even | odd
      · have clear : ¬ (word &&& 1 = 1) := by rw [Nat.and_one_is_mod]; omega
        rw [show result' = result from if_neg clear, even, pow_zero, mul_one]
        exact ⟨Int.ModEq.refl _, nonneg, lt⟩
      · have set : word &&& 1 = 1 := by rw [Nat.and_one_is_mod]; omega
        rw [show result' = U256 (result * base) from if_pos set, odd, pow_one]
        exact ⟨U256_modEq _, U256_bounds _⟩
    obtain ⟨taken, bounds⟩ := taken
    obtain ⟨rest, squares, nonneg', lt'⟩ :=
      expBits_spec i (word >>> 1) (U256 (base * base)) bounds.1 bounds.2
    have squared : U256 (base * base) ^ ((word >>> 1) % 2 ^ i) ≡
        (base * base) ^ ((word >>> 1) % 2 ^ i) [ZMOD 2 ^ 256] :=
      (U256_modEq _).pow _
    have split : word % 2 ^ (i + 1) = word % 2 + 2 * ((word >>> 1) % 2 ^ i) := by
      rw [Nat.shiftRight_one, pow_succ', Nat.mod_mul]
    refine ⟨?_, ?_, nonneg', lt'⟩
    · calc (expBits (i + 1) word (result, base)).1
          ≡ result' * U256 (base * base) ^ ((word >>> 1) % 2 ^ i) [ZMOD 2 ^ 256] := rest
        _ ≡ result * base ^ (word % 2) * (base * base) ^ ((word >>> 1) % 2 ^ i)
            [ZMOD 2 ^ 256] := taken.mul squared
        _ = result * base ^ (word % 2 ^ (i + 1)) := by
            rw [split, pow_add, pow_mul, sq, mul_assoc]
    · calc (expBits (i + 1) word (result, base)).2
          ≡ U256 (base * base) ^ 2 ^ i [ZMOD 2 ^ 256] := squares
        _ ≡ (base * base) ^ 2 ^ i [ZMOD 2 ^ 256] := (U256_modEq _).pow _
        _ = base ^ 2 ^ (i + 1) := by rw [← sq, ← pow_mul, ← pow_succ']

/-- The word loop: the result gains the base to the power of the number the words are the
digits of. -/
theorem expWords_spec : ∀ (words : List Nat) (acc : Int × Int),
    (∀ w ∈ words, w < 2 ^ wordBits) → 0 ≤ acc.1 → acc.1 < 2 ^ 256 →
    (words.foldl (fun acc word => expBits wordBits word acc) acc).1 ≡
        acc.1 * acc.2 ^ Nat.ofDigits (2 ^ wordBits) words [ZMOD 2 ^ 256] ∧
      0 ≤ (words.foldl (fun acc word => expBits wordBits word acc) acc).1 ∧
      (words.foldl (fun acc word => expBits wordBits word acc) acc).1 < 2 ^ 256
  | [], acc, _, nonneg, lt => by
    simp only [List.foldl_nil, Nat.ofDigits_nil, pow_zero, mul_one]
    exact ⟨Int.ModEq.refl _, nonneg, lt⟩
  | word :: words, (result, base), small, nonneg, lt => by
    obtain ⟨taken, squares, nonneg', lt'⟩ := expBits_spec wordBits word base nonneg lt
    rw [Nat.mod_eq_of_lt (small word (by simp))] at taken
    obtain ⟨rest, nonneg'', lt''⟩ := expWords_spec words (expBits wordBits word (result, base))
      (fun w mem => small w (by simp [mem])) nonneg' lt'
    rw [List.foldl_cons]
    refine ⟨?_, nonneg'', lt''⟩
    calc (List.foldl (fun acc word => expBits wordBits word acc)
          (expBits wordBits word (result, base)) words).1
        ≡ (expBits wordBits word (result, base)).1 *
            (expBits wordBits word (result, base)).2 ^ Nat.ofDigits (2 ^ wordBits) words
            [ZMOD 2 ^ 256] := rest
      _ ≡ result * base ^ word * (base ^ 2 ^ wordBits) ^ Nat.ofDigits (2 ^ wordBits) words
            [ZMOD 2 ^ 256] := taken.mul (squares.pow _)
      _ = result * base ^ Nat.ofDigits (2 ^ wordBits) (word :: words) := by
          rw [Nat.ofDigits_cons, pow_add, ← pow_mul, mul_assoc]

/-- `Exp` of words is the power modulo `2^256`. -/
theorem Exp_eq (a e : Nat) : Exp a e = ((a ^ e % 2 ^ 256 : Nat) : Int) := by
  have base : 1 < 2 ^ wordBits := by simp [wordBits]
  obtain ⟨congr, nonneg, lt⟩ := expWords_spec (Nat.digits (2 ^ wordBits) e) (1, a)
    (fun w mem => Nat.digits_lt_base base mem) (show (0 : Int) ≤ 1 by norm_num)
    (show (1 : Int) < 2 ^ 256 by norm_num)
  rw [Nat.ofDigits_digits, one_mul] at congr
  unfold Exp bits
  rw [Int.natAbs_natCast, ← Int.emod_eq_of_lt nonneg lt, congr]
  push_cast; rfl

end Indigo.Evm
