import Indigo.Abi.Unpack

/-!
# When ABI decoding panics

`toGoType` checks every offset and length it reads against the length of the output before it
slices. Go's `int` has 64 bits, though, and the checks compare words read as `int`s. An offset word of
`2^63` or more is negative as an `int`, so `offset+32` passes the check `offset+32 > len(output)`,
and `output[offset+24 : offset+32]` slices from a negative index: every output whose first
length-prefixed value has such an offset makes `Unpack` panic (`Unpack_offset_wraps_panics`).
A length word of `2^63` or more is negative in the same way, and passes the check on the length
(`Unpack_length_wraps_panics`).

## Main results

- `Unpack_offset_wraps_panics`: with Go's `int`, a `string`, `bytes` or slice output whose
  offset word is `2^63` or more (and below `2^64 - 24`) makes `Unpack` panic, whatever the
  outputs after it.
- `Unpack_length_wraps_panics`: with Go's `int`, a `string` or `bytes` output whose offset is
  in range but whose length word is `2^63` or more makes `Unpack` panic too.
-/

namespace Indigo.Abi

open Indigo.Lib Indigo.Lib.Panicky

/-! ### An offset of `2^63` or more -/

/-- An offset word of `2^63` or more is a negative `int`: it passes the check, and the word it
points to starts before the output. -/
theorem lengthPrefixPointsTo_high (output : GoBytes) (k : Nat) (inside : k + 32 ≤ output.len)
    (high : 2 ^ 63 ≤ beValue ((output.elems.drop (k + 24)).take 8))
    (low : beValue ((output.elems.drop (k + 24)).take 8) < 2 ^ 64 - 24) :
    (lengthPrefixPointsTo int64 k output).run = none := by
  have cap := output.cap_lt
  have len_le := output.len_le
  have first : int64 (k + 24) = k + 24 := int64_eq_self (by omega) (by omega)
  have second : int64 (k + 32) = k + 32 := int64_eq_self (by omega) (by omega)
  obtain ⟨word, sliced, -, -⟩ := GoBytes.slice_eq_some output (k + 24) (k + 32)
    ⟨by omega, by omega, by omega⟩
  have value : word.elems = (output.elems.drop (k + 24)).take 8 := by
    rw [GoBytes.elems_of_slice sliced (by omega)]
    congr 2
    omega
  have offset := int64_natCast_of_ge high (by omega)
  unfold lengthPrefixPointsTo
  rw [first, second, sliced, run_liftM_some_bind]
  dsimp only
  rw [value, offset]
  generalize beValue ((output.elems.drop (k + 24)).take 8) = w at high low
  have start : int64 (w - 2 ^ 64 + 32) = w - 2 ^ 64 + 32 := int64_eq_self (by omega) (by omega)
  have before : int64 (w - 2 ^ 64 + 24) = w - 2 ^ 64 + 24 := int64_eq_self (by omega) (by omega)
  rw [start, before, if_neg (by omega),
    run_bind_of_none (by rw [run_liftM, GoBytes.slice_eq_none_of_neg (by omega)]; rfl)]

theorem toGoType_high_offset (t : AbiType) (prefixed : t.requiresLengthPrefix = true)
    (output : GoBytes) (k : Nat) (inside : k + 32 ≤ output.len)
    (high : 2 ^ 63 ≤ beValue ((output.elems.drop (k + 24)).take 8))
    (low : beValue ((output.elems.drop (k + 24)).take 8) < 2 ^ 64 - 24) :
    (toGoType int64 k t output).run = none := by
  have cap := output.cap_lt
  have len_le := output.len_le
  have check : int64 (k + 32) = k + 32 := int64_eq_self (by omega) (by omega)
  rw [toGoType]
  dsimp only
  rw [check, if_neg (by omega), if_pos prefixed]
  exact run_bind_of_none (lengthPrefixPointsTo_high output k inside high low) _

/-- When decoding the first output panics, `Unpack` panics, whether it reads a tuple or a single
value. -/
theorem Unpack_of_first_panics (t : AbiType) (rest : List Argument) (data : GoBytes)
    (panics : (toGoType int64 0 t data).run = none) :
    (Unpack int64 (⟨t, false⟩ :: rest) data).run = none := by
  have zero : int64 0 = 0 := int64_eq_self (by norm_num) (by norm_num)
  unfold Unpack
  split
  · -- a tuple reads its first value at word 0
    rw [unpackTuple, unpackTupleLoop, if_neg Bool.false_ne_true]
    dsimp only
    rw [neg_add_cancel, zero, add_zero, zero, zero_mul, zero]
    exact run_bind_of_none panics _
  · rw [unpackAtomic, List.head?_cons, run_liftM_some_bind]
    dsimp only
    rw [if_neg Bool.false_ne_true]
    exact run_bind_of_none panics _

theorem Unpack_offset_wraps_panics (t : AbiType) (prefixed : t.requiresLengthPrefix = true)
    (rest : List Argument) (data : GoBytes) (long : 32 ≤ data.len)
    (high : 2 ^ 63 ≤ beValue ((data.elems.drop 24).take 8))
    (low : beValue ((data.elems.drop 24).take 8) < 2 ^ 64 - 24) :
    (Unpack int64 (⟨t, false⟩ :: rest) data).run = none := by
  have panics := toGoType_high_offset t prefixed data 0 long high low
  rw [Nat.cast_zero] at panics
  exact Unpack_of_first_panics t rest data panics

/-- A call that returns one word, `2^63`, read as the offset of a `string`. -/
def highOffsetOutput : GoBytes :=
  GoBytes.ofList (List.replicate 24 0 ++ [0x80, 0, 0, 0, 0, 0, 0, 0]) (by decide)

theorem Unpack_offset_wraps_panics_string :
    32 ≤ highOffsetOutput.len ∧ 2 ^ 63 ≤ beValue ((highOffsetOutput.elems.drop 24).take 8) ∧
      beValue ((highOffsetOutput.elems.drop 24).take 8) < 2 ^ 64 - 24 ∧
      (Unpack int64 [⟨.string, false⟩] highOffsetOutput).run = none := by
  have long : 32 ≤ highOffsetOutput.len := by decide
  have high : 2 ^ 63 ≤ beValue ((highOffsetOutput.elems.drop 24).take 8) := by decide
  have low : beValue ((highOffsetOutput.elems.drop 24).take 8) < 2 ^ 64 - 24 := by decide
  exact ⟨long, high, low, Unpack_offset_wraps_panics .string rfl [] highOffsetOutput long high low⟩

/-- The same word read as the offset of `bytes`: `Unpack` of one `bytes` output panics. -/
theorem Unpack_bytes_high_offset_panics :
    (Unpack int64 [⟨.bytes, false⟩] highOffsetOutput).run = none := by
  apply Unpack_of_first_panics .bytes [] highOffsetOutput
  have panics := toGoType_high_offset .bytes rfl highOffsetOutput 0 (by decide) (by decide)
    (by decide)
  rwa [Nat.cast_zero] at panics

/-- `arguments[0]` of no outputs panics too, whatever the arithmetic. -/
theorem Unpack_nil_panics (wrap : Int → Int) (data : GoBytes) : (Unpack wrap [] data).run = none :=
  rfl

/-! ### A length word of `2^63` or more

The offset may be in range and the length word still `2^63` or more: the length is then a
negative `int`, `offset+32+length` passes the check `offset+32+length > len(output)`, and the
data of a `string` or `bytes` value are sliced as `output[begin:begin+length]`, whose end is
before its start. -/

/-- An 8-byte word is a `uint64`. -/
theorem beValue_take_eight_lt (bs : Bytes) : beValue (bs.take 8) < 2 ^ 64 := by
  have bound := beValue_lt (bs.take 8)
  have short : (bs.take 8).length ≤ 8 := by simp
  calc beValue (bs.take 8) < 256 ^ (bs.take 8).length := bound
    _ ≤ 256 ^ 8 := Nat.pow_le_pow_right (by norm_num) short
    _ = 2 ^ 64 := by norm_num

/-- An offset in range and a length word of `2^63` or more: the checks pass, and the length
comes back negative. -/
theorem lengthPrefixPointsTo_negative_length (output : GoBytes) (k : Nat)
    (inside : k + 32 ≤ output.len)
    (offsetIn : beValue ((output.elems.drop (k + 24)).take 8) + 32 ≤ output.len)
    (negative : 2 ^ 63 ≤
      beValue ((output.elems.drop (beValue ((output.elems.drop (k + 24)).take 8) + 24)).take 8)) :
    (lengthPrefixPointsTo int64 k output).run =
      some (.ok ((beValue ((output.elems.drop (k + 24)).take 8) : Int) + 32,
        (beValue ((output.elems.drop
          (beValue ((output.elems.drop (k + 24)).take 8) + 24)).take 8) : Int) - 2 ^ 64)) := by
  have cap := output.cap_lt
  have len_le := output.len_le
  have first : int64 (k + 24) = k + 24 := int64_eq_self (by omega) (by omega)
  have second : int64 (k + 32) = k + 32 := int64_eq_self (by omega) (by omega)
  obtain ⟨word, sliced, -, -⟩ := GoBytes.slice_eq_some output (k + 24) (k + 32)
    ⟨by omega, by omega, by omega⟩
  have value : word.elems = (output.elems.drop (k + 24)).take 8 := by
    rw [GoBytes.elems_of_slice sliced (by omega)]
    congr 2
    omega
  unfold lengthPrefixPointsTo
  rw [first, second, sliced, run_liftM_some_bind]
  dsimp only
  rw [value]
  generalize offsetEq : beValue ((output.elems.drop (k + 24)).take 8) = o at offsetIn negative
  -- the offset is in range, so it is read as it is
  have offset : int64 o = o := int64_eq_self (by omega) (by omega)
  have start : int64 ((o : Int) + 32) = o + 32 := int64_eq_self (by omega) (by omega)
  have before : int64 ((o : Int) + 24) = o + 24 := int64_eq_self (by omega) (by omega)
  obtain ⟨lengthWord, sliced', -, -⟩ := GoBytes.slice_eq_some output (o + 24) (o + 32)
    ⟨by omega, by omega, by omega⟩
  have value' : lengthWord.elems = (output.elems.drop (o + 24)).take 8 := by
    rw [GoBytes.elems_of_slice sliced' (by omega)]
    congr 2
    omega
  rw [offset, start, if_neg (by omega), before, sliced', run_liftM_some_bind, value']
  have small := beValue_take_eight_lt (output.elems.drop (o + 24))
  generalize beValue ((output.elems.drop (o + 24)).take 8) = l at negative small
  -- the length word is `2^63` or more: a negative `int`, and the end it gives is before `len`
  have length := int64_natCast_of_ge negative small
  have stop : int64 ((o : Int) + 32 + (l - 2 ^ 64)) = o + 32 + (l - 2 ^ 64) :=
    int64_eq_self (by omega) (by omega)
  rw [length, stop, if_neg (by omega)]
  rfl

/-- A `string` or `bytes` whose offset is in range and whose length word is `2^63` or more:
`toGoType` slices its data backwards, and panics. -/
theorem toGoType_negative_length (t : AbiType) (data : t = .string ∨ t = .bytes)
    (output : GoBytes) (k : Nat) (inside : k + 32 ≤ output.len)
    (offsetIn : beValue ((output.elems.drop (k + 24)).take 8) + 32 ≤ output.len)
    (negative : 2 ^ 63 ≤
      beValue ((output.elems.drop (beValue ((output.elems.drop (k + 24)).take 8) + 24)).take 8)) :
    (toGoType int64 k t output).run = none := by
  have cap := output.cap_lt
  have len_le := output.len_le
  have check : int64 (k + 32) = k + 32 := int64_eq_self (by omega) (by omega)
  have prefixed : t.requiresLengthPrefix = true := by
    rcases data with rfl | rfl <;> rfl
  have pointed := lengthPrefixPointsTo_negative_length output k inside offsetIn negative
  have small := beValue_take_eight_lt
    (output.elems.drop (beValue ((output.elems.drop (k + 24)).take 8) + 24))
  generalize beValue ((output.elems.drop (k + 24)).take 8) = o at offsetIn negative pointed small
  generalize beValue ((output.elems.drop (o + 24)).take 8) = l at negative pointed small
  -- the end of the data is before their start
  have stop : int64 ((o : Int) + 32 + (l - 2 ^ 64)) = o + 32 + (l - 2 ^ 64) :=
    int64_eq_self (by omega) (by omega)
  have backwards : output.slice ((o : Int) + 32) (o + 32 + (l - 2 ^ 64)) = none :=
    GoBytes.slice_eq_none_of_lt (by omega)
  rw [toGoType]
  dsimp only
  rw [check, if_neg (by omega), if_pos prefixed, run_bind_of_ok pointed, run_pure_bind]
  rcases data with rfl | rfl <;>
  · dsimp only
    rw [stop]
    exact run_bind_of_none (by rw [run_liftM, backwards]; rfl) _

/-- A `string` or `bytes` output whose offset is in range but whose length word is `2^63` or
more makes `Unpack` panic, whatever the outputs after it. -/
theorem Unpack_length_wraps_panics (t : AbiType) (data : t = .string ∨ t = .bytes)
    (rest : List Argument) (output : GoBytes) (long : 32 ≤ output.len)
    (offsetIn : beValue ((output.elems.drop 24).take 8) + 32 ≤ output.len)
    (negative : 2 ^ 63 ≤
      beValue ((output.elems.drop (beValue ((output.elems.drop 24).take 8) + 24)).take 8)) :
    (Unpack int64 (⟨t, false⟩ :: rest) output).run = none := by
  have panics := toGoType_negative_length t data output 0 long offsetIn negative
  rw [Nat.cast_zero] at panics
  exact Unpack_of_first_panics t rest output panics

/-- A call that returns a `string` at offset `32` whose length word is `2^63`. -/
def negativeLengthOutput : GoBytes :=
  GoBytes.ofList (List.replicate 31 0 ++ [0x20] ++ List.replicate 24 0 ++
    [0x80, 0, 0, 0, 0, 0, 0, 0]) (by decide)

theorem Unpack_length_wraps_panics_string :
    32 ≤ negativeLengthOutput.len ∧
      beValue ((negativeLengthOutput.elems.drop 24).take 8) + 32 ≤ negativeLengthOutput.len ∧
      2 ^ 63 ≤ beValue ((negativeLengthOutput.elems.drop
        (beValue ((negativeLengthOutput.elems.drop 24).take 8) + 24)).take 8) ∧
      (Unpack int64 [⟨.string, false⟩] negativeLengthOutput).run = none := by
  have long : 32 ≤ negativeLengthOutput.len := by decide
  have offsetIn : beValue ((negativeLengthOutput.elems.drop 24).take 8) + 32 ≤
      negativeLengthOutput.len := by decide
  have negative : 2 ^ 63 ≤ beValue ((negativeLengthOutput.elems.drop
      (beValue ((negativeLengthOutput.elems.drop 24).take 8) + 24)).take 8) := by decide
  exact ⟨long, offsetIn, negative,
    Unpack_length_wraps_panics .string (.inl rfl) [] negativeLengthOutput long offsetIn negative⟩

end Indigo.Abi
