import Indigo.Abi.Pack
import Indigo.Lib.Layout

/-!
# Reading back one word

`packElement` packs a number, a boolean, an address, fixed bytes or a function into one 32-byte
word, and `toGoType` reads a value of such a type back from the word at its index. This module
says which values come back (`fits`): an integer of the Go type `reflectIntKindAndType` gives
the ABI type, in its range; a `*big.Int` from `0` to `2^256`, which `readInteger` reads
unsigned whatever the type's sign; an address of 20 bytes, `bytesN` of `N ≤ 32` bytes and a
function of 24. For each of them, the word `Pack` makes (`wordOf`), standing anywhere in the
output, is read back as the value (`toGoType_word`).

Positions in the output are those of `Indigo.Lib.Occurs`; `slice_of_occurs` turns one into the
slice expression of the decoder.

## Main results

- `pack_word`: `Type.pack` of a value of a one-word type is its word.
- `toGoType_word`: `toGoType` reads the word of a value back as the value.
- `toGoType_int`: `toGoType` of a signed type reads the word at the index with `readInteger`,
  for every word.
-/

namespace Indigo.Abi

open Indigo.Lib

/-! ### Words -/

theorem length_U256 (i : Int) : (U256 i).length = 32 :=
  length_bePadded (by have := toWord_lt 256 i; norm_num at this ⊢; omega)

theorem beValue_U256 (i : Int) : beValue (U256 i) = toWord 256 i := beValue_bePadded _ _

/-- The last `k` bytes of a `U256` word are the `8k`-bit word of the number. -/
theorem beValue_drop_U256 (i : Int) {k : Nat} (le : k ≤ 32) :
    beValue ((U256 i).drop ((U256 i).length - k)) = toWord (8 * k) i := by
  rw [beValue_drop, beValue_U256, length_U256, show 32 - (32 - k) = k by omega]
  have pow : (256 : Nat) ^ k = 2 ^ (8 * k) := by rw [pow_mul]; norm_num
  rw [pow]
  apply Int.ofNat_inj.mp
  push_cast
  rw [toWord_cast, toWord_cast, Int.emod_emod_of_dvd]
  exact pow_dvd_pow 2 (by omega)

/-- The last eight bytes of an offset or length word, which the decoder reads. -/
theorem occurs_low_U256 {d : Bytes} {p n : Nat} (o : Occurs d p (U256 n)) :
    Occurs d (p + 24) ((U256 n).drop 24) := by
  have split := o
  rw [← List.take_append_drop 24 (U256 n)] at split
  have low := split.right
  rwa [List.length_take, length_U256, min_eq_left (by norm_num)] at low

theorem beValue_low_U256 {n : Nat} (small : n < 2 ^ 64) : beValue ((U256 n).drop 24) = n := by
  have low := beValue_drop_U256 n (k := 8) (by norm_num)
  rw [length_U256] at low
  rw [low, toWord_natCast, Nat.mod_eq_of_lt small]

theorem length_RightPadBytes {b : Bytes} {l : Nat} (short : b.length ≤ l) :
    (RightPadBytes b l).length = l := by
  unfold RightPadBytes
  split
  · omega
  · simp only [List.length_append, List.length_replicate]
    omega

theorem RightPadBytes_eq_append {b : Bytes} {l : Nat} (short : b.length ≤ l) :
    RightPadBytes b l = b ++ List.replicate (l - b.length) 0 := by
  unfold RightPadBytes
  split
  · rw [show l - b.length = 0 by omega, List.replicate_zero, List.append_nil]
  · rfl

/-! ### The Go kinds of integer types -/

/-- The sizes of the fixed-size Go integers, `int8` to `int64` and `uint8` to `uint64`. -/
def fixedBits (size : Nat) : Bool := size == 8 || size == 16 || size == 32 || size == 64

section Kinds

-- the lemmas of this section compute `fixedBits` by `simp`
attribute [local simp] fixedBits

theorem reflectIntKindAndType_unsigned {size : Nat} (fixed : fixedBits size) :
    readInteger (reflectIntKindAndType true size) = fun b =>
      .uint size (beValue (b.drop (b.length - size / 8))) := by
  simp at fixed
  rcases fixed with ((rfl | rfl) | rfl) | rfl <;> rfl

theorem reflectIntKindAndType_signed {size : Nat} (fixed : fixedBits size) :
    readInteger (reflectIntKindAndType false size) = fun b =>
      .int size (toSigned size (beValue (b.drop (b.length - size / 8)))) := by
  simp at fixed
  rcases fixed with ((rfl | rfl) | rfl) | rfl <;> rfl

/-- Every other size is a `*big.Int`, of either sign. -/
theorem reflectIntKindAndType_big {unsigned : Bool} {size : Nat} (big : fixedBits size = false) :
    reflectIntKindAndType unsigned size = .Ptr := by
  simp at big
  obtain ⟨⟨⟨h8, h16⟩, h32⟩, h64⟩ := big
  unfold reflectIntKindAndType
  split <;> simp_all

/-- A fixed-size Go integer takes `size / 8` bytes, at most a word. -/
theorem fixedBits_bytes {size : Nat} (fixed : fixedBits size) :
    size / 8 ≤ 32 ∧ 8 * (size / 8) = size ∧ 0 < size := by
  simp at fixed
  rcases fixed with ((rfl | rfl) | rfl) | rfl <;> norm_num

end Kinds

/-! ### The values that come back -/

namespace AbiType

/-- The types of one word, which `packElement` packs in place. -/
def isWord : AbiType → Bool
  | .int _ | .uint _ | .bool | .address | .fixedBytes _ | .function => true
  | _ => false

theorem isArray_of_isWord {e : AbiType} (word : e.isWord) : e.isArray = false := by
  cases e <;> simp_all [isWord, isArray]

end AbiType

/-- The values of a type that come back from their packing, which is not always the type's
range: for an `intN` held in a `*big.Int` (a size of no Go integer type, such as `int256`) it
is `[0, 2^256)`, not `[-2^(N-1), 2^(N-1))`, because the decoder reads the word back unsigned
and a negative value does not come back. Otherwise: integers of the type's kind and range, an
address of 20 bytes, `bytesN` of `N ≤ 32` bytes, a function of 24 bytes, and arrays of the
type's length. -/
def fits : AbiType → Value → Bool
  | .uint size, .uint bits n => fixedBits size && bits == size && decide (n < 2 ^ bits)
  | .uint size, .bigInt i => !fixedBits size && decide (0 ≤ i ∧ i < 2 ^ 256)
  | .int size, .int bits i =>
    fixedBits size && bits == size && decide (-2 ^ (bits - 1) ≤ i ∧ i < 2 ^ (bits - 1))
  | .int size, .bigInt i => !fixedBits size && decide (0 ≤ i ∧ i < 2 ^ 256)
  | .bool, .bool _ | .string, .string _ | .bytes, .bytes _ => true
  | .address, .address a => a.length == 20
  | .fixedBytes size, .fixedBytes b => b.length == size && decide (size ≤ 32)
  | .function, .function f => f.length == 24
  | .array elem size, .list vs => vs.length == size && vs.all (fits elem)
  | .slice elem, .list vs => vs.all (fits elem)
  | _, _ => false

/-- The word `packElement` makes of a value of a one-word type. -/
def wordOf : Value → Bytes
  | .uint _ n => U256 n
  | .int _ i | .bigInt i => U256 i
  | .bool b => if b then bePadded 1 32 else bePadded 0 32
  | .address a => LeftPadBytes a 32
  | .fixedBytes b | .function b => RightPadBytes b 32
  | _ => []

section Packed

-- the lemmas of this section compute `fits` and `wordOf` by `simp`
attribute [local simp] fits wordOf

theorem pack_word {t : AbiType} {v : Value} (word : t.isWord) (fit : fits t v) :
    (pack t v).run = some (.ok (wordOf v)) := by
  cases t with
  | int size | uint size =>
    -- the kind check passes for the integer of the type's kind, and for a `*big.Int`
    cases v <;> simp_all [pack, packElement, Value.intKind, packNum, reflectIntKindAndType_big]
  | bool | address | fixedBytes _ | function =>
    cases v <;> simp_all [pack, packElement]
  | _ => simp [AbiType.isWord] at word

theorem length_wordOf {t : AbiType} {v : Value} (word : t.isWord) (fit : fits t v) :
    (wordOf v).length = 32 := by
  cases t with
  | int _ | uint _ => cases v <;> simp_all [length_U256]
  | bool =>
    cases v <;> simp_all
    split <;> exact length_bePadded (by norm_num)
  | address => cases v <;> simp_all [LeftPadBytes]
  | fixedBytes _ | function =>
    cases v <;> simp_all
    all_goals exact length_RightPadBytes (by omega)
  | _ => simp [AbiType.isWord] at word

end Packed

/-! ### Reading a word back -/

theorem readInteger_wordOf_uint {size : Nat} {v : Value} (fit : fits (.uint size) v) :
    readInteger (reflectIntKindAndType true size) (wordOf v) = v := by
  cases v with
  | uint bits n =>
    simp only [fits, Bool.and_eq_true, beq_iff_eq, decide_eq_true_eq] at fit
    obtain ⟨⟨fixed, rfl⟩, small⟩ := fit
    have bytes := fixedBits_bytes fixed
    rw [reflectIntKindAndType_unsigned fixed, wordOf]
    dsimp only
    rw [beValue_drop_U256 _ bytes.1, bytes.2.1, toWord_natCast, Nat.mod_eq_of_lt small]
  | bigInt i =>
    simp only [fits, Bool.and_eq_true, Bool.not_eq_eq_eq_not, Bool.not_true,
      decide_eq_true_eq] at fit
    obtain ⟨big, nonneg, small⟩ := fit
    rw [reflectIntKindAndType_big big, wordOf]
    simp only [readInteger, beValue_U256, toWord_cast]
    rw [Int.emod_eq_of_lt nonneg (by omega)]
  | _ => simp [fits] at fit

theorem readInteger_wordOf_int {size : Nat} {v : Value} (fit : fits (.int size) v) :
    readInteger (reflectIntKindAndType false size) (wordOf v) = v := by
  cases v with
  | int bits i =>
    simp only [fits, Bool.and_eq_true, beq_iff_eq, decide_eq_true_eq] at fit
    obtain ⟨⟨fixed, rfl⟩, lo, hi⟩ := fit
    have bytes := fixedBits_bytes fixed
    rw [reflectIntKindAndType_signed fixed, wordOf]
    dsimp only
    rw [beValue_drop_U256 _ bytes.1, bytes.2.1, toSigned_toWord bytes.2.2 lo hi]
  | bigInt i =>
    simp only [fits, Bool.and_eq_true, Bool.not_eq_eq_eq_not, Bool.not_true,
      decide_eq_true_eq] at fit
    obtain ⟨big, nonneg, small⟩ := fit
    rw [reflectIntKindAndType_big big, wordOf]
    simp only [readInteger, beValue_U256, toWord_cast]
    rw [Int.emod_eq_of_lt nonneg (by omega)]
  | _ => simp [fits] at fit

theorem readBool_wordOf (b : Bool) : readBool (wordOf (.bool b)) = .ok b := by
  cases b <;> decide

theorem BytesToAddress_LeftPadBytes {a : Bytes} (twenty : a.length = 20) :
    BytesToAddress (LeftPadBytes a 32) = a := by
  simp [BytesToAddress, LeftPadBytes, twenty]

theorem readFunctionType_RightPadBytes {f : Bytes} (sized : f.length = 24) :
    readFunctionType .function (RightPadBytes f 32) = .ok f := by
  have zero : beValue [0, 0, 0, 0, 0, 0, 0, 0] = 0 := by decide
  simp [readFunctionType, RightPadBytes, sized, zero]

/-! ### Slicing the output where a piece stands -/

theorem GoBytes.length_elems (output : GoBytes) : output.elems.length = output.len := by
  simp [GoBytes.elems, output.len_le]

/-- The bytes at `p` of the output, sliced out of it. -/
theorem slice_of_occurs {output : GoBytes} {p : Nat} {bs : Bytes} (o : Occurs output.elems p bs) :
    ∃ r, output.slice p (p + bs.length) = some r ∧ r.elems = bs ∧ r.len = bs.length ∧
      bs.length ≤ r.mem.length := by
  have within := o.le_length
  rw [GoBytes.length_elems] at within
  have len_le := output.len_le
  obtain ⟨r, sliced, mem, len⟩ := GoBytes.slice_eq_some output p (p + bs.length)
    ⟨by omega, by omega, by omega⟩
  refine ⟨r, sliced, ?_, by rw [len]; omega, by rw [mem, List.length_drop]; omega⟩
  rw [GoBytes.elems_of_slice sliced (by omega)]
  simpa using o.take_drop

theorem readFixedBytes_wordOf {size : Nat} {b : Bytes} (sized : b.length = size)
    (short : size ≤ 32) {w : GoBytes} (elems : w.elems = RightPadBytes b 32) (len : w.len = 32) :
    (readFixedBytes (.fixedBytes size) w).run = some (.ok (.fixedBytes b)) := by
  have room := w.len_le
  obtain ⟨array, sliced, mem, alen⟩ :=
    GoBytes.slice_eq_some w 0 size ⟨le_refl _, by omega, by omega⟩
  have content : array.elems = b := by
    rw [GoBytes.elems_of_slice sliced (by omega), elems]
    simp only [RightPadBytes, sized, Int.toNat_zero, List.drop_zero, sub_zero, Int.toNat_natCast]
    split <;> simp [← sized]
  unfold readFixedBytes
  dsimp only
  rw [sliced, Panicky.run_liftM_some_bind, content]
  rfl

/-! ### `toGoType` of a one-word type -/

section Word

variable {output : GoBytes} {p : Nat} {w : Bytes}

/-- `toGoType` of a signed integer type reads the word at the index, whatever it holds. -/
theorem toGoType_int (size : Nat) (at_p : Occurs output.elems p w) (word : w.length = 32)
    (small : output.len < 2 ^ 62) :
    (toGoType int64 p (.int size) output).run =
      some (.ok (readInteger (reflectIntKindAndType false size) w)) := by
  obtain ⟨r, sliced, elems, -, -⟩ := slice_of_occurs at_p
  have inside := at_p.le_length
  rw [GoBytes.length_elems] at inside
  rw [word] at sliced inside
  push_cast at sliced
  have stop : int64 (p + 32) = p + 32 := int64_eq_self (by omega) (by omega)
  rw [toGoType]
  dsimp only
  rw [stop, if_neg (by omega)]
  simp only [AbiType.requiresLengthPrefix, Bool.false_eq_true, ↓reduceIte]
  rw [sliced, Panicky.run_liftM_some_bind, Panicky.run_pure_bind, elems]
  rfl

theorem toGoType_word {t : AbiType} {v : Value} (word : t.isWord) (fit : fits t v)
    (at_p : Occurs output.elems p (wordOf v)) (small : output.len < 2 ^ 62) :
    (toGoType int64 p t output).run = some (.ok v) := by
  have len32 := length_wordOf word fit
  cases t <;> simp only [AbiType.isWord, Bool.false_eq_true] at word
  case int size =>
    rw [toGoType_int size at_p len32 small, readInteger_wordOf_int fit]
  -- every other one-word type slices the word at `p` the same way
  all_goals
    obtain ⟨r, sliced, elems, len, -⟩ := slice_of_occurs at_p
    have inside := at_p.le_length
    rw [GoBytes.length_elems] at inside
    rw [len32] at sliced len inside
    push_cast at sliced
    have stop : int64 (p + 32) = p + 32 := int64_eq_self (by omega) (by omega)
    rw [toGoType]
    dsimp only
    rw [stop, if_neg (by omega)]
    simp only [AbiType.requiresLengthPrefix, Bool.false_eq_true, ↓reduceIte]
    rw [sliced, Panicky.run_liftM_some_bind, Panicky.run_pure_bind]
  case uint size => rw [elems, readInteger_wordOf_uint fit]; rfl
  case bool =>
    cases v <;> simp only [fits, Bool.false_eq_true] at fit
    rw [elems, readBool_wordOf]
    rfl
  case address =>
    cases v <;> simp only [fits, Bool.false_eq_true, beq_iff_eq] at fit
    rw [elems, wordOf, BytesToAddress_LeftPadBytes fit]
    rfl
  case fixedBytes size =>
    cases v <;> simp only [fits, Bool.false_eq_true, Bool.and_eq_true, beq_iff_eq,
      decide_eq_true_eq] at fit
    exact readFixedBytes_wordOf fit.1 fit.2 elems len
  case function =>
    cases v <;> simp only [fits, Bool.false_eq_true, beq_iff_eq] at fit
    rw [elems, wordOf, readFunctionType_RightPadBytes fit]
    rfl

end Word

end Indigo.Abi
