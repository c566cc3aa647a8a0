import Indigo.Abi.Words

/-!
# Unpacking what was packed

`Arguments.Pack` lays out the values of a call's arguments, and `Arguments.Unpack` reads the
values of a method's outputs from the data a call returns, in the same encoding. For the types
that `Pack` lays out where `Unpack` reads them (`AbiType.isFlat`), the two are inverse:
`Unpack` returns the values `Pack` packed (`Unpack_Pack`).

The heads come first, one word for each argument and one for each element of an array; the
data of the `string`, `bytes` and slice arguments follow, at the offsets in their heads. The
proof follows the loop of `Pack` (`packArguments`) and the loop of `unpackTuple` together: a
step of both reads back one argument (`packArguments_step`), and the word `i + 1 + j` at which
`unpackTuple` reads is the end of the heads `Pack` wrote before it
(`unpackTupleLoop_packArguments`). The data are taken shorter than `2^62` bytes, so that no
sum of Go's `int` wraps.

Outside `isFlat` are the slices and arrays of `string`, `bytes` or slices, whose elements
`Type.pack` lays out one after the other without the offsets `toGoType` reads for each, and the
arrays of arrays, whose head `Pack` counts as one word for each inner array. Inside it, one
value does not come back: a negative `*big.Int` of a signed type, which `readInteger` reads as
an unsigned word (`Unpack_Pack_negative`).

## Main results

- `toGoType_flat`: `toGoType` reads a value of a flat type back from where `Pack` put it.
- `Unpack_Pack`: `Pack` returns, and `Unpack` returns from its data the values packed, for
  arguments of flat types that are not indexed.
- `Unpack_Pack_negative`: a negative `*big.Int` packed as an `intN` of more than 64 bits comes
  back `2^256` larger.
-/

namespace Indigo.Abi

open Indigo.Lib

/-- The types whose values `Pack` lays out where `Unpack` reads them: the words, arrays of
words with at least one element (`toGoType` reads a word at an array's index), and `string`,
`bytes` and slices of words. -/
def AbiType.isFlat : AbiType → Bool
  | .array elem size => elem.isWord && size != 0
  | .slice elem => elem.isWord
  | .string | .bytes => true
  | t => t.isWord

/-! ### Arrays and slices of words -/

theorem sized_wordOf {e : AbiType} (word : e.isWord) {vs : List Value}
    (fit : ∀ v ∈ vs, fits e v) : ∀ w ∈ vs.map wordOf, w.length = 32 := by
  intro w member
  obtain ⟨v, mem, rfl⟩ := List.mem_map.mp member
  exact length_wordOf word (fit v mem)

theorem pack_words {e : AbiType} (word : e.isWord) {vs : List Value}
    (fit : ∀ v ∈ vs, fits e v) :
    (vs.mapM (pack e)).run = some (.ok (vs.map wordOf)) :=
  Panicky.run_mapM_of_ok fun v mem => pack_word word (fit v mem)

/-- `Pack`'s layout of a slice of words: its length, then the words, which need no padding. -/
theorem packBytesSlice_words {words : List Bytes} (sized : ∀ w ∈ words, w.length = 32) :
    packBytesSlice words.flatten words.length = U256 words.length ++ words.flatten := by
  rw [packBytesSlice, RightPadBytes, if_pos]
  rw [length_flatten_of_sized sized]
  omega

/-- The length word and the bytes of a `string` or `bytes` value at `o`. -/
theorem occurs_packBytesSlice {d b : Bytes} {o : Nat} (at_o : Occurs d o (packBytesSlice b b.length)) :
    Occurs d o (U256 b.length) ∧ Occurs d (o + 32) b := by
  rw [packBytesSlice, RightPadBytes_eq_append (by omega)] at at_o
  have data := at_o.right.left
  rw [length_U256] at data
  exact ⟨at_o.left, data⟩

/-- The loop of `forEachUnpack` over words that stand one after the other from `start`. -/
theorem unpackElems_words {e : AbiType} (word : e.isWord) {vs : List Value}
    (fit : ∀ v ∈ vs, fits e v) {output : GoBytes} {start : Nat}
    (at_start : Occurs output.elems start (vs.map wordOf).flatten) (small : output.len < 2 ^ 62)
    (room : Int) (roomy : vs.length ≤ room) (count : Nat) :
    ∀ j, j + count = vs.length →
      (unpackElems int64 (toGoType int64 · e output) false e.Size start room count
        (start + 32 * j) j).run = some (.ok (vs.drop j)) := by
  have sized := sized_wordOf word fit
  have within := at_start.le_length
  rw [GoBytes.length_elems, length_flatten_of_sized sized, List.length_map] at within
  induction count with
  | zero =>
    intro j ends
    rw [unpackElems, List.drop_eq_nil_of_le (by omega)]
    rfl
  | succ count ih =>
    intro j ends
    have inside : j < vs.length := by omega
    -- word `j` stands at `start + 32 * j`
    have at_j : Occurs output.elems (start + 32 * j) (wordOf vs[j]) := by
      have at_j := at_start.flatten_chunks sized (k := j) (by simpa using inside)
      rwa [List.getElem_map] at at_j
    have decoded := toGoType_word word (fit _ (List.getElem_mem inside)) at_j small
    push_cast at decoded
    have next : int64 (start + 32 * j + 32) = start + 32 * (j + 1 : Nat) := by
      push_cast
      exact int64_eq_self (by omega) (by omega)
    rw [unpackElems]
    simp only [Bool.false_eq_true, false_and, ↓reduceIte]
    rw [Panicky.run_bind_of_ok decoded, if_neg (by omega), next,
      Panicky.run_bind_of_ok (ih (j + 1) (by omega)), List.drop_eq_getElem_cons inside]
    rfl

/-- `forEachUnpack` of a slice or an array of words that stand one after the other. -/
theorem forEachUnpack_words {t e : AbiType} (word : e.isWord) {vs : List Value}
    (shape : t = .slice e ∨ t = .array e vs.length) (fit : ∀ v ∈ vs, fits e v)
    {output : GoBytes} {start : Nat} (at_start : Occurs output.elems start (vs.map wordOf).flatten)
    (small : output.len < 2 ^ 62) :
    (forEachUnpack int64 t (toGoType int64 · e output) output start vs.length).run =
      some (.ok (.list vs)) := by
  have sized := sized_wordOf word fit
  have within := at_start.le_length
  rw [GoBytes.length_elems, length_flatten_of_sized sized, List.length_map] at within
  have len_le := output.len_le
  have words : int64 (32 * vs.length) = 32 * vs.length := int64_eq_self (by omega) (by omega)
  have words' : int64 (vs.length * 32) = vs.length * 32 := int64_eq_self (by omega) (by omega)
  have stop : int64 (start + 32 * vs.length) = start + 32 * vs.length :=
    int64_eq_self (by omega) (by omega)
  have stop' : int64 (start + vs.length * 32) = start + vs.length * 32 :=
    int64_eq_self (by omega) (by omega)
  obtain ⟨slice, sliced, -, length⟩ := GoBytes.slice_eq_some output start
    (start + vs.length * 32) ⟨by omega, by omega, by omega⟩
  have rounds : ((start + vs.length * 32 - start : Int).toNat + 31) / 32 = vs.length := by omega
  have loop := unpackElems_words word fit at_start small vs.length le_rfl vs.length 0
    (by omega)
  simp only [Nat.cast_zero, mul_zero, add_zero, List.drop_zero] at loop
  unfold forEachUnpack
  rw [words, stop, if_neg (by omega), words', stop', sliced, Panicky.run_liftM_some_bind]
  rcases shape with rfl | rfl
  · dsimp only
    rw [if_neg (by omega), Panicky.run_pure_bind, length, rounds, AbiType.isArray_of_isWord word,
      Panicky.run_bind_of_ok loop]
    rfl
  · dsimp only
    rw [Panicky.run_pure_bind, length, rounds, AbiType.isArray_of_isWord word, Panicky.run_bind_of_ok loop]
    rfl

/-! ### The value of one argument -/

/-- The offset word at `p` and the length word at the offset. -/
theorem lengthPrefixPointsTo_placed {output : GoBytes} {p o l : Nat}
    (at_p : Occurs output.elems p (U256 o)) (at_o : Occurs output.elems o (U256 l))
    (inside : o + 32 + l ≤ output.len) (small : output.len < 2 ^ 62) :
    (lengthPrefixPointsTo int64 p output).run = some (.ok ((o + 32 : Nat), (l : Int))) := by
  have word_p := at_p.le_length
  rw [GoBytes.length_elems, length_U256] at word_p
  obtain ⟨offsetWord, sliced, offsetElems, -, -⟩ := slice_of_occurs (occurs_low_U256 at_p)
  obtain ⟨lengthWord, sliced', lengthElems, -, -⟩ := slice_of_occurs (occurs_low_U256 at_o)
  have eight : ((U256 o).drop 24).length = 8 := by simp [length_U256]
  have eight' : ((U256 l).drop 24).length = 8 := by simp [length_U256]
  rw [eight] at sliced
  rw [eight'] at sliced'
  push_cast at sliced sliced'
  rw [show (p : Int) + 24 + 8 = p + 32 by ring] at sliced
  rw [show (o : Int) + 24 + 8 = o + 32 by ring] at sliced'
  have lo : int64 (p + 24) = p + 24 := int64_eq_self (by omega) (by omega)
  have hi : int64 (p + 32) = p + 32 := int64_eq_self (by omega) (by omega)
  have lo' : int64 (o + 24) = o + 24 := int64_eq_self (by omega) (by omega)
  have hi' : int64 (o + 32) = o + 32 := int64_eq_self (by omega) (by omega)
  have offset : int64 (o : Nat) = o := int64_eq_self (by omega) (by omega)
  have length : int64 (l : Nat) = l := int64_eq_self (by omega) (by omega)
  have stop : int64 (o + 32 + l) = o + 32 + l := int64_eq_self (by omega) (by omega)
  unfold lengthPrefixPointsTo
  rw [lo, hi, sliced, Panicky.run_liftM_some_bind]
  dsimp only
  rw [offsetElems, beValue_low_U256 (by omega), offset, hi', if_neg (by omega), lo', sliced',
    Panicky.run_liftM_some_bind]
  rw [lengthElems, beValue_low_U256 (by omega), length, stop, if_neg (by omega)]
  push_cast
  rfl

/-- Where `Pack` puts the bytes `w` of a value of type `t` whose head is at `p`: there for a
type without length prefix, at the offset in the word at `p` otherwise. -/
def Placed (d : Bytes) (p : Nat) (t : AbiType) (w : Bytes) : Prop :=
  if t.requiresLengthPrefix then ∃ o : Nat, Occurs d p (U256 o) ∧ Occurs d o w else Occurs d p w

theorem toGoType_flat {t : AbiType} {v : Value} {w : Bytes} (flat : t.isFlat) (fit : fits t v)
    (packed : (pack t v).run = some (.ok w)) {output : GoBytes} {p : Nat}
    (placed : Placed output.elems p t w) (small : output.len < 2 ^ 62) :
    (toGoType int64 p t output).run = some (.ok v) := by
  cases t with
  | string | bytes =>
    -- the offset word at `p`, the length and the bytes at the offset
    cases v <;> simp only [fits, Bool.false_eq_true] at fit
    all_goals
      rename_i s
      simp only [pack, packElement, Panicky.run_pure, Option.some.injEq, Except.ok.injEq] at packed
      subst packed
      obtain ⟨o, at_p, at_o⟩ := placed
      obtain ⟨length, data⟩ := occurs_packBytesSlice at_o
      have head := at_p.le_length
      have tail := data.le_length
      rw [GoBytes.length_elems, length_U256] at head
      rw [GoBytes.length_elems] at tail
      obtain ⟨r, sliced, elems, -, -⟩ := slice_of_occurs data
      push_cast at sliced
      have check : int64 (p + 32) = p + 32 := int64_eq_self (by omega) (by omega)
      have stop : int64 (o + 32 + s.length) = o + 32 + s.length :=
        int64_eq_self (by omega) (by omega)
      rw [toGoType]
      dsimp only
      rw [check, if_neg (by omega)]
      simp only [AbiType.requiresLengthPrefix, ↓reduceIte]
      rw [Panicky.run_bind_of_ok (lengthPrefixPointsTo_placed at_p length (by omega) small),
        Panicky.run_pure_bind]
      dsimp only
      push_cast
      rw [stop, sliced, Panicky.run_liftM_some_bind, elems]
      rfl
  | slice e =>
    -- the offset word at `p`, the number of elements and their words at the offset
    simp only [AbiType.isFlat] at flat
    cases v <;> simp only [fits, Bool.false_eq_true] at fit
    rename_i vs
    simp only [List.all_eq_true] at fit
    simp only [pack] at packed
    rw [Panicky.run_bind_of_ok (pack_words flat fit), Panicky.run_pure, Option.some.injEq,
      Except.ok.injEq, ← List.length_map (f := wordOf),
      packBytesSlice_words (sized_wordOf flat fit), List.length_map] at packed
    subst packed
    obtain ⟨o, at_p, at_o⟩ := placed
    have length := at_o.left
    have data := at_o.right
    rw [length_U256] at data
    have head := at_p.le_length
    have tail := data.le_length
    rw [GoBytes.length_elems, length_U256] at head
    rw [GoBytes.length_elems, length_flatten_of_sized (sized_wordOf flat fit), List.length_map] at tail
    have check : int64 (p + 32) = p + 32 := int64_eq_self (by omega) (by omega)
    rw [toGoType]
    dsimp only
    rw [check, if_neg (by omega)]
    simp only [AbiType.requiresLengthPrefix, ↓reduceIte]
    rw [Panicky.run_bind_of_ok (lengthPrefixPointsTo_placed at_p length (by omega) small),
      Panicky.run_pure_bind]
    exact forEachUnpack_words flat (.inl rfl) fit data small
  | array e n =>
    -- the words of the elements from `p` on
    simp only [AbiType.isFlat, Bool.and_eq_true, bne_iff_ne] at flat
    cases v <;> simp only [fits, Bool.false_eq_true] at fit
    rename_i vs
    simp only [Bool.and_eq_true, beq_iff_eq, List.all_eq_true] at fit
    obtain ⟨rfl, fit⟩ := fit
    simp only [pack, ne_eq, not_true_eq_false, ↓reduceIte] at packed
    rw [Panicky.run_bind_of_ok (pack_words flat.1 fit), Panicky.run_pure, Option.some.injEq,
      Except.ok.injEq] at packed
    subst packed
    have words := placed.le_length
    rw [GoBytes.length_elems, length_flatten_of_sized (sized_wordOf flat.1 fit), List.length_map]
      at words
    have check : int64 (p + 32) = p + 32 := int64_eq_self (by omega) (by omega)
    have len_le := output.len_le
    obtain ⟨word, sliced, -, -⟩ := GoBytes.slice_eq_some output p (p + 32)
      ⟨by omega, by omega, by omega⟩
    rw [toGoType]
    dsimp only
    rw [check, if_neg (by omega)]
    simp only [AbiType.requiresLengthPrefix, Bool.false_eq_true, ↓reduceIte]
    rw [sliced, Panicky.run_liftM_some_bind, Panicky.run_pure_bind]
    exact forEachUnpack_words flat.1 (.inr rfl) fit placed small
  | _ =>
    simp only [AbiType.isFlat] at flat
    rw [pack_word flat fit, Option.some.injEq, Except.ok.injEq] at packed
    subst packed
    exact toGoType_word flat fit placed small

/-- A value of a flat type packs, in as many words as `Pack` counts for its head when it is
packed in place. -/
theorem pack_flat {t : AbiType} {v : Value} (flat : t.isFlat) (fit : fits t v) :
    ∃ w, (pack t v).run = some (.ok w) ∧
      (t.requiresLengthPrefix = false → w.length = 32 * headWords t) := by
  cases t with
  | string | bytes =>
    cases v <;> simp only [fits, Bool.false_eq_true] at fit
    all_goals exact ⟨_, rfl, fun inPlace => by simp [AbiType.requiresLengthPrefix] at inPlace⟩
  | slice e =>
    simp only [AbiType.isFlat] at flat
    cases v <;> simp only [fits, Bool.false_eq_true] at fit
    rename_i vs
    simp only [List.all_eq_true] at fit
    refine ⟨packBytesSlice (vs.map wordOf).flatten vs.length, ?_,
      fun inPlace => by simp [AbiType.requiresLengthPrefix] at inPlace⟩
    simp only [pack]
    rw [Panicky.run_bind_of_ok (pack_words flat fit)]
    rfl
  | array e n =>
    simp only [AbiType.isFlat, Bool.and_eq_true, bne_iff_ne] at flat
    cases v <;> simp only [fits, Bool.false_eq_true] at fit
    rename_i vs
    simp only [Bool.and_eq_true, beq_iff_eq, List.all_eq_true] at fit
    obtain ⟨rfl, fit⟩ := fit
    refine ⟨(vs.map wordOf).flatten, ?_, fun _ => ?_⟩
    · simp only [pack, ne_eq, not_true_eq_false, ↓reduceIte]
      rw [Panicky.run_bind_of_ok (pack_words flat.1 fit)]
      rfl
    · rw [length_flatten_of_sized (sized_wordOf flat.1 fit), List.length_map]
      rfl
  | _ =>
    simp only [AbiType.isFlat] at flat
    exact ⟨_, pack_word flat fit, fun _ => by
      rw [length_wordOf flat fit]
      rfl⟩

/-! ### The arguments -/

/-- What `packArguments` returns extends the heads and the data it started from. -/
theorem packArguments_extends {inputOffset : Nat} :
    ∀ {L : List (Argument × Value)} {ret variableInput R V : Bytes},
      (packArguments inputOffset L ret variableInput).run = some (.ok (R, V)) →
        ret <+: R ∧ variableInput <+: V
  | [], ret, variableInput, R, V, run => by
    simp only [packArguments, Panicky.run_pure, Option.some.injEq, Except.ok.injEq,
      Prod.mk.injEq] at run
    obtain ⟨rfl, rfl⟩ := run
    exact ⟨List.prefix_refl _, List.prefix_refl _⟩
  | (input, a) :: rest, ret, variableInput, R, V, run => by
    obtain ⟨w, -, run⟩ := Panicky.ok_of_bind_ok run
    dsimp only at run
    split at run
    · obtain ⟨heads, data⟩ := packArguments_extends run
      exact ⟨(List.prefix_append _ _).trans heads, (List.prefix_append _ _).trans data⟩
    · obtain ⟨heads, data⟩ := packArguments_extends run
      exact ⟨(List.prefix_append _ _).trans heads, data⟩

theorem headWords_of_requiresLengthPrefix {t : AbiType} (prefixed : t.requiresLengthPrefix) :
    headWords t = 1 := by
  cases t <;> simp_all [AbiType.requiresLengthPrefix, headWords, AbiType.isArray]

theorem one_le_headWords {t : AbiType} (flat : t.isFlat) : 1 ≤ headWords t := by
  unfold headWords
  split
  · next array =>
    cases t <;> simp_all [AbiType.isArray, AbiType.isFlat, AbiType.Size]
    omega
  · exact le_rfl

/-- `packArguments` of flat values returns, with a head of `32 * headWords` bytes for each. -/
theorem packArguments_ok {inputOffset : Nat} :
    ∀ {L : List (Argument × Value)}, (∀ p ∈ L, p.1.typ.isFlat ∧ fits p.1.typ p.2) →
      ∀ ret variableInput, ∃ R V,
        (packArguments inputOffset L ret variableInput).run = some (.ok (R, V)) ∧
          R.length = ret.length + (L.map fun p => 32 * headWords p.1.typ).sum
  | [], _, ret, variableInput => ⟨ret, variableInput, rfl, by simp⟩
  | (input, a) :: rest, flat, ret, variableInput => by
    have ⟨flat_a, fit_a⟩ := flat (input, a) (.head _)
    have flat_rest := fun p mem => flat p (.tail _ mem)
    obtain ⟨w, packed, sized⟩ := pack_flat flat_a fit_a
    rw [packArguments, Panicky.run_bind_of_ok packed]
    dsimp only
    split
    · next prefixed =>
      obtain ⟨R, V, run, length⟩ := packArguments_ok flat_rest (ret ++ U256 _) (variableInput ++ w)
      refine ⟨R, V, run, ?_⟩
      rw [length, List.length_append, length_U256, List.map_cons, List.sum_cons,
        headWords_of_requiresLengthPrefix prefixed]
      ring
    · next inPlace =>
      obtain ⟨R, V, run, length⟩ := packArguments_ok flat_rest (ret ++ w) variableInput
      refine ⟨R, V, run, ?_⟩
      rw [length, List.length_append, sized (by simpa using inPlace), List.map_cons,
        List.sum_cons]
      ring

section Layout

/-! ### Reading back what `Pack` laid out

`R` are the heads `Pack` wrote, `inputOffset` bytes, and `V` the data after them. -/

variable {inputOffset : Nat} {output : GoBytes} {R V : Bytes}

/-- One step of the loop of `Pack`: the argument's value is read back at the end of the heads
before it, and the loop goes on with its head added. -/
theorem packArguments_step (elems : output.elems = R ++ V) (heads : R.length = inputOffset)
    (small : output.len < 2 ^ 62) {input : Argument} {a : Value}
    {rest : List (Argument × Value)} {ret variableInput : Bytes}
    (flat : input.typ.isFlat) (fit : fits input.typ a)
    (run : (packArguments inputOffset ((input, a) :: rest) ret variableInput).run =
      some (.ok (R, V))) :
    (toGoType int64 ret.length input.typ output).run = some (.ok a) ∧
      ∃ ret' variableInput', (packArguments inputOffset rest ret' variableInput').run =
        some (.ok (R, V)) ∧ ret'.length = ret.length + 32 * headWords input.typ := by
  obtain ⟨w, packed, sized⟩ := pack_flat flat fit
  rw [packArguments, Panicky.run_bind_of_ok packed] at run
  dsimp only at run
  split at run
  · next prefixed =>
    -- the offset in the head, the data at the offset
    obtain ⟨head, data⟩ := packArguments_extends run
    have placed : Placed output.elems ret.length input.typ w := by
      rw [Placed, if_pos prefixed, elems]
      refine ⟨inputOffset + variableInput.length, (Occurs.of_prefix head).append_left V, ?_⟩
      have at_offset := (Occurs.of_prefix data).append_right R
      rwa [heads] at at_offset
    refine ⟨toGoType_flat flat fit packed placed small, _, _, run, ?_⟩
    rw [List.length_append, length_U256, headWords_of_requiresLengthPrefix prefixed]
  · next inPlace =>
    obtain ⟨head, -⟩ := packArguments_extends run
    have placed : Placed output.elems ret.length input.typ w := by
      rw [Placed, if_neg inPlace, elems]
      exact (Occurs.of_prefix head).append_left V
    refine ⟨toGoType_flat flat fit packed placed small, _, _, run, ?_⟩
    rw [List.length_append, sized (by simpa using inPlace)]

/-- The loop of `unpackTuple` reads back what the loop of `Pack` laid out, while the word it is
at, `i + 1 + j`, is the end of the heads before it. -/
theorem unpackTupleLoop_packArguments (elems : output.elems = R ++ V)
    (heads : R.length = inputOffset) (small : output.len < 2 ^ 62) :
    ∀ {L : List (Argument × Value)},
      (∀ p ∈ L, p.1.typ.isFlat ∧ p.1.Indexed = false ∧ fits p.1.typ p.2) →
      ∀ {ret variableInput : Bytes},
        (packArguments inputOffset L ret variableInput).run = some (.ok (R, V)) →
      ∀ {i j : Int}, -1 ≤ i → 0 ≤ j → (i + 1 + j) * 32 = ret.length →
        (unpackTupleLoop int64 output (L.map Prod.fst) i j).run = some (.ok (L.map Prod.snd))
  | [], _, _, _, _, _, _, _, _, _ => rfl
  | (input, a) :: rest, flat, ret, variableInput, run, i, j, lo_i, lo_j, at_head => by
    obtain ⟨flat_a, unindexed, fit_a⟩ : input.typ.isFlat ∧ input.Indexed = false ∧
        fits input.typ a :=
      flat _ (.head _)
    obtain ⟨decoded, ret', variableInput', run', length'⟩ :=
      packArguments_step elems heads small flat_a fit_a run
    -- the heads fit in the output, which bounds the counters
    have within : ret'.length ≤ output.len := by
      have := (packArguments_extends run').1.length_le
      rw [← GoBytes.length_elems, elems, List.length_append]
      omega
    have wide := one_le_headWords flat_a
    have next_i : int64 (i + 1) = i + 1 := int64_eq_self (by omega) (by omega)
    have index : int64 (int64 (i + 1 + j) * 32) = ret.length := by
      rw [int64_eq_self (i := i + 1 + j) (by omega) (by omega), at_head]
      exact int64_eq_self (by omega) (by omega)
    rw [List.map_cons, List.map_cons, unpackTupleLoop, if_neg (by simp [unindexed])]
    dsimp only
    rw [next_i, index, Panicky.run_bind_of_ok decoded]
    generalize next_j : (if input.typ.isArray then int64 (j + int64 (input.typ.Size - 1))
      else j) = j'
    -- an array's head takes `Size` words, any other one word
    have counters : 0 ≤ j' ∧ (i + 1 + 1 + j') * 32 = ret'.length := by
      rw [← next_j]
      unfold headWords at length' wide
      split
      · next array =>
        rw [if_pos array] at length' wide
        have size : int64 (input.typ.Size - 1) = input.typ.Size - 1 :=
          int64_eq_self (by omega) (by omega)
        rw [size, int64_eq_self (by omega) (by omega)]
        constructor <;> push_cast [length'] <;> omega
      · next single =>
        rw [if_neg single] at length'
        constructor <;> push_cast [length'] <;> omega
    rw [Panicky.run_bind_of_ok (unpackTupleLoop_packArguments elems heads small
      (fun p mem => flat p (.tail _ mem)) run' (by omega) counters.1 counters.2)]
    rfl

end Layout

/-- `Unpack` reads back what `Pack` packed, for arguments of flat types that are not indexed
and values that fit them: `Pack` returns, and from the data it returns, held in fewer than
`2^62` bytes, `Unpack` returns the values. -/
theorem Unpack_Pack {arguments : List Argument} {args : List Value} (nonempty : arguments ≠ [])
    (counts : args.length = arguments.length)
    (flat : ∀ arg ∈ arguments, arg.typ.isFlat ∧ arg.Indexed = false)
    (fit : ∀ p ∈ arguments.zip args, fits p.1.typ p.2) :
    ∃ data, (Pack arguments args).run = some (.ok data) ∧
      ∀ output : GoBytes, output.elems = data → output.len < 2 ^ 62 →
        (Unpack int64 arguments output).run = some (.ok args) := by
  have each : ∀ p ∈ arguments.zip args,
      p.1.typ.isFlat ∧ p.1.Indexed = false ∧ fits p.1.typ p.2 := fun p mem =>
    ⟨(flat _ (List.of_mem_zip mem).1).1, (flat _ (List.of_mem_zip mem).1).2, fit p mem⟩
  have firsts := List.map_fst_zip (by omega : arguments.length ≤ args.length)
  have seconds := List.map_snd_zip (by omega : args.length ≤ arguments.length)
  -- the heads take the bytes `Pack` counts in `inputOffset`
  have offsets : ((arguments.zip args).map fun p => 32 * headWords p.1.typ) =
      arguments.map fun abiArg => 32 * headWords abiArg.typ := by
    conv_rhs => rw [← firsts, List.map_map]
    rfl
  obtain ⟨R, V, run, length⟩ :=
    @packArguments_ok ((arguments.map fun abiArg => 32 * headWords abiArg.typ).sum)
      (arguments.zip args) (fun p mem => ⟨(each p mem).1, (each p mem).2.2⟩) [] []
  rw [offsets, List.length_nil, zero_add] at length
  refine ⟨R ++ V, ?_, fun output elems small => ?_⟩
  · rw [Pack, if_neg (by omega)]
    dsimp only
    rw [Panicky.run_bind_of_ok run]
    rfl
  · unfold Unpack
    split
    · -- a tuple: the loop from word `0`
      have loop := unpackTupleLoop_packArguments elems length small each run (i := -1) (j := 0)
        le_rfl le_rfl rfl
      rwa [firsts, seconds] at loop
    · next single =>
      -- one argument, read at byte `0`
      have one : arguments.length = 1 := by
        have := List.length_pos_iff.mpr nonempty
        omega
      obtain ⟨arg, rfl⟩ := List.length_eq_one_iff.mp one
      obtain ⟨v, rfl⟩ := List.length_eq_one_iff.mp counts
      obtain ⟨decoded, -⟩ := packArguments_step elems length small (flat arg (.head _)).1
        (fit (arg, v) (.head _)) run
      rw [List.length_nil, Nat.cast_zero] at decoded
      unfold unpackAtomic
      rw [List.head?_cons, Panicky.run_liftM_some_bind, if_neg (by simp [(flat arg (.head _)).2])]
      dsimp only
      rw [Panicky.run_bind_of_ok decoded]
      rfl

theorem Unpack_Pack_array_slice_string :
    ∃ data, (Pack [⟨.array (.uint 8) 2, false⟩, ⟨.slice .bool, false⟩, ⟨.string, false⟩]
        [.list [.uint 8 1, .uint 8 2], .list [.bool true], .string [104, 105]]).run =
        some (.ok data) ∧
      ∀ output : GoBytes, output.elems = data → output.len < 2 ^ 62 →
        (Unpack int64 [⟨.array (.uint 8) 2, false⟩, ⟨.slice .bool, false⟩, ⟨.string, false⟩]
          output).run =
          some (.ok [.list [.uint 8 1, .uint 8 2], .list [.bool true], .string [104, 105]]) :=
  Unpack_Pack (by decide) (by decide) (by decide) (by decide)

/-! ### Negative big integers -/

/-- `readInteger` reads a `*big.Int` with `SetBytes`, whatever the sign of its type: a negative
value packed as an `intN` of more than 64 bits, whose `U256` word is its two's complement,
comes back as that word, `2^256` larger. -/
theorem Unpack_Pack_negative {size : Nat} (big : fixedBits size = false) {i : Int}
    (lo : -2 ^ 255 ≤ i) (neg : i < 0) :
    ∃ data, (Pack [⟨.int size, false⟩] [.bigInt i]).run = some (.ok data) ∧
      ∀ output : GoBytes, output.elems = data → output.len < 2 ^ 62 →
        (Unpack int64 [⟨.int size, false⟩] output).run = some (.ok [.bigInt (i + 2 ^ 256)]) := by
  have packed : (pack (.int size) (.bigInt i)).run = some (.ok (U256 i)) := by
    simp [pack, packElement, Value.intKind, reflectIntKindAndType_big big, packNum]
  refine ⟨U256 i, ?_, fun output elems small => ?_⟩
  · rw [Pack, if_neg (by simp)]
    dsimp only
    have run : ∀ inputOffset, (packArguments inputOffset [(⟨.int size, false⟩, .bigInt i)] []
        []).run = some (.ok (U256 i, [])) := fun _ => by
      rw [packArguments, Panicky.run_bind_of_ok packed]
      rfl
    rw [List.zip_cons_cons, List.zip_nil_left, Panicky.run_bind_of_ok (run _)]
    simp only [Panicky.run_pure, List.append_nil]
  · -- the one argument is the word at byte `0`
    have at_zero : Occurs output.elems 0 (U256 i) := ⟨[], [], by simp [elems], rfl⟩
    have decoded := toGoType_int size at_zero (length_U256 i) small
    rw [Nat.cast_zero] at decoded
    have word : (toWord 256 i : Int) = i + 2 ^ 256 := by
      rw [toWord_cast, Int.emod_eq_add_self_emod, Int.emod_eq_of_lt (by omega) (by omega)]
    unfold Unpack unpackAtomic
    rw [if_neg (by simp), List.head?_cons, Panicky.run_liftM_some_bind, if_neg (by simp)]
    dsimp only
    rw [Panicky.run_bind_of_ok decoded, reflectIntKindAndType_big big]
    simp only [readInteger, beValue_U256, word]
    rfl

theorem Unpack_Pack_negative_one :
    ∃ data, (Pack [⟨.int 256, false⟩] [.bigInt (-1)]).run = some (.ok data) ∧
      ∀ output : GoBytes, output.elems = data → output.len < 2 ^ 62 →
        (Unpack int64 [⟨.int 256, false⟩] output).run = some (.ok [.bigInt (-1 + 2 ^ 256)]) :=
  Unpack_Pack_negative (by decide) (by norm_num) (by norm_num)

end Indigo.Abi
