import Indigo.Common.Types
import Indigo.Lib.ByteBits
import Indigo.Lib.Except

/-!
# Sparse bitset compression

`CompressBytes` writes a byte string as the bitset of its non-zero bytes followed by those
bytes, the bitset itself compressed the same way down to a single byte; all-zero data
compresses to nothing. When that is not shorter than the data, the data is kept as it is.
`DecompressBytes` knows the length of the data: an input of that length is the data itself,
a shorter one is decoded, and the decoder refuses what the encoder never writes: zero content
bytes, bits past the target, bytes it does not reach.

## Main results

- `length_CompressBytes_le`: compression never lengthens.
- `DecompressBytes_CompressBytes`: decompressing a compression gives the data back.
- `DecompressBytes_canonical`: what decompresses has the target length, and a shorter input
  is exactly the compression of what it decodes to.
- `DecompressBytes_raw_zero`: an input of the target length decodes to itself even where it is
  not what `CompressBytes` writes.

## Proof strategy

The encoder's bitset has bit `i` set exactly where the data has a non-zero byte
(`bitAt_nonZeroBitset`). The decoder's loop over the bits of the bitset is read two ways: on the
compression of some data it rebuilds the data byte by byte (`distribute_run`), and on any
input it succeeds on, it keeps the invariant `Distributed`, from which the bitset is the
encoder's bitset of what it wrote (`Distributed.bitset_eq`). Both decoder results follow by
induction on the target, the bitset's target being the smaller `(target + 7) / 8`.
-/

namespace Indigo.Bitutil

open Indigo.Lib

/-- The errors of decompression. -/
inductive DecompressError
  | errMissingData
  | errUnreferencedData
  | errExceededTarget
  | errZeroContent
deriving DecidableEq, Repr

/-! ### Compression -/

/-- The bitset of the non-zero bytes, as the loop of `bitsetEncodeBytes` sets it: bit `i` for
a non-zero `data[i]`, `(len(data) + 7) / 8` bytes in all. -/
def nonZeroBitset (data : Bytes) : Bytes :=
  (List.range data.length).foldl
    (fun bitset i => if data.getD i 0 ≠ 0 then setBit bitset i else bitset)
    (List.replicate ((data.length + 7) / 8) 0)

/-- The non-zero bytes, in order, as the same loop gathers them. -/
def nonZeroBytes (data : Bytes) : Bytes := data.filter (· ≠ 0)

/-- The state of the bitset loop after the bytes below `k`: the bits of the non-zero ones. -/
theorem nonZeroBitset_loop (data : Bytes) :
    ∀ k, k ≤ data.length →
      let bitset := (List.range k).foldl
        (fun bitset i => if data.getD i 0 ≠ 0 then setBit bitset i else bitset)
        (List.replicate ((data.length + 7) / 8) 0)
      bitset.length = (data.length + 7) / 8 ∧
        ∀ i, bitAt bitset i = decide (i < k ∧ data.getD i 0 ≠ 0)
  | 0, _ => by simp
  | k + 1, inside => by
    obtain ⟨length_eq, bits⟩ := nonZeroBitset_loop data k (by omega)
    simp only [List.range_succ, List.foldl_append, List.foldl_cons, List.foldl_nil]
    split_ifs with nonzero
    · -- byte `k` is not zero: its bit is set, inside the bitset
      refine ⟨by rw [length_setBit, length_eq], fun i => ?_⟩
      rw [bitAt_setBit (by omega), bits, Bool.eq_iff_iff]
      simp only [Bool.or_eq_true, decide_eq_true_eq, beq_iff_eq]
      constructor
      · rintro (⟨below, ne⟩ | rfl)
        · exact ⟨by omega, ne⟩
        · exact ⟨by omega, nonzero⟩
      · rintro ⟨below, ne⟩
        by_cases here : i = k
        · exact Or.inr here
        · exact Or.inl ⟨by omega, ne⟩
    · -- byte `k` is zero: the bitset stays
      refine ⟨length_eq, fun i => ?_⟩
      rw [bits, Bool.eq_iff_iff]
      simp only [decide_eq_true_eq]
      constructor
      · rintro ⟨below, ne⟩
        exact ⟨by omega, ne⟩
      · rintro ⟨below, ne⟩
        refine ⟨?_, ne⟩
        rcases Nat.lt_succ_iff_lt_or_eq.mp below with lt | rfl
        · exact lt
        · exact absurd ne nonzero

theorem length_nonZeroBitset (data : Bytes) : (nonZeroBitset data).length = (data.length + 7) / 8 :=
  (nonZeroBitset_loop data data.length le_rfl).1

example : nonZeroBitset [0, 0, 0, 7, 0, 0, 0, 0, 0, 9] = [0x10, 0x40] := by decide

theorem bitAt_nonZeroBitset (data : Bytes) (i : Nat) :
    bitAt (nonZeroBitset data) i = decide (i < data.length ∧ data.getD i 0 ≠ 0) :=
  (nonZeroBitset_loop data data.length le_rfl).2 i

/-- `bitsetEncodeBytes`: nothing for all-zero data, a single byte as it is, else the
compressed bitset and the non-zero bytes. -/
def bitsetEncodeBytes (data : Bytes) : Bytes :=
  if data.length = 0 then []
  else if data.length = 1 then (if data.getD 0 0 = 0 then [] else data)
  else if nonZeroBytes data = [] then []
  else bitsetEncodeBytes (nonZeroBitset data) ++ nonZeroBytes data
termination_by data.length
decreasing_by
  rw [length_nonZeroBitset]
  omega

/-- `CompressBytes`: the bitset encoding when it is shorter, else a copy of the data. -/
def CompressBytes (data : Bytes) : Bytes :=
  let out := bitsetEncodeBytes data
  if out.length < data.length then out else data

/-! ### Decompression -/

/-- The loop of `bitsetDecodePartialBytes` at bit `i`, with the output `decomp` so far and the
input read up to `ptr`: a set bit takes the next input byte into slot `i`, which must be there,
inside the target, and not zero. -/
def distribute (data nonZeroBitset : Bytes) (state : Bytes × Nat) (i : Nat) :
    Except DecompressError (Bytes × Nat) :=
  let decomp := state.1
  let ptr := state.2
  if bitAt nonZeroBitset i then
    if ptr ≥ data.length then .error .errMissingData
    else if i ≥ decomp.length then .error .errExceededTarget
    else if data.getD ptr 0 = 0 then .error .errZeroContent
    else .ok (decomp.set i (data.getD ptr 0), ptr + 1)
  else .ok (decomp, ptr)

/-- `bitsetDecodePartialBytes`: the output of length `target` and how much input it read. -/
def bitsetDecodePartialBytes (data : Bytes) (target : Nat) :
    Except DecompressError (Bytes × Nat) :=
  if target = 0 then .ok ([], 0)
  else if data.length = 0 then .ok (List.replicate target 0, 0)
  else if target = 1 then
    -- copy the single byte; it counts as read only if it is not zero
    if data.getD 0 0 ≠ 0 then .ok ([data.getD 0 0], 1) else .ok ([data.getD 0 0], 0)
  else do
    let bits ← bitsetDecodePartialBytes data ((target + 7) / 8)
    (List.range (8 * bits.1.length)).foldlM (distribute data bits.1) (List.replicate target 0, bits.2)
termination_by target
decreasing_by omega

/-- `bitsetDecodeBytes`: the partial decoding, which must read the whole input. -/
def bitsetDecodeBytes (data : Bytes) (target : Nat) : Except DecompressError Bytes := do
  let result ← bitsetDecodePartialBytes data target
  if result.2 ≠ data.length then throw .errUnreferencedData
  pure result.1

/-- `DecompressBytes`: an input of the target length is the data itself. -/
def DecompressBytes (data : Bytes) (target : Nat) : Except DecompressError Bytes :=
  if data.length > target then .error .errExceededTarget
  else if data.length = target then .ok data
  else bitsetDecodeBytes data target

/-! ### Facts of the encoder -/

theorem nonZeroBytes_eq_nil_iff (data : Bytes) : nonZeroBytes data = [] ↔ ∀ b ∈ data, b = 0 := by
  simp [nonZeroBytes, List.filter_eq_nil_iff]

theorem nonZeroBytes_ne_nil {data : Bytes} (nonzero : ∃ b ∈ data, b ≠ 0) : nonZeroBytes data ≠ [] := by
  rw [Ne, nonZeroBytes_eq_nil_iff]
  obtain ⟨b, mem, ne⟩ := nonzero
  exact fun zero => ne (zero b mem)

/-- All-zero data compresses to nothing. -/
theorem bitsetEncodeBytes_of_zero {data : Bytes} (zero : ∀ b ∈ data, b = 0) :
    bitsetEncodeBytes data = [] := by
  rw [bitsetEncodeBytes]
  split_ifs with empty single
  · rfl
  · -- the single byte is zero
    rfl
  · obtain ⟨b, rfl⟩ := List.length_eq_one_iff.mp single
    simp_all
  · rfl
  · exact absurd ((nonZeroBytes_eq_nil_iff data).mpr zero) ‹_›

/-- The bitset of all-zero data is all zero. -/
theorem nonZeroBitset_of_zero {data : Bytes} (zero : ∀ b ∈ data, b = 0) :
    ∀ b ∈ nonZeroBitset data, b = 0 := by
  have clear : nonZeroBitset data = List.replicate ((data.length + 7) / 8) 0 := by
    apply ext_bitAt (by rw [length_nonZeroBitset, List.length_replicate])
    intro i
    rw [bitAt_nonZeroBitset, bitAt_replicate_zero, decide_eq_false_iff_not, not_and, not_not]
    intro inside
    rw [List.getD_eq_getElem _ _ inside]
    exact zero _ (List.getElem_mem inside)
  rw [clear]
  exact fun b mem => List.eq_of_mem_replicate mem

/-- Data with a non-zero byte, at least two of them: the compressed bitset and the non-zero
bytes. -/
theorem bitsetEncodeBytes_of_long {data : Bytes} (long : 2 ≤ data.length) (nonzero : ∃ b ∈ data, b ≠ 0) :
    bitsetEncodeBytes data = bitsetEncodeBytes (nonZeroBitset data) ++ nonZeroBytes data := by
  rw [bitsetEncodeBytes, if_neg (by omega), if_neg (by omega), if_neg (nonZeroBytes_ne_nil nonzero)]

theorem length_CompressBytes_le (data : Bytes) : (CompressBytes data).length ≤ data.length := by
  dsimp only [CompressBytes]
  split_ifs with shorter
  · exact shorter.le
  · exact le_rfl

/-! ### The loop of the decoder -/

section Distribute

variable {data bitset decomp : Bytes} {ptr i : Nat} {state : Bytes × Nat}

/-- What one round of the loop can do: pass a clear bit, or take the next input byte into the
slot of a set bit, with the three checks passed. -/
theorem distribute_eq_ok (ok : distribute data bitset (decomp, ptr) i = .ok state) :
    (bitAt bitset i = false ∧ state = (decomp, ptr)) ∨
      (bitAt bitset i = true ∧ ptr < data.length ∧ i < decomp.length ∧ data.getD ptr 0 ≠ 0 ∧
        state = (decomp.set i (data.getD ptr 0), ptr + 1)) := by
  dsimp only [distribute] at ok
  split_ifs at ok with set missing exceeded zero
  · right
    cases ok
    exact ⟨set, by omega, by omega, zero, rfl⟩
  · left
    cases ok
    exact ⟨by simpa using set, rfl⟩

theorem distribute_set (set : bitAt bitset i = true) (inside : ptr < data.length)
    (slot : i < decomp.length) (nonzero : data.getD ptr 0 ≠ 0) :
    distribute data bitset (decomp, ptr) i = .ok (decomp.set i (data.getD ptr 0), ptr + 1) := by
  dsimp only [distribute]
  rw [if_pos set, if_neg (not_le.mpr inside), if_neg (not_le.mpr slot), if_neg nonzero]

theorem distribute_clear (clear : bitAt bitset i = false) :
    distribute data bitset state i = .ok state := by
  dsimp only [distribute]
  rw [if_neg (by simp [clear])]

end Distribute

theorem take_succ_eq {d : Bytes} {k : Nat} (inside : k < d.length) :
    d.take (k + 1) = d.take k ++ [d[k]] := by
  rw [List.take_add_one, List.getElem?_eq_getElem inside]
  rfl

theorem replicate_sub_eq {n k : Nat} (inside : k < n) :
    List.replicate (n - k) (0 : UInt8) = 0 :: List.replicate (n - (k + 1)) 0 := by
  rw [← List.replicate_succ]
  congr 1
  omega

/-- The non-zero bytes of `d` from the one at `k` on start with it. -/
theorem nonZeroBytes_split {d : Bytes} {k : Nat} (inside : k < d.length) (nonzero : d[k] ≠ 0) :
    ∃ after, nonZeroBytes d = nonZeroBytes (d.take k) ++ d[k] :: after := by
  refine ⟨nonZeroBytes (d.drop (k + 1)), ?_⟩
  calc nonZeroBytes d = nonZeroBytes (d.take (k + 1) ++ d.drop (k + 1)) := by
        rw [List.take_append_drop]
    _ = nonZeroBytes (d.take k) ++ d[k] :: nonZeroBytes (d.drop (k + 1)) := by
        have single : [d[k]].filter (· ≠ 0) = [d[k]] := by simp [nonzero]
        rw [take_succ_eq inside, nonZeroBytes, nonZeroBytes, nonZeroBytes, List.filter_append,
          List.filter_append, single, List.append_assoc, List.singleton_append]

/-- On the compression of `d`, its non-zero bytes after `pre`, the loop rebuilds `d`: after the
bits below `k` it holds the bytes of `d` below `k`, zeros after them, and it has read the
non-zero ones. -/
theorem distribute_run {d pre rest bitset : Bytes}
    (bits : ∀ i, bitAt bitset i = decide (i < d.length ∧ d.getD i 0 ≠ 0)) :
    ∀ k, (List.range k).foldlM (distribute (pre ++ nonZeroBytes d ++ rest) bitset)
        (List.replicate d.length 0, pre.length) =
      .ok (d.take k ++ List.replicate (d.length - k) 0, pre.length + (nonZeroBytes (d.take k)).length)
  | 0 => by simp [pure, Except.pure, nonZeroBytes]
  | k + 1 => by
    rw [List.range_succ, List.foldlM_append, distribute_run bits k]
    simp only [bind, Except.bind, List.foldlM_cons, List.foldlM_nil, pure, Except.pure]
    by_cases set : k < d.length ∧ d.getD k 0 ≠ 0
    · -- bit `k` is set: the next input byte is `d[k]`
      obtain ⟨inside, nonzero⟩ := set
      rw [List.getD_eq_getElem _ _ inside] at nonzero
      obtain ⟨after, split⟩ := nonZeroBytes_split inside nonzero
      have next : (pre ++ nonZeroBytes d ++ rest).getD (pre.length + (nonZeroBytes (d.take k)).length) 0 =
          d[k] := by
        rw [split]
        simp [List.getD_eq_getElem?_getD]
      have bit : bitAt bitset k = true := by
        rw [bits, List.getD_eq_getElem _ _ inside]
        simp [inside, nonzero]
      have slot : k < (d.take k ++ List.replicate (d.length - k) 0).length := by simp; omega
      rw [distribute_set bit (by rw [split]; simp) slot (by rw [next]; exact nonzero), next]
      -- slot `k` was the first of the zeros
      have decomp : (d.take k ++ List.replicate (d.length - k) 0).set k d[k] =
          d.take (k + 1) ++ List.replicate (d.length - (k + 1)) 0 := by
        rw [replicate_sub_eq inside, List.set_append, if_neg (by simp), take_succ_eq inside,
          List.length_take, Nat.min_eq_left inside.le, Nat.sub_self, List.set_cons_zero,
          List.append_assoc, List.singleton_append]
      have count : nonZeroBytes (d.take (k + 1)) = nonZeroBytes (d.take k) ++ [d[k]] := by
        rw [take_succ_eq inside, nonZeroBytes, nonZeroBytes, List.filter_append]
        simp [nonzero]
      rw [decomp, count, List.length_append, List.length_singleton, Nat.add_assoc]
    · -- bit `k` is clear: past the data, or a zero byte
      rw [distribute_clear (by rw [bits, decide_eq_false_iff_not]; exact set)]
      by_cases inside : k < d.length
      · have zero : d[k] = 0 := by
          by_contra nonzero
          exact set ⟨inside, by rwa [List.getD_eq_getElem _ _ inside]⟩
        simp [take_succ_eq inside, zero, replicate_sub_eq inside, nonZeroBytes]
      · simp [List.take_of_length_le (show d.length ≤ k by omega),
          List.take_of_length_le (show d.length ≤ k + 1 by omega), show d.length - k = 0 by omega,
          show d.length - (k + 1) = 0 by omega]

/-! ### Decompressing a compression -/

/-- The decoder on a target of two bytes or more: the bitset first, then the loop over its bits. -/
theorem bitsetDecodePartialBytes_long {data : Bytes} {target : Nat} (long : 2 ≤ target)
    (nonempty : data ≠ []) :
    bitsetDecodePartialBytes data target = (do
      let bits ← bitsetDecodePartialBytes data ((target + 7) / 8)
      (List.range (8 * bits.1.length)).foldlM (distribute data bits.1)
        (List.replicate target 0, bits.2)) := by
  rw [bitsetDecodePartialBytes, if_neg (by omega), if_neg (by simpa using nonempty), if_neg (by omega)]

/-- The decoder reads the compression of data with a non-zero byte, whatever follows it, as the
data and the length of the compression. -/
theorem bitsetDecodePartialBytes_encode (d : Bytes) (nonzero : ∃ b ∈ d, b ≠ 0) (rest : Bytes) :
    bitsetDecodePartialBytes (bitsetEncodeBytes d ++ rest) d.length =
      .ok (d, (bitsetEncodeBytes d).length) := by
  by_cases long : 2 ≤ d.length
  · -- the compressed bitset comes first, then the non-zero bytes
    have bitset_nonzero : ∃ b ∈ nonZeroBitset d, b ≠ 0 := by
      obtain ⟨b, mem, ne⟩ := nonzero
      obtain ⟨i, inside, rfl⟩ := List.getElem_of_mem mem
      refine exists_ne_zero_of_bitAt (i := i) ?_
      rw [bitAt_nonZeroBitset, List.getD_eq_getElem _ _ inside]
      simp [inside, ne]
    have bitset : bitsetDecodePartialBytes
        (bitsetEncodeBytes (nonZeroBitset d) ++ nonZeroBytes d ++ rest) ((d.length + 7) / 8) =
          .ok (nonZeroBitset d, (bitsetEncodeBytes (nonZeroBitset d)).length) := by
      rw [List.append_assoc, ← length_nonZeroBitset]
      exact bitsetDecodePartialBytes_encode (nonZeroBitset d) bitset_nonzero (nonZeroBytes d ++ rest)
    have run := @distribute_run d (bitsetEncodeBytes (nonZeroBitset d)) rest (nonZeroBitset d)
      (bitAt_nonZeroBitset d) (8 * (nonZeroBitset d).length)
    -- the bits of the bitset cover the data
    have covered : d.length ≤ 8 * (nonZeroBitset d).length := by
      rw [length_nonZeroBitset]
      omega
    rw [List.take_of_length_le covered, Nat.sub_eq_zero_of_le covered, List.replicate_zero,
      List.append_nil] at run
    rw [bitsetEncodeBytes_of_long long nonzero,
      bitsetDecodePartialBytes_long long (by simp [nonZeroBytes_ne_nil nonzero]),
      bitset]
    simp only [bind, Except.bind]
    rw [run, List.length_append]
  · obtain ⟨b, mem, ne⟩ := nonzero
    rcases d with _ | ⟨c, _ | ⟨c', more⟩⟩
    · simp at mem
    · -- a single non-zero byte is its own compression
      obtain rfl := List.mem_singleton.mp mem
      have encoded : bitsetEncodeBytes [b] = [b] := by
        rw [bitsetEncodeBytes]
        simp [ne]
      rw [encoded, bitsetDecodePartialBytes]
      simp [ne]
    · simp at long
termination_by d.length
decreasing_by
  rw [length_nonZeroBitset]
  omega

/-- Decompressing a compression gives the data back. -/
theorem DecompressBytes_CompressBytes (d : Bytes) : DecompressBytes (CompressBytes d) d.length = .ok d := by
  dsimp only [CompressBytes]
  split_ifs with shorter
  · -- the bitset encoding, shorter than the data
    rw [DecompressBytes, if_neg (by omega), if_neg (by omega), bitsetDecodeBytes]
    by_cases zero : ∀ b ∈ d, b = 0
    · -- all zeros: nothing to read, and the output is zeros
      rw [bitsetEncodeBytes_of_zero zero] at shorter ⊢
      have zeros : d = List.replicate d.length 0 := List.eq_replicate_iff.mpr ⟨rfl, zero⟩
      have positive : d.length ≠ 0 := by
        simp at shorter
        omega
      rw [bitsetDecodePartialBytes]
      simp [positive, bind, Except.bind, pure, Except.pure]
      exact zeros.symm
    · push Not at zero
      have decoded := bitsetDecodePartialBytes_encode d zero []
      rw [List.append_nil] at decoded
      simp [decoded, bind, Except.bind, pure, Except.pure]
  · -- the data itself
    rw [DecompressBytes, if_neg (lt_irrefl _), if_pos rfl]

/-! ### What the decoder accepts -/

/-- What the loop keeps on any input it goes through, after the bits below `j`, having started
reading at `start`: the output has the target length and is zero from `j` on; below `j`, a bit
is set exactly where the output is not zero; and the non-zero bytes of the output so far are the
input read so far. -/
structure Distributed (data bitset : Bytes) (target start j : Nat) (state : Bytes × Nat) : Prop where
  length_eq : state.1.length = target
  start_le : start ≤ state.2
  le_length : state.2 ≤ data.length
  zero_above : ∀ i, j ≤ i → state.1.getD i 0 = 0
  bits_below : ∀ i < j, bitAt bitset i = true ↔ (i < target ∧ state.1.getD i 0 ≠ 0)
  read : nonZeroBytes (state.1.take j) = (data.take state.2).drop start

namespace Distributed

variable {data bitset : Bytes} {target start j : Nat} {state state' : Bytes × Nat}

theorem init (inside : start ≤ data.length) :
    Distributed data bitset target start 0 (List.replicate target 0, start) where
  length_eq := List.length_replicate
  start_le := le_rfl
  le_length := inside
  zero_above := fun i _ => by
    by_cases below : i < target
    · exact List.getD_replicate 0 below
    · exact List.getD_eq_default _ _ (by simpa using below)
  bits_below := fun _ never => absurd never (Nat.not_lt_zero _)
  read := by simp [nonZeroBytes]

/-- One round of the loop keeps the invariant. -/
theorem step (inv : Distributed data bitset target start j state)
    (ok : distribute data bitset state j = .ok state') :
    Distributed data bitset target start (j + 1) state' := by
  obtain ⟨decomp, ptr⟩ := state
  rcases distribute_eq_ok ok with ⟨clear, rfl⟩ | ⟨set, inside, slot, nonzero, rfl⟩
  · -- a clear bit: slot `j` stays zero
    have zero : decomp.getD j 0 = 0 := inv.zero_above j le_rfl
    refine ⟨inv.length_eq, inv.start_le, inv.le_length, fun i above => inv.zero_above i (by omega),
      fun i below => ?_, ?_⟩
    · rcases Nat.lt_succ_iff_lt_or_eq.mp below with below | rfl
      · exact inv.bits_below i below
      · rw [clear, zero]
        simp
    · dsimp only
      by_cases here : j < decomp.length
      · rw [take_succ_eq here, ← List.getD_eq_getElem _ 0 here, zero]
        simpa [nonZeroBytes] using inv.read
      · have same : decomp.take (j + 1) = decomp.take j := by
          rw [List.take_of_length_le (by omega), List.take_of_length_le (by omega)]
        rw [same]
        exact inv.read
  · -- a set bit: the next input byte goes to slot `j`
    have at_j : ∀ i, (decomp.set j (data.getD ptr 0)).getD i 0 =
        if i = j then data.getD ptr 0 else decomp.getD i 0 := by
      intro i
      by_cases here : i = j
      · subst here
        simp [List.getD_eq_getElem?_getD, slot]
      · rw [if_neg here]
        simp only [List.getD_eq_getElem?_getD, List.getElem?_set_ne (Ne.symm here)]
    refine ⟨by simpa using inv.length_eq, by have := inv.start_le; simp; omega, by simp; omega,
      fun i above => ?_, fun i below => ?_, ?_⟩
    · rw [at_j, if_neg (by omega)]
      exact inv.zero_above i (by omega)
    · rcases Nat.lt_succ_iff_lt_or_eq.mp below with below | rfl
      · rw [at_j, if_neg (by omega)]
        exact inv.bits_below i below
      · rw [at_j, if_pos rfl]
        exact ⟨fun _ => ⟨inv.length_eq ▸ slot, nonzero⟩, fun _ => set⟩
    · -- the byte read is the one written
      have written : (decomp.set j (data.getD ptr 0)).take (j + 1) = decomp.take j ++ [data.getD ptr 0] := by
        rw [take_succ_eq (by simpa using slot), List.take_set_of_le (le_refl j)]
        simp
      have read : (data.take (ptr + 1)).drop start = (data.take ptr).drop start ++ [data.getD ptr 0] := by
        rw [List.take_add_one, List.getElem?_eq_getElem inside, List.drop_append_of_le_length (by simp; have := inv.start_le; omega),
          List.getD_eq_getElem _ _ inside]
        rfl
      simp only
      rw [written, read, nonZeroBytes, List.filter_append, ← nonZeroBytes, inv.read]
      simpa [List.getD_eq_getElem?_getD] using nonzero

/-- The invariant over a whole run of the loop. -/
theorem run (inside : start ≤ data.length) :
    ∀ (k : Nat) (state : Bytes × Nat),
      (List.range k).foldlM (distribute data bitset) (List.replicate target 0, start) = .ok state →
        Distributed data bitset target start k state
  | 0, state, ok => by
    simp only [List.range_zero, List.foldlM_nil, pure, Except.pure, Except.ok.injEq] at ok
    exact ok ▸ init inside
  | k + 1, state, ok => by
    rw [List.range_succ, List.foldlM_append, Lib.bind_eq_ok] at ok
    obtain ⟨mid, before, last⟩ := ok
    simp only [List.foldlM_cons, List.foldlM_nil, Lib.bind_eq_ok, pure, Except.pure,
      Except.ok.injEq] at last
    obtain ⟨after, round, rfl⟩ := last
    exact (run inside k mid before).step round

/-- At the end of the loop, the bitset is the encoder's bitset of the output. -/
theorem bitset_eq (inv : Distributed data bitset target start (8 * bitset.length) state)
    (length_bitset : bitset.length = (target + 7) / 8) : nonZeroBitset state.1 = bitset := by
  apply ext_bitAt (by rw [length_nonZeroBitset, inv.length_eq, length_bitset])
  intro i
  rw [bitAt_nonZeroBitset, inv.length_eq]
  by_cases inside : i < 8 * bitset.length
  · have iff := inv.bits_below i inside
    by_cases set : bitAt bitset i
    · simp [set] at iff ⊢
      exact iff
    · simp only [Bool.not_eq_true] at set
      simp [set] at iff ⊢
      exact iff
  · -- past the bitset: no bit, and past the target
    rw [bitAt_of_length_le (by omega)]
    simp only [decide_eq_false_iff_not, not_and, not_not]
    omega

end Distributed

/-- What the decoder returns on any input: an output of the target length, having read no more
than the input, whose compression is exactly the input it read. Induction on the target, the
bitset's being `(target + 7) / 8`. -/
theorem bitsetDecodePartialBytes_canonical (target : Nat) (data d : Bytes) (k : Nat)
    (ok : bitsetDecodePartialBytes data target = .ok (d, k)) :
    d.length = target ∧ k ≤ data.length ∧ bitsetEncodeBytes d = data.take k := by
  by_cases zero_target : target = 0
  · subst zero_target
    rw [bitsetDecodePartialBytes, if_pos rfl] at ok
    cases ok
    exact ⟨rfl, Nat.zero_le _, bitsetEncodeBytes_of_zero (by simp)⟩
  by_cases empty : data = []
  · -- no input: the output is zeros
    subst empty
    rw [bitsetDecodePartialBytes, if_neg zero_target, if_pos List.length_nil] at ok
    cases ok
    exact ⟨List.length_replicate, le_rfl, bitsetEncodeBytes_of_zero fun b => List.eq_of_mem_replicate⟩
  by_cases single : target = 1
  · -- one byte, read when it is not zero
    subst single
    obtain ⟨c, rest, rfl⟩ := List.exists_cons_of_ne_nil empty
    rw [bitsetDecodePartialBytes, if_neg zero_target, if_neg (by simp), if_pos rfl] at ok
    by_cases zero : c = 0
    · simp only [List.getD_cons_zero, zero, ne_eq, not_true_eq_false, if_false, Except.ok.injEq,
        Prod.mk.injEq] at ok
      obtain ⟨rfl, rfl⟩ := ok
      exact ⟨rfl, Nat.zero_le _, bitsetEncodeBytes_of_zero (by simp)⟩
    · simp only [List.getD_cons_zero, ne_eq, zero, not_false_eq_true, if_true, Except.ok.injEq,
        Prod.mk.injEq] at ok
      obtain ⟨rfl, rfl⟩ := ok
      refine ⟨rfl, by simp, ?_⟩
      rw [bitsetEncodeBytes]
      simp [zero]
  -- the bitset first, then the loop over its bits
  have long : 2 ≤ target := by omega
  rw [bitsetDecodePartialBytes_long long empty, Lib.bind_eq_ok] at ok
  obtain ⟨⟨bitset, p⟩, decoded, loop⟩ := ok
  obtain ⟨length_bitset, p_le, encoded⟩ :=
    bitsetDecodePartialBytes_canonical ((target + 7) / 8) data bitset p decoded
  have inv := Distributed.run p_le (8 * bitset.length) (d, k) loop
  have bits : nonZeroBitset d = bitset := inv.bitset_eq length_bitset
  have read := inv.read
  rw [List.take_of_length_le (by rw [inv.length_eq, length_bitset]; omega)] at read
  refine ⟨inv.length_eq, inv.le_length, ?_⟩
  by_cases zero : ∀ b ∈ d, b = 0
  · -- nothing was read past the bitset, which is all zero and so compresses to nothing
    have none_read : k = p := by
      have nothing := congrArg List.length read
      rw [(nonZeroBytes_eq_nil_iff d).mpr zero] at nothing
      simp at nothing
      have := inv.start_le
      have := inv.le_length
      simp only at this
      omega
    have bitset_zero : ∀ b ∈ bitset, b = 0 := bits ▸ nonZeroBitset_of_zero zero
    rw [bitsetEncodeBytes_of_zero zero, none_read, ← encoded, bitsetEncodeBytes_of_zero bitset_zero]
  · -- the compressed bitset and then the non-zero bytes, which is the input read
    push Not at zero
    rw [bitsetEncodeBytes_of_long (by rw [inv.length_eq]; exact long) zero, bits, encoded, read]
    conv_rhs => rw [← List.take_append_drop p (data.take k)]
    rw [List.take_take, Nat.min_eq_left inv.start_le]
termination_by target
decreasing_by omega

/-- What decompresses has the target length; an input shorter than the target is exactly the
compression of what it decompresses to. -/
theorem DecompressBytes_canonical {c d : Bytes} {n : Nat} (ok : DecompressBytes c n = .ok d) :
    d.length = n ∧ (c.length < n → CompressBytes d = c) := by
  unfold DecompressBytes at ok
  -- the input longer than the target is an error, which `split_ifs` discards
  split_ifs at ok with longer same
  · cases ok
    exact ⟨same, fun shorter => absurd shorter (by omega)⟩
  · -- the bitset encoding, which must be read whole
    rw [bitsetDecodeBytes, Lib.bind_eq_ok] at ok
    obtain ⟨⟨out, k⟩, decoded, rest⟩ := ok
    obtain ⟨length_eq, -, encoded⟩ := bitsetDecodePartialBytes_canonical n c out k decoded
    by_cases whole : k = c.length
    · simp only [whole, ne_eq, not_true_eq_false, if_false, pure, Except.pure, Except.ok.injEq] at rest
      subst rest
      rw [whole, List.take_length] at encoded
      refine ⟨length_eq, fun shorter => ?_⟩
      simp [CompressBytes, encoded, length_eq, shorter]
    · simp [whole, throw, throwThe, MonadExceptOf.throw, bind, Except.bind] at rest

/-- The codec: compression never lengthens and decompresses back; what decompresses has the
target length, and an input shorter than the target is the compression of its output. -/
theorem bitset_compression_codec :
    (∀ d : Bytes,
      (CompressBytes d).length ≤ d.length ∧ DecompressBytes (CompressBytes d) d.length = .ok d) ∧
    (∀ (c d : Bytes) (n : Nat), DecompressBytes c n = .ok d →
      d.length = n ∧ (c.length < n → CompressBytes d = c)) :=
  ⟨fun d => ⟨length_CompressBytes_le d, DecompressBytes_CompressBytes d⟩,
    fun _ _ _ ok => DecompressBytes_canonical ok⟩

/-- The codec on `[0, 0, 7]`, whose compression is shorter. -/
theorem bitset_compression_codec_sparse :
    DecompressBytes (CompressBytes [0, 0, 7]) 3 = .ok [0, 0, 7] ∧
      (([0, 0, 7] : Bytes).length = 3 ∧
        ((CompressBytes [0, 0, 7]).length < 3 → CompressBytes [0, 0, 7] = CompressBytes [0, 0, 7])) :=
  ⟨(bitset_compression_codec.1 [0, 0, 7]).2,
    bitset_compression_codec.2 _ _ 3 (bitset_compression_codec.1 [0, 0, 7]).2⟩

/-- An input of the target length is returned as it is, even where `CompressBytes` writes
something else: `[0]` decompresses to `[0]`, which compresses to nothing. -/
theorem DecompressBytes_raw_zero : DecompressBytes [0] 1 = .ok [0] ∧ CompressBytes [0] = [] := by
  refine ⟨rfl, ?_⟩
  have encoded : bitsetEncodeBytes [0] = [] := bitsetEncodeBytes_of_zero (by simp)
  simp [CompressBytes, encoded]

end Indigo.Bitutil
