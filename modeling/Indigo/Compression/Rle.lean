import Indigo.Common.Types

/-!
# The run-length codec of `compression/rle`

`Compress` cuts its input into chunks (`compressChunk`): the byte `0xfe` is escaped as
`fe ff`; a run of `j` zero bytes, `2 ≤ j ≤ 255`, becomes `fe (j + 2)`, the byte sum wrapping;
the 32 bytes of the Keccak-256 hash of the empty string, or of the empty list, become `fe fd` or
`fe fe`; any other byte stands for itself. `Decompress` reads `fe` and the byte after it the
other way round, with `fd`, `fe` and `ff` reserved for the two hashes and the escaped `fe`.

A run of `251`, `252` or `253` zero bytes gets the second byte `fd`, `fe` or `ff`, which
`Decompress` reads as one of the escapes: such a run comes back as a hash or as the byte `fe`.
Runs of `254` and `255` zeros get `00` and `01`, which the wrapping subtraction of
`Decompress` turns back into `254` and `255`.

## Main results

- `Decompress_Compress`: decompressing a compression never fails, and gives back no more
  bytes than were compressed.
- `Decompress_Compress_zeroRun`: a run of `251`, `252` or `253` zeros at the head of the input
  comes back as the hash of the empty string, of the empty list, or the single byte `fe`, and
  the round trip fails.

## Proof strategy

`Compress` is a concatenation of chunks, each a complete escape or a literal byte for
`Decompress` (`Decompress_append_compressChunk`): decompression goes chunk by chunk, and each
chunk gives back at most the bytes it read. The induction follows the recursion of `Compress`.
-/

namespace Indigo.Rle

/-- `token`. -/
def token : UInt8 := 0xfe

/-- `emptyShaToken`. -/
def emptyShaToken : UInt8 := 0xfd

/-- `emptyListShaToken`. -/
def emptyListShaToken : UInt8 := 0xfe

/-- `tokenToken`. -/
def tokenToken : UInt8 := 0xff

section Codec

variable (Keccak256 : Bytes → Hash)

/-- `empty`: the hash of the empty string. -/
def empty : Bytes := (Keccak256 []).bytes

/-- `emptyList`: the hash of the RLP encoding `0x80` of the empty list. -/
def emptyList : Bytes := (Keccak256 [0x80]).bytes

/-- What `Decompress` writes for the byte after a `token`: a hash, the token itself, or
`c - 2` zero bytes, the subtraction wrapping in a byte. -/
def escape (c : UInt8) : Bytes :=
  if c = emptyShaToken then empty Keccak256
  else if c = emptyListShaToken then emptyList Keccak256
  else if c = tokenToken then [token]
  else List.replicate (c - 2).toNat 0

/-- `Decompress`: a `token` and the byte after it are an escape; every other byte stands for
itself. -/
def Decompress : Bytes → Except String Bytes
  | [] => .ok []
  | b :: rest =>
    if b = token then
      match rest with
      | c :: rest => (escape Keccak256 c ++ ·) <$> Decompress rest
      | [] => .error "error reading bytes. token encountered without proceeding bytes"
    else (b :: ·) <$> Decompress rest

/-- The zero run of `compressChunk`: the loop counts the zero bytes at the head, at most `255`. -/
def zeroRun (dat : Bytes) : Nat := ((dat.take 255).takeWhile (· = 0)).length

/-- `compressChunk` of the non-empty `b :: rest`: the bytes written, and how many were read. -/
def compressChunk (b : UInt8) (rest : Bytes) : Bytes × Nat :=
  if b = token then ([token, tokenToken], 1)
  else if b = 0 ∧ rest.head? = some 0 then
    let j := zeroRun (b :: rest)
    ([token, (j + 2).toUInt8], j)
  else if 32 ≤ (b :: rest).length ∧ (b :: rest).take 32 = empty Keccak256 then ([token, emptyShaToken], 32)
  else if 32 ≤ (b :: rest).length ∧ (b :: rest).take 32 = emptyList Keccak256 then
    ([token, emptyListShaToken], 32)
  else ([b], 1)

/-- `compressChunk` reads at least one byte. -/
theorem one_le_compressChunk (b : UInt8) (rest : Bytes) : 1 ≤ (compressChunk Keccak256 b rest).2 := by
  unfold compressChunk
  split_ifs with escaped zero
  all_goals try simp
  -- a zero run reads its first two zeros at least
  obtain ⟨first, second⟩ := zero
  cases rest with
  | nil => cases second
  | cons c rest =>
    cases second
    simp [zeroRun, first]

/-- `Compress`: the chunks of the input, one after the other. -/
def Compress (dat : Bytes) : Bytes :=
  match dat with
  | [] => []
  | b :: rest => (compressChunk Keccak256 b rest).1 ++ Compress ((b :: rest).drop (compressChunk Keccak256 b rest).2)
termination_by dat.length
decreasing_by
  have read := one_le_compressChunk Keccak256 b rest
  simp only [List.length_drop, List.length_cons]
  omega

/-! ### Decompression, escape by escape -/

@[simp] theorem length_empty : (empty Keccak256).length = 32 := by simp [empty]

@[simp] theorem length_emptyList : (emptyList Keccak256).length = 32 := by simp [emptyList]

section Steps

-- the two steps of `Decompress`, computed by `simp`
attribute [local simp] Decompress

theorem Decompress_token (c : UInt8) (s : Bytes) :
    Decompress Keccak256 (token :: c :: s) = (escape Keccak256 c ++ ·) <$> Decompress Keccak256 s := by
  simp

theorem Decompress_literal {b : UInt8} (literal : b ≠ token) (s : Bytes) :
    Decompress Keccak256 (b :: s) = (b :: ·) <$> Decompress Keccak256 s := by
  cases s <;> simp [literal]

end Steps

/-- The escape of a zero run of `j` bytes, `2 ≤ j ≤ 255`: `j` zeros, unless `j + 2` wraps into
one of the reserved bytes `fd`, `fe`, `ff`. -/
theorem escape_zeroRun {j : Nat} (two : 2 ≤ j) (most : j ≤ 255) :
    escape Keccak256 (j + 2).toUInt8 =
      if j = 251 then empty Keccak256 else if j = 252 then emptyList Keccak256
      else if j = 253 then [token] else List.replicate j 0 := by
  have toNat : ((j + 2).toUInt8).toNat = (j + 2) % 256 := by simp [Nat.toUInt8, UInt8.toNat_ofNat']
  have sha : (j + 2).toUInt8 = emptyShaToken ↔ j = 251 := by
    rw [← UInt8.toNat_inj, toNat]
    simp only [emptyShaToken, UInt8.reduceToNat]
    omega
  have list : (j + 2).toUInt8 = emptyListShaToken ↔ j = 252 := by
    rw [← UInt8.toNat_inj, toNat]
    simp only [emptyListShaToken, UInt8.reduceToNat]
    omega
  have escaped : (j + 2).toUInt8 = tokenToken ↔ j = 253 := by
    rw [← UInt8.toNat_inj, toNat]
    simp only [tokenToken, UInt8.reduceToNat]
    omega
  -- `254` and `255` wrap to `0` and `1`, and back again
  have wrapped : (((j + 2).toUInt8) - 2).toNat = j := by
    rw [UInt8.toNat_sub, toNat]
    simp only [UInt8.reduceToNat]
    omega
  simp only [escape, sha, list, escaped, wrapped]

/-! ### Compression, chunk by chunk -/

theorem zeroRun_le (dat : Bytes) : zeroRun dat ≤ min 255 dat.length := by
  unfold zeroRun
  have within := (List.takeWhile_sublist (l := dat.take 255) fun b : UInt8 => decide (b = 0)).length_le
  simp only [List.length_take] at within
  omega

/-- A run of `k ≤ 255` zeros followed by anything else is read whole. -/
theorem zeroRun_replicate {k : Nat} (most : k ≤ 255) {rest : Bytes} (head : rest.head? ≠ some 0) :
    zeroRun (List.replicate k 0 ++ rest) = k := by
  have stop : (rest.take (255 - k)).takeWhile (· = 0) = [] := by
    cases rest with
    | nil => simp
    | cons c rest =>
      cases cut : 255 - k with
      | zero => simp
      | succ m =>
        have nonzero : c ≠ 0 := fun zero => head (by rw [zero]; rfl)
        simp [nonzero]
  unfold zeroRun
  rw [List.take_append, List.take_of_length_le (by simpa using most), List.length_replicate,
    List.takeWhile_append_of_pos (fun b member => by simp [List.eq_of_mem_replicate member]), stop,
    List.append_nil, List.length_replicate]

/-- Each chunk is a complete escape, or a literal byte: decompressing it writes at most the
bytes it read. -/
theorem Decompress_append_compressChunk (b : UInt8) (rest : Bytes) :
    (compressChunk Keccak256 b rest).2 ≤ (b :: rest).length ∧
      ∃ w : Bytes, w.length ≤ (compressChunk Keccak256 b rest).2 ∧
        ∀ s, Decompress Keccak256 ((compressChunk Keccak256 b rest).1 ++ s) = (w ++ ·) <$> Decompress Keccak256 s := by
  unfold compressChunk
  split_ifs with escaped zero hashed listed
  · -- the token itself, escaped
    refine ⟨by simp, [token], by simp, fun s => ?_⟩
    rw [List.cons_append, List.cons_append, List.nil_append, Decompress_token]
    rfl
  · -- a zero run
    dsimp only
    obtain ⟨first, second⟩ := zero
    have two : 2 ≤ zeroRun (b :: rest) := by
      cases rest with
      | nil => cases second
      | cons c rest =>
        cases second
        simp [zeroRun, first]
    have most := zeroRun_le (b :: rest)
    refine ⟨by omega, escape Keccak256 (zeroRun (b :: rest) + 2).toUInt8, ?_, fun s => ?_⟩
    · rw [escape_zeroRun Keccak256 two (by omega)]
      split_ifs <;> simp <;> omega
    · rw [List.cons_append, List.cons_append, List.nil_append, Decompress_token]
  · -- the hash of the empty string
    refine ⟨hashed.1, empty Keccak256, by simp, fun s => ?_⟩
    rw [List.cons_append, List.cons_append, List.nil_append, Decompress_token]
    rfl
  · -- the hash of the empty list
    refine ⟨listed.1, emptyList Keccak256, by simp, fun s => ?_⟩
    rw [List.cons_append, List.cons_append, List.nil_append, Decompress_token]
    simp [escape, emptyShaToken, emptyListShaToken]
  · -- a literal byte
    exact ⟨by simp, [b], by simp, fun s => by rw [List.cons_append, List.nil_append, Decompress_literal Keccak256 escaped]; rfl⟩

/-- Decompressing a compression never fails, and gives back at most the bytes compressed. -/
theorem Decompress_Compress (dat : Bytes) :
    ∃ r, Decompress Keccak256 (Compress Keccak256 dat) = .ok r ∧ r.length ≤ dat.length := by
  match dat with
  | [] => exact ⟨[], by simp [Compress, Decompress], le_rfl⟩
  | b :: rest =>
    obtain ⟨within, w, short, chunk⟩ := Decompress_append_compressChunk Keccak256 b rest
    have read := one_le_compressChunk Keccak256 b rest
    obtain ⟨r, decompressed, shorter⟩ :=
      Decompress_Compress ((b :: rest).drop (compressChunk Keccak256 b rest).2)
    refine ⟨w ++ r, ?_, ?_⟩
    · rw [Compress, chunk, decompressed]
      rfl
    · simp only [List.length_append, List.length_drop] at shorter ⊢
      omega
termination_by dat.length
decreasing_by
  simp only [List.length_drop, List.length_cons]
  omega

/-- A run of `k` zeros, `2 ≤ k ≤ 255`, at the head of the input is one chunk. -/
theorem Compress_zeroRun {k : Nat} (two : 2 ≤ k) (most : k ≤ 255) {rest : Bytes}
    (head : rest.head? ≠ some 0) :
    Compress Keccak256 (List.replicate k 0 ++ rest) = [token, (k + 2).toUInt8] ++ Compress Keccak256 rest := by
  obtain ⟨m, rfl⟩ : ∃ m, k = m + 2 := ⟨k - 2, by omega⟩
  have read := zeroRun_replicate most head
  have chunk : compressChunk Keccak256 0 (List.replicate (m + 1) 0 ++ rest) = ([token, (m + 2 + 2).toUInt8], m + 2) := by
    rw [compressChunk, if_neg (by decide), if_pos ⟨rfl, by simp [List.replicate_succ]⟩]
    simp only [← List.cons_append, ← List.replicate_succ, read]
  rw [List.replicate_succ, List.cons_append, Compress, chunk, ← List.cons_append, ← List.replicate_succ,
    List.drop_left' (List.length_replicate ..)]

/-- A run of `251`, `252` or `253` zeros at the head of the input comes back as the hash of the
empty string, of the empty list, or the byte `fe`: the round trip fails. -/
theorem Decompress_Compress_zeroRun {rest : Bytes} (head : rest.head? ≠ some 0) :
    ∀ k ∈ [251, 252, 253], ∃ r,
      Decompress Keccak256 (Compress Keccak256 (List.replicate k 0 ++ rest)) =
        .ok ((if k = 251 then empty Keccak256 else if k = 252 then emptyList Keccak256 else [token]) ++ r) ∧
      Decompress Keccak256 (Compress Keccak256 (List.replicate k 0 ++ rest)) ≠ .ok (List.replicate k 0 ++ rest) := by
  intro k bad
  have range : 251 ≤ k ∧ k ≤ 253 := by simp at bad; omega
  obtain ⟨r, decompressed, shorter⟩ := Decompress_Compress Keccak256 rest
  have escaped : escape Keccak256 (k + 2).toUInt8 =
      if k = 251 then empty Keccak256 else if k = 252 then emptyList Keccak256 else [token] := by
    rw [escape_zeroRun Keccak256 (by omega) (by omega)]
    split_ifs <;> first | rfl | omega
  have result : Decompress Keccak256 (Compress Keccak256 (List.replicate k 0 ++ rest)) =
      .ok (escape Keccak256 (k + 2).toUInt8 ++ r) := by
    rw [Compress_zeroRun Keccak256 (by omega) (by omega) head, List.cons_append, List.cons_append,
      List.nil_append, Decompress_token, decompressed]
    rfl
  refine ⟨r, by rw [result, escaped], ?_⟩
  -- the escape is at most `32` bytes long, where the run was at least `251`
  have short : (escape Keccak256 (k + 2).toUInt8).length ≤ 32 := by
    rw [escaped]
    split_ifs <;> simp
  rw [result]
  intro same
  have lengths := congrArg List.length (Except.ok.inj same)
  simp only [List.length_append, List.length_replicate] at lengths
  omega

/-- With any hash, a run of `251` zero bytes does not come back. -/
theorem Decompress_Compress_zeroRun_251 :
    Decompress (fun _ => Indigo.Hash.zero) (Compress (fun _ => Indigo.Hash.zero) (List.replicate 251 0)) ≠
      .ok (List.replicate 251 0) := by
  obtain ⟨_, -, fails⟩ := Decompress_Compress_zeroRun (fun _ => Indigo.Hash.zero)
    (show ([] : Bytes).head? ≠ some 0 by decide) 251 List.mem_cons_self
  rwa [List.append_nil] at fails

end Codec

end Indigo.Rle
