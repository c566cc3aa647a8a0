import Indigo.Rlp.Agreement

/-!
# Reading back an integer

`rlp.EncodeToBytes` writes an unsigned integer of at most 64 bits as the string of its minimal
big-endian bytes (`encodeToBytes_uint`), and `Stream.uint` on a stream over those bytes reads
it back and leaves what follows to the reader (`Stream.go_uint_encode`). A number from `1` to
`127` is its own single byte; any other is a string behind a header, which `Kind` caches and
`uint` then reads as a big-endian integer without a leading zero.
-/

namespace Indigo.Rlp

open Indigo.Lib

theorem length_beBytes_le_eight {n : Nat} (bound : n < 2 ^ 64) : (beBytes n).length ≤ 8 :=
  (length_beBytes_le_iff n 8).mpr (by simpa using bound)

/-- `rlp.EncodeToBytes` of an unsigned integer: the string of its minimal big-endian bytes. -/
theorem encodeToBytes_uint {n : Nat} (bound : n < 2 ^ 64) :
    EncodeToBytes (.uint n) = .ok (Item.str (beBytes n)).encode := by
  have short : (beBytes n).length < 2 ^ 64 := by
    have := length_beBytes_le_eight bound
    omega
  simp only [EncodeToBytes, writer, writeUint_eq bound, Encbuf.encodeString_empty short]
  rfl

/-- An integer of 64 bits takes at most nine bytes: a header and eight bytes. -/
theorem length_encode_beBytes {n : Nat} (bound : n < 2 ^ 64) :
    (Item.str (beBytes n)).encode.length ≤ 9 := by
  have eight := length_beBytes_le_eight bound
  rcases bytes : beBytes n with _ | ⟨b, _ | ⟨b', bs⟩⟩
  · simp [Item.encode, header]
  · simp only [Item.encode]
    split <;> simp [header]
  · rw [bytes, List.length_cons, List.length_cons] at eight
    simp [Item.encode, header, show bs.length + 1 + 1 < 56 by omega]
    omega

namespace Stream

variable {s : Stream} {rest : Indigo.Bytes}

/-- `uint` on a cached string header of the canonical bytes of `n`. -/
theorem go_uint_cached_string {n : Nat} (bound : n < 2 ^ 64) (notByte : n = 0 ∨ 128 ≤ n)
    (cached : s.Cached .String (beBytes n).length (beBytes n ++ rest)) :
    ∃ s', (uint 64).go s = some (.ok n, s') ∧ s'.r = rest := by
  have eight := length_beBytes_le_eight bound
  rcases notByte with rfl | large
  · refine ⟨{ s with kind := none }, ?_, by simpa using cached.reads⟩
    simp [uint, go_bind, go_result, go_Kind_cached cached.kind cached.kinderr, cached.cachedSize,
      readUint, go_map, Except.map]
  · -- the bytes of the number, read as a big-endian integer
    have positive : 0 < (beBytes n).length := by
      rw [length_beBytes_of_pos (by omega)]
      omega
    have canonical : ¬(2 ≤ (beBytes n).length ∧
        ((beBytes n ++ rest).take (beBytes n).length).head? = some 0) := by
      rw [List.take_left]
      exact fun both => beBytes_head_ne_zero n both.2
    refine ⟨s.consume (beBytes n).length, ?_, by simp [cached.reads]⟩
    simp only [uint, go_bind, go_Kind_cached cached.kind cached.kinderr, cached.cachedSize]
    rw [if_neg (by omega), go_bind, go_result, go_readUint_top cached.top positive, cached.reads,
      if_pos (by simp), if_neg canonical, List.take_left, beValue_beBytes]
    simp [Nat.not_lt.mpr large]

/-- `uint` after `Kind` has read a header is `uint` on the stream holding it. -/
theorem go_uint_of_Kind {s' : Stream} {k : Rlp.Kind} {size : Nat}
    (kind : Kind.go s = some (.ok (k, size), s')) (cached : s'.Cached k size rest)
    (maxbits : Nat) :
    (uint maxbits).go s = (uint maxbits).go s' := by
  simp only [uint, go_bind, kind, go_Kind_cached cached.kind cached.kinderr, cached.cachedSize]

/-- A header is followed by its payload. -/
theorem drop_encode_append (it : Item) (rest : Indigo.Bytes) :
    (it.encode ++ rest).drop (it.encode.length - it.payload.length) = it.payload ++ rest := by
  obtain ⟨header, whole⟩ := payload_suffix it
  rw [← whole, List.length_append, Nat.add_sub_cancel, List.append_assoc, List.drop_left]

/-- An integer other than `1` to `127` is encoded as a string behind a header. -/
theorem kind_str_beBytes {n : Nat} (notByte : n = 0 ∨ 128 ≤ n) :
    (Item.str (beBytes n)).kind = .String := by
  rcases bytes : beBytes n with _ | ⟨b, _ | ⟨b', bs⟩⟩
  · rfl
  · -- one byte: the number itself, at least `0x80`
    have value := beValue_beBytes n
    rw [bytes] at value
    have large : 128 ≤ b.toNat := by
      have zero : n ≠ 0 := fun zero => by simp [zero] at bytes
      simp only [beValue, List.reverse_cons, List.reverse_nil, List.nil_append, List.map_cons,
        List.map_nil, Nat.ofDigits_singleton] at value
      omega
    simp [Item.kind, UInt8.lt_iff_toNat_lt, Nat.not_lt.mpr large]
  · rfl

/-- `uint` reads back the canonical encoding of an integer of at most 64 bits. -/
theorem go_uint_encode {n : Nat} (bound : n < 2 ^ 64) (top : s.Top) (armed : s.kind = none)
    (reads : s.r = (Item.str (beBytes n)).encode ++ rest) :
    ∃ s', (uint 64).go s = some (.ok n, s') ∧ s'.r = rest := by
  have short : (beBytes n).length < 2 ^ 64 := by
    have := length_beBytes_le_eight bound
    omega
  by_cases single : 0 < n ∧ n < 128
  · -- a single byte below `0x80` is its own encoding
    have byte : beBytes n = [n.toUInt8] := beBytes_of_lt single.1 (by omega)
    have small : n.toUInt8 < 0x80 := by
      rw [UInt8.lt_iff_toNat_lt, toNat_toUInt8]
      simp only [UInt8.toNat_ofNat]
      omega
    rw [byte, encode_str_single small, List.singleton_append] at reads
    obtain ⟨s', kind, cached, byteval⟩ := go_Kind_byte top armed reads small
    refine ⟨{ s' with kind := none }, ?_, cached.reads⟩
    have nonzero : n.toUInt8 ≠ 0 := fun zero => by
      have := congrArg UInt8.toNat zero
      rw [toNat_toUInt8] at this
      simp at this
      omega
    simp [uint, go_bind, go_map, Except.map, kind, byteval, nonzero,
      Nat.mod_eq_of_lt (show n < 256 by omega)]
  · -- any other integer is a string of its bytes behind a header
    have string := kind_str_beBytes (show n = 0 ∨ 128 ≤ n by omega)
    have ok := readKind_encode (Item.str (beBytes n)) short rest
    rw [← reads] at ok
    obtain ⟨s', kind, cached⟩ := go_Kind_of_readKind top armed ok (by rw [string]; exact nofun)
    rw [reads, drop_encode_append] at cached
    rw [string] at kind cached
    rw [go_uint_of_Kind kind cached]
    exact go_uint_cached_string bound (by omega) cached

end Stream

end Indigo.Rlp
