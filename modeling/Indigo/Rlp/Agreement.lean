import Indigo.Rlp.Stream

/-!
# The two decoders agree

Trie nodes are decoded with `Split` (`rlp/raw.go`), everything else with `Stream`
(`rlp/decode.go`). The two parse headers separately: `readKind` and `readSize` check a
header in one slice, `Stream.readKind` reads it byte by byte through `readByte` and
`readUint`, and `Stream.Kind` checks the size against the input left. This module shows
that on a stream over a byte slice the two accept the same values.

## Main results

- `split_agrees_with_stream`: `Split` returns a string or a single byte with content `c` and
  rest `rest` exactly when `Stream.Bytes` returns `c` and leaves `rest` to the reader; it
  returns a list exactly when `Stream.Raw` returns a list encoding, and the encoding is then
  the value's own bytes; every header `readKind` accepts lies within its input.

## Proof strategy

A stream over a byte slice stays at toplevel (`Stream.Top`: no list open, and the limit is
what the reader holds), so every read is a check against the bytes left. One lemma per read
(`go_readByte_top`, `go_readFull_top`, `go_readUint_top`) says what it does there; the
stream's header reads are then stated per range of the tag byte, next to the inversion
lemmas of `readKind` (`readKind_eq_ok`, `readKind_eq_error`). A header the stream holds
(`Stream.Cached`) decides `Bytes` and `Raw`. The one header `readKind` rejects and `Kind`
accepts is a string of one byte below `0x80`, which `Bytes` rejects after reading it.
-/

namespace Indigo.Rlp

open Indigo.Lib

/-! ### The headers `readKind` accepts -/

/-- The long forms of a header: a string tag in `0xB8..0xBF` or a list tag in `0xF8..0xFF`,
with the offset that gives the length of the size from the tag. -/
def LongTag (b0 : UInt8) (k : Kind) (tag : UInt8) : Prop :=
  (0xB8 ≤ b0 ∧ b0 < 0xC0 ∧ k = .String ∧ tag = 0xB7) ∨ (0xF8 ≤ b0 ∧ k = .List ∧ tag = 0xF7)

theorem LongTag.positive {b0 tag : UInt8} {k : Kind} (long : LongTag b0 k tag) :
    0 < (b0 - tag).toNat ∧ (b0 - tag).toNat ≤ 8 := by
  rcases long with ⟨lo, hi, -, rfl⟩ | ⟨lo, -, rfl⟩
  · have lo' := UInt8.le_iff_toNat_le.mp lo
    have hi' := UInt8.lt_iff_toNat_lt.mp hi
    rw [UInt8.toNat_sub_of_le _ _ (UInt8.le_iff_toNat_le.mpr (by simp at lo' ⊢; omega))]
    simp at lo' hi' ⊢
    omega
  · have lo' := UInt8.le_iff_toNat_le.mp lo
    have hi' := b0.toNat_lt
    rw [UInt8.toNat_sub_of_le _ _ (UInt8.le_iff_toNat_le.mpr (by simp at lo' ⊢; omega))]
    simp at lo' ⊢
    omega

theorem readSize_eq_ok {b : Bytes} {slen : UInt8} {size : Nat} :
    readSize b slen = .ok size ↔
      slen.toNat ≤ b.length ∧ size = beValue (b.take slen.toNat) ∧ 56 ≤ size ∧ b.head? ≠ some 0 := by
  unfold readSize
  by_cases fits : slen.toNat > b.length
  · simp [fits]
  · by_cases bad : beValue (b.take slen.toNat) < 56 ∨ b.head? = some 0
    · simp only [fits, bad, if_false, if_true, reduceCtorEq, false_iff]
      rintro ⟨-, rfl, large, canonical⟩
      rcases bad with small | zero
      · omega
      · exact canonical zero
    · simp only [fits, bad, if_false, Except.ok.injEq]
      constructor
      · rintro rfl
        exact ⟨by omega, rfl, by omega, fun zero => bad (Or.inr zero)⟩
      · rintro ⟨-, rfl, -, -⟩
        rfl

/-- The headers `readKind` accepts, by their first byte. -/
theorem readKind_eq_ok {b0 : UInt8} {rest : Bytes} {k : Kind} {ts cs : Nat}
    (ok : readKind (b0 :: rest) = .ok (k, ts, cs)) :
    cs ≤ rest.length + 1 - ts ∧
      ((b0 < 0x80 ∧ k = .Byte ∧ ts = 0 ∧ cs = 1) ∨
       (0x80 ≤ b0 ∧ b0 < 0xB8 ∧ k = .String ∧ ts = 1 ∧ cs = (b0 - 0x80).toNat ∧
          ¬(cs = 1 ∧ rest.head?.any (fun c => decide (c < 128)))) ∨
       (0xC0 ≤ b0 ∧ b0 < 0xF8 ∧ k = .List ∧ ts = 1 ∧ cs = (b0 - 0xC0).toNat) ∨
       (∃ tag, LongTag b0 k tag ∧ ts = (b0 - tag).toNat + 1 ∧ readSize rest (b0 - tag) = .ok cs)) := by
  simp only [readKind, Except.bind] at ok
  split at ok
  · cases ok
  · next header same =>
    obtain ⟨k', ts', cs'⟩ := header
    split at ok
    · cases ok
    · next fits =>
      simp only [Except.ok.injEq, Prod.mk.injEq] at ok
      obtain ⟨rfl, rfl, rfl⟩ := ok
      refine ⟨by simp only [List.length_cons] at fits; omega, ?_⟩
      -- one case per branch of the header; the string of one small byte is an error
      split_ifs at same with small short canon long list
      · simp only [Except.ok.injEq, Prod.mk.injEq] at same
        obtain ⟨rfl, rfl, rfl⟩ := same
        exact .inl ⟨small, rfl, rfl, rfl⟩
      · simp only [Except.ok.injEq, Prod.mk.injEq] at same
        obtain ⟨rfl, rfl, rfl⟩ := same
        exact .inr (.inl ⟨UInt8.not_lt.mp small, short, rfl, rfl, rfl, canon⟩)
      · rcases read : readSize rest (b0 - 0xB7) with _ | size
        · simp [read, Except.map] at same
        · simp only [read, Except.map, Except.ok.injEq, Prod.mk.injEq] at same
          obtain ⟨rfl, rfl, rfl⟩ := same
          exact .inr (.inr (.inr ⟨0xB7, .inl ⟨UInt8.not_lt.mp short, long, rfl, rfl⟩, rfl, read⟩))
      · simp only [Except.ok.injEq, Prod.mk.injEq] at same
        obtain ⟨rfl, rfl, rfl⟩ := same
        exact .inr (.inr (.inl ⟨UInt8.not_lt.mp long, list, rfl, rfl, rfl⟩))
      · rcases read : readSize rest (b0 - 0xF7) with _ | size
        · simp [read, Except.map] at same
        · simp only [read, Except.map, Except.ok.injEq, Prod.mk.injEq] at same
          obtain ⟨rfl, rfl, rfl⟩ := same
          exact .inr (.inr (.inr ⟨0xF7, .inr ⟨UInt8.not_lt.mp list, rfl, rfl⟩, rfl, read⟩))

/-- The headers `readKind` rejects, by their first byte: a single byte in a string of one, a
value longer than the input, or a long size it does not accept. -/
theorem readKind_eq_error {b0 : UInt8} {rest : Bytes} {e : Error} (bad : readKind (b0 :: rest) = .error e) :
    (0x80 ≤ b0 ∧ b0 < 0xB8 ∧ (b0 - 0x80).toNat = 1 ∧ rest.head?.any (fun c => decide (c < 128))) ∨
    (0x80 ≤ b0 ∧ b0 < 0xB8 ∧ rest.length < (b0 - 0x80).toNat) ∨
    (0xC0 ≤ b0 ∧ b0 < 0xF8 ∧ rest.length < (b0 - 0xC0).toNat) ∨
    (∃ k tag, LongTag b0 k tag ∧
      ∀ size, readSize rest (b0 - tag) = .ok size → rest.length - (b0 - tag).toNat < size) := by
  simp only [readKind, Except.bind] at bad
  split at bad
  · -- the header itself is rejected
    next header same =>
    split_ifs at same with small short canon long list
    · exact .inl ⟨UInt8.not_lt.mp small, short, canon⟩
    · exact .inr (.inr (.inr ⟨.String, 0xB7, .inl ⟨UInt8.not_lt.mp short, long, rfl, rfl⟩, fun size ok => by
        simp [ok, Except.map] at same⟩))
    · exact .inr (.inr (.inr ⟨.List, 0xF7, .inr ⟨UInt8.not_lt.mp list, rfl, rfl⟩, fun size ok => by
        simp [ok, Except.map] at same⟩))
  · -- the header is read, and the value does not fit
    next header same =>
    obtain ⟨k', ts', cs'⟩ := header
    split at bad
    · next large =>
      simp only [List.length_cons] at large
      split_ifs at same with small short canon long list
      · simp only [Except.ok.injEq, Prod.mk.injEq] at same
        obtain ⟨rfl, rfl, rfl⟩ := same
        omega
      · simp only [Except.ok.injEq, Prod.mk.injEq] at same
        obtain ⟨rfl, rfl, rfl⟩ := same
        exact .inr (.inl ⟨UInt8.not_lt.mp small, short, by omega⟩)
      · exact .inr (.inr (.inr ⟨.String, 0xB7, .inl ⟨UInt8.not_lt.mp short, long, rfl, rfl⟩, fun size ok => by
          simp only [ok, Except.map, Except.ok.injEq, Prod.mk.injEq] at same
          obtain ⟨rfl, rfl, rfl⟩ := same
          omega⟩))
      · simp only [Except.ok.injEq, Prod.mk.injEq] at same
        obtain ⟨rfl, rfl, rfl⟩ := same
        exact .inr (.inr (.inl ⟨UInt8.not_lt.mp long, list, by omega⟩))
      · exact .inr (.inr (.inr ⟨.List, 0xF7, .inr ⟨UInt8.not_lt.mp list, rfl, rfl⟩, fun size ok => by
          simp only [ok, Except.map, Except.ok.injEq, Prod.mk.injEq] at same
          obtain ⟨rfl, rfl, rfl⟩ := same
          omega⟩))
    · cases bad

/-- A size `readKind` accepts fits in the eight bytes of a long form. -/
theorem readKind_size_lt {b : Bytes} {k : Kind} {ts cs : Nat} (ok : readKind b = .ok (k, ts, cs)) :
    cs < 2 ^ 64 := by
  rcases b with _ | ⟨b0, rest⟩
  · cases ok
  obtain ⟨-, header⟩ := readKind_eq_ok ok
  rcases header with ⟨-, -, -, rfl⟩ | ⟨-, -, -, -, rfl, -⟩ | ⟨-, -, -, -, rfl⟩ | ⟨tag, long, -, size⟩
  · norm_num
  · exact lt_of_lt_of_le (UInt8.toNat_lt _) (by norm_num)
  · exact lt_of_lt_of_le (UInt8.toNat_lt _) (by norm_num)
  · obtain ⟨-, eight⟩ := long.positive
    obtain ⟨-, rfl, -, -⟩ := readSize_eq_ok.mp size
    calc beValue (rest.take (b0 - tag).toNat) < 256 ^ (rest.take (b0 - tag).toNat).length := beValue_lt _
      _ ≤ 256 ^ 8 := Nat.pow_le_pow_right (by norm_num) (by simp; omega)
      _ = 2 ^ 64 := by norm_num

/-- A string `readKind` accepts is not a single byte below `0x80` in a string of one. -/
theorem readKind_string_canonical {b : Bytes} {ts cs : Nat} (ok : readKind b = .ok (.String, ts, cs)) :
    ¬(cs = 1 ∧ ((b.drop ts).take cs).head?.any (fun c => decide (c < 128))) := by
  rcases b with _ | ⟨b0, rest⟩
  · cases ok
  obtain ⟨-, header⟩ := readKind_eq_ok ok
  rcases header with ⟨-, never, -⟩ | ⟨-, -, -, rfl, -, canonical⟩ | ⟨-, -, never, -⟩ | ⟨tag, -, -, size⟩
  · cases never
  · rintro ⟨rfl, small⟩
    rw [List.drop_one, List.tail_cons, List.head?_take, if_neg (by omega)] at small
    exact canonical ⟨rfl, small⟩
  · cases never
  · rintro ⟨rfl, -⟩
    have := (readSize_eq_ok.mp size).2.2.1
    omega

/-- A list header `readKind` accepts is the one `puthead` writes for its size. -/
theorem puthead_of_readKind_list {b : Bytes} {ts cs : Nat} (ok : readKind b = .ok (.List, ts, cs)) :
    puthead 0xC0 0xF7 cs = b.take ts := by
  rcases b with _ | ⟨b0, rest⟩
  · cases ok
  obtain ⟨-, header⟩ := readKind_eq_ok ok
  rcases header with ⟨-, never, -⟩ | ⟨-, -, never, -⟩ | ⟨lo, hi, -, rfl, rfl⟩ | ⟨tag, long, rfl, size⟩
  · cases never
  · cases never
  · -- a short list: the tag byte carries the size
    have short : (b0 - 0xC0).toNat < 56 := by
      rw [UInt8.toNat_sub_of_le _ _ lo]
      have hi' := UInt8.lt_iff_toNat_lt.mp hi
      simp at hi' ⊢
      omega
    simp [puthead, short]
  · rcases long with ⟨-, -, never, -⟩ | ⟨lo, -, rfl⟩
    · cases never
    -- a long list: the size bytes are the minimal big-endian form of the size
    obtain ⟨positive, eight⟩ := LongTag.positive (.inr ⟨lo, rfl, rfl⟩ : LongTag b0 .List 0xF7)
    obtain ⟨fits, rfl, large, canonical⟩ := readSize_eq_ok.mp size
    have bound : beValue (rest.take (b0 - 0xF7).toNat) < 2 ^ 64 := by
      calc beValue (rest.take (b0 - 0xF7).toNat) < 256 ^ (rest.take (b0 - 0xF7).toNat).length := beValue_lt _
        _ ≤ 256 ^ 8 := Nat.pow_le_pow_right (by norm_num) (by simp; omega)
        _ = 2 ^ 64 := by norm_num
    have minimal : putint (beValue (rest.take (b0 - 0xF7).toNat)) = rest.take (b0 - 0xF7).toNat := by
      rw [putint_eq_beBytes (by omega) bound, beBytes_beValue]
      rwa [List.head?_take, if_neg (by omega)]
    simp [puthead, Nat.not_lt.mpr large, minimal, Nat.min_eq_left fits]

/-- A string header `puthead` writes starts below the list tags. -/
theorem puthead_string_lt {size : Nat} (bound : size < 2 ^ 64) :
    ∃ h tail, puthead 0x80 0xB7 size = h :: tail ∧ h < 0xC0 := by
  unfold puthead
  split
  · next short =>
    refine ⟨_, _, rfl, UInt8.lt_iff_toNat_lt.mpr ?_⟩
    rw [UInt8.toNat_add]
    simp
    omega
  · next long =>
    have eight : (putint size).length ≤ 8 := by
      rw [putint_eq_beBytes (by omega) bound, length_beBytes_le_iff]
      omega
    refine ⟨_, _, rfl, UInt8.lt_iff_toNat_lt.mpr ?_⟩
    rw [UInt8.toNat_add]
    simp
    omega

namespace Stream

/-- A stream at toplevel over a byte slice: no list is open, and the limit is what the reader
holds, as `NewStream` sets it for a `bytes.Reader`. -/
structure Top (s : Stream) : Prop where
  stack : s.stack = []
  limited : s.limited = true
  remaining : s.remaining = s.r.length

theorem top_NewStream (b : Indigo.Bytes) : (NewStream b 0).Top := ⟨rfl, rfl, by simp [NewStream]⟩

/-- The stream after reading `n` bytes at toplevel. -/
def consume (s : Stream) (n : Nat) : Stream :=
  { s with kind := none, remaining := s.r.length - n, r := s.r.drop n }

theorem Top.consume {s : Stream} (top : s.Top) (n : Nat) : (s.consume n).Top :=
  ⟨top.stack, top.limited, by simp [Stream.consume]⟩

@[simp] theorem r_consume (s : Stream) (n : Nat) : (s.consume n).r = s.r.drop n := rfl

/-! ### Reads at toplevel -/

theorem go_willRead_top {s : Stream} (top : s.Top) (n : Nat) :
    (willRead n).go s = if n ≤ s.r.length then
      some (.ok (), { s with kind := none, remaining := s.r.length - n })
    else some (.error .ErrValueTooLarge, { s with kind := none }) := by
  by_cases fits : n ≤ s.r.length
  · simp [willRead, go_bind, top.stack, top.limited, top.remaining, fits, Nat.not_lt.mpr fits]
  · simp [willRead, go_bind, top.stack, top.limited, top.remaining, fits, Nat.lt_of_not_le fits]

theorem go_readByte_top {s : Stream} (top : s.Top) :
    readByte.go s = match s.r with
      | [] => some (.error .ErrValueTooLarge, { s with kind := none })
      | c :: _ => some (.ok c, s.consume 1) := by
  rw [readByte, go_bind, go_willRead_top top]
  rcases read : s.r with _ | ⟨c, rest⟩
  · simp
  · simp [go_bind, go_map, Except.map, Stream.consume, read]

theorem go_readFull_top {s : Stream} (top : s.Top) (n : Nat) :
    (readFull n).go s = if n ≤ s.r.length then some (.ok (s.r.take n), s.consume n)
    else some (.error .ErrValueTooLarge, { s with kind := none }) := by
  rw [readFull, go_bind, go_willRead_top top]
  by_cases fits : n ≤ s.r.length
  · simp [go_bind, go_map, Except.map, fits, Nat.not_lt.mpr fits, Stream.consume]
  · simp [fits]

theorem go_readUint_top {s : Stream} (top : s.Top) {slen : Nat} (positive : 0 < slen) :
    (readUint slen).go s = if slen ≤ s.r.length then
      (if 2 ≤ slen ∧ (s.r.take slen).head? = some 0 then some (.error .ErrCanonSize, s.consume slen)
       else some (.ok (beValue (s.r.take slen)), s.consume slen))
    else some (.error .ErrValueTooLarge, { s with kind := none }) := by
  rcases Nat.lt_or_ge slen 2 with one | two
  · obtain rfl : slen = 1 := by omega
    rw [readUint, go_bind, go_readByte_top top]
    cases s.r <;> simp [beValue]
  · obtain ⟨size, rfl⟩ : ∃ size, slen = size + 2 := ⟨slen - 2, by omega⟩
    simp only [readUint]
    rw [go_bind, go_readFull_top top]
    by_cases fits : size + 2 ≤ s.r.length
    · by_cases zero : (s.r.take (size + 2)).head? = some 0
      · simp [fits, zero]
      · simp [fits, zero]
    · simp [fits]


/-! ### The header, read by the stream -/

section Header

variable {t : Stream} {rest : Indigo.Bytes} {slen : UInt8}

/-- A long size that `readSize` accepts is what the stream reads. -/
theorem go_readUint_of_readSize (top : t.Top) (reads : t.r = rest) (positive : 0 < slen.toNat)
    {size : Nat} (ok : readSize rest slen = .ok size) :
    (readUint slen.toNat).go t = some (.ok size, t.consume slen.toNat) := by
  obtain ⟨fits, rfl, large, canonical⟩ := readSize_eq_ok.mp ok
  have notZero : ¬(rest.take slen.toNat).head? = some 0 := by
    rwa [List.head?_take, if_neg (by omega)]
  rw [go_readUint_top top positive, reads]
  simp [fits, notZero]

/-- A long size that `readSize` rejects makes the stream fail, or read a size below 56. -/
theorem go_readUint_of_readSize_error (top : t.Top) (reads : t.r = rest) (positive : 0 < slen.toNat)
    {e : Error} (bad : readSize rest slen = .error e) :
    (∃ e' t', (readUint slen.toNat).go t = some (.error e', t')) ∨
      ∃ v t', (readUint slen.toNat).go t = some (.ok v, t') ∧ v < 56 := by
  rw [go_readUint_top top positive, reads]
  by_cases fits : slen.toNat ≤ rest.length
  · by_cases zero : 2 ≤ slen.toNat ∧ (rest.take slen.toNat).head? = some 0
    · exact .inl ⟨.ErrCanonSize, t.consume slen.toNat, by simp [fits, zero]⟩
    · refine .inr ⟨beValue (rest.take slen.toNat), t.consume slen.toNat, by simp [fits, zero], ?_⟩
      -- `readSize` rejected a size of the right length: below 56, or led by a zero byte
      by_contra large
      have canonical : rest.head? ≠ some 0 := by
        intro first
        have one : slen.toNat = 1 := by
          rw [List.head?_take, if_neg (by omega)] at zero
          have small : ¬2 ≤ slen.toNat := fun two => zero ⟨two, first⟩
          omega
        rw [one] at large
        rcases rest with _ | ⟨c, rest⟩
        · simp at first
        · simp only [List.head?_cons, Option.some.injEq] at first
          simp [first, beValue] at large
      have := readSize_eq_ok.mpr ⟨fits, rfl, by omega, canonical⟩
      rw [this] at bad
      cases bad
  · exact .inl ⟨.ErrValueTooLarge, { t with kind := none }, by simp [fits, reads]⟩

variable {s : Stream} {b0 : UInt8}

theorem Top.byteval (top : t.Top) (v : UInt8) : ({ t with byteval := v } : Stream).Top :=
  ⟨top.stack, top.limited, top.remaining⟩

theorem go_readKind_byte (top : s.Top) (read : s.r = b0 :: rest) (small : b0 < 0x80) :
    readKind.go s = some (.ok (.Byte, 0, none), { s.consume 1 with byteval := b0 }) := by
  simp [readKind, go_bind, go_result, go_readByte_top top, read, small]
  rfl

theorem go_readKind_shortString (top : s.Top) (read : s.r = b0 :: rest) (lo : 0x80 ≤ b0) (hi : b0 < 0xB8) :
    readKind.go s = some (.ok (.String, (b0 - 0x80).toNat, none), { s.consume 1 with byteval := 0 }) := by
  have big : ¬b0 < 0x80 := UInt8.not_lt.mpr lo
  simp [readKind, go_bind, go_map, go_result, go_readByte_top top, read, big, hi, Except.map]

theorem go_readKind_shortList (top : s.Top) (read : s.r = b0 :: rest) (lo : 0xC0 ≤ b0) (hi : b0 < 0xF8) :
    readKind.go s = some (.ok (.List, (b0 - 0xC0).toNat, none), { s.consume 1 with byteval := 0 }) := by
  have lo' := UInt8.le_iff_toNat_le.mp lo
  have big : ¬b0 < 0x80 := by rw [UInt8.lt_iff_toNat_lt]; simp at lo' ⊢; omega
  have notShort : ¬b0 < 0xB8 := by rw [UInt8.lt_iff_toNat_lt]; simp at lo' ⊢; omega
  have notLong : ¬b0 < 0xC0 := UInt8.not_lt.mpr lo
  simp [readKind, go_bind, go_map, go_result, go_readByte_top top, read, big, notShort, notLong, hi, Except.map]

/-- The tests `readKind` makes on the tag of a long form. -/
theorem LongTag.tests {k : Rlp.Kind} {tag : UInt8} (long : LongTag b0 k tag) :
    ¬b0 < 0x80 ∧ ¬b0 < 0xB8 ∧
      ((k = .String ∧ tag = 0xB7 ∧ b0 < 0xC0) ∨ (k = .List ∧ tag = 0xF7 ∧ ¬b0 < 0xC0 ∧ ¬b0 < 0xF8)) := by
  rcases long with ⟨lo, hi, rfl, rfl⟩ | ⟨lo, rfl, rfl⟩
  · exact ⟨UInt8.not_lt.mpr (UInt8.le_trans (by decide) lo), UInt8.not_lt.mpr lo, .inl ⟨rfl, rfl, hi⟩⟩
  · refine ⟨UInt8.not_lt.mpr (UInt8.le_trans (by decide) lo), UInt8.not_lt.mpr (UInt8.le_trans (by decide) lo),
      .inr ⟨rfl, rfl, UInt8.not_lt.mpr (UInt8.le_trans (by decide) lo), UInt8.not_lt.mpr lo⟩⟩

/-- The stream reads the tag of a long form, then a size, which it flags below 56. -/
theorem go_readKind_long_size {k : Rlp.Kind} {tag : UInt8} (top : s.Top) (read : s.r = b0 :: rest)
    (long : LongTag b0 k tag) {v : Nat} {t : Stream}
    (run : (readUint (b0 - tag).toNat).go { s.consume 1 with byteval := 0 } = some (.ok v, t)) :
    readKind.go s = some (.ok (k, v, if v < 56 then some .ErrCanonSize else none), t) := by
  dsimp only at run
  obtain ⟨big, notShort, ⟨rfl, rfl, hi⟩ | ⟨rfl, rfl, notLong, notList⟩⟩ := LongTag.tests long
  · simp only [readKind, go_bind, go_result, go_readByte_top top, read, Option.map_some, go_modify, big, notShort,
      hi, if_false, if_true, run]
    simp
  · simp only [readKind, go_bind, go_result, go_readByte_top top, read, Option.map_some, go_modify, big, notShort,
      notLong, notList, if_false, run]
    simp

/-- The stream reads the tag of a long form, and fails to read the size: `readKind` hands the
error back. -/
theorem go_readKind_long_sizeError {k : Rlp.Kind} {tag : UInt8} (top : s.Top) (read : s.r = b0 :: rest)
    (long : LongTag b0 k tag) {e : Error} {t : Stream}
    (run : (readUint (b0 - tag).toNat).go { s.consume 1 with byteval := 0 } = some (.error e, t)) :
    readKind.go s = some (.ok (k, 0, some e), t) := by
  dsimp only at run
  obtain ⟨big, notShort, ⟨rfl, rfl, hi⟩ | ⟨rfl, rfl, notLong, notList⟩⟩ := LongTag.tests long
  · simp only [readKind, go_bind, go_result, go_readByte_top top, read, Option.map_some, go_modify, big, notShort,
      hi, if_false, if_true, run]
    simp
  · simp only [readKind, go_bind, go_result, go_readByte_top top, read, Option.map_some, go_modify, big, notShort,
      notLong, notList, if_false, run]
    simp

theorem go_readKind_long {k : Rlp.Kind} {tag : UInt8} (top : s.Top) (read : s.r = b0 :: rest)
    (long : LongTag b0 k tag) {size : Nat} (ok : readSize rest (b0 - tag) = .ok size) :
    readKind.go s = some (.ok (k, size, none), ({ s.consume 1 with byteval := 0 } : Stream).consume (b0 - tag).toNat) := by
  have large := (readSize_eq_ok.mp ok).2.2.1
  rw [go_readKind_long_size top read long (go_readUint_of_readSize ((top.consume 1).byteval 0)
    (by simp [Stream.consume, read]) long.positive.1 ok), if_neg (Nat.not_lt.mpr large)]

theorem go_readKind_long_error {k : Rlp.Kind} {tag : UInt8} (top : s.Top) (read : s.r = b0 :: rest)
    (long : LongTag b0 k tag) {e : Error} (bad : readSize rest (b0 - tag) = .error e) :
    ∃ size e' s', readKind.go s = some (.ok (k, size, some e'), s') := by
  rcases go_readUint_of_readSize_error ((top.consume 1).byteval 0) (by simp [Stream.consume, read])
    long.positive.1 bad with ⟨e', t, run⟩ | ⟨v, t, run, small⟩
  · exact ⟨0, e', t, go_readKind_long_sizeError top read long run⟩
  · exact ⟨v, .ErrCanonSize, t, by rw [go_readKind_long_size top read long run, if_pos small]⟩

/-- On an empty reader the stream's header read fails, and `readKind` hands the error back. -/
theorem go_readKind_nil {s : Stream} (top : s.Top) (empty : s.r = []) :
    ∃ e s', readKind.go s = some (.ok (.Byte, 0, some e), s') :=
  ⟨.EOF, { s with kind := none }, by
    simp [readKind, go_bind, go_map, Except.map, go_result, go_readByte_top top, empty, top.stack]⟩

end Header

/-! ### `Kind` at toplevel -/

/-- A toplevel stream holding the header of a value of kind `k` and size `size`, with `rest`
left in the reader. -/
structure Cached (s : Stream) (k : Rlp.Kind) (size : Nat) (rest : Indigo.Bytes) : Prop where
  top : s.Top
  reads : s.r = rest
  kind : s.kind = some k
  kinderr : s.kinderr = none
  cachedSize : s.size = size

section Kind

variable {s s1 : Stream} {k : Rlp.Kind} {size : Nat}

/-- At toplevel, `Kind` keeps the header the stream read if the value fits in the input. -/
theorem go_Kind_top (top : s.Top) (armed : s.kind = none)
    (read : readKind.go { s with kinderr := none } = some (.ok (k, size, none), s1)) (top1 : s1.Top)
    (fits : size ≤ s1.r.length) :
    ∃ s', Kind.go s = some (.ok (k, size), s') ∧ s'.Cached k size s1.r ∧ s'.byteval = s1.byteval := by
  simp only [armed, top.stack] at read
  refine ⟨{ s1 with kind := some k, size := size, kinderr := none }, ?_,
    ⟨⟨top1.stack, top1.limited, top1.remaining⟩, rfl, rfl, rfl, rfl⟩, rfl⟩
  simp [Kind, go_bind, go_map, Except.map, armed, top.stack, read, top1.stack, top1.limited, top1.remaining,
    Nat.not_lt.mpr fits]

/-- A header the stream cannot read makes `Kind` fail. -/
theorem go_Kind_top_headerError (top : s.Top) (armed : s.kind = none) {e : Error}
    (read : readKind.go { s with kinderr := none } = some (.ok (k, size, some e), s1)) :
    ∃ e' s', Kind.go s = some (.error e', s') := by
  simp only [armed, top.stack] at read
  exact ⟨e, { s1 with kind := some k, size := size, kinderr := some e }, by simp [Kind, go_bind, armed, top.stack, read]⟩

/-- A value larger than the input left makes `Kind` fail. -/
theorem go_Kind_top_tooLarge (top : s.Top) (armed : s.kind = none)
    (read : readKind.go { s with kinderr := none } = some (.ok (k, size, none), s1)) (top1 : s1.Top)
    (large : s1.r.length < size) :
    ∃ e' s', Kind.go s = some (.error e', s') := by
  simp only [armed, top.stack] at read
  exact ⟨.ErrValueTooLarge, { s1 with kind := some k, size := size, kinderr := some .ErrValueTooLarge }, by
    simp [Kind, go_bind, armed, top.stack, read, top1.stack, top1.limited, top1.remaining, large]⟩

end Kind

/-! ### A cached header decides `Bytes` and `Raw` -/

section Cached

variable {s : Stream} {size : Nat} {rest : Indigo.Bytes}

theorem go_Bytes_byte (cached : s.Cached .Byte size rest) :
    Bytes.go s = some (.ok [s.byteval], { s with kind := none }) := by
  simp [Bytes, go_bind, go_map, Except.map, go_Kind_cached cached.kind cached.kinderr]

theorem go_Bytes_string (cached : s.Cached .String size rest) (fits : size ≤ rest.length) :
    Bytes.go s = if size = 1 ∧ (rest.take size).head?.any (fun c => decide (c < 128)) then
      some (.error .ErrCanonSize, s.consume size) else some (.ok (rest.take size), s.consume size) := by
  simp only [Bytes, go_bind, go_Kind_cached cached.kind cached.kinderr, cached.cachedSize,
    go_readFull_top cached.top, cached.reads, fits, if_true]
  split <;> simp_all

theorem go_Bytes_list (cached : s.Cached .List size rest) :
    Bytes.go s = some (.error .ErrExpectedString, s) := by
  simp [Bytes, go_bind, go_Kind_cached cached.kind cached.kinderr]

theorem go_Raw_byte (cached : s.Cached .Byte size rest) :
    Raw.go s = some (.ok [s.byteval], { s with kind := none }) := by
  simp [Raw, go_bind, go_map, Except.map, go_Kind_cached cached.kind cached.kinderr]

theorem go_Raw_string (cached : s.Cached .String size rest) (fits : size ≤ rest.length) :
    Raw.go s = some (.ok (puthead 0x80 0xB7 size ++ rest.take size), s.consume size) := by
  simp [Raw, go_bind, go_map, Except.map, go_Kind_cached cached.kind cached.kinderr, cached.cachedSize,
    go_readFull_top cached.top, cached.reads, fits]

theorem go_Raw_list (cached : s.Cached .List size rest) (fits : size ≤ rest.length) :
    Raw.go s = some (.ok (puthead 0xC0 0xF7 size ++ rest.take size), s.consume size) := by
  simp [Raw, go_bind, go_map, Except.map, go_Kind_cached cached.kind cached.kinderr, cached.cachedSize,
    go_readFull_top cached.top, cached.reads, fits]

/-- `Bytes` after `Kind` has read a header is `Bytes` on the stream holding it. -/
theorem go_Bytes_of_Kind {s' : Stream} {k : Rlp.Kind} (kind : Kind.go s = some (.ok (k, size), s'))
    (cached : s'.Cached k size rest) : Bytes.go s = Bytes.go s' := by
  simp only [Bytes, go_bind, kind, go_Kind_cached cached.kind cached.kinderr, cached.cachedSize]

theorem go_Raw_of_Kind {s' : Stream} {k : Rlp.Kind} (kind : Kind.go s = some (.ok (k, size), s'))
    (cached : s'.Cached k size rest) : Raw.go s = Raw.go s' := by
  simp only [Raw, go_bind, kind, go_Kind_cached cached.kind cached.kinderr, cached.cachedSize]

theorem go_Bytes_of_Kind_error {s' : Stream} {e : Error} (kind : Kind.go s = some (.error e, s')) :
    Bytes.go s = some (.error e, s') := by
  simp only [Bytes, go_bind, kind]

theorem go_Raw_of_Kind_error {s' : Stream} {e : Error} (kind : Kind.go s = some (.error e, s')) :
    Raw.go s = some (.error e, s') := by
  simp only [Raw, go_bind, kind]

end Cached

/-! ### `Kind` reads the header `readKind` accepts -/

section Agree

variable {s : Stream}

/-- The stream with its cached error cleared, as `Kind` starts a header. -/
theorem Top.clear (top : s.Top) : ({ s with kinderr := none } : Stream).Top :=
  ⟨top.stack, top.limited, top.remaining⟩

theorem go_Kind_byte (top : s.Top) (armed : s.kind = none) {b0 : UInt8} {rest : Indigo.Bytes}
    (read : s.r = b0 :: rest) (small : b0 < 0x80) :
    ∃ s', Kind.go s = some (.ok (.Byte, 0), s') ∧ s'.Cached .Byte 0 rest ∧ s'.byteval = b0 := by
  have step := go_readKind_byte top.clear read small
  obtain ⟨s', kind, cached, byteval⟩ := go_Kind_top top armed step ((top.clear.consume 1).byteval b0) (by omega)
  exact ⟨s', kind, by simpa [Stream.consume, read] using cached, byteval⟩

/-- A header `readKind` accepts, other than a single byte, is the one `Kind` reads, and it
leaves the stream where `Split` puts the content. -/
theorem go_Kind_of_readKind (top : s.Top) (armed : s.kind = none) {k : Rlp.Kind} {ts cs : Nat}
    (ok : Rlp.readKind s.r = .ok (k, ts, cs)) (notByte : k ≠ .Byte) :
    ∃ s', Kind.go s = some (.ok (k, cs), s') ∧ s'.Cached k cs (s.r.drop ts) := by
  rcases read : s.r with _ | ⟨b0, rest⟩
  · rw [read] at ok
    cases ok
  rw [read] at ok
  obtain ⟨fits, header⟩ := readKind_eq_ok ok
  rcases header with ⟨-, rfl, -, -⟩ | ⟨lo, hi, rfl, rfl, rfl, -⟩ | ⟨lo, hi, rfl, rfl, rfl⟩ | ⟨tag, long, rfl, size⟩
  · exact absurd rfl notByte
  · have step := go_readKind_shortString top.clear read lo hi
    obtain ⟨s', kind, cached, -⟩ :=
      go_Kind_top top armed step ((top.clear.consume 1).byteval 0) (by simp [Stream.consume, read]; omega)
    exact ⟨s', kind, by simpa [Stream.consume, read] using cached⟩
  · have step := go_readKind_shortList top.clear read lo hi
    obtain ⟨s', kind, cached, -⟩ :=
      go_Kind_top top armed step ((top.clear.consume 1).byteval 0) (by simp [Stream.consume, read]; omega)
    exact ⟨s', kind, by simpa [Stream.consume, read] using cached⟩
  · have step := go_readKind_long top.clear read long size
    obtain ⟨s', kind, cached, -⟩ :=
      go_Kind_top top armed step (((top.clear.consume 1).byteval 0).consume _)
        (by simp [Stream.consume, read]; omega)
    have drop : (b0 :: rest).drop ((b0 - tag).toNat + 1) = rest.drop (b0 - tag).toNat := rfl
    refine ⟨s', kind, ?_⟩
    rw [drop]
    simpa [Stream.consume, read] using cached

/-- A header `readKind` rejects makes `Kind` fail, except a string of one byte below `0x80`,
which `Kind` reads. -/
theorem go_Kind_of_readKind_error (top : s.Top) (armed : s.kind = none) {e : Error}
    (bad : Rlp.readKind s.r = .error e) :
    (∃ e' s', Kind.go s = some (.error e', s')) ∨
      ∃ c rest, s.r = 0x81 :: c :: rest ∧ c < 0x80 ∧
        ∃ s', Kind.go s = some (.ok (.String, 1), s') ∧ s'.Cached .String 1 (c :: rest) := by
  rcases read : s.r with _ | ⟨b0, rest⟩
  · -- nothing to read: the stream's header read fails
    obtain ⟨e', s1, step⟩ := go_readKind_nil top.clear read
    exact .inl (go_Kind_top_headerError top armed step)
  rw [read] at bad
  rcases readKind_eq_error bad with ⟨lo, hi, one, small⟩ | ⟨lo, hi, large⟩ | ⟨lo, hi, large⟩ | ⟨k, tag, long, large⟩
  · -- a string of one byte below `0x80`
    have tag : b0 = 0x81 := by
      rw [UInt8.toNat_sub_of_le _ _ lo] at one
      apply UInt8.toNat_inj.mp
      simp at one ⊢
      omega
    subst tag
    rcases rest with _ | ⟨c, rest⟩
    · simp at small
    have below : c < 0x80 := by simpa using small
    have step := go_readKind_shortString top.clear read lo hi
    obtain ⟨s', kind, cached, -⟩ :=
      go_Kind_top top armed step ((top.clear.consume 1).byteval 0) (by simp [Stream.consume, read])
    exact .inr ⟨c, rest, rfl, below, s', kind, by simpa [Stream.consume, read] using cached⟩
  · have step := go_readKind_shortString top.clear read lo hi
    exact .inl (go_Kind_top_tooLarge top armed step ((top.clear.consume 1).byteval 0)
      (by simp [Stream.consume, read]; omega))
  · have step := go_readKind_shortList top.clear read lo hi
    exact .inl (go_Kind_top_tooLarge top armed step ((top.clear.consume 1).byteval 0)
      (by simp [Stream.consume, read]; omega))
  · rcases sized : Rlp.readSize rest (b0 - tag) with e' | n
    · obtain ⟨n, e'', s1, step⟩ := go_readKind_long_error top.clear read long sized
      exact .inl (go_Kind_top_headerError top armed step)
    · have step := go_readKind_long top.clear read long sized
      have beyond := large n sized
      exact .inl (go_Kind_top_tooLarge top armed step (((top.clear.consume 1).byteval 0).consume _)
        (by simp [Stream.consume, read]; omega))

end Agree

end Stream

/-! ### `Split` and the stream over the same bytes -/

section Outcomes

variable {b : Bytes}

/-- A stream over `b` has no header cached yet. -/
theorem armed_NewStream (b : Bytes) : (NewStream b 0).kind = none := rfl

/-- What `Split` returns as a string or a byte, `Bytes` returns, and it leaves the same rest. -/
theorem bytes_of_split {k : Kind} {c rest : Bytes} (split : Split b = .ok (k, c, rest)) (notList : k ≠ .List) :
    ∃ s', Stream.Bytes.go (NewStream b 0) = some (.ok c, s') ∧ s'.r = rest := by
  obtain ⟨ts, cs, read, rfl, rfl⟩ := split_eq_ok split
  have top := Stream.top_NewStream b
  have fits := (readKind_consumes read).1
  cases k with
  | List => exact absurd rfl notList
  | Byte =>
    rcases b with _ | ⟨b0, rest⟩
    · cases read
    obtain ⟨-, header⟩ := readKind_eq_ok read
    rcases header with ⟨small, -, rfl, rfl⟩ | ⟨-, -, never, -⟩ | ⟨-, -, never, -⟩ | ⟨tag, long, -⟩
    · obtain ⟨s', kind, cached, byteval⟩ := Stream.go_Kind_byte top (armed_NewStream _) rfl small
      refine ⟨_, by rw [Stream.go_Bytes_of_Kind kind cached, Stream.go_Bytes_byte cached, byteval]; rfl, ?_⟩
      simpa using cached.reads
    · cases never
    · cases never
    · rcases long with ⟨-, -, never, -⟩ | ⟨-, never, -⟩ <;> cases never
  | String =>
    obtain ⟨s', kind, cached⟩ := Stream.go_Kind_of_readKind top (armed_NewStream _) read (by simp)
    rw [r_NewStream] at cached
    have within : cs ≤ (b.drop ts).length := by simp only [List.length_drop]; omega
    refine ⟨_, by rw [Stream.go_Bytes_of_Kind kind cached, Stream.go_Bytes_string cached within,
      if_neg (readKind_string_canonical read)], ?_⟩
    simp [Stream.consume, cached.reads, List.drop_drop]

/-- A list is not a string to `Bytes`. -/
theorem bytes_of_split_list {c rest : Bytes} (split : Split b = .ok (.List, c, rest)) :
    ∃ e s', Stream.Bytes.go (NewStream b 0) = some (.error e, s') := by
  obtain ⟨ts, cs, read, -, -⟩ := split_eq_ok split
  obtain ⟨s', kind, cached⟩ := Stream.go_Kind_of_readKind (Stream.top_NewStream b) (armed_NewStream _) read (by simp)
  exact ⟨_, _, by rw [Stream.go_Bytes_of_Kind kind cached, Stream.go_Bytes_list cached]⟩

/-- What `Split` returns as a list, `Raw` returns with its own header: the bytes of the value,
led by a list tag. -/
theorem raw_of_split_list {c rest : Bytes} (split : Split b = .ok (.List, c, rest)) :
    ∃ s', Stream.Raw.go (NewStream b 0) = some (.ok (b.take (b.length - rest.length)), s') ∧
      s'.r = rest ∧ 0xC0 ≤ (b.take (b.length - rest.length)).headD 0 := by
  obtain ⟨ts, cs, read, -, rfl⟩ := split_eq_ok split
  obtain ⟨s', kind, cached⟩ := Stream.go_Kind_of_readKind (Stream.top_NewStream b) (armed_NewStream _) read (by simp)
  rw [r_NewStream] at cached
  obtain ⟨fits, positive⟩ := readKind_consumes read
  have within : cs ≤ (b.drop ts).length := by simp only [List.length_drop]; omega
  have whole : b.take ts ++ (b.drop ts).take cs = b.take (b.length - (b.drop (ts + cs)).length) := by
    rw [← List.take_add, List.length_drop]
    congr 1
    omega
  refine ⟨_, by rw [Stream.go_Raw_of_Kind kind cached, Stream.go_Raw_list cached within,
    puthead_of_readKind_list read, whole], by simp [Stream.consume, cached.reads, List.drop_drop], ?_⟩
  -- the value starts with the tag byte of a list
  replace positive : 0 < ts := by
    rcases positive with positive | ⟨never, -⟩
    · exact positive
    · cases never
  rcases b with _ | ⟨b0, rest⟩
  · cases read
  have head : ((b0 :: rest).take ((b0 :: rest).length - ((b0 :: rest).drop (ts + cs)).length)).headD 0 = b0 := by
    rw [List.length_drop, show (b0 :: rest).length - ((b0 :: rest).length - (ts + cs)) = (ts + cs - 1) + 1 by omega]
    rfl
  rw [head]
  obtain ⟨-, header⟩ := readKind_eq_ok read
  rcases header with ⟨-, never, -⟩ | ⟨-, -, never, -⟩ | ⟨lo, -⟩ | ⟨tag, long, -⟩
  · cases never
  · cases never
  · exact lo
  · rcases long with ⟨-, -, never, -⟩ | ⟨lo, -, -⟩
    · cases never
    · exact UInt8.le_trans (by decide) lo

/-- What `Split` returns as a string or a byte, `Raw` returns with a header below the list tags. -/
theorem raw_of_split_notList {k : Kind} {c rest : Bytes} (split : Split b = .ok (k, c, rest)) (notList : k ≠ .List)
    {raw : Bytes} {s' : Stream} (ran : Stream.Raw.go (NewStream b 0) = some (.ok raw, s')) : raw.headD 0 < 0xC0 := by
  obtain ⟨ts, cs, read, -, -⟩ := split_eq_ok split
  have top := Stream.top_NewStream b
  cases k with
  | List => exact absurd rfl notList
  | Byte =>
    rcases b with _ | ⟨b0, rest⟩
    · cases read
    obtain ⟨-, header⟩ := readKind_eq_ok read
    rcases header with ⟨small, -, rfl, rfl⟩ | ⟨-, -, never, -⟩ | ⟨-, -, never, -⟩ | ⟨tag, long, -⟩
    · obtain ⟨s1, kind, cached, byteval⟩ := Stream.go_Kind_byte top (armed_NewStream _) rfl small
      rw [Stream.go_Raw_of_Kind kind cached, Stream.go_Raw_byte cached, byteval] at ran
      cases ran
      exact UInt8.lt_trans small (by decide)
    · cases never
    · cases never
    · rcases long with ⟨-, -, never, -⟩ | ⟨-, never, -⟩ <;> cases never
  | String =>
    obtain ⟨s1, kind, cached⟩ := Stream.go_Kind_of_readKind top (armed_NewStream _) read (by simp)
    have within : cs ≤ (b.drop ts).length := by
      have := (readKind_consumes read).1
      simp only [List.length_drop]; omega
    obtain ⟨h, tail, header, below⟩ := puthead_string_lt (readKind_size_lt read)
    rw [Stream.go_Raw_of_Kind kind cached, Stream.go_Raw_string cached within, header] at ran
    cases ran
    exact below

/-- Where `Split` fails, `Bytes` fails, and `Raw` returns no list encoding. -/
theorem stream_of_split_error {e : Error} (split : Split b = .error e) :
    (∃ e' s', Stream.Bytes.go (NewStream b 0) = some (.error e', s')) ∧
      ∀ raw s', Stream.Raw.go (NewStream b 0) = some (.ok raw, s') → raw.headD 0 < 0xC0 := by
  have bad : readKind b = .error e := by
    rcases read : readKind b with e' | ⟨k, ts, cs⟩
    · simp [Split, read, bind, Except.bind] at split
      rw [split]
    · simp [Split, read, bind, Except.bind, pure, Except.pure] at split
  rcases Stream.go_Kind_of_readKind_error (Stream.top_NewStream b) (armed_NewStream _) bad with
    ⟨e', s', kind⟩ | ⟨c, rest, read, small, s', kind, cached⟩
  · refine ⟨⟨e', s', Stream.go_Bytes_of_Kind_error kind⟩, fun raw s'' ran => ?_⟩
    rw [Stream.go_Raw_of_Kind_error kind] at ran
    cases ran
  · -- a single byte below `0x80` in a string of one: `Bytes` reads it and rejects it
    have within : 1 ≤ (c :: rest).length := by simp
    refine ⟨⟨_, _, by rw [Stream.go_Bytes_of_Kind kind cached, Stream.go_Bytes_string cached within,
      if_pos ⟨rfl, by simpa using small⟩]⟩, fun raw s'' ran => ?_⟩
    rw [Stream.go_Raw_of_Kind kind cached, Stream.go_Raw_string cached within] at ran
    cases ran
    simp only [puthead, if_pos (show 1 < 56 by omega), List.cons_append, List.headD_cons]
    decide

end Outcomes

/-- `Split`, the slice decoder of trie nodes, and the `Stream` decoder agree on every byte
string: a string or a byte that `Split` takes apart is what `Bytes` reads, leaving the same
rest; a list that `Split` finds is what `Raw` reads, header and content, and nothing else
`Raw` reads starts with a list tag; a header that `readKind` accepts never claims more than
the input holds. -/
theorem split_agrees_with_stream (b : Bytes) :
    (∀ c rest, (∃ k, k ≠ .List ∧ Split b = .ok (k, c, rest)) ↔
      ∃ s', Stream.Bytes.go (NewStream b 0) = some (.ok c, s') ∧ s'.r = rest) ∧
    (∀ rest, (∃ c, Split b = .ok (.List, c, rest)) ↔
      ∃ raw s', Stream.Raw.go (NewStream b 0) = some (.ok raw, s') ∧ 0xC0 ≤ raw.headD 0 ∧
        raw = b.take (b.length - rest.length) ∧ s'.r = rest) ∧
    (∀ k ts cs, readKind b = .ok (k, ts, cs) → ts + cs ≤ b.length) := by
  refine ⟨fun c rest => ⟨?_, ?_⟩, fun rest => ⟨?_, ?_⟩, fun k ts cs read => (readKind_consumes read).1⟩
  · rintro ⟨k, notList, split⟩
    exact bytes_of_split split notList
  · -- `Bytes` succeeded: `Split` can neither fail nor find a list, and the stream is deterministic
    rintro ⟨s', ran, rfl⟩
    rcases split : Split b with e | ⟨k, c', rest'⟩
    · obtain ⟨⟨e', s'', fails⟩, -⟩ := stream_of_split_error split
      rw [fails] at ran
      cases ran
    by_cases list : k = .List
    · subst list
      obtain ⟨e', s'', fails⟩ := bytes_of_split_list split
      rw [fails] at ran
      cases ran
    obtain ⟨s'', ran', rfl⟩ := bytes_of_split split list
    rw [ran'] at ran
    simp only [Option.some.injEq, Prod.mk.injEq, Except.ok.injEq] at ran
    obtain ⟨rfl, rfl⟩ := ran
    exact ⟨k, list, rfl⟩
  · rintro ⟨c, split⟩
    obtain ⟨s', ran, reads, head⟩ := raw_of_split_list split
    exact ⟨_, s', ran, head, rfl, reads⟩
  · -- `Raw` read a list: `Split` can neither fail nor find a string
    rintro ⟨raw, s', ran, head, -, rfl⟩
    rcases split : Split b with e | ⟨k, c', rest'⟩
    · exact absurd head (UInt8.not_le.mpr ((stream_of_split_error split).2 _ _ ran))
    by_cases list : k = .List
    · subst list
      obtain ⟨s'', ran', rfl, -⟩ := raw_of_split_list split
      rw [ran'] at ran
      simp only [Option.some.injEq, Prod.mk.injEq, Except.ok.injEq] at ran
      obtain ⟨-, rfl⟩ := ran
      exact ⟨c', rfl⟩
    · exact absurd head (UInt8.not_le.mpr (raw_of_split_notList split list ran))

end Indigo.Rlp
