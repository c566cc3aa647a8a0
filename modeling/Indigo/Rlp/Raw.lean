import Indigo.Rlp.Encode

/-!
# Splitting raw RLP data

`rlp/raw.go`: `readKind` reads the header of the first value of a byte string,
rejecting the non-canonical forms a header can take, and `Split`, `SplitString`,
`SplitList` and `CountValues` are built on it.

## Main results

`split_encode`: on a canonical encoding followed by anything, `Split` returns the kind
and the payload of the value and the bytes after it. `countValues_encodeAll` counts the
values of a concatenation of encodings.
-/

namespace Indigo.Rlp

open Indigo.Lib

/-- The errors of the package, with `io.EOF` and `io.ErrUnexpectedEOF`. -/
inductive Error where
  | EOL
  | ErrExpectedString
  | ErrExpectedList
  | ErrCanonInt
  | ErrCanonSize
  | ErrElemTooLarge
  | ErrValueTooLarge
  | ErrMoreThanOneValue
  | errNotInList
  | errNotAtEOL
  | errUintOverflow
  | EOF
  | ErrUnexpectedEOF
  /-- A `decodeError` with its message, and any other formatted error. -/
  | message (msg : String)
deriving DecidableEq, Repr

/-- The kind of an RLP value. -/
inductive Kind where
  | Byte
  | String
  | List
deriving DecidableEq, Repr

/-- `readSize`: a long-form size of `slen` bytes. The source spells out the big-endian
value for each `slen` from 1 to 8, the only lengths a tag can give. -/
def readSize (b : Bytes) (slen : UInt8) : Except Error Nat :=
  if slen.toNat > b.length then .error .ErrUnexpectedEOF
  else
    let s := beValue (b.take slen.toNat)
    -- sizes below 56 have a short form, and a size must not start with a zero byte
    if s < 56 ∨ b.head? = some 0 then .error .ErrCanonSize else .ok s

/-- `readKind`: the kind, the tag size and the content size of the first value. -/
def readKind (buf : Bytes) : Except Error (Kind × Nat × Nat) :=
  match buf with
  | [] => .error .ErrUnexpectedEOF
  | b :: rest =>
    let header : Except Error (Kind × Nat × Nat) :=
      if b < 0x80 then .ok (.Byte, 0, 1)
      else if b < 0xB8 then
        let contentsize := (b - 0x80).toNat
        -- reject strings that should have been single bytes
        if contentsize = 1 ∧ rest.head?.any (fun c => decide (c < 128)) then
          .error .ErrCanonSize
        else .ok (.String, 1, contentsize)
      else if b < 0xC0 then
        (readSize rest (b - 0xB7)).map fun size => (.String, (b - 0xB7).toNat + 1, size)
      else if b < 0xF8 then .ok (.List, 1, (b - 0xC0).toNat)
      else (readSize rest (b - 0xF7)).map fun size => (.List, (b - 0xF7).toNat + 1, size)
    header.bind fun (k, tagsize, contentsize) =>
      -- reject values larger than the input slice
      if contentsize > buf.length - tagsize then .error .ErrValueTooLarge
      else .ok (k, tagsize, contentsize)

/-- `Split`: the kind and content of the first value and the bytes after it. -/
def Split (b : Bytes) : Except Error (Kind × Bytes × Bytes) := do
  let (k, ts, cs) ← readKind b
  return (k, (b.drop ts).take cs, b.drop (ts + cs))

/-- `SplitString`: the content of a leading string and the bytes after it. -/
def SplitString (b : Bytes) : Except Error (Bytes × Bytes) := do
  let (k, content, rest) ← Split b
  if k = .List then throw .ErrExpectedString
  return (content, rest)

/-- `SplitList`: the content of a leading list and the bytes after it. -/
def SplitList (b : Bytes) : Except Error (Bytes × Bytes) := do
  let (k, content, rest) ← Split b
  if k ≠ .List then throw .ErrExpectedList
  return (content, rest)

/-- `CountValues`: the number of values in `b`. Every round consumes at least a byte, so
the length of `b` bounds the rounds. -/
def CountValues (b : Bytes) : Except Error Nat := loop b.length b 0
where
  loop : Nat → Bytes → Nat → Except Error Nat
    | 0, _, i => .ok i
    | fuel + 1, b, i =>
      if b = [] then .ok i
      else do
        let (_, tagsize, size) ← readKind b
        loop fuel (b.drop (tagsize + size)) (i + 1)

/-! ### Every read makes progress -/

theorem readSize_le {rest : Bytes} {slen : UInt8} {size : Nat} (ok : readSize rest slen = .ok size) :
    slen.toNat ≤ rest.length := by
  unfold readSize at ok
  split at ok
  · simp at ok
  · omega

/-- The long forms of a header: a tag byte and a size of `slen` bytes. -/
private theorem long_header {rest : Bytes} {slen : UInt8} {k k' : Kind} {ts cs : Nat}
    (ok : (readSize rest slen).map (fun size => (k, slen.toNat + 1, size)) = .ok (k', ts, cs)) :
    ts ≤ rest.length + 1 ∧ 0 < ts ∧ k' = k := by
  rcases size : readSize rest slen with _ | n
  · simp [size, Except.map] at ok
  · simp only [size, Except.map, Except.ok.injEq, Prod.mk.injEq] at ok
    obtain ⟨rfl, rfl, rfl⟩ := ok
    have := readSize_le size
    exact ⟨by omega, by omega, rfl⟩

/-- A header read from `buf` lies within it, and only a single byte has no tag. -/
theorem readKind_consumes {buf : Bytes} {k : Kind} {ts cs : Nat}
    (ok : readKind buf = .ok (k, ts, cs)) :
    ts + cs ≤ buf.length ∧ (0 < ts ∨ k = .Byte ∧ cs = 1) := by
  cases buf with
  | nil => simp [readKind] at ok
  | cons b rest =>
    simp only [readKind, Except.bind] at ok
    split at ok
    · simp at ok
    · next header same =>
      obtain ⟨k', ts', cs'⟩ := header
      split at ok
      · simp at ok
      · next fits =>
        simp only [Except.ok.injEq, Prod.mk.injEq] at ok
        obtain ⟨rfl, rfl, rfl⟩ := ok
        -- the tag is the byte itself, one byte, or a byte and the size's bytes
        have tag : ts' ≤ rest.length + 1 ∧ (0 < ts' ∨ k' = .Byte ∧ cs' = 1) := by
          split_ifs at same
          all_goals first
            | (simp only [Except.ok.injEq, Prod.mk.injEq] at same
               obtain ⟨rfl, rfl, rfl⟩ := same
               simp)
            | (have long := long_header same; omega)
        simp only [List.length_cons] at fits ⊢
        exact ⟨by omega, tag.2⟩

/-- `Split` in terms of the header it reads. -/
theorem split_eq_ok {b content rest : Bytes} {k : Kind} (ok : Split b = .ok (k, content, rest)) :
    ∃ ts cs, readKind b = .ok (k, ts, cs) ∧ content = (b.drop ts).take cs ∧ rest = b.drop (ts + cs) := by
  rcases read : readKind b with _ | ⟨k', ts, cs⟩
  · simp [Split, read, bind, Except.bind] at ok
  · simp only [Split, read, bind, Except.bind, pure, Except.pure, Except.ok.injEq, Prod.mk.injEq] at ok
    obtain ⟨rfl, rfl, rfl⟩ := ok
    exact ⟨ts, cs, rfl, rfl, rfl⟩

theorem split_rest_lt {b content rest : Bytes} {k : Kind} (ok : Split b = .ok (k, content, rest)) :
    rest.length < b.length := by
  obtain ⟨ts, cs, read, -, rfl⟩ := split_eq_ok ok
  have := readKind_consumes read
  simp only [List.length_drop]
  omega

/-- The content of a list lies strictly inside its encoding. -/
theorem splitList_content_lt {b content rest : Bytes} (ok : SplitList b = .ok (content, rest)) :
    content.length < b.length := by
  simp only [SplitList, bind, Except.bind] at ok
  split at ok
  · simp at ok
  · next parts split =>
    obtain ⟨k, content', rest'⟩ := parts
    simp only [pure, Except.pure] at ok
    split at ok
    · simp at ok
    · next isList =>
      simp only [Except.ok.injEq, Prod.mk.injEq] at ok
      obtain ⟨rfl, -⟩ := ok
      obtain ⟨ts, cs, read, rfl, -⟩ := split_eq_ok split
      -- a list has a tag, so its content is shorter than the input
      have consumed := readKind_consumes read
      have tagged : 0 < ts := by
        rcases consumed.2 with tagged | ⟨rfl, -⟩
        · exact tagged
        · simp at isList
      simp only [List.length_take, List.length_drop]
      omega

theorem splitList_rest_lt {b content rest : Bytes} (ok : SplitList b = .ok (content, rest)) :
    rest.length < b.length := by
  simp only [SplitList, bind, Except.bind] at ok
  split at ok
  · simp at ok
  · next parts split =>
    obtain ⟨k, content', rest'⟩ := parts
    simp only [pure, Except.pure] at ok
    split at ok
    · simp at ok
    · simp only [Except.ok.injEq, Prod.mk.injEq] at ok
      obtain ⟨-, rfl⟩ := ok
      exact split_rest_lt split

theorem splitString_rest_lt {b content rest : Bytes} (ok : SplitString b = .ok (content, rest)) :
    rest.length < b.length := by
  simp only [SplitString, bind, Except.bind] at ok
  split at ok
  · simp at ok
  · next parts split =>
    obtain ⟨k, content', rest'⟩ := parts
    simp only [pure, Except.pure] at ok
    split at ok
    · simp at ok
    · simp only [Except.ok.injEq, Prod.mk.injEq] at ok
      obtain ⟨-, rfl⟩ := ok
      exact split_rest_lt split

/-! ### Reading back the canonical encoding -/

/-- The kind a value's header announces. -/
def Item.kind : Item → Kind
  | .str [b] => if b < 0x80 then .Byte else .String
  | .str _ => .String
  | .list _ => .List

/-- The bytes a value's header announces: a string's bytes, a list's element encodings. -/
def Item.payload : Item → Bytes
  | .str bs => bs
  | .list items => Item.encodeAll items

private theorem tag_toNat {t : UInt8} {n : Nat} (fits : t.toNat + n < 256) :
    (t + n.toUInt8).toNat = t.toNat + n := by
  simp only [UInt8.toNat_add, Nat.toUInt8, UInt8.toNat_ofNat']
  omega

private theorem tag_sub_toNat {t : UInt8} {n : Nat} (fits : t.toNat + n < 256) :
    (t + n.toUInt8 - t).toNat = n := by
  simp only [add_sub_cancel_left, Nat.toUInt8, UInt8.toNat_ofNat']
  omega

theorem readSize_beBytes {n : Nat} (long : 56 ≤ n) (bound : n < 2 ^ 64) (rest : Bytes) :
    readSize (beBytes n ++ rest) (beBytes n).length.toUInt8 = .ok n := by
  have fits : (beBytes n).length ≤ 8 := (length_beBytes_le_iff n 8).mpr (by omega)
  have small : ((beBytes n).length.toUInt8).toNat = (beBytes n).length := by
    simp only [Nat.toUInt8, UInt8.toNat_ofNat']
    omega
  have head : (beBytes n ++ rest).head? ≠ some 0 := by
    have nonempty : beBytes n ≠ [] := by
      rw [ne_eq, beBytes_eq_nil_iff]
      omega
    rw [List.head?_append_of_ne_nil _ nonempty]
    exact beBytes_head_ne_zero n
  have enough : ¬(beBytes n).length > (beBytes n ++ rest).length := by simp
  have canonical : ¬(n < 56 ∨ (beBytes n ++ rest).head? = some 0) := by
    rintro (short | zero)
    · omega
    · exact head zero
  simp only [readSize, small, if_neg enough, List.take_left, beValue_beBytes, if_neg canonical]

private theorem not_single_of_ge {payload : Bytes} (large : ∀ b, payload = [b] → 0x80 ≤ b) (rest : Bytes) :
    ¬(payload.length = 1 ∧ (payload ++ rest).head?.any (fun c => decide (c < 128))) := by
  rintro ⟨one, small⟩
  obtain ⟨b, rfl⟩ := List.length_eq_one_iff.mp one
  have big := large b rfl
  simp only [List.cons_append, List.head?_cons, Option.any_some, decide_eq_true_eq] at small
  exact absurd small (UInt8.not_lt.mpr big)

theorem readKind_string_header {payload : Bytes} (bound : payload.length < 2 ^ 64)
    (large : ∀ b, payload = [b] → 0x80 ≤ b) (rest : Bytes) :
    readKind (header 0x80 0xB7 payload.length ++ payload ++ rest) =
      .ok (.String, (header 0x80 0xB7 payload.length).length, payload.length) := by
  unfold header
  split
  · next short =>
    have tag := tag_toNat (t := 0x80) (n := payload.length) (by simp; omega)
    have tagsub := tag_sub_toNat (t := 0x80) (n := payload.length) (by simp; omega)
    have notByte : ¬(0x80 + payload.length.toUInt8 : UInt8) < 0x80 := by
      rw [UInt8.lt_iff_toNat_lt, tag]; simp
    have isString : (0x80 + payload.length.toUInt8 : UInt8) < 0xB8 := by
      rw [UInt8.lt_iff_toNat_lt, tag]; simp; omega
    simp only [List.cons_append, List.nil_append]
    simp only [readKind, if_neg notByte, if_pos isString, tagsub]
    rw [if_neg (not_single_of_ge large rest)]
    simp [Except.bind]
  · next long =>
    have fits : (beBytes payload.length).length ≤ 8 :=
      (length_beBytes_le_iff _ 8).mpr (by omega)
    have positive : 0 < (beBytes payload.length).length := by
      rw [List.length_pos_iff, ne_eq, beBytes_eq_nil_iff]; omega
    have tag := tag_toNat (t := 0xB7) (n := (beBytes payload.length).length) (by simp; omega)
    have notByte : ¬(0xB7 + (beBytes payload.length).length.toUInt8 : UInt8) < 0x80 := by
      rw [UInt8.lt_iff_toNat_lt, tag]; simp; omega
    have notShort : ¬(0xB7 + (beBytes payload.length).length.toUInt8 : UInt8) < 0xB8 := by
      rw [UInt8.lt_iff_toNat_lt, tag]; simp; omega
    have isString : (0xB7 + (beBytes payload.length).length.toUInt8 : UInt8) < 0xC0 := by
      rw [UInt8.lt_iff_toNat_lt, tag]; simp; omega
    simp only [List.cons_append, List.append_assoc]
    simp only [readKind, if_neg notByte, if_neg notShort,
      if_pos isString, add_sub_cancel_left, readSize_beBytes (by omega) bound, Except.map]
    simp only [Nat.toUInt8, UInt8.toNat_ofNat', Nat.mod_eq_of_lt (by omega : (beBytes payload.length).length < 256)]
    simp [Except.bind]

private theorem length_beBytes_bounds {n : Nat} (long : ¬n < 56) (bound : n < 2 ^ 64) :
    0 < (beBytes n).length ∧ (beBytes n).length ≤ 8 := by
  constructor
  · rw [List.length_pos_iff, ne_eq, beBytes_eq_nil_iff]
    omega
  · exact (length_beBytes_le_iff _ 8).mpr (by omega)

theorem readKind_list_header {payload : Bytes} (bound : payload.length < 2 ^ 64) (rest : Bytes) :
    readKind (header 0xC0 0xF7 payload.length ++ payload ++ rest) =
      .ok (.List, (header 0xC0 0xF7 payload.length).length, payload.length) := by
  unfold header
  split
  · next short =>
    have tag := tag_toNat (t := 0xC0) (n := payload.length) (by simp; omega)
    have tagsub := tag_sub_toNat (t := 0xC0) (n := payload.length) (by simp; omega)
    -- the tag lies in the short-list range [0xC0, 0xF7]
    have notByte : ¬(0xC0 + payload.length.toUInt8 : UInt8) < 0x80 := by
      rw [UInt8.lt_iff_toNat_lt, tag]; simp; omega
    have notShort : ¬(0xC0 + payload.length.toUInt8 : UInt8) < 0xB8 := by
      rw [UInt8.lt_iff_toNat_lt, tag]; simp; omega
    have notLong : ¬(0xC0 + payload.length.toUInt8 : UInt8) < 0xC0 := by
      rw [UInt8.lt_iff_toNat_lt, tag]; simp
    have isList : (0xC0 + payload.length.toUInt8 : UInt8) < 0xF8 := by
      rw [UInt8.lt_iff_toNat_lt, tag]; simp; omega
    simp only [List.cons_append, List.nil_append]
    simp only [readKind, if_neg notByte, if_neg notShort, if_neg notLong, if_pos isList, tagsub]
    simp [Except.bind]
  · next long =>
    obtain ⟨positive, fits⟩ := length_beBytes_bounds long bound
    have tag := tag_toNat (t := 0xF7) (n := (beBytes payload.length).length) (by simp; omega)
    -- the tag lies in the long-list range [0xF8, 0xFF]
    have notByte : ¬(0xF7 + (beBytes payload.length).length.toUInt8 : UInt8) < 0x80 := by
      rw [UInt8.lt_iff_toNat_lt, tag]; simp; omega
    have notShort : ¬(0xF7 + (beBytes payload.length).length.toUInt8 : UInt8) < 0xB8 := by
      rw [UInt8.lt_iff_toNat_lt, tag]; simp; omega
    have notLong : ¬(0xF7 + (beBytes payload.length).length.toUInt8 : UInt8) < 0xC0 := by
      rw [UInt8.lt_iff_toNat_lt, tag]; simp; omega
    have notShortList : ¬(0xF7 + (beBytes payload.length).length.toUInt8 : UInt8) < 0xF8 := by
      rw [UInt8.lt_iff_toNat_lt, tag]; simp; omega
    simp only [List.cons_append, List.append_assoc]
    simp only [readKind, if_neg notByte, if_neg notShort, if_neg notLong, if_neg notShortList,
      add_sub_cancel_left, readSize_beBytes (by omega) bound, Except.map]
    simp only [Nat.toUInt8, UInt8.toNat_ofNat', Nat.mod_eq_of_lt (by omega : (beBytes payload.length).length < 256)]
    simp [Except.bind]

theorem readKind_byte {b : UInt8} (small : b < 0x80) (rest : Bytes) :
    readKind (b :: rest) = .ok (.Byte, 0, 1) := by
  simp [readKind, small, Except.bind]

theorem payload_suffix (it : Item) : it.payload <:+ it.encode := by
  cases it with
  | str bs =>
    by_cases single : ∃ b, bs = [b] ∧ b < 0x80
    · obtain ⟨b, rfl, small⟩ := single
      simp [Item.payload, encode_str_single small]
    · have notSingle : ∀ b, bs = [b] → 0x80 ≤ b := fun b same =>
        UInt8.not_lt.mp fun small => single ⟨b, same, small⟩
      rw [encode_str_of_not_single bs notSingle]
      exact List.suffix_append _ _
  | list items =>
    rw [encode_list]
    exact List.suffix_append _ _

theorem readKind_encode (it : Item) (small : it.Small) (rest : Bytes) :
    readKind (it.encode ++ rest) =
      .ok (it.kind, it.encode.length - it.payload.length, it.payload.length) := by
  cases it with
  | str bs =>
    by_cases single : ∃ b, bs = [b] ∧ b < 0x80
    · obtain ⟨b, rfl, byte⟩ := single
      simp [encode_str_single byte, readKind_byte byte, Item.kind, byte, Item.payload]
    · have notSingle : ∀ b, bs = [b] → 0x80 ≤ b := fun b same =>
        UInt8.not_lt.mp fun small => single ⟨b, same, small⟩
      -- only a single byte below `0x80` is its own kind; any other string has a header
      have kind : (Item.str bs).kind = .String := by
        rcases bs with _ | ⟨b, _ | ⟨_, _⟩⟩
        · rfl
        · simp [Item.kind, UInt8.not_lt.mpr (notSingle b rfl)]
        · rfl
      rw [encode_str_of_not_single bs notSingle, readKind_string_header small notSingle, kind]
      simp [Item.payload]
  | list items =>
    rw [encode_list, readKind_list_header small.1]
    simp [Item.kind, Item.payload]

/-- `Split` takes a canonical encoding apart into the kind and payload of its value. -/
theorem split_encode (it : Item) (small : it.Small) (rest : Bytes) :
    Split (it.encode ++ rest) = .ok (it.kind, it.payload, rest) := by
  obtain ⟨head, shape⟩ := payload_suffix it
  have kind := readKind_encode it small rest
  rw [← shape, List.append_assoc] at kind ⊢
  simp only [Split, kind, List.length_append, Nat.add_sub_cancel]
  simp [bind, Except.bind, pure, Except.pure]

theorem kind_str_ne_list (bs : Bytes) : (Item.str bs).kind ≠ .List := by
  match bs with
  | [b] => by_cases small : b < 0x80 <;> simp [Item.kind, small]
  | [] => simp [Item.kind]
  | _ :: _ :: _ => simp [Item.kind]

theorem splitString_encode {bs : Bytes} (bound : bs.length < 2 ^ 64) (rest : Bytes) :
    SplitString ((Item.str bs).encode ++ rest) = .ok (bs, rest) := by
  simp [SplitString, split_encode (.str bs) bound rest, kind_str_ne_list, Item.payload, bind,
    Except.bind, pure, Except.pure]

theorem splitList_encode {items : List Item} (small : (Item.list items).Small) (rest : Bytes) :
    SplitList ((Item.list items).encode ++ rest) = .ok (Item.encodeAll items, rest) := by
  simp [SplitList, split_encode (.list items) small rest, Item.kind, Item.payload, bind,
    Except.bind, pure, Except.pure]

theorem length_encode_pos (it : Item) : 0 < it.encode.length := by
  match it with
  | .str [b] => by_cases small : b < 0x80 <;> simp [Item.encode, small, header]
  | .str [] => simp [Item.encode, header]
  | .str (_ :: _ :: _) => simp [Item.encode]
  | .list items =>
    simp only [encode_list, List.length_append, length_header]
    split <;> omega

private theorem countValues_loop (items : List Item) (small : Item.SmallAll items) (fuel i : Nat)
    (enough : (Item.encodeAll items).length ≤ fuel) :
    CountValues.loop fuel (Item.encodeAll items) i = .ok (i + items.length) := by
  induction items generalizing fuel i with
  | nil => cases fuel <;> simp [CountValues.loop]
  | cons it rest ih =>
    -- every encoding takes a byte, so the fuel lasts one round more than the rest needs
    have positive := length_encode_pos it
    have within := (payload_suffix it).length_le
    rw [encodeAll_cons, List.length_append] at enough
    obtain ⟨fuel, rfl⟩ : ∃ f, fuel = f + 1 := ⟨fuel - 1, by omega⟩
    have notEmpty : it.encode ++ Item.encodeAll rest ≠ [] :=
      List.ne_nil_of_length_pos (by simp only [List.length_append]; omega)
    have consumed : it.encode.length - it.payload.length + it.payload.length = it.encode.length := by
      omega
    simp only [encodeAll_cons, CountValues.loop, if_neg notEmpty, readKind_encode it small.1,
      bind, Except.bind, consumed, List.drop_left]
    rw [ih small.2 fuel (i + 1) (by omega)]
    simp [Nat.add_assoc, Nat.add_comm 1]

/-- `CountValues` counts the values of a concatenation of canonical encodings. -/
theorem countValues_encodeAll (items : List Item) (small : Item.SmallAll items) :
    CountValues (Item.encodeAll items) = .ok items.length := by
  simp [CountValues, countValues_loop items small _ 0 le_rfl]

end Indigo.Rlp
