import Indigo.Rlp.Item

/-!
# The RLP encode buffer

`encbuf` of `rlp/encode.go`. String data is appended to `str` as it is produced, while
list headers, whose size is known only once the list is complete, are kept aside in
`lheads` and spliced in by `toBytes`. `lhsize` counts the bytes of the headers already
closed, so `size` is the length of the final encoding at every point.

## Main result

`toBytes_writeItem`: writing a value through `encodeString`, `list` and `listEnd`, as
every writer of the package does, produces its canonical encoding `Item.encode`.
-/

namespace Indigo.Rlp

open Indigo.Lib

/-- `putint`: `i` in big-endian order, in the fewest bytes and at least one. -/
def putint (i : Nat) : Bytes :=
  if i < 2 ^ 8 then [i.toUInt8]
  else if i < 2 ^ 16 then [(i >>> 8).toUInt8, i.toUInt8]
  else if i < 2 ^ 24 then [(i >>> 16).toUInt8, (i >>> 8).toUInt8, i.toUInt8]
  else if i < 2 ^ 32 then [(i >>> 24).toUInt8, (i >>> 16).toUInt8, (i >>> 8).toUInt8, i.toUInt8]
  else if i < 2 ^ 40 then
    [(i >>> 32).toUInt8, (i >>> 24).toUInt8, (i >>> 16).toUInt8, (i >>> 8).toUInt8, i.toUInt8]
  else if i < 2 ^ 48 then
    [(i >>> 40).toUInt8, (i >>> 32).toUInt8, (i >>> 24).toUInt8, (i >>> 16).toUInt8,
      (i >>> 8).toUInt8, i.toUInt8]
  else if i < 2 ^ 56 then
    [(i >>> 48).toUInt8, (i >>> 40).toUInt8, (i >>> 32).toUInt8, (i >>> 24).toUInt8,
      (i >>> 16).toUInt8, (i >>> 8).toUInt8, i.toUInt8]
  else
    [(i >>> 56).toUInt8, (i >>> 48).toUInt8, (i >>> 40).toUInt8, (i >>> 32).toUInt8,
      (i >>> 24).toUInt8, (i >>> 16).toUInt8, (i >>> 8).toUInt8, i.toUInt8]

/-- `intsize`: the number of bytes `putint` uses. The source shifts `i` right by a byte
until it is zero; a `uint64` needs at most eight rounds. -/
def intsize (i : Nat) : Nat := loop 8 (i >>> 8) 1
where
  loop : Nat → Nat → Nat → Nat
    | 0, _, size => size
    | fuel + 1, i, size => if i = 0 then size else loop fuel (i >>> 8) (size + 1)

/-- `headsize`: the size of a string or list header for a payload of `size` bytes. -/
def headsize (size : Nat) : Nat :=
  if size < 56 then 1 else 1 + intsize size

/-- `puthead`: a string or list header with the given tags. -/
def puthead (smalltag largetag : UInt8) (size : Nat) : Bytes :=
  if size < 56 then [smalltag + size.toUInt8]
  else
    let sizebuf := putint size
    (largetag + sizebuf.length.toUInt8) :: sizebuf

/-! ### `putint` and `intsize` are the minimal big-endian representation -/

theorem shiftRight_eight (i : Nat) : i >>> 8 = i / 256 := by
  simp [Nat.shiftRight_eq_div_pow]

theorem intsize_loop (fuel i size : Nat) (bound : i < 256 ^ fuel) :
    intsize.loop fuel i size = size + (beBytes i).length := by
  induction fuel generalizing i size with
  | zero =>
    have zero : i = 0 := by simpa using bound
    simp [intsize.loop, zero]
  | succ fuel ih =>
    rw [intsize.loop]
    split
    next zero => simp [zero]
    next positive =>
      have quotient : i >>> 8 < 256 ^ fuel := by
        rw [shiftRight_eight]
        rw [pow_succ] at bound
        omega
      rw [ih _ _ quotient, length_beBytes_of_pos (Nat.pos_of_ne_zero positive), shiftRight_eight]
      omega

theorem intsize_eq {n : Nat} (positive : 0 < n) (bound : n < 2 ^ 64) :
    intsize n = (beBytes n).length := by
  have quotient : n >>> 8 < 256 ^ 8 := by
    rw [shiftRight_eight]
    omega
  rw [intsize, intsize_loop _ _ _ quotient, length_beBytes_of_pos positive, shiftRight_eight]
  omega

@[simp] theorem toNat_toUInt8 (n : Nat) : n.toUInt8.toNat = n % 256 := by
  simp [Nat.toUInt8]

theorem beValue_putint {n : Nat} (bound : n < 2 ^ 64) : beValue (putint n) = n := by
  unfold putint
  simp only [Nat.shiftRight_eq_div_pow]
  split_ifs <;> simp only [beValue_cons, beValue_nil, toNat_toUInt8, List.length_cons,
    List.length_nil] <;> omega

theorem head_putint {n : Nat} (positive : 0 < n) (bound : n < 2 ^ 64) : (putint n).head? ≠ some 0 := by
  unfold putint
  simp only [Nat.shiftRight_eq_div_pow]
  split_ifs <;> simp only [List.head?_cons, ne_eq, Option.some.injEq] <;> intro zero <;>
    have := congrArg UInt8.toNat zero <;> simp only [toNat_toUInt8, UInt8.toNat_zero] at this <;> omega

/-- Below `2^64`, `putint` is the minimal big-endian representation. -/
theorem putint_eq_beBytes {n : Nat} (positive : 0 < n) (bound : n < 2 ^ 64) : putint n = beBytes n := by
  conv_rhs => rw [← beValue_putint bound]
  exact (beBytes_beValue _ (head_putint positive bound)).symm

theorem puthead_eq_header (small large : UInt8) {size : Nat} (bound : size < 2 ^ 64) :
    puthead small large size = header small large size := by
  unfold puthead header
  split
  · rfl
  · next long => rw [putint_eq_beBytes (by omega) bound]

theorem headsize_eq {size : Nat} (bound : size < 2 ^ 64) (small large : UInt8) :
    headsize size = (header small large size).length := by
  rw [length_header, headsize]
  split
  · rfl
  · next long => rw [intsize_eq (by omega) bound]

/-! ### The buffer -/

/-- A deferred list header: where it goes in the string data, and the payload size. -/
structure Listhead where
  offset : Nat
  size : Nat

/-- `listhead.encode`. -/
def Listhead.encode (head : Listhead) : Bytes := puthead 0xC0 0xF7 head.size

/-- `encbuf`. -/
structure Encbuf where
  str : Bytes
  lheads : List Listhead
  lhsize : Nat

namespace Encbuf

/-- A reset buffer. -/
def empty : Encbuf := ⟨[], [], 0⟩

/-- `w.str = append(w.str, b...)`. -/
def write (w : Encbuf) (b : Bytes) : Encbuf := { w with str := w.str ++ b }

-- the lemmas of this part compute `write` by `simp`
attribute [local simp] write

@[simp] theorem write_nil (w : Encbuf) : w.write [] = w := by simp

@[simp] theorem write_write (w : Encbuf) (a b : Bytes) : (w.write a).write b = w.write (a ++ b) := by
  simp

/-- `encbuf.size`: string data plus the closed list headers. -/
def size (w : Encbuf) : Nat := w.str.length + w.lhsize

/-- `encbuf.encodeStringHeader`. -/
def encodeStringHeader (w : Encbuf) (size : Nat) : Encbuf :=
  if size < 56 then w.write [0x80 + size.toUInt8]
  else
    let sizebuf := putint size
    w.write ((0xB7 + sizebuf.length.toUInt8) :: sizebuf)

/-- `encbuf.encodeString`: a single byte below `0x80` is written without a header. -/
def encodeString (w : Encbuf) (b : Bytes) : Encbuf :=
  match b with
  | [b0] => if b0 ≤ 0x7F then w.write [b0] else (w.encodeStringHeader 1).write [b0]
  | b => (w.encodeStringHeader b.length).write b

theorem encodeString_nil (w : Encbuf) : w.encodeString [] = w.write [0x80] := by
  simp [encodeString, encodeStringHeader]

/-- `encbuf.list`: open a list header; the returned index stands for the `*listhead`. -/
def list (w : Encbuf) : Encbuf × Nat :=
  ({ w with lheads := w.lheads ++ [⟨w.str.length, w.lhsize⟩] }, w.lheads.length)

/-- `encbuf.listEnd`: the header's `size` held `lhsize` at opening, so the payload is
everything written since. -/
def listEnd (w : Encbuf) (lh : Nat) : Encbuf :=
  let head := w.lheads.getD lh ⟨0, 0⟩
  let size := w.size - head.offset - head.size
  { w with
    lheads := w.lheads.set lh ⟨head.offset, size⟩
    lhsize := if size < 56 then w.lhsize + 1 else w.lhsize + 1 + intsize size }

/-- The loop of `toBytes` from string position `strpos`: the string data before each
header, the header, and the data after the last one. -/
def render (str : Bytes) : List Listhead → Nat → Bytes
  | [], strpos => str.drop strpos
  | head :: heads, strpos =>
    (str.drop strpos).take (head.offset - strpos) ++ head.encode ++ render str heads head.offset

/-- `encbuf.toBytes`. -/
def toBytes (w : Encbuf) : Bytes := render w.str w.lheads 0

end Encbuf

mutual

/-- Write a value the way the writers of the package do: strings through
`encodeString`, lists between `list` and `listEnd`. -/
def Encbuf.writeItem (w : Encbuf) : Item → Encbuf
  | .str b => w.encodeString b
  | .list items =>
    let (opened, lh) := w.list
    (opened.writeAll items).listEnd lh

/-- Write the elements of a list in order. -/
def Encbuf.writeAll (w : Encbuf) : List Item → Encbuf
  | [] => w
  | it :: rest => (w.writeItem it).writeAll rest

end

/-! ### Appending a buffer after another -/

namespace Encbuf

/-- Move a header `n` bytes further into the string data. -/
def shiftHead (n : Nat) (h : Listhead) : Listhead := ⟨n + h.offset, h.size⟩

/-- The buffer `v` written after `w`. -/
def append (w v : Encbuf) : Encbuf :=
  ⟨w.str ++ v.str, w.lheads ++ v.lheads.map (shiftHead w.str.length), w.lhsize + v.lhsize⟩

-- the lemmas of this part compute `append` by `simp`
attribute [local simp] append

section Rendering

-- the lemmas of this section compute `render` by `simp`
attribute [local simp] render

theorem render_shift (S T : Bytes) (K : List Listhead) (q : Nat) :
    render (S ++ T) (K.map (shiftHead S.length)) (S.length + q) = render T K q := by
  induction K generalizing q with
  | nil => simp
  | cons k K ih =>
    simp only [List.map_cons, render, shiftHead, Listhead.encode, List.drop_length_add_append,
      Nat.add_sub_add_left, ih]

theorem render_append_heads (S T : Bytes) (K : List Listhead) {p : Nat} (start : p ≤ S.length) :
    render (S ++ T) (K.map (shiftHead S.length)) p = S.drop p ++ render T K 0 := by
  cases K with
  | nil => simp [List.drop_append_of_le_length start]
  | cons k K =>
    simp only [List.map_cons, render, shiftHead, Listhead.encode, render_shift,
      List.drop_append_of_le_length start, List.take_append, List.length_drop, List.drop_zero,
      Nat.sub_zero, List.append_assoc]
    have whole : S.length - p ≤ S.length + k.offset - p := by omega
    rw [List.take_of_length_le (by simpa using whole)]
    have consumed : S.length + k.offset - p - (S.length - p) = k.offset := by omega
    rw [consumed]

theorem render_append (S T : Bytes) (H K : List Listhead) {p : Nat} (start : p ≤ S.length)
    (bounded : ∀ h ∈ H, h.offset ≤ S.length) :
    render (S ++ T) (H ++ K.map (shiftHead S.length)) p = render S H p ++ render T K 0 := by
  induction H generalizing p with
  | nil => simp [render_append_heads S T K start]
  | cons h H ih =>
    have within := bounded h (by simp)
    simp only [List.cons_append, render, List.append_assoc]
    rw [ih within (fun h' member => bounded h' (by simp [member])),
      List.drop_append_of_le_length start, List.take_append_of_le_length (by simp; omega)]

end Rendering

@[simp] theorem append_empty (w : Encbuf) : w.append empty = w := by
  simp [empty]

theorem shiftHead_shiftHead (a b : Nat) (h : Listhead) :
    shiftHead a (shiftHead b h) = shiftHead (a + b) h := by
  simp [shiftHead, Nat.add_assoc]

theorem append_assoc (u v w : Encbuf) : (u.append v).append w = u.append (v.append w) := by
  simp only [append, List.append_assoc, List.map_append, List.map_map, List.length_append,
    Nat.add_assoc, mk.injEq, true_and]
  refine ⟨?_, trivial⟩
  congr 2
  apply List.map_congr_left
  intro h _
  simp [shiftHead_shiftHead]

theorem write_eq_append (w : Encbuf) (b : Bytes) : w.write b = w.append (empty.write b) := by
  simp [write, empty]

theorem encodeString_eq_write (w : Encbuf) (b : Bytes) :
    w.encodeString b = w.write (empty.encodeString b).str := by
  unfold encodeString encodeStringHeader
  split
  · split <;> simp [write, empty]
  · split <;> simp [write, empty]

theorem listEnd_split (pre post : List Listhead) (head : Listhead) (str : Bytes) (lhsize : Nat) :
    (Encbuf.mk str (pre ++ head :: post) lhsize).listEnd pre.length =
      let size := str.length + lhsize - head.offset - head.size
      ⟨str, pre ++ ⟨head.offset, size⟩ :: post, lhsize + headsize size⟩ := by
  simp only [listEnd, size, List.getD_eq_getElem?_getD, List.getElem?_append_right (Nat.le_refl _),
    Nat.sub_self, List.getElem?_cons_zero, Option.getD_some, List.set_append_right _ _ (Nat.le_refl _),
    List.set_cons_zero, headsize]
  split <;> simp [Nat.add_assoc]

/-- A list written after `w`: its header opens at the end of `w`'s string data and
closes on the payload written by its elements. -/
theorem writeItem_list (w : Encbuf) (items : List Item)
    (frame : ∀ u : Encbuf, u.writeAll items = u.append (empty.writeAll items)) :
    w.writeItem (.list items) =
      let inner := empty.writeAll items
      let size := inner.str.length + inner.lhsize
      ⟨w.str ++ inner.str, w.lheads ++ ⟨w.str.length, size⟩ :: inner.lheads.map (shiftHead w.str.length),
        w.lhsize + inner.lhsize + headsize size⟩ := by
  simp only [writeItem, list]
  rw [frame]
  have closed := listEnd_split w.lheads ((empty.writeAll items).lheads.map (shiftHead w.str.length))
    ⟨w.str.length, w.lhsize⟩ (w.str ++ (empty.writeAll items).str)
    (w.lhsize + (empty.writeAll items).lhsize)
  simp only [append, List.append_assoc, List.singleton_append] at closed ⊢
  rw [closed]
  have payload : w.str.length + (empty.writeAll items).str.length +
      (w.lhsize + (empty.writeAll items).lhsize) - w.str.length - w.lhsize =
      (empty.writeAll items).str.length + (empty.writeAll items).lhsize := by omega
  simp only [List.length_append, payload]

/-- The buffer of a list whose elements wrote `inner` into an empty buffer: one header at
offset zero, closed on everything `inner` holds. -/
def enclose (inner : Encbuf) : Encbuf :=
  ⟨inner.str, ⟨0, inner.size⟩ :: inner.lheads, inner.lhsize + headsize inner.size⟩

/-- Opening a list after `w`, writing `inner` into it and closing it appends the enclosed
`inner`. -/
theorem listEnd_list_append (w inner : Encbuf) :
    (w.list.1.append inner).listEnd w.list.2 = w.append inner.enclose := by
  have closed := listEnd_split w.lheads (inner.lheads.map (shiftHead w.str.length))
    ⟨w.str.length, w.lhsize⟩ (w.str ++ inner.str) (w.lhsize + inner.lhsize)
  simp only [list, append, List.append_assoc, List.singleton_append] at closed ⊢
  rw [closed]
  have payload : (w.str ++ inner.str).length + (w.lhsize + inner.lhsize) - w.str.length - w.lhsize =
      inner.size := by
    simp only [List.length_append, size]
    omega
  simp only [payload, enclose, List.map_cons, shiftHead, Nat.add_zero, Nat.add_assoc]

mutual

theorem writeItem_eq_append (w : Encbuf) : (it : Item) → w.writeItem it = w.append (empty.writeItem it)
  | .str b => by
    simp only [writeItem]
    rw [encodeString_eq_write, write_eq_append, encodeString_eq_write empty]
    simp [write, empty]
  | .list items => by
    have frame := fun u => writeAll_eq_append u items
    rw [writeItem_list w items frame, writeItem_list empty items frame]
    simp only [append, empty, List.nil_append, List.length_nil, List.map_cons, List.map_map,
      Nat.zero_add, mk.injEq, true_and]
    refine ⟨?_, by omega⟩
    congr 2
    · simp [shiftHead]

theorem writeAll_eq_append (w : Encbuf) : (items : List Item) → w.writeAll items = w.append (empty.writeAll items)
  | [] => by simp [writeAll, empty]
  | it :: rest => by
    simp only [writeAll]
    rw [writeAll_eq_append _ rest, writeItem_eq_append w it,
      writeAll_eq_append (empty.writeItem it) rest, append_assoc]

end

/-! ### Writing a value produces its canonical encoding -/

/-- Every list header lies within the string data written so far. -/
def Bounded (w : Encbuf) : Prop := ∀ h ∈ w.lheads, h.offset ≤ w.str.length

theorem Bounded.append {w v : Encbuf} (hw : w.Bounded) (hv : v.Bounded) : (w.append v).Bounded := by
  intro h member
  simp only [Encbuf.append, List.mem_append, List.mem_map] at member ⊢
  rcases member with old | ⟨k, new, rfl⟩
  · have := hw h old
    simp only [List.length_append]
    omega
  · have := hv k new
    simp only [shiftHead, List.length_append]
    omega

theorem toBytes_append {w : Encbuf} (bounded : w.Bounded) (v : Encbuf) :
    (w.append v).toBytes = w.toBytes ++ v.toBytes := by
  simp only [toBytes, append]
  exact render_append w.str v.str w.lheads v.lheads (Nat.zero_le _) bounded

theorem size_append (w v : Encbuf) : (w.append v).size = w.size + v.size := by
  simp only [size, append, List.length_append]
  omega

@[simp] theorem shiftHead_zero (h : Listhead) : shiftHead 0 h = h := by
  simp [shiftHead]

@[simp] theorem map_shiftHead_zero (heads : List Listhead) : heads.map (shiftHead 0) = heads := by
  simp [List.map_congr_left (fun h _ => shiftHead_zero h)]

@[simp] theorem empty_append (w : Encbuf) : empty.append w = w := by
  simp [empty]

theorem encodeStringHeader_empty {size : Nat} (bound : size < 2 ^ 64) :
    empty.encodeStringHeader size = ⟨header 0x80 0xB7 size, [], 0⟩ := by
  rw [← puthead_eq_header _ _ bound]
  unfold encodeStringHeader puthead
  split <;> rfl

theorem encodeString_empty {b : Bytes} (bound : b.length < 2 ^ 64) :
    empty.encodeString b = ⟨(Item.str b).encode, [], 0⟩ := by
  unfold encodeString
  split
  · next b0 =>
    split
    · next small =>
      rw [encode_str_single (UInt8.lt_of_le_of_lt small (by decide))]
      simp [write, empty]
    · next large =>
      rw [encode_str_of_not_single _ (fun b same => by cases same; exact UInt8.not_le.mp large),
        encodeStringHeader_empty (by decide)]
      simp [write]
  · next notSingle =>
    rw [encode_str_of_not_single _ (fun b0 same => absurd same (notSingle b0)),
      encodeStringHeader_empty bound]
    simp [write]

theorem enclose_spec {inner : Encbuf} (bounded : inner.Bounded) (bound : inner.size < 2 ^ 64) :
    inner.enclose.Bounded ∧
      inner.enclose.toBytes = header 0xC0 0xF7 inner.size ++ inner.toBytes ∧
      inner.enclose.size = (header 0xC0 0xF7 inner.size).length + inner.size := by
  refine ⟨?_, ?_, ?_⟩
  · intro h member
    simp only [enclose, List.mem_cons] at member
    rcases member with rfl | inside
    · exact Nat.zero_le _
    · exact bounded h inside
  · simp [enclose, toBytes, render, Listhead.encode, puthead_eq_header _ _ bound]
  · have head := headsize_eq bound 0xC0 0xF7
    simp only [enclose, size] at head ⊢
    omega

mutual

/-- Writing a value produces its canonical encoding. -/
theorem writeItem_spec : (it : Item) → it.Small →
    (empty.writeItem it).Bounded ∧ (empty.writeItem it).toBytes = it.encode ∧
      (empty.writeItem it).size = it.encode.length
  | .str b, small => by
    simp only [writeItem, Item.Small] at small ⊢
    rw [encodeString_empty small]
    exact ⟨by simp [Bounded], by simp [toBytes, render], by simp [size]⟩
  | .list items, ⟨payload, elements⟩ => by
    obtain ⟨bounded, bytes, size_eq⟩ := writeAll_spec items elements
    rw [writeItem_list empty items (fun u => writeAll_eq_append u items)]
    generalize empty.writeAll items = inner at bounded bytes size_eq
    have unshifted : inner.lheads.map (shiftHead 0) = inner.lheads := by
      simp [List.map_congr_left (fun h _ => shiftHead_zero h)]
    simp only [empty, List.nil_append, List.length_nil, unshifted]
    rw [size] at size_eq
    rw [size_eq]
    refine ⟨?_, ?_, ?_⟩
    · intro h member
      simp only [List.mem_cons] at member
      rcases member with rfl | inside
      · exact Nat.zero_le _
      · exact bounded h inside
    · simp only [toBytes, render, List.drop_zero, Listhead.encode]
      rw [puthead_eq_header _ _ payload, encode_list]
      exact congrArg _ bytes
    · simp only [size, encode_list, List.length_append, headsize_eq payload 0xC0 0xF7]
      omega
  
theorem writeAll_spec : (items : List Item) → Item.SmallAll items →
    (empty.writeAll items).Bounded ∧ (empty.writeAll items).toBytes = Item.encodeAll items ∧
      (empty.writeAll items).size = (Item.encodeAll items).length
  | [], _ => ⟨by simp [writeAll, Bounded, empty], by simp [writeAll, toBytes, render, empty],
      by simp [writeAll, size, empty]⟩
  | it :: rest, ⟨first, others⟩ => by
    obtain ⟨boundedA, bytesA, sizeA⟩ := writeItem_spec it first
    obtain ⟨boundedB, bytesB, sizeB⟩ := writeAll_spec rest others
    simp only [writeAll]
    rw [writeAll_eq_append _ rest]
    refine ⟨boundedA.append boundedB, ?_, ?_⟩
    · rw [toBytes_append boundedA, bytesA, bytesB, encodeAll_cons]
    · rw [size_append, sizeA, sizeB, encodeAll_cons, List.length_append]

end

/-- `encbuf` refines the canonical encoding: the bytes of a written value are its RLP
encoding. -/
theorem toBytes_writeItem {it : Item} (small : it.Small) : (empty.writeItem it).toBytes = it.encode :=
  (writeItem_spec it small).2.1

end Encbuf

end Indigo.Rlp
