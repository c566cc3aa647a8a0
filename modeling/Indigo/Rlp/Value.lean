import Indigo.Rlp.Raw

/-!
# Go values and their writers

`rlp/typecache.go` gives every Go type a writer (`makeWriter`, `rlp/encode.go`) and a
decoder (`makeDecoder`, `rlp/decode.go`). `Ty` lists the types of the value model: unsigned
integers, booleans, strings, `*big.Int`, slices, arrays, structs and `interface{}`; a
`[]byte` or `[n]byte` is a slice or array of `uint8`, as in Go. A `Value` is what the
writer of its type reads from a `reflect.Value`, so `writer` follows the value alone.

## Main result

`encodeToBytes_eq_encode`: the writers put out the canonical encoding of the value's
RLP item (`Value.toItem`).
-/

namespace Indigo.Rlp

open Indigo.Lib

/-- The Go types of the value model. `uint bits` stands for `uint8` to `uint64`, `uint`
and `uintptr`. -/
inductive Ty where
  | uint (bits : Nat)
  | bool
  | string
  | bigInt
  | slice (elem : Ty)
  | array (len : Nat) (elem : Ty)
  | struct (fields : List Ty)
  | iface
deriving Inhabited, Repr

/-- `isByte`: the element type that makes a slice or array a byte string. -/
def Ty.isByte : Ty → Bool
  | .uint 8 => true
  | _ => false

/-- A Go value, as its type's writer reads it. -/
inductive Value where
  | uint (n : Nat)
  | bool (b : Bool)
  | string (s : Bytes)
  | bigInt (i : Int)
  /-- A `[]byte`. -/
  | bytes (bs : Bytes)
  /-- A `[n]byte`. -/
  | byteArray (bs : Bytes)
  | slice (items : List Value)
  | array (items : List Value)
  | struct (fields : List Value)
  /-- A nil `interface{}`. -/
  | ifaceNil
  /-- An `interface{}` holding a value of some type. -/
  | iface (v : Value)
deriving Inhabited, Repr

/-! ### The writers of `makeWriter` -/

/-- `writeUint`. -/
def writeUint (i : Nat) (w : Encbuf) : Encbuf :=
  if i = 0 then w.write [0x80]
  -- fits single byte
  else if i < 128 then w.write [i.toUInt8]
  else
    let s := putint i
    w.write ((0x80 + s.length.toUInt8) :: s)

/-- `writeBool`. -/
def writeBool (b : Bool) (w : Encbuf) : Encbuf :=
  if b then w.write [0x01] else w.write [0x80]

/-- `writeBigInt`; `i.Bytes()` is the minimal big-endian form of the absolute value. -/
def writeBigInt (i : Int) (w : Encbuf) : Except Error Encbuf :=
  if i < 0 then .error (.message "rlp: cannot encode negative *big.Int")
  else if i = 0 then .ok (w.write [0x80])
  else .ok (w.encodeString (beBytes i.natAbs))

/-- `writeBytes`. -/
def writeBytes (bs : Bytes) (w : Encbuf) : Encbuf := w.encodeString bs

/-- `writeByteArray`. -/
def writeByteArray (bs : Bytes) (w : Encbuf) : Encbuf := w.encodeString bs

/-- `writeString`. -/
def writeString (s : Bytes) (w : Encbuf) : Encbuf :=
  match s with
  -- fits single byte, no string header
  | [c] => if c ≤ 0x7F then w.write [c] else (w.encodeStringHeader 1).write s
  | s => (w.encodeStringHeader s.length).write s

mutual

/-- The writer `makeWriter` picks for the value's type, applied to the value. -/
def writer : Value → Encbuf → Except Error Encbuf
  | .uint i, w => .ok (writeUint i w)
  | .bool b, w => .ok (writeBool b w)
  | .string s, w => .ok (writeString s w)
  | .bigInt i, w => writeBigInt i w
  | .bytes bs, w => .ok (writeBytes bs w)
  | .byteArray bs, w => .ok (writeByteArray bs w)
  -- `makeSliceWriter` and `makeStructWriter` both put the elements between `list` and
  -- `listEnd`
  | .slice items, w | .array items, w | .struct items, w => do
    let (opened, lh) := w.list
    let w ← writeElems items opened
    pure (w.listEnd lh)
  -- `writeInterface`: a nil interface is an empty list, any other the value it holds
  | .ifaceNil, w => .ok (w.write [0xC0])
  | .iface v, w => writer v w

/-- The loop of the slice and struct writers, stopping at the first error. -/
def writeElems : List Value → Encbuf → Except Error Encbuf
  | [], w => .ok w
  | v :: rest, w => do
    let w ← writer v w
    writeElems rest w

end

/-- `EncodeToBytes`. -/
def EncodeToBytes (v : Value) : Except Error Bytes := do
  let w ← writer v Encbuf.empty
  pure w.toBytes

/-! ### The RLP item of a value -/

mutual

/-- The RLP item a value stands for: an integer is its minimal big-endian bytes, a
boolean the integer 0 or 1, every sequence and struct a list. -/
def Value.toItem : Value → Item
  | .uint n => .str (beBytes n)
  | .bool b => .str (if b then [0x01] else [])
  | .string s => .str s
  | .bigInt i => .str (beBytes i.natAbs)
  | .bytes bs => .str bs
  | .byteArray bs => .str bs
  | .slice items | .array items | .struct items => .list (Value.toItems items)
  | .ifaceNil => .list []
  | .iface v => v.toItem

/-- The items of the elements. -/
def Value.toItems : List Value → List Item
  | [] => []
  | v :: rest => v.toItem :: Value.toItems rest

end

mutual

/-- What the writers can encode as the model says: integers of at most 64 bits and
non-negative big integers. -/
def Value.Encodable : Value → Prop
  | .uint n => n < 2 ^ 64
  | .bigInt i => 0 ≤ i
  | .slice items | .array items | .struct items => Value.EncodableAll items
  | .iface v => v.Encodable
  | _ => True

/-- Every element is `Encodable`. -/
def Value.EncodableAll : List Value → Prop
  | [] => True
  | v :: rest => v.Encodable ∧ Value.EncodableAll rest

end

/-! ### The writers put out the canonical encoding -/

theorem writeUint_eq {i : Nat} (bound : i < 2 ^ 64) (w : Encbuf) :
    writeUint i w = w.encodeString (beBytes i) := by
  unfold writeUint
  split
  · next zero =>
    subst zero
    simp [Encbuf.encodeString_nil]
  · next positive =>
    split
    · next small =>
      rw [beBytes_of_lt (Nat.pos_of_ne_zero positive) (by omega)]
      have fits : i.toUInt8 ≤ 0x7F := by
        rw [UInt8.le_iff_toNat_le, toNat_toUInt8]
        simp only [UInt8.reduceToNat]
        omega
      simp [Encbuf.encodeString, fits]
    · next large =>
      -- the minimal bytes take at most eight, so the header is a short one
      have short : (beBytes i).length < 56 := by
        have := (length_beBytes_le_iff i 8).mpr (by omega)
        omega
      rw [putint_eq_beBytes (by omega) bound]
      unfold Encbuf.encodeString
      split
      · next b0 single =>
        -- a single byte of at least `0x80` still needs its header
        have value : b0.toNat = i := by
          simpa [single, beValue_cons] using beValue_beBytes i
        have big : ¬b0 ≤ 0x7F := by
          rw [UInt8.le_iff_toNat_le, value]
          simp only [UInt8.reduceToNat]
          omega
        simp [Encbuf.encodeStringHeader, big, single]
      · simp [Encbuf.encodeStringHeader, short]

theorem writeBool_eq (b : Bool) (w : Encbuf) :
    writeBool b w = w.encodeString (if b then [0x01] else []) := by
  cases b
  · simp [writeBool, Encbuf.encodeString_nil]
  · simp [writeBool, Encbuf.encodeString]

theorem writeBigInt_eq {i : Int} (nonneg : 0 ≤ i) (w : Encbuf) :
    writeBigInt i w = .ok (w.encodeString (beBytes i.natAbs)) := by
  unfold writeBigInt
  rw [if_neg (Int.not_lt.mpr nonneg)]
  split
  · next zero => simp [zero, Encbuf.encodeString_nil]
  · rfl

theorem writeString_eq (s : Bytes) (w : Encbuf) : writeString s w = w.encodeString s := by
  match s with
  | [] => rfl
  | [_] => rfl
  | _ :: _ :: _ => rfl

/-- A writer that, applied to any buffer, appends one and the same buffer `u`, and `u`
renders as `p`. -/
def Appends (write : Encbuf → Except Error Encbuf) (p : Bytes) : Prop :=
  ∃ u : Encbuf, (∀ w, write w = .ok (w.append u)) ∧ u.Bounded ∧ u.toBytes = p ∧ u.size = p.length

theorem appends_write (b : Bytes) : Appends (fun w => .ok (w.write b)) b :=
  ⟨⟨b, [], 0⟩, fun w => by simp [Encbuf.write, Encbuf.append], by simp [Encbuf.Bounded],
    by simp [Encbuf.toBytes, Encbuf.render], by simp [Encbuf.size]⟩

theorem appends_encodeString {b : Bytes} (bound : b.length < 2 ^ 64) :
    Appends (fun w => .ok (w.encodeString b)) (Item.str b).encode := by
  obtain ⟨u, writes, bounded, bytes, size⟩ := appends_write (Item.str b).encode
  refine ⟨u, fun w => ?_, bounded, bytes, size⟩
  show Except.ok (w.encodeString b) = _
  rw [Encbuf.encodeString_eq_write, Encbuf.encodeString_empty bound]
  exact writes w

theorem Appends.bind {f g : Encbuf → Except Error Encbuf} {p q : Bytes}
    (first : Appends f p) (second : Appends g q) : Appends (fun w => f w >>= g) (p ++ q) := by
  obtain ⟨u, writesU, boundedU, bytesU, sizeU⟩ := first
  obtain ⟨v, writesV, boundedV, bytesV, sizeV⟩ := second
  refine ⟨u.append v, fun w => ?_, boundedU.append boundedV, ?_, ?_⟩
  · show f w >>= g = _
    rw [writesU w]
    show g (w.append u) = _
    rw [writesV, Encbuf.append_assoc]
  · rw [Encbuf.toBytes_append boundedU, bytesU, bytesV]
  · rw [Encbuf.size_append, sizeU, sizeV, List.length_append]

theorem Appends.list {f : Encbuf → Except Error Encbuf} {p : Bytes} (inner : Appends f p)
    (bound : p.length < 2 ^ 64) :
    Appends (fun w => do
        let (opened, lh) := w.list
        let w ← f opened
        pure (w.listEnd lh))
      (header 0xC0 0xF7 p.length ++ p) := by
  obtain ⟨u, writes, bounded, bytes, size⟩ := inner
  obtain ⟨boundedE, bytesE, sizeE⟩ := Encbuf.enclose_spec bounded (size ▸ bound)
  refine ⟨u.enclose, fun w => ?_, boundedE, ?_, ?_⟩
  · simp only [writes]
    show Except.ok ((w.list.1.append u).listEnd w.list.2) = _
    rw [Encbuf.listEnd_list_append]
  · rw [bytesE, bytes, size]
  · rw [sizeE, size, List.length_append]

mutual

theorem writer_spec : (v : Value) → v.Encodable → v.toItem.Small → Appends (writer v) v.toItem.encode
  | .uint i, bound, small => by
    simpa [writer, Value.toItem, writeUint_eq bound] using appends_encodeString small
  | .bool b, _, small => by
    simpa [writer, Value.toItem, writeBool_eq] using appends_encodeString small
  | .string s, _, small => by
    simpa [writer, Value.toItem, writeString_eq] using appends_encodeString small
  | .bigInt i, nonneg, small => by
    simpa [writer, Value.toItem, writeBigInt_eq nonneg] using appends_encodeString small
  | .bytes bs, _, small => by
    simpa [writer, Value.toItem, writeBytes] using appends_encodeString small
  | .byteArray bs, _, small => by
    simpa [writer, Value.toItem, writeByteArray] using appends_encodeString small
  | .slice items, encodable, ⟨payload, elements⟩ => by
    simpa [writer, Value.toItem, encode_list] using (writeElems_spec items encodable elements).list payload
  | .array items, encodable, ⟨payload, elements⟩ => by
    simpa [writer, Value.toItem, encode_list] using (writeElems_spec items encodable elements).list payload
  | .struct items, encodable, ⟨payload, elements⟩ => by
    simpa [writer, Value.toItem, encode_list] using (writeElems_spec items encodable elements).list payload
  | .ifaceNil, _, _ => by
    simpa [writer, Value.toItem, encode_list, header] using appends_write [0xC0]
  | .iface v, encodable, small => by
    simpa [writer, Value.toItem] using writer_spec v encodable small

theorem writeElems_spec : (items : List Value) → Value.EncodableAll items →
    Item.SmallAll (Value.toItems items) → Appends (writeElems items) (Item.encodeAll (Value.toItems items))
  | [], _, _ => ⟨Encbuf.empty, fun w => by simp [writeElems], by simp [Encbuf.Bounded, Encbuf.empty],
      by simp [Value.toItems, Encbuf.toBytes, Encbuf.render, Encbuf.empty],
      by simp [Value.toItems, Encbuf.size, Encbuf.empty]⟩
  | v :: rest, ⟨first, others⟩, ⟨small, smallRest⟩ => by
    simpa [writeElems, Value.toItems] using
      (writer_spec v first small).bind (writeElems_spec rest others smallRest)

end

/-- The typed writers refine the canonical encoding: `EncodeToBytes` puts out the RLP
encoding of the value's item. -/
theorem encodeToBytes_eq_encode {v : Value} (encodable : v.Encodable) (small : v.toItem.Small) :
    EncodeToBytes v = .ok v.toItem.encode := by
  obtain ⟨u, writes, -, bytes, -⟩ := writer_spec v encodable small
  simp [EncodeToBytes, writes, bind, Except.bind, pure, Except.pure, bytes]

theorem encodeToBytes_struct_example :
    EncodeToBytes (.struct [.uint 1024, .string [0x64, 0x6F, 0x67], .bool true]) =
      .ok (Value.struct [.uint 1024, .string [0x64, 0x6F, 0x67], .bool true]).toItem.encode :=
  encodeToBytes_eq_encode (by simp [Value.Encodable, Value.EncodableAll])
    (by simp [Value.toItem, Value.toItems, Item.Small, Item.SmallAll, Item.encodeAll, Item.encode,
      beBytes, header])

end Indigo.Rlp
