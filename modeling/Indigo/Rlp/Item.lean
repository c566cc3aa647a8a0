import Indigo.Common.Types
import Indigo.Lib.BigEndian

/-!
# RLP values and their canonical encoding

An RLP value is a byte string or a list of values. `Item.encode` states the canonical
encoding of the Yellow Paper: a single byte below `0x80` stands for itself; any other
string and every list get a header carrying the payload size, in the tag for payloads
under 56 bytes and as a minimal big-endian number after the tag otherwise.
-/

namespace Indigo.Rlp

open Indigo.Lib

/-- A value of the RLP data model. -/
inductive Item where
  | str (bytes : Bytes)
  | list (items : List Item)
deriving Inhabited

/-- The header for a payload of `size` bytes. -/
def header (small large : UInt8) (size : Nat) : Bytes :=
  if size < 56 then [small + size.toUInt8]
  else (large + (beBytes size).length.toUInt8) :: beBytes size

mutual

/-- The canonical RLP encoding of a value. -/
def Item.encode : Item → Bytes
  | .str [b] => if b < 0x80 then [b] else header 0x80 0xB7 1 ++ [b]
  | .str bs => header 0x80 0xB7 bs.length ++ bs
  | .list items => header 0xC0 0xF7 (Item.encodeAll items).length ++ Item.encodeAll items

/-- The concatenated encodings of the elements of a list. -/
def Item.encodeAll : List Item → Bytes
  | [] => []
  | it :: rest => it.encode ++ Item.encodeAll rest

end

mutual

/-- Every payload is shorter than `2^64` bytes, the range of the sizes a header can carry. -/
def Item.Small : Item → Prop
  | .str bs => bs.length < 2 ^ 64
  | .list items => (Item.encodeAll items).length < 2 ^ 64 ∧ Item.SmallAll items

/-- Every element of the list is `Small`. -/
def Item.SmallAll : List Item → Prop
  | [] => True
  | it :: rest => it.Small ∧ Item.SmallAll rest

end

@[simp] theorem encodeAll_nil : Item.encodeAll [] = [] := by simp [Item.encodeAll]

@[simp] theorem encodeAll_cons (it : Item) (rest : List Item) :
    Item.encodeAll (it :: rest) = it.encode ++ Item.encodeAll rest := by
  simp [Item.encodeAll]

theorem encodeAll_append (xs ys : List Item) :
    Item.encodeAll (xs ++ ys) = Item.encodeAll xs ++ Item.encodeAll ys := by
  induction xs with
  | nil => simp
  | cons x xs ih => simp [ih]

theorem encode_list (items : List Item) :
    (Item.list items).encode = header 0xC0 0xF7 (Item.encodeAll items).length ++ Item.encodeAll items := by
  simp [Item.encode]

theorem encode_str_single {b : UInt8} (small : b < 0x80) : (Item.str [b]).encode = [b] := by
  simp [Item.encode, small]

theorem encode_str_of_not_single (bs : Bytes) (notSingle : ∀ b, bs = [b] → 0x80 ≤ b) :
    (Item.str bs).encode = header 0x80 0xB7 bs.length ++ bs := by
  match bs, notSingle with
  | [b], notSingle =>
    have large := notSingle b rfl
    have notSmall : ¬b < 0x80 := UInt8.not_lt.mpr large
    simp [Item.encode, notSmall]
  | [], _ => simp [Item.encode]
  | _ :: _ :: _, _ => simp [Item.encode]

theorem length_header (small large : UInt8) (size : Nat) :
    (header small large size).length = if size < 56 then 1 else 1 + (beBytes size).length := by
  unfold header
  split <;> simp [Nat.add_comm]

theorem smallAll_append (xs ys : List Item) :
    Item.SmallAll (xs ++ ys) ↔ Item.SmallAll xs ∧ Item.SmallAll ys := by
  induction xs with
  | nil => simp [Item.SmallAll]
  | cons x xs ih => simp [Item.SmallAll, ih, and_assoc]

end Indigo.Rlp
