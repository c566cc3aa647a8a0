import Indigo.Common.Types
import Indigo.Lib.BigEndian
import Indigo.Lib.TwosComplement
import Indigo.Lib.Panic

/-!
# Decoding ABI return data

`accounts/abi` decodes the bytes a contract call returns into Go values, by the types of the
method's outputs. `toGoType` reads the value of a type at a byte `index` of the output. A
static type is the 32-byte word there; `string`, `bytes` and slices hold in that word the
`offset` of a word with their `length`, which `lengthPrefixPointsTo` reads, and their data
follow it. Arrays and slices decode their elements one after the other in `forEachUnpack`.
`Arguments.Unpack` decodes one output with `unpackAtomic`, and several with `unpackTuple`, at
one word each (an array takes as many words as it has elements).

Offsets and lengths are the low eight bytes of a word, converted to Go's `int`, and every
bound is checked with `int` sums. Go's `int` is a parameter of the model, `wrap`, the function
that every sum, product and conversion goes through: `int64`, the signed reading of the low 64
bits, is the code's, and `id` is unbounded arithmetic.

The output is a Go slice (`GoBytes`), with the capacity of its backing array: a slice
expression `s[lo:hi]` panics unless `0 ≤ lo ≤ hi ≤ cap(s)`. Go values are `Value`, the
reflection that sets them into the caller's variable is not modelled: the variable is taken to
have the matching types, as the caller declares them.

The properties of decoding, that it panics with Go's `int` and never in unbounded
arithmetic, are in `Indigo.Abi.Panics`.
-/

namespace Indigo.Abi

open Indigo.Lib

/-! ### Go's `int` and byte slices -/

/-- Go's `int` on a 64-bit platform: a result keeps the signed reading of its low 64 bits. -/
def int64 (i : Int) : Int := toSigned 64 (toWord 64 i)

/-- A value in the range of `int` is kept. -/
theorem int64_eq_self {i : Int} (lo : -2 ^ 63 ≤ i) (hi : i < 2 ^ 63) : int64 i = i := by
  unfold int64 toSigned
  have cast := toWord_cast 64 i
  split <;> omega

/-- A `uint64` of `2^63` or more is negative as an `int`. -/
theorem int64_natCast_of_ge {w : Nat} (high : 2 ^ 63 ≤ w) (lt : w < 2 ^ 64) :
    int64 w = w - 2 ^ 64 := by
  unfold int64 toSigned
  rw [toWord_natCast, Nat.mod_eq_of_lt lt, if_neg (by omega)]

/-- A Go byte slice: the bytes from its first element to the end of its backing array, of which
the first `len` are its elements. Its capacity is `mem.length`, an `int` like its length. -/
structure GoBytes where
  mem : Bytes
  len : Nat
  len_le : len ≤ mem.length
  cap_lt : mem.length < 2 ^ 63

namespace GoBytes

/-- A slice of a whole list, with no room past its end. -/
def ofList (b : Bytes) (fits : b.length < 2 ^ 63) : GoBytes := ⟨b, b.length, le_refl _, fits⟩

/-- The nil slice. -/
def nil : GoBytes := ofList [] (by decide)

/-- The elements. -/
def elems (s : GoBytes) : Bytes := s.mem.take s.len

/-- `s[lo:hi]`; Go panics unless `0 ≤ lo ≤ hi ≤ cap(s)`. -/
def slice (s : GoBytes) (lo hi : Int) : Option GoBytes :=
  if h : 0 ≤ lo ∧ lo ≤ hi ∧ hi ≤ s.mem.length then
    some ⟨s.mem.drop lo.toNat, (hi - lo).toNat, by rw [List.length_drop]; omega,
      by rw [List.length_drop]; exact lt_of_le_of_lt (Nat.sub_le _ _) s.cap_lt⟩
  else none

theorem slice_eq_none_of_neg {s : GoBytes} {lo hi : Int} (neg : lo < 0) : s.slice lo hi = none := by
  unfold slice
  rw [dif_neg (by omega)]

theorem slice_eq_none_of_lt {s : GoBytes} {lo hi : Int} (backwards : hi < lo) :
    s.slice lo hi = none := by
  unfold slice
  rw [dif_neg (by omega)]

theorem slice_eq_some (s : GoBytes) (lo hi : Int) (bounds : 0 ≤ lo ∧ lo ≤ hi ∧ hi ≤ s.mem.length) :
    ∃ r, s.slice lo hi = some r ∧ r.mem = s.mem.drop lo.toNat ∧ r.len = (hi - lo).toNat := by
  unfold slice
  rw [dif_pos bounds]
  exact ⟨_, rfl, rfl, rfl⟩

/-- A slice within the elements holds the elements between its bounds. -/
theorem elems_of_slice {s r : GoBytes} {lo hi : Int} (sliced : s.slice lo hi = some r)
    (inside : hi ≤ s.len) : r.elems = (s.elems.drop lo.toNat).take (hi - lo).toNat := by
  unfold slice at sliced
  split at sliced
  · cases sliced
    simp only [elems, List.drop_take]
    rw [List.take_take]
    congr 1
    omega
  · cases sliced

end GoBytes

/-! ### Types, values and errors -/

/-- The ABI types, by their `T`: the types `NewType` builds, and `HashTy` and `FixedPointTy`,
which it never builds but `toGoType` tells apart. -/
inductive AbiType
  /-- `intN`: `IntTy` of `Size` `N`. -/
  | int (size : Nat)
  /-- `uintN`: `UintTy` of `Size` `N`. -/
  | uint (size : Nat)
  | bool
  | string
  /-- `T[]`: `SliceTy` with `Elem` `T`. -/
  | slice (elem : AbiType)
  /-- `T[N]`: `ArrayTy` with `Elem` `T` and `Size` `N`. -/
  | array (elem : AbiType) (size : Nat)
  | address
  /-- `bytesN`: `FixedBytesTy` of `Size` `N`. -/
  | fixedBytes (size : Nat)
  | bytes
  | hash
  | fixedPoint
  | function
  deriving DecidableEq, Repr

namespace AbiType

/-- The `Size` field that `NewType` sets. -/
def Size : AbiType → Nat
  | .int size | .uint size | .fixedBytes size | .array _ size => size
  | .address => 20
  | .function => 24
  | _ => 0

/-- `t.T == ArrayTy`. -/
def isArray : AbiType → Bool
  | .array _ _ => true
  | _ => false

/-- `requiresLengthPrefix`. -/
def requiresLengthPrefix : AbiType → Bool
  | .string | .bytes | .slice _ => true
  | _ => false

/-- Every `bytesN` in the type has `N ≤ 32`, as Solidity's `bytes1` to `bytes32` do; `NewType`
also accepts larger ones. -/
def fixedBytesFit : AbiType → Bool
  | .fixedBytes size => size ≤ 32
  | .slice elem | .array elem _ => elem.fixedBytesFit
  | _ => true

end AbiType

/-- The kinds `reflectIntKindAndType` gives an integer type; `Ptr` is `*big.Int`. -/
inductive Kind
  | Uint8 | Uint16 | Uint32 | Uint64 | Int8 | Int16 | Int32 | Int64 | Ptr
  deriving DecidableEq, Repr

/-- `reflectIntKindAndType`, the kind of `intN` or `uintN`. -/
def reflectIntKindAndType (unsigned : Bool) (size : Nat) : Kind :=
  match size with
  | 8 => if unsigned then .Uint8 else .Int8
  | 16 => if unsigned then .Uint16 else .Int16
  | 32 => if unsigned then .Uint32 else .Int32
  | 64 => if unsigned then .Uint64 else .Int64
  | _ => .Ptr

/-- The Go values `toGoType` returns and `Pack` takes. `uint bits` and `int bits` are the
integers of 8, 16, 32 or 64 bits, `bigInt` a `*big.Int`; `list` is a slice or an array. -/
inductive Value
  | uint (bits : Nat) (n : Nat)
  | int (bits : Nat) (i : Int)
  | bigInt (i : Int)
  | bool (b : Bool)
  | string (s : Bytes)
  | bytes (b : Bytes)
  | address (a : Bytes)
  | hash (h : Bytes)
  | fixedBytes (b : Bytes)
  | function (f : Bytes)
  | list (vs : List Value)
  deriving Repr

/-- The errors of decoding, with the values their messages print. -/
inductive UnpackError
  /-- `"abi: cannot marshal in to go type: length insufficient %d require %d"`. -/
  | lengthInsufficient (len require : Int)
  /-- `"abi: cannot marshal in to go slice: offset %d would go over slice boundary (len=%d)"`,
  which prints `len(output)` as the offset and `offset+32` as the length. -/
  | sliceBoundary (len stop : Int)
  /-- `"abi: cannot marshal in to go array: offset %d would go over slice boundary (len=%d)"`,
  which prints `len(output)` and `start+32*size` the same way. -/
  | arrayBoundary (len stop : Int)
  /-- `"abi: invalid type in array/slice unpacking stage"`. -/
  | invalidArrayType
  /-- `errBadBool`, `"abi: improperly encoded boolean value"`. -/
  | badBool
  /-- `"abi: invalid type in call to make function type byte array"`. -/
  | invalidFunctionType
  /-- `"abi: got improperly encoded function type, got %v"`. -/
  | improperFunction (word : Bytes)
  /-- `"abi: invalid type in call to make fixed byte array"`. -/
  | invalidFixedBytesType
  /-- `"abi: unknown type %v"`. -/
  | unknownType
  /-- `"abi: attempting to unpack indexed variable into element."`. -/
  | indexedElement
  deriving DecidableEq, Repr

/-- A decoding: a value, an error, or a panic. -/
abbrev Decoded (α : Type) := Panicky UnpackError α

/-! ### Reading one word

The readers get the 32-byte word at `index`, where an index or a slice of at most 32 bytes
cannot panic; only `readFixedBytes` reads as many bytes as the type's `Size`. -/

/-- `readInteger` of the 32-byte word `b`: the last one, two, four or eight bytes for the
fixed-size integers, all of them (unsigned) for a `*big.Int`. -/
def readInteger (kind : Kind) (b : Bytes) : Value :=
  let last (k : Nat) := beValue (b.drop (b.length - k))
  match kind with
  | .Uint8 => .uint 8 (last 1)
  | .Uint16 => .uint 16 (last 2)
  | .Uint32 => .uint 32 (last 4)
  | .Uint64 => .uint 64 (last 8)
  | .Int8 => .int 8 (toSigned 8 (last 1))
  | .Int16 => .int 16 (toSigned 16 (last 2))
  | .Int32 => .int 32 (toSigned 32 (last 4))
  | .Int64 => .int 64 (toSigned 64 (last 8))
  | .Ptr => .bigInt (beValue b)

/-- `readBool`: the first 31 bytes zero, the last one `0` or `1`. -/
def readBool (word : Bytes) : Except UnpackError Bool :=
  if (word.take 31).any (· != 0) then .error .badBool
  else
    match (word[31]? : Option UInt8) with
    | some 0 => .ok false
    | some 1 => .ok true
    | _ => .error .badBool

/-- `readFunctionType`: an address and a selector, 24 bytes, and eight zero bytes. -/
def readFunctionType (t : AbiType) (word : Bytes) : Except UnpackError Bytes :=
  if t ≠ .function then .error .invalidFunctionType
  else if beValue ((word.drop 24).take 8) ≠ 0 then .error (.improperFunction word)
  else .ok (word.take 24)

/-- `readFixedBytes`: `reflect.Copy` of `word[0:t.Size]` into an array of `t.Size` bytes. The
slice expression reads past the word into the rest of the output's backing array, and panics
past its capacity. -/
def readFixedBytes (t : AbiType) (word : GoBytes) : Decoded Value := do
  match t with
  | .fixedBytes size =>
    let array ← word.slice 0 size
    pure (.fixedBytes array.elems)
  | _ => throw .invalidFixedBytesType

/-- `common.BytesToAddress`: the last 20 bytes. -/
def BytesToAddress (b : Bytes) : Bytes := b.drop (b.length - 20)

section Unpack

-- the arithmetic of Go's `int`: `int64` for the code
variable (wrap : Int → Int)

/-- `lengthPrefixPointsTo`: the `offset` in the word at `index`, the `length` in the word at
`offset`, both checked against the length of the output; the data start after the length. -/
def lengthPrefixPointsTo (index : Int) (output : GoBytes) : Decoded (Int × Int) := do
  let offsetWord ← output.slice (wrap (index + 24)) (wrap (index + 32))
  let offset := wrap (beValue offsetWord.elems)
  if wrap (offset + 32) > output.len then
    throw (.sliceBoundary output.len (wrap (offset + 32)))
  let lengthWord ← output.slice (wrap (offset + 24)) (wrap (offset + 32))
  let length := wrap (beValue lengthWord.elems)
  if wrap (wrap (offset + 32) + length) > output.len then
    throw (.lengthInsufficient output.len (wrap (wrap (offset + 32) + length)))
  pure (wrap (offset + 32), length)

/-- The loop of `forEachUnpack`: `count` more rounds, of element `j` at byte `i`. `decode` is
`toGoType` of the element type, `room` the number of elements of the slice or array the values
go into; `refSlice.Index(j)` panics past it. -/
def unpackElems (decode : Int → Decoded Value) (elemArray : Bool) (elemSize : Nat)
    (start room : Int) : Nat → Int → Nat → Decoded (List Value)
  | 0, _, _ => pure []
  | count + 1, i, j => do
    -- the elements of an array of arrays lie `t.Elem.Size` words apart
    let i := if elemArray ∧ j ≠ 0 then wrap (start + wrap (wrap (elemSize * 32) * j)) else i
    let inter ← decode i
    if room ≤ j then Panicky.panic
    let rest ← unpackElems decode elemArray elemSize start room count (wrap (i + 32)) (j + 1)
    pure (inter :: rest)

/-- `forEachUnpack`: `size` elements from byte `start`, in a new slice of `size` elements
(`reflect.MakeSlice` panics on a negative one) or an array of the type's own `Size`. The loop
runs while `j*32 < len(slice)`; `j*32` stays below the length of a slice, which is below `2^63`
in memory, so it is computed without a wrap. A slice too large to allocate is not modelled. -/
def forEachUnpack (t : AbiType) (decode : Int → Decoded Value) (output : GoBytes)
    (start size : Int) : Decoded Value := do
  if wrap (start + wrap (32 * size)) > output.len then
    throw (.arrayBoundary output.len (wrap (start + wrap (32 * size))))
  let slice ← output.slice start (wrap (start + wrap (size * 32)))
  let (room, elemArray, elemSize) ← match t with
    | .slice elem => if size < 0 then Panicky.panic else pure (size, elem.isArray, elem.Size)
    | .array elem n => pure ((n : Int), elem.isArray, elem.Size)
    | _ => throw .invalidArrayType
  let values ← unpackElems wrap decode elemArray elemSize start room ((slice.len + 31) / 32)
    start 0
  pure (.list values)

/-- `toGoType`: the value of type `t` at byte `index` of the output. -/
def toGoType (index : Int) (t : AbiType) (output : GoBytes) : Decoded Value := do
  if wrap (index + 32) > output.len then
    throw (.lengthInsufficient output.len (wrap (index + 32)))
  -- the data a length prefix points to, or the word at `index`
  let (returnOutput, begin, stop) ← if t.requiresLengthPrefix then do
      let (begin, length) ← lengthPrefixPointsTo wrap index output
      pure (GoBytes.nil, begin, length)
    else do
      let word ← output.slice index (wrap (index + 32))
      pure (word, 0, 0)
  match t with
  | .slice elem => forEachUnpack wrap t (toGoType · elem output) output begin stop
  | .array elem size => forEachUnpack wrap t (toGoType · elem output) output index size
  | .string => do
    let data ← output.slice begin (wrap (begin + stop))
    pure (.string data.elems)
  | .int size => pure (readInteger (reflectIntKindAndType false size) returnOutput.elems)
  | .uint size => pure (readInteger (reflectIntKindAndType true size) returnOutput.elems)
  | .bool => .bool <$> liftExcept (readBool returnOutput.elems)
  | .address => pure (.address (BytesToAddress returnOutput.elems))
  | .hash => pure (.hash returnOutput.elems)
  | .bytes => do
    let data ← output.slice begin (wrap (begin + stop))
    pure (.bytes data.elems)
  | .fixedBytes _ => readFixedBytes t returnOutput
  | .function => .function <$> liftExcept (readFunctionType t returnOutput.elems)
  | .fixedPoint => throw .unknownType

/-- An argument of a method's outputs, or of an event. -/
structure Argument where
  typ : AbiType
  Indexed : Bool
  deriving DecidableEq, Repr

/-- The loop of `unpackTuple`: `i` counts the non-indexed arguments, `j` the extra words of the
arrays among them, and the value of an argument is read at word `i + j`. -/
def unpackTupleLoop (output : GoBytes) : List Argument → Int → Int → Decoded (List Value)
  | [], _, _ => pure []
  | arg :: rest, i, j =>
    -- an indexed argument is not in the data
    if arg.Indexed then unpackTupleLoop output rest i j
    else do
      let i := wrap (i + 1)
      let marshalledValue ← toGoType wrap (wrap (wrap (i + j) * 32)) arg.typ output
      let j := if arg.typ.isArray then wrap (j + wrap (arg.typ.Size - 1)) else j
      let values ← unpackTupleLoop output rest i j
      pure (marshalledValue :: values)

/-- `unpackTuple`, the values it sets into the fields of the variable. -/
def unpackTuple (arguments : List Argument) (output : GoBytes) : Decoded (List Value) :=
  unpackTupleLoop wrap output arguments (-1) 0

/-- `unpackAtomic`: the first argument, read at byte 0; `arguments[0]` panics on none. -/
def unpackAtomic (arguments : List Argument) (output : GoBytes) : Decoded (List Value) := do
  let arg ← arguments.head?
  if arg.Indexed then throw .indexedElement
  let marshalledValue ← toGoType wrap 0 arg.typ output
  pure [marshalledValue]

/-- `Arguments.Unpack`: a tuple for more than one argument. -/
def Unpack (arguments : List Argument) (data : GoBytes) : Decoded (List Value) :=
  if arguments.length > 1 then unpackTuple wrap arguments data
  else unpackAtomic wrap arguments data

end Unpack

end Indigo.Abi
