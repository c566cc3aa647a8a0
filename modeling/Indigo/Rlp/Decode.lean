import Indigo.Rlp.Stream

/-!
# Typed decoding

`makeDecoder` (`rlp/decode.go`) gives every type of the value model a decoder that reads
one value from a `Stream`; `DecodeBytes` runs it on a byte slice and rejects trailing
data. A decoder here returns the decoded value, which is what Go leaves in the freshly
allocated variable `DecodeBytes` writes into. The loops of the list decoders end at `EOL`,
so they spend fuel; `DecodeBytes` returns `none` when the fuel runs out.

The decoder of a byte array of length one drops the error of `Stream.Uint` on the byte
`0x00` (`bv, _ := s.Uint()`); `uint` returns that error before re-arming `Kind`, so the
next read sees the cached header again instead of the next value.

## Main results

- `decodeBytes_byteArrays_encoding_fails`: the encoding of `[2][1]byte{{0}, {1}}` does not
  decode.
- `decodeBytes_byteArrays_noncanonical`: `C1 00` decodes into a `[2][1]byte` whose encoding
  is `C2 00 00`.
- `decodeBytes_byteArray_slice_diverges`: decoding `C1 00` into a `[][1]byte` never ends.
-/

namespace Indigo.Rlp

open Indigo.Lib

/-- `wrapStreamError`: the stream errors a decoder reports as a `decodeError`; the model
keeps the message and drops the type. -/
def wrapStreamError : Error → Error
  | .ErrCanonInt => .message "non-canonical integer (leading zero bytes)"
  | .ErrCanonSize => .message "non-canonical size information"
  | .ErrExpectedList => .message "expected input list"
  | .ErrExpectedString => .message "expected input string or byte"
  | .errUintOverflow => .message "input string too long"
  | .errNotAtEOL => .message "input list has too many elements"
  | err => err

/-- A stream operation whose error goes through `wrapStreamError`. -/
def wrapped {α : Type} (x : StreamM α) : StreamM α := do
  match ← StreamM.result x with
  | .ok a => pure a
  | .error err => throw (wrapStreamError err)

/-! ### The decoders of `makeDecoder` -/

/-- `decodeUint`: `bits` is the size of the Go type. -/
def decodeUint (bits : Nat) : StreamM Value := do
  let num ← wrapped (Stream.uint bits)
  pure (.uint num)

/-- `decodeBool`. -/
def decodeBool : StreamM Value := do
  let b ← wrapped Stream.Bool
  pure (.bool b)

/-- `decodeString`. -/
def decodeString : StreamM Value := do
  let b ← wrapped Stream.Bytes
  pure (.string b)

/-- `decodeBigInt`. -/
def decodeBigInt : StreamM Value := do
  let b ← wrapped Stream.Bytes
  -- reject leading zero bytes
  if b.head? = some 0 then throw (wrapStreamError .ErrCanonInt)
  pure (.bigInt (beValue b))

/-- `decodeByteSlice`. -/
def decodeByteSlice : StreamM Value := do
  let b ← wrapped Stream.Bytes
  pure (.bytes b)

/-- `decodeByteArray` into a `[vlen]byte`. -/
def decodeByteArray (vlen : Nat) : StreamM Value := do
  let (kind, size) ← Stream.Kind
  match kind with
  | .Byte =>
    if vlen = 0 then throw (.message "input string too long")
    if vlen > 1 then throw (.message "input string too short")
    -- `bv, _ := s.Uint()`: the error is dropped, and `Uint` returns 0 with it
    let bv ← do
      match ← StreamM.result Stream.Uint with
      | .ok bv => pure bv
      | .error _ => pure 0
    pure (.byteArray [bv.toUInt8])
  | .String =>
    if vlen < size then throw (.message "input string too long")
    if vlen > size then throw (.message "input string too short")
    let slice ← Stream.readFull vlen
    -- reject cases where single byte encoding should have been used
    if size = 1 ∧ slice.head?.any (fun c => decide (c < 128)) then
      throw (wrapStreamError .ErrCanonSize)
    pure (.byteArray slice)
  | .List => throw (wrapStreamError .ErrExpectedString)

/-- The element loops of `decodeSliceElems` and `decodeListArray`: decode elements until
`EOL`, for at most `rounds` elements, and then `stop`. -/
def decodeElems (elemdec : StreamM Value) (stop : StreamM (List Value)) :
    Nat → StreamM (List Value)
  | 0 => stop
  | rounds + 1 => do
    match ← StreamM.result elemdec with
    | .error .EOL => pure []
    | .error err => throw err
    | .ok v =>
      let rest ← decodeElems elemdec stop rounds
      pure (v :: rest)

/-- `decodeSliceElems`: Go's loop has no bound, so the model's ends with the fuel. -/
def decodeSliceElems (elemdec : StreamM Value) (fuel : Nat) : StreamM (List Value) :=
  decodeElems elemdec StreamM.outOfFuel fuel

/-- `decodeListSlice`. -/
def decodeListSlice (elemdec : StreamM Value) (fuel : Nat) : StreamM Value := do
  let size ← wrapped Stream.List
  if size = 0 then
    Stream.ListEnd
    return .slice []
  let elems ← decodeSliceElems elemdec fuel
  Stream.ListEnd
  pure (.slice elems)

/-- `decodeListArray` into an array of `vlen` elements. -/
def decodeListArray (vlen : Nat) (elemdec : StreamM Value) : StreamM Value := do
  let _ ← wrapped Stream.List
  let elems ← decodeElems elemdec (pure []) vlen
  if elems.length < vlen then throw (.message "input list has too few elements")
  wrapped Stream.ListEnd
  pure (.array elems)

/-- The decoder `makeStructDecoder` builds, with the loop over the fields given. -/
def makeStructDecoder (fields : StreamM (List Value)) : StreamM Value := do
  let _ ← wrapped Stream.List
  let vs ← fields
  wrapped Stream.ListEnd
  pure (.struct vs)

/-- `decodeInterface`: a list becomes a `[]interface{}`, anything else a `[]byte`. Every
nested list takes a round of fuel. -/
def decodeInterface : Nat → StreamM Value
  | 0 => StreamM.outOfFuel
  | fuel + 1 => do
    let (kind, _) ← Stream.Kind
    if kind = .List then
      let slice ← decodeListSlice (decodeInterface fuel) fuel
      pure (.iface slice)
    else
      let b ← Stream.Bytes
      pure (.iface (.bytes b))

mutual

/-- `makeDecoder`: the decoder of a type. -/
def makeDecoder (fuel : Nat) : Ty → StreamM Value
  | .uint bits => decodeUint bits
  | .bool => decodeBool
  | .string => decodeString
  | .bigInt => decodeBigInt
  -- `makeListDecoder`
  | .slice elem =>
    if elem.isByte then decodeByteSlice else decodeListSlice (makeDecoder fuel elem) fuel
  | .array vlen elem =>
    if elem.isByte then decodeByteArray vlen else decodeListArray vlen (makeDecoder fuel elem)
  | .struct fields => makeStructDecoder (decodeFields fuel fields)
  | .iface => decodeInterface fuel

/-- The field loop of `makeStructDecoder`. -/
def decodeFields (fuel : Nat) : List Ty → StreamM (List Value)
  | [] => pure []
  | t :: rest => do
    match ← StreamM.result (makeDecoder fuel t) with
    | .error .EOL => throw (.message "too few elements")
    | .error err => throw err
    | .ok v =>
      let vs ← decodeFields fuel rest
      pure (v :: vs)

end

/-- `DecodeBytes` into a variable of type `t`: the input must hold exactly one value. -/
def DecodeBytes (fuel : Nat) (t : Ty) (b : Bytes) : Option (Except Error Value) :=
  match (makeDecoder fuel t).go (NewStream b b.length) with
  | none => none
  | some (.error err, _) => some (.error err)
  | some (.ok v, s) => some (if s.r.length > 0 then .error .ErrMoreThanOneValue else .ok v)

/-! ### Byte arrays of length one -/

theorem makeDecoder_array_byteArray (fuel vlen n : Nat) :
    makeDecoder fuel (.array vlen (.array n (.uint 8))) = decodeListArray vlen (decodeByteArray n) := by
  simp [makeDecoder, Ty.isByte]

theorem makeDecoder_slice_byteArray (fuel n : Nat) :
    makeDecoder fuel (.slice (.array n (.uint 8))) = decodeListSlice (decodeByteArray n) fuel := by
  simp [makeDecoder, Ty.isByte]

/-- From a cached header of the byte `0x00`, a `[1]byte` decodes as `{0}` and the stream
does not move: `Uint` fails on the zero byte before re-arming `Kind`, and its error is
dropped. -/
theorem decodeByteArray_one_cached_zero {s : Stream} (cached : s.kind = some .Byte)
    (noError : s.kinderr = none) (zero : s.byteval = 0) :
    (decodeByteArray 1).go s = some (.ok (.byteArray [0x00]), s) := by
  simp [decodeByteArray, go_bind, Stream.go_Kind_cached cached noError, go_result, Stream.Uint,
    Stream.go_uint_cached_zero cached noError zero]

/-- The encoding of `[2][1]byte{{0}, {1}}` does not decode: the second element is read
from the first one's header, and the list is left with a byte unread. -/
theorem decodeBytes_byteArrays_encoding_fails (fuel : Nat) :
    EncodeToBytes (.array [.byteArray [0x00], .byteArray [0x01]]) = .ok [0xC2, 0x00, 0x01] ∧
      DecodeBytes fuel (.array 2 (.array 1 (.uint 8))) [0xC2, 0x00, 0x01] =
        some (.error (.message "input list has too many elements")) := by
  -- after the list header, the first element's header is the byte 0x00
  let opened : Stream := { NewStream [0x00, 0x01] 2 with stack := [⟨0, 2⟩] }
  let cached : Stream :=
    { NewStream [0x01] 1 with remaining := 1, stack := [⟨1, 2⟩], kind := some .Byte }
  have enter : (wrapped Stream.List).go (NewStream [0xC2, 0x00, 0x01] 3) = some (.ok 2, opened) := by
    rfl
  have first : (decodeByteArray 1).go opened = some (.ok (.byteArray [0x00]), cached) := by rfl
  have second := decodeByteArray_one_cached_zero (s := cached) rfl rfl rfl
  have leave : (wrapped Stream.ListEnd).go cached =
      some (.error (.message "input list has too many elements"), cached) := by rfl
  refine ⟨by decide, ?_⟩
  simp [DecodeBytes, makeDecoder_array_byteArray, decodeListArray, go_bind, enter, decodeElems,
    go_result, go_map, Except.map, first, second, leave]

/-- `C1 00` decodes into a `[2][1]byte`, and the value decoded encodes as `C2 00 00`. -/
theorem decodeBytes_byteArrays_noncanonical (fuel : Nat) :
    DecodeBytes fuel (.array 2 (.array 1 (.uint 8))) [0xC1, 0x00] =
        some (.ok (.array [.byteArray [0x00], .byteArray [0x00]])) ∧
      EncodeToBytes (.array [.byteArray [0x00], .byteArray [0x00]]) = .ok [0xC2, 0x00, 0x00] := by
  let opened : Stream := { NewStream [0x00] 1 with stack := [⟨0, 1⟩] }
  let cached : Stream := { NewStream [] 0 with stack := [⟨1, 1⟩], kind := some .Byte }
  have enter : (wrapped Stream.List).go (NewStream [0xC1, 0x00] 2) = some (.ok 1, opened) := by
    rfl
  have first : (decodeByteArray 1).go opened = some (.ok (.byteArray [0x00]), cached) := by rfl
  -- the second element comes from the first one's header, and the list's one byte is read
  have second := decodeByteArray_one_cached_zero (s := cached) rfl rfl rfl
  have leave : (wrapped Stream.ListEnd).go cached = some (.ok (), NewStream [] 0) := by rfl
  refine ⟨?_, by decide⟩
  simp [DecodeBytes, makeDecoder_array_byteArray, decodeListArray, go_bind, enter, decodeElems,
    go_result, go_map, Except.map, first, second, leave]

private theorem decodeElems_byteArray_cached_zero {s : Stream} (cached : s.kind = some .Byte)
    (noError : s.kinderr = none) (zero : s.byteval = 0) (rounds : Nat) :
    (decodeElems (decodeByteArray 1) StreamM.outOfFuel rounds).go s = none := by
  -- every round decodes `{0}` and leaves the state as it found it
  induction rounds with
  | zero => simp [decodeElems]
  | succ rounds ih =>
    simp [decodeElems, go_bind, go_result, go_map, decodeByteArray_one_cached_zero cached noError zero,
      ih]

/-- Decoding `C1 00` into a `[][1]byte` never returns: after the first element, every
round decodes `{0}` from the same cached header and the end of the list is never seen. -/
theorem decodeBytes_byteArray_slice_diverges (fuel : Nat) :
    DecodeBytes fuel (.slice (.array 1 (.uint 8))) [0xC1, 0x00] = none := by
  let opened : Stream := { NewStream [0x00] 1 with stack := [⟨0, 1⟩] }
  let cached : Stream := { NewStream [] 0 with stack := [⟨1, 1⟩], kind := some .Byte }
  have enter : (wrapped Stream.List).go (NewStream [0xC1, 0x00] 2) = some (.ok 1, opened) := by
    rfl
  have first : (decodeByteArray 1).go opened = some (.ok (.byteArray [0x00]), cached) := by rfl
  have loop := decodeElems_byteArray_cached_zero (s := cached) rfl rfl rfl
  cases fuel with
  | zero =>
    simp [DecodeBytes, makeDecoder_slice_byteArray, decodeListSlice, go_bind, enter,
      decodeSliceElems, decodeElems]
  | succ rounds =>
    simp [DecodeBytes, makeDecoder_slice_byteArray, decodeListSlice, go_bind, enter,
      decodeSliceElems, decodeElems, go_result, first, loop]

end Indigo.Rlp
