import Indigo.Abi.Unpack

/-!
# Encoding ABI arguments

`Arguments.Pack` lays out the arguments of a call: one word for each argument, and as many
words as it has elements for an array, then the data of the `string`, `bytes` and slice
arguments, whose words hold their offsets. `Type.pack` encodes one value: a word for a number,
a boolean, an address or fixed bytes (`packElement`), a length word followed by the padded
bytes for `string` and `bytes` (`packBytesSlice`), and the elements one after the other for an
array, behind a length word for a slice.

The values are those of the Go types of the arguments: `typeCheck`, which refuses by reflection
a value of another Go type, stands here as the error `typeMismatch` of a value that does not
fit the type; only the check of an array's length and of an integer's kind are those of the
source.
-/

namespace Indigo.Abi

open Indigo.Lib

/-- `common.RightPadBytes`: the bytes followed by zeros up to `l` bytes, or unchanged when they
are as long. -/
def RightPadBytes (slice : Bytes) (l : Nat) : Bytes :=
  if l ≤ slice.length then slice else slice ++ List.replicate (l - slice.length) 0

/-- `common.LeftPadBytes`. -/
def LeftPadBytes (slice : Bytes) (l : Nat) : Bytes :=
  if l ≤ slice.length then slice else List.replicate (l - slice.length) 0 ++ slice

/-- `U256`: `math.PaddedBigBytes(math.U256(n), 32)`, the 256-bit two's complement word. -/
def U256 (n : Int) : Bytes := bePadded (toWord 256 n) 32

/-- The errors of packing. -/
inductive PackError
  /-- `"argument count mismatch: %d for %d"`. -/
  | countMismatch (got want : Nat)
  /-- `typeErr` of `typeCheck`, `"abi: cannot use %v as type %v as argument"`: a value that is
  not of the argument's Go type. -/
  | typeMismatch
  deriving DecidableEq, Repr

/-- A packing: bytes, an error, or a panic. -/
abbrev Packed := Panicky PackError Bytes

/-- The reflect kind of a Go integer value. -/
def Value.intKind : Value → Option Kind
  | .uint bits _ => some (reflectIntKindAndType true bits)
  | .int bits _ => some (reflectIntKindAndType false bits)
  | .bigInt _ => some .Ptr
  | _ => none

/-- `packNum`: `U256` of an unsigned, signed or big integer; `"abi: fatal error"` otherwise. -/
def packNum : Value → Packed
  | .uint _ n => pure (U256 n)
  | .int _ i => pure (U256 i)
  | .bigInt i => pure (U256 i)
  | _ => Panicky.panic

/-- `packBytesSlice`: the length `l`, then the bytes padded to a whole number of words. -/
def packBytesSlice (bytes : Bytes) (l : Nat) : Bytes :=
  U256 l ++ RightPadBytes bytes ((l + 31) / 32 * 32)

/-- `packElement`, after `typeCheck`: an integer of the type's kind, a string or bytes with
their length, an address left-padded and fixed bytes or a function right-padded to a word.
`HashTy` and `FixedPointTy` panic with `"abi: fatal error"`. -/
def packElement (t : AbiType) (v : Value) : Packed :=
  match t, v with
  | .int size, v =>
    if v.intKind = some (reflectIntKindAndType false size) then packNum v else throw .typeMismatch
  | .uint size, v =>
    if v.intKind = some (reflectIntKindAndType true size) then packNum v else throw .typeMismatch
  | .string, .string s => pure (packBytesSlice s s.length)
  | .address, .address a => pure (LeftPadBytes a 32)
  | .bool, .bool b => pure (if b then bePadded 1 32 else bePadded 0 32)
  | .bytes, .bytes b => pure (packBytesSlice b b.length)
  | .fixedBytes size, .fixedBytes b =>
    if b.length ≠ size then throw .typeMismatch else pure (RightPadBytes b 32)
  | .function, .function f => pure (RightPadBytes f 32)
  | .hash, _ | .fixedPoint, _ => Panicky.panic
  | _, _ => throw .typeMismatch

/-- `Type.pack`: the elements of a slice or an array one after the other, behind their number
for a slice; `sliceTypeCheck` refuses an array of another length. -/
def pack : AbiType → Value → Packed
  | .slice elem, .list vs => do
    let packed ← vs.mapM (pack elem)
    pure (packBytesSlice packed.flatten vs.length)
  | .array elem size, .list vs =>
    if vs.length ≠ size then throw .typeMismatch
    else do
      let packed ← vs.mapM (pack elem)
      pure packed.flatten
  | .slice _, _ | .array _ _, _ => throw .typeMismatch
  | t, v => packElement t v

/-- The words an argument takes before the data of the length-prefixed ones. -/
def headWords (t : AbiType) : Nat := if t.isArray then t.Size else 1

/-- The loop of `Arguments.Pack`: a length-prefixed argument leaves the offset of its data in
`ret` and its data in `variableInput`; any other is packed in place. -/
def packArguments (inputOffset : Nat) : List (Argument × Value) → Bytes → Bytes →
    Panicky PackError (Bytes × Bytes)
  | [], ret, variableInput => pure (ret, variableInput)
  | (input, a) :: rest, ret, variableInput => do
    let packed ← pack input.typ a
    if input.typ.requiresLengthPrefix then
      let offset := inputOffset + variableInput.length
      packArguments inputOffset rest (ret ++ U256 offset) (variableInput ++ packed)
    else packArguments inputOffset rest (ret ++ packed) variableInput

/-- `Arguments.Pack`. The sums of Go's `int` here count bytes of values in memory, which keep
them below `2^63`. -/
def Pack (arguments : List Argument) (args : List Value) : Packed := do
  if args.length ≠ arguments.length then
    throw (.countMismatch args.length arguments.length)
  let inputOffset := (arguments.map fun abiArg => 32 * headWords abiArg.typ).sum
  let (ret, variableInput) ← packArguments inputOffset (arguments.zip args) [] []
  pure (ret ++ variableInput)

end Indigo.Abi
