import Indigo.Common.Types
import Indigo.Lib.BigEndian
import Indigo.Lib.TwosComplement

/-!
# Go integers and the helpers of `core/vm/common.go`

The interpreter keeps stack items as `big.Int`s and converts them to Go's fixed-width
integers where it indexes memory or counts gas. The conversions are the ones of
`math/big`: `Uint64` and `Int64` keep the low 64 bits of the absolute value (`Int64`
then reads them as a signed number and puts the sign back in 64-bit arithmetic), and
`BitLen` counts the bits of the absolute value. Gas arithmetic goes through
`math.SafeAdd` and `math.SafeMul`, which wrap like `uint64` and report the overflow.

A Go panic ends the whole execution, whatever the caller was doing: it is a `Failure`,
next to running out of the fuel that bounds the model's recursion.

## Main results

- `toWordSize_mul_ge`: rounding a size to words never loses bytes below the overflow bound.
- `bigUint64_eq`, `Int64_of_lt`: the conversions are exact on the values they let through.
-/

namespace Indigo.Evm

open Indigo.Lib

/-! ### Go's integers -/

/-- `math.MaxUint64`. -/
def MaxUint64 : Nat := 2 ^ 64 - 1

/-- `math.SafeAdd`: the sum wrapped to 64 bits, and whether it overflowed. -/
def SafeAdd (x y : Nat) : Nat × Bool := ((x + y) % 2 ^ 64, y > MaxUint64 - x)

/-- `math.SafeMul`. -/
def SafeMul (x y : Nat) : Nat × Bool :=
  if x = 0 ∨ y = 0 then (0, false) else (x * y % 2 ^ 64, y > MaxUint64 / x)

/-- `big.Int.Uint64`: the low 64 bits of the absolute value. -/
def Uint64 (x : Int) : Nat := x.natAbs % 2 ^ 64

/-- `big.Int.Int64`: the low 64 bits of the absolute value as an `int64`, negated in 64-bit
arithmetic when `x` is negative, which is `x` modulo `2^64` read as a signed number. -/
def Int64 (x : Int) : Int := toSigned 64 (toWord 64 x)

/-- `big.Int.BitLen`: the length of the absolute value in bits. -/
def BitLen (x : Int) : Nat := x.natAbs.size

/-- The conversion `int(u)` of a `uint64` on a 64-bit platform. -/
def goInt (u : Nat) : Int := toSigned 64 (u % 2 ^ 64)

theorem SafeAdd_of_lt {x y : Nat} (fits : x + y ≤ MaxUint64) : SafeAdd x y = (x + y, false) := by
  simp only [SafeAdd, MaxUint64, Prod.mk.injEq] at *
  exact ⟨Nat.mod_eq_of_lt (by omega), decide_eq_false (by omega)⟩

theorem SafeAdd_overflow {x y r : Nat} (ok : SafeAdd x y = (r, false)) (small : x ≤ MaxUint64) :
    r = x + y := by
  simp only [SafeAdd, Prod.mk.injEq, MaxUint64] at ok small
  obtain ⟨sum, fits⟩ := ok
  have fits : y ≤ 2 ^ 64 - 1 - x := by simpa using fits
  rw [← sum, Nat.mod_eq_of_lt (by omega)]

theorem SafeMul_overflow {x y r : Nat} (ok : SafeMul x y = (r, false)) : r = x * y := by
  unfold SafeMul at ok
  split at ok
  next zero =>
    simp only [Prod.mk.injEq] at ok
    rcases zero with rfl | rfl <;> simp [← ok.1]
  next nonzero =>
    simp only [Prod.mk.injEq, MaxUint64] at ok
    obtain ⟨product, fits⟩ := ok
    have fits : y ≤ (2 ^ 64 - 1) / x := by simpa using fits
    have bound : x * y ≤ 2 ^ 64 - 1 := by
      calc x * y ≤ x * ((2 ^ 64 - 1) / x) := Nat.mul_le_mul_left x fits
        _ ≤ 2 ^ 64 - 1 := Nat.mul_div_le _ _
    rw [← product, Nat.mod_eq_of_lt (by omega)]

theorem Uint64_of_lt {x : Nat} (lt : x < 2 ^ 64) : Uint64 x = x := by
  simp only [Uint64, Int.natAbs_natCast]
  exact Nat.mod_eq_of_lt lt

theorem Int64_of_lt {x : Nat} (lt : x < 2 ^ 63) : Int64 x = x := by
  have word : x < 2 ^ 64 := by omega
  have small : x < 2 ^ (64 - 1) := lt
  simp only [Int64, toWord_natCast, Nat.mod_eq_of_lt word, toSigned, if_pos small]

theorem goInt_of_lt {u : Nat} (lt : u < 2 ^ 63) : goInt u = u := by
  have word : u < 2 ^ 64 := by omega
  have small : u < 2 ^ (64 - 1) := lt
  simp only [goInt, Nat.mod_eq_of_lt word, toSigned, if_pos small]

/-! ### `common.go` -/

/-- `calcMemSize`: the end of the region at `off` of length `l`, and `0` for an empty region
wherever it starts. -/
def calcMemSize (off l : Int) : Int := if l = 0 then 0 else off + l

/-- `bigUint64`: the low 64 bits and whether the value needs more. -/
def bigUint64 (v : Int) : Nat × Bool := (Uint64 v, BitLen v > 64)

/-- `toWordSize`: the number of 32-byte words that hold `size` bytes. -/
def toWordSize (size : Nat) : Nat :=
  if size > MaxUint64 - 31 then MaxUint64 / 32 + 1 else (size + 31) / 32

/-- `common.RightPadBytes`: the slice followed by zeros up to `l` bytes. -/
def RightPadBytes (slice : Bytes) (l : Int) : Bytes :=
  if l ≤ slice.length then slice else slice ++ List.replicate (l.toNat - slice.length) 0

/-- `getDataBig`: `size` bytes of `data` from `start`, past its end read as zeros. -/
def getDataBig (data : Bytes) (start size : Int) : Bytes :=
  let dlen : Int := data.length
  let s := min start dlen
  let e := min (s + size) dlen
  RightPadBytes ((data.drop (Uint64 s)).take (Uint64 e - Uint64 s)) (goInt (Uint64 size))

/-- `math.PaddedBigBytes`: the big-endian bytes of the absolute value, left-padded to `n`
bytes unless they are longer. -/
def PaddedBigBytes (bigint : Int) (n : Nat) : Bytes :=
  if BitLen bigint / 8 ≥ n then beBytes bigint.natAbs
  else List.replicate (n - (beBytes bigint.natAbs).length) 0 ++ beBytes bigint.natAbs

/-- `common.BytesToAddress`: the last 20 bytes, as a number. -/
def BytesToAddress (b : Bytes) : Address := beValue (b.drop (b.length - 20))

/-- `common.BigToAddress`: the last 20 bytes of the absolute value. -/
def BigToAddress (b : Int) : Address := b.natAbs % 2 ^ 160

/-- `common.BigToHash`, read back as the number a storage slot is keyed and valued by. -/
def BigToHash (b : Int) : Nat := b.natAbs % 2 ^ 256

/-- `Hash.Big`. -/
def Hash.Big (h : Hash) : Int := beValue h.bytes

/-- The 20 bytes of an address, as `common.Address` holds them. -/
def Address.Bytes (a : Address) : Bytes := PaddedBigBytes (a % 2 ^ 160) 20

theorem bigUint64_eq {v : Int} {n : Nat} (ok : bigUint64 v = (n, false)) : n = v.natAbs := by
  simp only [bigUint64, Prod.mk.injEq, BitLen] at ok
  obtain ⟨low, bits⟩ := ok
  have bits : v.natAbs.size ≤ 64 := by simpa using bits
  have small : v.natAbs < 2 ^ 64 := Nat.size_le.mp bits
  rw [← low, Uint64, Nat.mod_eq_of_lt small]

theorem toWordSize_mul_ge {size : Nat} (small : size ≤ MaxUint64 - 31) :
    size ≤ toWordSize size * 32 := by
  unfold toWordSize
  rw [if_neg (by omega)]
  omega

theorem toWordSize_le (size : Nat) : toWordSize size ≤ MaxUint64 / 32 + 1 := by
  unfold toWordSize
  split <;> omega

/-! ### What ends an execution -/

/-- What a Go panic of the interpreter runs into. -/
inductive Panic where
  /-- An index at or below the bottom of the stack (`Stack.Back`, `pop`). -/
  | stack
  /-- An index or slice outside the memory store, or `Memory.Set` on a store too small. -/
  | memory
  /-- A slice of the return data out of range. -/
  | slice
  /-- A revision or journal entry the `StateDB` cannot take back. -/
  | state
  /-- The type assertion of `AsDelegate` on a caller that is not a contract. -/
  | typeAssertion
deriving DecidableEq, Repr

/-- Why the model gives no result: the Go code panicked, or the fuel that bounds the
recursion of the model ran out. -/
inductive Failure where
  | panic (p : Panic)
  | outOfFuel
deriving DecidableEq, Repr

end Indigo.Evm
