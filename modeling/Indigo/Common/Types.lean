import Mathlib

/-!
# Byte strings and hashes

The `common` package's byte slices, addresses and 32-byte hashes.
-/

namespace Indigo

/-- A Go byte slice. -/
abbrev Bytes := List UInt8

/-- `common.Address`: its 20 bytes read as the number below `2^160` that `BigToAddress` and
`Address.Big` convert from and to. -/
abbrev Address := Nat

/-- `common.HashLength`. -/
def HashLength : Nat := 32

/-- `common.Hash`: a Keccak256 digest, exactly `HashLength` bytes. -/
structure Hash where
  bytes : Bytes
  length_bytes : bytes.length = HashLength
deriving DecidableEq

namespace Hash

/-- The zero hash `common.Hash{}`. -/
def zero : Hash := ⟨List.replicate 32 0, by simp [HashLength]⟩

instance : Inhabited Hash := ⟨zero⟩

@[simp] theorem length_bytes' (h : Hash) : h.bytes.length = 32 := h.length_bytes

theorem bytes_injective : Function.Injective Hash.bytes := by
  rintro ⟨a, ha⟩ ⟨b, hb⟩ same
  cases same
  rfl

end Hash

end Indigo
