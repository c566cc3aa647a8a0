import Mathlib.Data.List.Basic

/-!
# Stream ciphers

A stream cipher such as AES in counter mode turns a key into a keystream, and `XORKeyStream`
XORs the bytes it is given with the keystream from where the previous call stopped. The state
of the stream is the position reached in the keystream, so the cipher is `xorKeyStream ks n`
from position `n` on. Text given in pieces is XORed piece by piece (`xorKeyStream_append`), and a
second XOR with the keystream from the same position gives the text back
(`xorKeyStream_xorKeyStream`).
-/

namespace Indigo.Lib

/-- The bytes XORed with the keystream `ks` from position `n` on. -/
def xorKeyStream (ks : Nat → UInt8) : Nat → List UInt8 → List UInt8
  | _, [] => []
  | n, b :: bs => (b ^^^ ks n) :: xorKeyStream ks (n + 1) bs

variable {ks : Nat → UInt8}

-- the lemmas below compute `xorKeyStream` by `simp`
attribute [local simp] xorKeyStream

@[simp] theorem xorKeyStream_nil (n : Nat) : xorKeyStream ks n [] = [] := rfl

@[simp] theorem length_xorKeyStream (n : Nat) (bs : List UInt8) :
    (xorKeyStream ks n bs).length = bs.length := by
  induction bs generalizing n with
  | nil => rfl
  | cons b bs ih => simp [ih]

/-- Pieces are XORed one after the other, the second from where the first stopped. -/
theorem xorKeyStream_append (n : Nat) (a b : List UInt8) :
    xorKeyStream ks n (a ++ b) = xorKeyStream ks n a ++ xorKeyStream ks (n + a.length) b := by
  induction a generalizing n with
  | nil => rfl
  | cons c a ih =>
    rw [List.cons_append, xorKeyStream, xorKeyStream, ih, List.cons_append, List.length_cons,
      Nat.add_assoc, Nat.add_comm 1]

/-- Decryption is encryption from the same position. -/
@[simp] theorem xorKeyStream_xorKeyStream (n : Nat) (bs : List UInt8) :
    xorKeyStream ks n (xorKeyStream ks n bs) = bs := by
  induction bs generalizing n with
  | nil => rfl
  | cons b bs ih =>
    simp only [xorKeyStream, ih, UInt8.xor_assoc, UInt8.xor_self, UInt8.xor_zero]

theorem take_xorKeyStream (n k : Nat) (bs : List UInt8) :
    (xorKeyStream ks n bs).take k = xorKeyStream ks n (bs.take k) := by
  induction bs generalizing n k with
  | nil => simp
  | cons b bs ih =>
    cases k with
    | zero => rfl
    | succ k => simp [ih]

end Indigo.Lib
