import Indigo.Common.Types
import Indigo.Lib.BigEndian
import Indigo.Lib.Ecdsa

/-!
# Public key recovery of `secp256k1`

`RecoverPubkey` (what `crypto.Ecrecover` calls) checks the lengths and the recovery id, and
hands the 65-byte signature `r ‖ s ‖ v` to the C library, which refuses `r` or `s` at or above
the group order `n` (`parse_compact`) and then runs the recovery of `Indigo.Lib.sigRecover`. The
curve is a `Curve n G` of the library; the encoding of the recovered point is left to the
caller.

## Main results

- `RecoverPubkey_verify`: a recovered key verifies the signature `(r, s)` of the message.
- `RecoverPubkey_twin`: nothing asks `s` to be in the lower half of the order, so the twin
  `r ‖ (n - s) ‖ (v xor 1)` of every signature that recovers a key recovers the same key.
-/

namespace Indigo.Crypto

open Indigo.Lib

/-- The errors of `RecoverPubkey`. -/
inductive RecoverError where
  /-- `"invalid message length, need 32 bytes"` -/
  | ErrInvalidMsgLen
  /-- `"invalid signature length"` -/
  | ErrInvalidSignatureLen
  /-- `"invalid signature recovery id"` -/
  | ErrInvalidRecoveryID
  /-- `"recovery failed"` -/
  | ErrRecoverFailed
deriving DecidableEq

variable {n : Nat} {G : Type} [AddCommGroup G] [Module (ZMod n) G] [DecidableEq G]

/-- The scalar `r` of a compact signature: its first 32 bytes. -/
def sigR (sig : Bytes) : Nat := beValue (sig.take 32)

/-- The scalar `s` of a compact signature: its next 32 bytes. -/
def sigS (sig : Bytes) : Nat := beValue ((sig.drop 32).take 32)

/-- `checkSignature`: 65 bytes, with a recovery id below `4`. -/
def checkSignature (sig : Bytes) : Except RecoverError Unit :=
  if sig.length ≠ 65 then .error .ErrInvalidSignatureLen
  else if sig.getD 64 0 ≥ 4 then .error .ErrInvalidRecoveryID
  else .ok ()

/-- `secp256k1.RecoverPubkey`, on the curve `c` of order `n`. `secp256k1_ext_ecdsa_recover`
fails where `parse_compact` finds `r` or `s` at or above `n`, and where the recovery fails; the
message is read as a scalar modulo `n`. -/
def RecoverPubkey (c : Curve n G) (msg sig : Bytes) : Except RecoverError G :=
  if msg.length ≠ 32 then .error .ErrInvalidMsgLen
  else
    match checkSignature sig with
    | .error err => .error err
    | .ok () =>
      if n ≤ sigR sig ∨ n ≤ sigS sig then .error .ErrRecoverFailed
      else
        match sigRecover c (sigR sig) (sigS sig) (beValue msg) (sig.getD 64 0).toNat with
        | none => .error .ErrRecoverFailed
        | some pubkey => .ok pubkey

/-- A 65-byte signature is its `r` and its `s`, 32 bytes each, and its recovery id. -/
theorem bePadded_sigR_sigS {sig : Bytes} (sigLength : sig.length = 65) :
    bePadded (sigR sig) 32 ++ bePadded (sigS sig) 32 ++ [sig.getD 64 0] = sig := by
  have r : bePadded (sigR sig) 32 = sig.take 32 := by
    have padded := bePadded_beValue (sig.take 32)
    rwa [List.length_take, sigLength, show min 32 65 = 32 from rfl] at padded
  have s : bePadded (sigS sig) 32 = (sig.drop 32).take 32 := by
    have padded := bePadded_beValue ((sig.drop 32).take 32)
    rwa [List.length_take, List.length_drop, sigLength, show min 32 (65 - 32) = 32 from rfl] at padded
  have last : (sig.drop 32).drop 32 = [sig.getD 64 0] := by
    rw [List.drop_drop]
    apply List.ext_getElem
    · simp [sigLength]
    · intro i _ inSingleton
      have zero : i = 0 := by simpa using inSingleton
      subst zero
      simp [List.getD_eq_getElem?_getD, sigLength]
  rw [r, s, ← last, List.append_assoc, List.take_append_drop, List.take_append_drop]

/-- The twin of a signature: the same `r`, `n - s`, and the other parity. -/
def twinSignature (n : Nat) (sig : Bytes) : Bytes :=
  sig.take 32 ++ bePadded (n - sigS sig) 32 ++ [sig.getD 64 0 ^^^ 1]

section Recover

variable {c : Curve n G} {msg sig : Bytes} {pubkey : G}

/-- What a successful recovery has checked, and the recovery it ran. -/
theorem RecoverPubkey_eq_ok (recovered : RecoverPubkey c msg sig = .ok pubkey) :
    msg.length = 32 ∧ sig.length = 65 ∧ sig.getD 64 0 < 4 ∧ sigR sig < n ∧ sigS sig < n ∧
      sigRecover c (sigR sig) (sigS sig) (beValue msg) (sig.getD 64 0).toNat = some pubkey := by
  unfold RecoverPubkey checkSignature at recovered
  split_ifs at recovered with length sigLength recid overflow
  all_goals simp only at recovered
  split at recovered
  · cases recovered
  · rename_i recovery
    cases recovered
    rw [not_or, Nat.not_le, Nat.not_le] at overflow
    exact ⟨not_not.1 length, not_not.1 sigLength, Nat.not_le.1 recid, overflow.1, overflow.2, recovery⟩

/-- A recovered key verifies the signature `(r, s)` of the message, over a group of prime
order. -/
theorem RecoverPubkey_verify [Fact n.Prime] (recovered : RecoverPubkey c msg sig = .ok pubkey) :
    Verifies c pubkey (sigR sig) (sigS sig) (beValue msg) :=
  sigRecover_verify (RecoverPubkey_eq_ok recovered).2.2.2.2.2

/-! ### The twin signature -/

section Twin

variable {sig : Bytes}

theorem length_bePadded_twin (positive : 0 < sigS sig) (small : n ≤ 256 ^ 32) :
    (bePadded (n - sigS sig) 32).length = 32 :=
  length_bePadded (by omega)

theorem sigR_twinSignature (long : 32 ≤ sig.length) : sigR (twinSignature n sig) = sigR sig := by
  have front : (sig.take 32).length = 32 := by simp [long]
  simp [sigR, twinSignature, front]

theorem sigS_twinSignature (long : 32 ≤ sig.length) (padded : (bePadded (n - sigS sig) 32).length = 32) :
    sigS (twinSignature n sig) = n - sigS sig := by
  have front : (sig.take 32).length = 32 := by simp [long]
  show beValue (((twinSignature n sig).drop 32).take 32) = _
  rw [twinSignature, List.append_assoc, List.drop_left' front, List.take_left' padded, beValue_bePadded]

theorem recid_twinSignature (long : 32 ≤ sig.length) (padded : (bePadded (n - sigS sig) 32).length = 32) :
    (twinSignature n sig).getD 64 0 = sig.getD 64 0 ^^^ 1 := by
  have front : (sig.take 32 ++ bePadded (n - sigS sig) 32).length = 64 := by
    simp [long, padded]
  simp only [twinSignature, List.getD_eq_getElem?_getD, List.getElem?_append_right front.le,
    front, Nat.sub_self, List.getElem?_cons_zero, Option.getD_some]

theorem length_twinSignature (sigLength : sig.length = 65)
    (padded : (bePadded (n - sigS sig) 32).length = 32) : (twinSignature n sig).length = 65 := by
  simp [twinSignature, padded, sigLength]

end Twin

/-- A recovery id below `4` stays below `4` with its parity flipped. -/
theorem xor_one_lt_four {v : UInt8} (small : v < 4) : v ^^^ 1 < 4 := by
  rw [UInt8.lt_iff_toNat_lt, UInt8.toNat_xor] at *
  exact Nat.xor_lt_two_pow (n := 2) small (by decide)

theorem xor_one_ne (v : UInt8) : v ^^^ 1 ≠ v := by
  intro same
  have parity := congrArg (fun v : UInt8 => v.toNat.testBit 0) same
  simp [UInt8.toNat_xor] at parity
  omega

/-- `n - s` is `-s` modulo `n`. -/
theorem natCast_sub_eq_neg {s : Nat} (le : s ≤ n) : (((n - s : Nat) : ZMod n)) = -(s : ZMod n) := by
  rw [Nat.cast_sub le, ZMod.natCast_self, zero_sub]

/-- The twin of a signature that recovers a key is another signature, and recovers the same
key: the C library does not ask `s` to be in the lower half of the order. -/
theorem RecoverPubkey_twin (small : n ≤ 256 ^ 32) (recovered : RecoverPubkey c msg sig = .ok pubkey) :
    twinSignature n sig ≠ sig ∧ RecoverPubkey c msg (twinSignature n sig) = .ok pubkey := by
  obtain ⟨msgLength, sigLength, recid, rSmall, sSmall, recovery⟩ := RecoverPubkey_eq_ok recovered
  have positive : 0 < sigS sig := by
    obtain ⟨-, nonzero, -⟩ := sigRecover_eq_some.1 recovery
    refine Nat.pos_of_ne_zero fun zero => nonzero ?_
    rw [zero, Nat.cast_zero]
  have long : 32 ≤ sig.length := by omega
  have padded := length_bePadded_twin positive small
  refine ⟨fun same => xor_one_ne (sig.getD 64 0) ?_, ?_⟩
  · rw [← recid_twinSignature long padded, same]
  · -- the twin's recovery is the original's with `s` negated and the parity flipped
    have twinRecovery : sigRecover c (sigR sig) (((n - sigS sig : Nat) : ZMod n)) (beValue msg)
        (sig.getD 64 0 ^^^ 1).toNat = some pubkey := by
      rw [natCast_sub_eq_neg sSmall.le, UInt8.toNat_xor, ← recovery]
      exact sigRecover_neg
    unfold RecoverPubkey checkSignature
    rw [if_neg (not_not.2 msgLength), if_neg (not_not.2 (length_twinSignature sigLength padded)),
      recid_twinSignature long padded, if_neg (show ¬(sig.getD 64 0 ^^^ 1 ≥ 4) from UInt8.not_le.2 (xor_one_lt_four recid)),
      sigR_twinSignature long, sigS_twinSignature long padded, if_neg (by omega), twinRecovery]

end Recover

end Indigo.Crypto
