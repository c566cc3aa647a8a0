import Indigo.Clique.Seal
import Indigo.Crypto.Secp256k1

/-!
# Clique seals

A clique header carries its seal in the `Signer` field: the 65-byte signature of `sigHash`, the
hash of every other field of the header. `ecrecover` recovers the sealer's address from it,
and `verifySeal` checks that the address is a signer of the parent's snapshot, that it has not
signed too recently, and that the header's difficulty is its own.

The block hash covers `Signer`, and `sigHash` does not: two headers that differ in their seal
only are two blocks with the same contents.

## Main results

- `ecrecover_verifies`: a recovered address is that of a key which signed `sigHash` of the
  header, over a group of prime order.
- `verifySeal_congr`: `verifySeal` reads the seal only through the address it recovers.
- `verifySeal_twin`: every seal that recovers an address has a twin, computed from it alone,
  which is another seal, recovers the same address, and which `verifySeal` judges as it judges
  the seal.
-/

namespace Indigo.Clique

open Indigo.Lib Indigo.Crypto Snapshot

/-- What `ecrecover` reads of the signature scheme: the curve of order `n`, `sigHash`, and the
address of a public key. -/
structure Signing (n : Nat) (G : Type) [AddCommGroup G] [Module (ZMod n) G] where
  curve : Curve n G
  /-- `sigHash`: the Keccak-256 hash of the RLP list of the header's fields, all but `Signer`. -/
  sigHash : SealHeader → Hash
  /-- The last 20 bytes of the Keccak-256 hash of the public key's encoding. -/
  pubkeyAddress : G → Address

/-- `signatureLength`: the bytes of a secp256k1 signature. -/
def signatureLength : Nat := 65

/-- The errors of `verifySeal`. -/
inductive SealCheckError where
  /-- What `Clique.snapshot` returned. -/
  | snapshot (err : String)
  /-- `"signer signature missing"` -/
  | errMissingSignature
  /-- What `RecoverPubkey` returned. -/
  | recover (err : RecoverError)
  /-- `"%s not authorized to sign"` -/
  | notAuthorized (signer : Address)
  /-- `"%s not authorized to sign %d: signed recently %d, next eligible signature %d"` -/
  | signedRecently (signer : Address) (number lastBlockSigned next : Nat)
  /-- `"invalid difficulty"` -/
  | errInvalidDifficulty
deriving DecidableEq

variable {n : Nat} {G : Type} [AddCommGroup G] [Module (ZMod n) G] [DecidableEq G]

/-- `ecrecover`, for the header's fields and its `Signer`. The signature cache, keyed by the
block hash, returns what an earlier call returned for the same header, and is left out. -/
def ecrecover (signing : Signing n G) (header : SealHeader) (Signer : Bytes) :
    Except SealCheckError Address :=
  if Signer.length < signatureLength then .error .errMissingSignature
  else
    match RecoverPubkey signing.curve (signing.sigHash header).bytes Signer with
    | .error err => .error (.recover err)
    | .ok pubkey => .ok (signing.pubkeyAddress pubkey)

/-- `verifySeal`, for the header's fields, its `Signer`, and the batch of parents. -/
def verifySeal (env : Env) (signing : Signing n G) (header : SealHeader) (Signer : Bytes)
    (parents : List SealHeader) : Except SealCheckError Unit :=
  -- the genesis block is the always valid dead-end
  if header.Number = 0 then .ok ()
  else
    match env.snapshot (header.Number - 1) header.ParentHash parents with
    | .error err => .error (.snapshot err)
    | .ok snap =>
      -- resolve the authorization key and check against signers
      match ecrecover signing header Signer with
      | .error err => .error err
      | .ok signer =>
        match snap.Signers.lookup signer with
        | none => .error (.notAuthorized signer)
        | some lastBlockSigned =>
          if lastBlockSigned > 0 ∧ header.Number < snap.nextSignableBlockNumber lastBlockSigned then
            .error (.signedRecently signer header.Number lastBlockSigned
              (snap.nextSignableBlockNumber lastBlockSigned))
          else if header.Difficulty ≠ CalcDifficulty snap.Signers signer then
            .error .errInvalidDifficulty
          else .ok ()

section Recovery

variable {signing : Signing n G} {header : SealHeader} {Signer : Bytes} {signer : Address}

/-- A recovered address is that of a key which `RecoverPubkey` returned for `sigHash`. -/
theorem ecrecover_eq_ok (recovered : ecrecover signing header Signer = .ok signer) :
    ∃ pubkey, RecoverPubkey signing.curve (signing.sigHash header).bytes Signer = .ok pubkey ∧
      signing.pubkeyAddress pubkey = signer := by
  unfold ecrecover at recovered
  split_ifs at recovered
  split at recovered
  · cases recovered
  · rename_i pubkey found
    cases recovered
    exact ⟨pubkey, found, rfl⟩

/-- A recovered address is that of a key that signed `sigHash` of the header: the signature
`(r, s)` in `Signer` verifies against it. -/
theorem ecrecover_verifies [Fact n.Prime] (recovered : ecrecover signing header Signer = .ok signer) :
    ∃ pubkey, signing.pubkeyAddress pubkey = signer ∧
      Verifies signing.curve pubkey (sigR Signer) (sigS Signer) (beValue (signing.sigHash header).bytes) := by
  obtain ⟨pubkey, found, address⟩ := ecrecover_eq_ok recovered
  exact ⟨pubkey, address, RecoverPubkey_verify found⟩

/-- `verifySeal` reads the seal only through the address `ecrecover` recovers from it. -/
theorem verifySeal_congr {env : Env} {parents : List SealHeader} {Signer' : Bytes}
    (same : ecrecover signing header Signer' = ecrecover signing header Signer) :
    verifySeal env signing header Signer' parents = verifySeal env signing header Signer parents := by
  simp only [verifySeal, same]

/-- The twin of a seal that recovers an address is another seal, computed from the seal alone,
that recovers the same address; `verifySeal` judges the two alike, so a header that passes
has a twin, a different block with the same contents, that passes too. -/
theorem verifySeal_twin (small : n ≤ 256 ^ 32)
    (recovered : ecrecover signing header Signer = .ok signer) :
    twinSignature n Signer ≠ Signer ∧ ecrecover signing header (twinSignature n Signer) = .ok signer ∧
      ∀ env parents, verifySeal env signing header (twinSignature n Signer) parents =
        verifySeal env signing header Signer parents := by
  obtain ⟨pubkey, found, address⟩ := ecrecover_eq_ok recovered
  obtain ⟨other, twinFound⟩ := RecoverPubkey_twin small found
  have sigLength := (RecoverPubkey_eq_ok twinFound).2.1
  have twinRecovered : ecrecover signing header (twinSignature n Signer) = .ok signer := by
    rw [ecrecover, if_neg (by simp [sigLength, signatureLength]), twinFound]
    exact congrArg Except.ok address
  exact ⟨other, twinRecovered, fun _ _ => verifySeal_congr (twinRecovered.trans recovered.symm)⟩

end Recovery

/-! ### A twin seal on the example chain -/

/-- The lift of the example curve: the x-coordinates `1` to `3` lift to `x` and `-x`. -/
def toyLiftX (x : Nat) (odd : Bool) : Option (ZMod 7) :=
  if 0 < x ∧ x ≤ 3 then some (if odd then -(x : ZMod 7) else (x : ZMod 7)) else none

theorem toyLiftX_eq_some {x : Nat} {odd : Bool} {R : ZMod 7} (lifted : toyLiftX x odd = some R) :
    0 < x ∧ x ≤ 3 ∧ R = if odd then -(x : ZMod 7) else (x : ZMod 7) := by
  unfold toyLiftX at lifted
  by_cases range : 0 < x ∧ x ≤ 3
  · rw [if_pos range, Option.some.injEq] at lifted
    exact ⟨range.1, range.2, lifted.symm⟩
  · rw [if_neg range] at lifted
    cases lifted

/-- A curve of order `7` for the examples: the points are `ZMod 7`, and the x-coordinate of a
point is the smaller of it and its negation. -/
def toyCurve : Curve 7 (ZMod 7) where
  gen := 1
  liftX := toyLiftX
  xCoord P := min P.val (-P).val
  liftX_not x odd := by
    by_cases range : 0 < x ∧ x ≤ 3
    · cases odd <;> simp [toyLiftX, range]
    · simp [toyLiftX, range]
  xCoord_liftX x odd R lifted := by
    obtain ⟨positive, le, rfl⟩ := toyLiftX_eq_some lifted
    interval_cases x <;> cases odd <;> decide
  liftX_ne_zero x odd R lifted := by
    obtain ⟨positive, le, rfl⟩ := toyLiftX_eq_some lifted
    interval_cases x <;> cases odd <;> decide

/-- The signature scheme of the examples: every header hashes to zero, and the address of a
point is one more than its value. -/
def toySigning : Signing 7 (ZMod 7) where
  curve := toyCurve
  sigHash _ := Indigo.Hash.zero
  pubkeyAddress P := P.val + 1

/-- Signer `2`'s seal of block `1` of the example chain: `r = 1`, `s = 1`, even parity. -/
def toySeal : Bytes := bePadded 1 32 ++ bePadded 1 32 ++ [0]

/-- Block `1` of the example chain, at signer `2`'s difficulty. -/
def toyHeader : SealHeader := ⟨Indigo.Hash.zero, 1, 0, 3, [], []⟩

/-- Signer `2`'s seal of block `1` passes `verifySeal`, and so does its twin `r = 1`, `s = 6`,
odd parity, which recovers signer `2` too. -/
theorem verifySeal_toySeal_twin :
    verifySeal exampleEnv toySigning toyHeader toySeal [] = .ok () ∧
      twinSignature 7 toySeal ≠ toySeal ∧
      ecrecover toySigning toyHeader (twinSignature 7 toySeal) = .ok 2 ∧
      verifySeal exampleEnv toySigning toyHeader (twinSignature 7 toySeal) [] = .ok () := by
  have recovered : ecrecover toySigning toyHeader toySeal = .ok 2 := by decide +kernel
  have verified : verifySeal exampleEnv toySigning toyHeader toySeal [] = .ok () := by decide +kernel
  obtain ⟨other, twinRecovered, verdict⟩ := verifySeal_twin (by norm_num) recovered
  exact ⟨verified, other, twinRecovered, (verdict exampleEnv []).trans verified⟩

end Indigo.Clique
