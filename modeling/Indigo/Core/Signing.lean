import Indigo.Rlp.Value
import Indigo.Clique.Signature

/-!
# Transaction signers

`core/types/transaction_signing.go` derives the sender of a transaction in one of three ways,
one per set of chain rules. `FrontierSigner` and `HomesteadSigner` recover it from the signature
values `(V, R, S)` over the hash of the transaction's fields, with `V` in `{27, 28}`, Homestead
refusing the upper half of `s`. `EIP155Signer` adds its chain id to the hash and to `V`
(`V = v + 35 + 2 chainId`), and reads a transaction whose `V` is `27` or `28` by the Homestead
rules. `Sender` caches the sender in the transaction, with the signer that derived it.

The signature values are `*big.Int`s: integers of either sign. `BitLen` and `Uint64` read the
absolute value, so `isProtectedV` and `recoverPlain` read a negative `V` as its negation.

## Main results

- `WithSignature_EIP155`: a signature made for `NewEIP155Signer(c)`, `c > 0`, marks the
  transaction protected with chain id `c`; that signer recovers from exactly the signed hash and
  the signature, and every other chain id's signer refuses it.
- `EIP155Signer.Sender_eq_ok`: what `NewEIP155Signer(c)` accepts with a non-negative `V`: `27`
  or `28`, by the Homestead rules, or `35 + 2c + v` with `v ∈ {0, 1}`; always with `s ≤ N/2`.
- `HomesteadSigner.Sender_neg`: negating `V` changes nothing the Homestead rules read.
- `senderCalls_eq`: over every sequence of calls, the cached `Sender` returns what each call's
  signer derives.
- `EIP155Signer_replay_protection`: the three together.
- `EIP155Signer_accepts_negative_V`: a signer of a negative chain id puts a negative `V` on a
  transaction, which every EIP-155 signer then accepts as `|V|`.

## Proof strategy

`recoverPlain_eq_ok` and `recoverPlain_of_valid` say once what a recovery checks; the arithmetic
of `V` is in `deriveChainId_of_nonneg` (the `uint64` path and its wrap below `35`) and
`toNat_recoveryByte` (the byte `V - 27`). The cache keeps `Coherent`: a cached sender is what its
signer derives, and `Signer.Equal` holds of equal signers only.
-/

namespace Indigo.Core

open Indigo.Lib Indigo.Crypto Indigo.Rlp

/-- What the signers read of the `crypto` package: the curve of order `N` (`secp256k1_N`), the
65-byte encoding of a recovered key, and Keccak-256. -/
structure Crypto (N : Nat) (G : Type) [AddCommGroup G] [Module (ZMod N) G] where
  curve : Curve N G
  /-- `r` and `s` below the order fit the 32 bytes `recoverPlain` copies them into. -/
  order_le : N ≤ 256 ^ 32
  /-- The uncompressed encoding `0x04 ‖ x ‖ y` that `secp256k1.RecoverPubkey` returns. -/
  pubkeyBytes : G → Bytes
  Keccak256 : Bytes → Hash

/-- `txdata`, without the `Hash` field, which only JSON reads. -/
structure Txdata where
  AccountNonce : UInt64
  Price : Int
  GasLimit : UInt64
  /-- `nil` means contract creation. -/
  Recipient : Option Address
  Amount : Int
  Payload : Bytes
  V : Int
  R : Int
  S : Int
deriving DecidableEq

/-- `EIP155Signer`, as `NewEIP155Signer` builds it. -/
structure EIP155Signer where
  chainId : Int
  chainIdMul : Int
  chainIdMul_eq : chainIdMul = chainId * 2

/-- The three implementations of `Signer`. -/
inductive Signer where
  | EIP155 (s : EIP155Signer)
  | Homestead
  | Frontier

/-- `sigCache`: a derived sender (Go's `from`) and the signer that derived it. -/
structure SigCache where
  signer : Signer
  sender : Address

/-- `Transaction`: its data, and the `from` cache of `Sender`. The hash and size caches are
left out. -/
structure Transaction where
  data : Txdata
  fromCache : Option SigCache

/-- The errors of the signers. -/
inductive SenderError where
  /-- `ErrInvalidChainId`: `"invalid chain id for signer"` -/
  | ErrInvalidChainId
  /-- `ErrInvalidSig`: `"invalid transaction v, r, s values"` -/
  | ErrInvalidSig
  /-- What `crypto.Ecrecover` returned. -/
  | recover (err : RecoverError)
  /-- `"invalid public key"` -/
  | invalidPublicKey
deriving DecidableEq

/-! ### The transaction's signature values -/

/-- `isProtectedV`: below 8 bits, every `V` but `27` and `28`; `V.Uint64()` of a value that
fits is its absolute value. -/
def isProtectedV (V : Int) : Bool :=
  if V.natAbs < 2 ^ 8 then V.natAbs ≠ 27 ∧ V.natAbs ≠ 28
  -- anything not 27 or 28 are considered unprotected
  else true

/-- `deriveChainId`: up to 64 bits, `(v - 35) / 2` in `uint64`, which wraps below `35`; above,
in big integers. -/
def deriveChainId (v : Int) : Int :=
  if v.natAbs < 2 ^ 64 then
    let v := UInt64.ofNat v.natAbs
    if v = 27 ∨ v = 28 then 0
    else ((v - 35) / 2).toNat
  else (v - 35) / 2

/-- `Transaction.ChainId`. -/
def Txdata.ChainId (tx : Txdata) : Int := deriveChainId tx.V

/-- `Transaction.Protected`. -/
def Txdata.Protected (tx : Txdata) : Bool := isProtectedV tx.V

/-! ### Recovery -/

/-- `crypto.ValidateSignatureValues`, for the curve order `N`. -/
def ValidateSignatureValues (N : Nat) (v : UInt8) (r s : Int) (homestead : Bool) : Bool :=
  if r < 1 ∨ s < 1 then false
  -- reject upper range of s values (ECDSA malleability)
  else if homestead ∧ s > (N / 2 : Nat) then false
  -- Frontier: allow s to be in full N range
  else decide (r < N ∧ s < N ∧ (v = 0 ∨ v = 1))

variable {N : Nat} {G : Type} [AddCommGroup G] [Module (ZMod N) G] [DecidableEq G]

/-- The end of `recoverPlain`: `crypto.Ecrecover` on the hash and the 65-byte signature, the
check of the key's first byte, and the last 20 bytes of the Keccak-256 hash of the rest. -/
def recoverAddress (crypto : Crypto N G) (sighash : Hash) (sig : Bytes) : Except SenderError Address :=
  match RecoverPubkey crypto.curve sighash.bytes sig with
  | .error err => .error (.recover err)
  | .ok pubkey =>
    let pub := crypto.pubkeyBytes pubkey
    if pub.length = 0 ∨ pub.head? ≠ some 4 then .error .invalidPublicKey
    else .ok (beValue ((crypto.Keccak256 (pub.drop 1)).bytes.drop 12))

/-- `recoverPlain`. `BitLen` is the bit length of the absolute value, and `Uint64` its low 64
bits; the byte `V - 27` wraps. `R.Bytes()` and `S.Bytes()` are copied right-aligned into 32
bytes each. -/
def recoverPlain (crypto : Crypto N G) (sighash : Hash) (R S Vb : Int) (homestead : Bool) :
    Except SenderError Address :=
  if 2 ^ 8 ≤ Vb.natAbs then .error .ErrInvalidSig
  else
    let V := (UInt64.ofNat Vb.natAbs - 27).toUInt8
    if !ValidateSignatureValues N V R S homestead then .error .ErrInvalidSig
    -- encode the signature in uncompressed format
    else recoverAddress crypto sighash (bePadded R.natAbs 32 ++ bePadded S.natAbs 32 ++ [V])

/-! ### The hashes -/

/-- `rlpHash`: `rlp.Encode` writes nothing to the hasher when the encoding fails. -/
def rlpHash (Keccak256 : Bytes → Hash) (x : Value) : Hash :=
  match EncodeToBytes x with
  | .ok enc => Keccak256 enc
  | .error _ => Keccak256 []

/-- A `*common.Address`: its 20 bytes, or for `nil` the empty string that `makePtrWriter`
writes for a nil pointer to a byte array. -/
def recipientValue : Option Address → Value
  | none => .byteArray []
  | some a => .byteArray (bePadded a 20)

/-- The fields every signer hashes, each in an `interface{}`. -/
def txFields (tx : Txdata) : List Value :=
  [.iface (.uint tx.AccountNonce.toNat), .iface (.bigInt tx.Price), .iface (.uint tx.GasLimit.toNat),
    .iface (recipientValue tx.Recipient), .iface (.bigInt tx.Amount), .iface (.bytes tx.Payload)]

/-- `FrontierSigner.Hash`, which `HomesteadSigner` inherits. -/
def FrontierSigner.Hash (Keccak256 : Bytes → Hash) (tx : Txdata) : Hash :=
  rlpHash Keccak256 (.slice (txFields tx))

/-- `EIP155Signer.Hash`: the fields, the chain id, and two zeros. -/
def EIP155Signer.Hash (s : EIP155Signer) (Keccak256 : Bytes → Hash) (tx : Txdata) : Hash :=
  rlpHash Keccak256 (.slice (txFields tx ++ [.iface (.bigInt s.chainId), .iface (.uint 0), .iface (.uint 0)]))

/-! ### The signers -/

/-- `NewEIP155Signer`; a nil chain id is zero. -/
def NewEIP155Signer (chainId : Option Int) : EIP155Signer :=
  ⟨chainId.getD 0, chainId.getD 0 * 2, rfl⟩

/-- `FrontierSigner.Sender`. -/
def FrontierSigner.Sender (crypto : Crypto N G) (tx : Txdata) : Except SenderError Address :=
  recoverPlain crypto (FrontierSigner.Hash crypto.Keccak256 tx) tx.R tx.S tx.V false

/-- `HomesteadSigner.Sender`. -/
def HomesteadSigner.Sender (crypto : Crypto N G) (tx : Txdata) : Except SenderError Address :=
  recoverPlain crypto (FrontierSigner.Hash crypto.Keccak256 tx) tx.R tx.S tx.V true

/-- `EIP155Signer.Sender`: an unprotected transaction by the Homestead rules; a protected one
of this chain id with `V` rebased by `2 chainId + 8`. -/
def EIP155Signer.Sender (s : EIP155Signer) (crypto : Crypto N G) (tx : Txdata) : Except SenderError Address :=
  if !tx.Protected then HomesteadSigner.Sender crypto tx
  else if tx.ChainId ≠ s.chainId then .error .ErrInvalidChainId
  else recoverPlain crypto (s.Hash crypto.Keccak256 tx) tx.R tx.S (tx.V - s.chainIdMul - 8) true

/-- `FrontierSigner.SignatureValues`, which `HomesteadSigner` inherits: `R`, `S` and
`V = sig[64] + 27`, the byte sum wrapping. `none` is the panic on a signature that is not 65
bytes long. -/
def FrontierSigner.SignatureValues (sig : Bytes) : Option (Int × Int × Int) :=
  if sig.length ≠ 65 then none
  else some (sigR sig, sigS sig, (sig.getD 64 0 + 27).toNat)

/-- `EIP155Signer.SignatureValues`: with a nonzero chain id, `V = sig[64] + 35 + 2 chainId`. -/
def EIP155Signer.SignatureValues (s : EIP155Signer) (sig : Bytes) : Option (Int × Int × Int) := do
  let (R, S, V) ← FrontierSigner.SignatureValues sig
  if s.chainId ≠ 0 then pure (R, S, (sig.getD 64 0 + 35).toNat + s.chainIdMul)
  else pure (R, S, V)

/-- `Signer.Sender`. -/
def Signer.Sender (crypto : Crypto N G) : Signer → Txdata → Except SenderError Address
  | .EIP155 s, tx => s.Sender crypto tx
  | .Homestead, tx => HomesteadSigner.Sender crypto tx
  | .Frontier, tx => FrontierSigner.Sender crypto tx

/-- `Signer.SignatureValues`. -/
def Signer.SignatureValues : Signer → Bytes → Option (Int × Int × Int)
  | .EIP155 s, sig => s.SignatureValues sig
  | .Homestead, sig | .Frontier, sig => FrontierSigner.SignatureValues sig

/-- `Signer.Equal`: an `EIP155Signer` of the same chain id, or a signer of the same type. -/
def Signer.Equal : Signer → Signer → Bool
  | .EIP155 s, .EIP155 eip155 => eip155.chainId == s.chainId
  | .Homestead, .Homestead => true
  | .Frontier, .Frontier => true
  | _, _ => false

/-- `Transaction.WithSignature`: the copy carries the data and no cached sender. -/
def WithSignature (signer : Signer) (tx : Transaction) (sig : Bytes) : Option Transaction := do
  let (R, S, V) ← signer.SignatureValues sig
  pure ⟨{ tx.data with R, S, V }, none⟩

/-! ### The cached sender -/

/-- What `Sender` does on a miss: derive, and cache the sender with its signer. -/
def deriveSender (crypto : Crypto N G) (signer : Signer) (tx : Transaction) :
    Except SenderError Address × Transaction :=
  match signer.Sender crypto tx.data with
  | .error err => (.error err, tx)
  | .ok addr => (.ok addr, { tx with fromCache := some ⟨signer, addr⟩ })

/-- `types.Sender`: the cached sender if the signer that derived it is `Equal` to this one. -/
def Sender (crypto : Crypto N G) (signer : Signer) (tx : Transaction) :
    Except SenderError Address × Transaction :=
  match tx.fromCache with
  | some sigCache =>
    -- If the signer used to derive from in a previous call is not the same as used current,
    -- invalidate the cache.
    if sigCache.signer.Equal signer then (.ok sigCache.sender, tx) else deriveSender crypto signer tx
  | none => deriveSender crypto signer tx

/-- A sequence of `Sender` calls on one transaction, with their results. -/
def senderCalls (crypto : Crypto N G) : List Signer → Transaction →
    List (Except SenderError Address) × Transaction
  | [], tx => ([], tx)
  | signer :: rest, tx =>
    let (result, tx) := Sender crypto signer tx
    let (results, tx) := senderCalls crypto rest tx
    (result :: results, tx)

/-- The cache holds only what its signer derives. -/
def Coherent (crypto : Crypto N G) (tx : Transaction) : Prop :=
  ∀ sigCache, tx.fromCache = some sigCache → sigCache.signer.Sender crypto tx.data = .ok sigCache.sender

/-! ### What a recovery checks -/

section Recover

variable {crypto : Crypto N G} {sighash : Hash} {R S Vb : Int} {homestead : Bool} {addr : Address}

theorem ValidateSignatureValues_eq_true {v : UInt8} :
    ValidateSignatureValues N v R S homestead = true ↔
      1 ≤ R ∧ 1 ≤ S ∧ (homestead = true → S ≤ (N / 2 : Nat)) ∧ R < N ∧ S < N ∧ (v = 0 ∨ v = 1) := by
  unfold ValidateSignatureValues
  split_ifs with small large <;> simp only [decide_eq_true_eq, false_iff]
  · omega
  · intro ⟨_, _, half, _⟩
    exact absurd (half large.1) (not_le.2 large.2)
  · constructor
    · intro ⟨rBelow, sBelow, recid⟩
      refine ⟨by omega, by omega, fun hs => ?_, rBelow, sBelow, recid⟩
      exact not_lt.1 fun above => large ⟨hs, above⟩
    · intro ⟨_, _, _, rBelow, sBelow, recid⟩
      exact ⟨rBelow, sBelow, recid⟩

/-- The byte `V - 27`, the subtraction wrapping in `uint64`. -/
theorem toNat_recoveryByte (k : Nat) :
    (UInt64.ofNat k - 27).toUInt8.toNat = (k + 229) % 256 := by
  rw [UInt64.toNat_toUInt8, UInt64.toNat_sub, UInt64.toNat_ofNat']
  simp
  omega

/-- The recovery id `recoverPlain` passes is `0` or `1` exactly when the absolute value of `V`
is `27` or `28`. -/
theorem recoveryByte_iff {k : Nat} (small : k < 2 ^ 8) :
    ((UInt64.ofNat k - 27).toUInt8 = 0 ∨ (UInt64.ofNat k - 27).toUInt8 = 1) ↔ k = 27 ∨ k = 28 := by
  have byte := toNat_recoveryByte k
  rw [← UInt8.toNat_inj, ← UInt8.toNat_inj, byte]
  simp only [UInt8.toNat_zero, UInt8.toNat_one]
  omega

/-- A recovery that succeeds has checked `V`, `R` and `S`, and recovered from the signature
they make. -/
theorem recoverPlain_eq_ok (recovered : recoverPlain crypto sighash R S Vb homestead = .ok addr) :
    Vb.natAbs < 2 ^ 8 ∧ ValidateSignatureValues N (UInt64.ofNat Vb.natAbs - 27).toUInt8 R S homestead ∧
      recoverAddress crypto sighash
        (bePadded R.natAbs 32 ++ bePadded S.natAbs 32 ++ [(UInt64.ofNat Vb.natAbs - 27).toUInt8]) = .ok addr := by
  dsimp only [recoverPlain] at recovered
  split_ifs at recovered with large invalid
  exact ⟨Nat.lt_of_not_le large, by simpa using invalid, recovered⟩

/-- With valid values, `recoverPlain` is the recovery from the signature they make. -/
theorem recoverPlain_of_valid (small : Vb.natAbs < 2 ^ 8)
    (valid : ValidateSignatureValues N (UInt64.ofNat Vb.natAbs - 27).toUInt8 R S homestead) :
    recoverPlain crypto sighash R S Vb homestead = recoverAddress crypto sighash
      (bePadded R.natAbs 32 ++ bePadded S.natAbs 32 ++ [(UInt64.ofNat Vb.natAbs - 27).toUInt8]) := by
  dsimp only [recoverPlain]
  rw [if_neg (Nat.not_le.2 small), if_neg (by simpa using valid)]

/-- `recoverPlain` reads `V` through its absolute value. -/
theorem recoverPlain_neg : recoverPlain crypto sighash R S (-Vb) homestead = recoverPlain crypto sighash R S Vb homestead := by
  simp only [recoverPlain, Int.natAbs_neg]

end Recover

/-! ### Protection and the chain id -/

section ChainId

variable {V : Int}

/-- `V` is unprotected exactly when its absolute value is `27` or `28`. -/
theorem isProtectedV_eq_false : isProtectedV V = false ↔ V.natAbs = 27 ∨ V.natAbs = 28 := by
  unfold isProtectedV
  split_ifs with small
  · simp only [ne_eq, decide_eq_false_iff_not, not_and, not_not]
    omega
  · simp only [false_iff]
    omega

/-- `isProtectedV` reads `V` through its absolute value. -/
theorem isProtectedV_neg : isProtectedV (-V) = isProtectedV V := by
  simp only [isProtectedV, Int.natAbs_neg]

theorem uint64_ofNat_eq {k m : Nat} (small : k < 2 ^ 64) (fits : m < 2 ^ 64) :
    UInt64.ofNat k = UInt64.ofNat m ↔ k = m := by
  rw [← UInt64.toNat_inj, UInt64.toNat_ofNat', UInt64.toNat_ofNat', Nat.mod_eq_of_lt small,
    Nat.mod_eq_of_lt fits]

/-- The chain id of a non-negative protected `V`: `(V - 35) / 2`, which the `uint64` path wraps
to above `2^63` below `35`. -/
theorem deriveChainId_of_nonneg (nonneg : 0 ≤ V) (isProtected : isProtectedV V = true) :
    deriveChainId V = if V < 35 then (2 ^ 64 + V - 35) / 2 else (V - 35) / 2 := by
  have other : ¬(V.natAbs = 27 ∨ V.natAbs = 28) := fun unprotected => by
    rw [← isProtectedV_eq_false, isProtected] at unprotected
    cases unprotected
  dsimp only [deriveChainId]
  by_cases small : V.natAbs < 2 ^ 64
  · -- the `uint64` value is `V` itself, which is neither `27` nor `28`
    have notWrapped : ¬(UInt64.ofNat V.natAbs = 27 ∨ UInt64.ofNat V.natAbs = 28) := by
      rw [show (27 : UInt64) = UInt64.ofNat 27 from rfl, show (28 : UInt64) = UInt64.ofNat 28 from rfl,
        uint64_ofNat_eq small (by norm_num), uint64_ofNat_eq small (by norm_num)]
      exact other
    rw [if_pos small, if_neg notWrapped, UInt64.toNat_div, UInt64.toNat_sub, UInt64.toNat_ofNat']
    simp only [UInt64.reduceToNat]
    split_ifs <;> omega
  · rw [if_neg small, if_neg (by omega)]

/-- A `V` of `35 + 2c + v` with `c ≥ 0` and `v ∈ {0, 1}` is protected... -/
theorem isProtectedV_eip155 {c v : Int} (nonneg : 0 ≤ c) (bit : 0 ≤ v ∧ v ≤ 1) :
    isProtectedV (35 + 2 * c + v) = true := by
  cases unprotected : isProtectedV (35 + 2 * c + v) with
  | true => rfl
  | false =>
    have absolute := isProtectedV_eq_false.1 unprotected
    omega

/-- ...with chain id `c`. -/
theorem deriveChainId_eip155 {c v : Int} (nonneg : 0 ≤ c) (bit : 0 ≤ v ∧ v ≤ 1) :
    deriveChainId (35 + 2 * c + v) = c := by
  rw [deriveChainId_of_nonneg (by omega) (isProtectedV_eip155 nonneg bit), if_neg (by omega)]
  omega

end ChainId

/-! ### The EIP-155 signer -/

section EIP155

variable {crypto : Crypto N G} {c : Int} {tx : Txdata} {sig : Bytes} {addr : Address}

@[simp] theorem chainId_NewEIP155Signer (c : Int) : (NewEIP155Signer (some c)).chainId = c := rfl

@[simp] theorem chainIdMul_NewEIP155Signer (c : Int) : (NewEIP155Signer (some c)).chainIdMul = c * 2 := rfl

/-- The hashes read no signature value. -/
@[simp] theorem EIP155Signer.Hash_withSignature (s : EIP155Signer) (K : Bytes → Indigo.Hash) (R S V : Int) :
    s.Hash K { tx with R, S, V } = s.Hash K tx := rfl

@[simp] theorem FrontierSigner.Hash_withSignature (K : Bytes → Indigo.Hash) (R S V : Int) :
    FrontierSigner.Hash K { tx with R, S, V } = FrontierSigner.Hash K tx := rfl

/-- The byte `recoverPlain` passes for a rebased `V` of `27 + v`. -/
theorem recoveryByte_rebased {v : UInt8} (recid : v = 0 ∨ v = 1) :
    (UInt64.ofNat (27 + (v.toNat : Int)).natAbs - 27).toUInt8 = v := by
  rw [← UInt8.toNat_inj, toNat_recoveryByte]
  rcases recid with rfl | rfl <;> rfl

-- the lemmas of this section compute `Sender` by `simp`
attribute [local simp] EIP155Signer.Sender

/-- A `V` of `35 + 2c + v`: the signer of chain id `c` recovers from the signature `(R, S, v)`
over its hash. -/
theorem EIP155Signer.Sender_of_V {v : UInt8} (nonneg : 0 ≤ c) (recid : v = 0 ∨ v = 1)
    (V_eq : tx.V = 35 + 2 * c + v.toNat) (valid : ValidateSignatureValues N v tx.R tx.S true) :
    (NewEIP155Signer (some c)).Sender crypto tx =
      recoverAddress crypto ((NewEIP155Signer (some c)).Hash crypto.Keccak256 tx)
        (bePadded tx.R.natAbs 32 ++ bePadded tx.S.natAbs 32 ++ [v]) := by
  have bit : 0 ≤ (v.toNat : Int) ∧ (v.toNat : Int) ≤ 1 := by rcases recid with rfl | rfl <;> decide
  have isProtected : tx.Protected = true := by rw [Txdata.Protected, V_eq, isProtectedV_eip155 nonneg bit]
  have chain : tx.ChainId = c := by rw [Txdata.ChainId, V_eq, deriveChainId_eip155 nonneg bit]
  have rebased : tx.V - (NewEIP155Signer (some c)).chainIdMul - 8 = 27 + (v.toNat : Int) := by
    rw [chainIdMul_NewEIP155Signer]
    omega
  have byte := recoveryByte_rebased recid
  unfold EIP155Signer.Sender
  rw [isProtected, chain, chainId_NewEIP155Signer, rebased, recoverPlain_of_valid (by omega) (by rw [byte]; exact valid),
    byte]
  simp

/-- A protected transaction of another chain id is refused. -/
theorem EIP155Signer.Sender_of_ChainId_ne (isProtected : tx.Protected = true) (other : tx.ChainId ≠ c) :
    (NewEIP155Signer (some c)).Sender crypto tx = .error .ErrInvalidChainId := by
  simp [isProtected, other]

/-- An unprotected transaction is read by the Homestead rules. -/
theorem EIP155Signer.Sender_of_unprotected (s : EIP155Signer) (unprotected : tx.Protected = false) :
    s.Sender crypto tx = HomesteadSigner.Sender crypto tx := by
  simp [unprotected]

/-- With a nonzero chain id, `V` is `35 + 2c` plus the recovery id. -/
theorem EIP155Signer.SignatureValues_eq (nonzero : c ≠ 0) (sigLength : sig.length = 65)
    (recid : sig.getD 64 0 = 0 ∨ sig.getD 64 0 = 1) :
    (NewEIP155Signer (some c)).SignatureValues sig =
      some ((sigR sig : Int), (sigS sig : Int), 35 + 2 * c + (sig.getD 64 0).toNat) := by
  have byte : (sig.getD 64 0 + 35).toNat = (sig.getD 64 0).toNat + 35 := by
    rcases recid with recid | recid <;> rw [recid] <;> decide
  simp only [EIP155Signer.SignatureValues, FrontierSigner.SignatureValues, sigLength, ne_eq,
    not_true_eq_false, if_false, chainId_NewEIP155Signer, nonzero, not_false_eq_true, if_true,
    chainIdMul_NewEIP155Signer, byte]
  simp only [Option.bind_eq_bind, Option.bind_some, Option.pure_def, Option.some.injEq, Prod.mk.injEq, true_and]
  push_cast
  ring

/-- A signature made for `NewEIP155Signer(c)`, `c > 0`, with `v ∈ {0, 1}`, `1 ≤ r < N` and
`1 ≤ s ≤ N/2`: the transaction is protected, of chain id `c`; that signer recovers from exactly
the signed hash and the signature, and the signer of every other chain id refuses it. -/
theorem WithSignature_EIP155 (positive : 0 < c) (sigLength : sig.length = 65)
    (recid : sig.getD 64 0 = 0 ∨ sig.getD 64 0 = 1) (rRange : 1 ≤ sigR sig ∧ sigR sig < N)
    (sRange : 1 ≤ sigS sig ∧ sigS sig ≤ N / 2) (tx : Transaction) :
    ∃ t, WithSignature (.EIP155 (NewEIP155Signer (some c))) tx sig = some t ∧
      t.data.Protected = true ∧ t.data.ChainId = c ∧
      (NewEIP155Signer (some c)).Sender crypto t.data =
        recoverAddress crypto ((NewEIP155Signer (some c)).Hash crypto.Keccak256 tx.data) sig ∧
      ∀ c', c' ≠ c → (NewEIP155Signer (some c')).Sender crypto t.data = .error .ErrInvalidChainId := by
  have bit : 0 ≤ ((sig.getD 64 0).toNat : Int) ∧ ((sig.getD 64 0).toNat : Int) ≤ 1 := by
    rcases recid with recid | recid <;> rw [recid] <;> decide
  let t : Transaction :=
    ⟨{ tx.data with R := sigR sig, S := sigS sig, V := 35 + 2 * c + (sig.getD 64 0).toNat }, none⟩
  have signed : WithSignature (.EIP155 (NewEIP155Signer (some c))) tx sig = some t := by
    rw [WithSignature, Signer.SignatureValues, EIP155Signer.SignatureValues_eq positive.ne' sigLength recid]
    rfl
  have isProtected : t.data.Protected = true := isProtectedV_eip155 positive.le bit
  have chain : t.data.ChainId = c := deriveChainId_eip155 positive.le bit
  have valid : ValidateSignatureValues N (sig.getD 64 0) t.data.R t.data.S true := by
    rw [ValidateSignatureValues_eq_true]
    refine ⟨?_, ?_, fun _ => ?_, ?_, ?_, recid⟩ <;> simp only [t, Nat.cast_le, Nat.cast_lt] <;> omega
  refine ⟨t, signed, isProtected, chain, ?_,
    fun c' other => EIP155Signer.Sender_of_ChainId_ne isProtected (chain.trans_ne other.symm)⟩
  -- the signature rebuilt from `R`, `S` and the recovery id is the one signed
  rw [EIP155Signer.Sender_of_V positive.le recid rfl valid]
  show recoverAddress crypto ((NewEIP155Signer (some c)).Hash crypto.Keccak256 tx.data)
    (bePadded (sigR sig : Int).natAbs 32 ++ bePadded (sigS sig : Int).natAbs 32 ++ [sig.getD 64 0]) = _
  rw [Int.natAbs_natCast, Int.natAbs_natCast, bePadded_sigR_sigS sigLength]

/-- What `NewEIP155Signer(c)` accepts with a non-negative `V`: `27` or `28`, which the Homestead
rules accept as well, or `35 + 2c + v` with `v ∈ {0, 1}`, recovered from `(R, S, v)` over the
hash of chain id `c`; and always with `1 ≤ s ≤ N/2`. -/
theorem EIP155Signer.Sender_eq_ok (nonneg : 0 ≤ tx.V)
    (accepted : (NewEIP155Signer (some c)).Sender crypto tx = .ok addr) :
    ((tx.V = 27 ∨ tx.V = 28) ∧ HomesteadSigner.Sender crypto tx = .ok addr ∨
      ∃ v : UInt8, (v = 0 ∨ v = 1) ∧ tx.V = 35 + 2 * c + v.toNat ∧
        recoverAddress crypto ((NewEIP155Signer (some c)).Hash crypto.Keccak256 tx)
          (bePadded tx.R.natAbs 32 ++ bePadded tx.S.natAbs 32 ++ [v]) = .ok addr) ∧
      1 ≤ tx.S ∧ tx.S ≤ (N / 2 : Nat) := by
  cases isProtected : tx.Protected with
  | false =>
    -- read by the Homestead rules
    rw [EIP155Signer.Sender_of_unprotected _ isProtected] at accepted
    have absolute := isProtectedV_eq_false.1 isProtected
    obtain ⟨-, valid, -⟩ := recoverPlain_eq_ok accepted
    obtain ⟨-, sPos, half, -⟩ := ValidateSignatureValues_eq_true.1 valid
    exact ⟨.inl ⟨by omega, accepted⟩, sPos, half rfl⟩
  | true =>
    have chain : deriveChainId tx.V = c := by
      by_contra other
      rw [EIP155Signer.Sender_of_ChainId_ne isProtected other] at accepted
      cases accepted
    rw [EIP155Signer.Sender, if_neg (by simp [isProtected]), if_neg (by simp [Txdata.ChainId, chain]),
      chainIdMul_NewEIP155Signer] at accepted
    obtain ⟨small, valid, recovered⟩ := recoverPlain_eq_ok accepted
    obtain ⟨-, sPos, half, -, -, recid⟩ := ValidateSignatureValues_eq_true.1 valid
    -- the rebased `V` is `27` or `28` in absolute value, and not negative: the chain id of a `V`
    -- below `35` is above `2^63`
    have absolute := (recoveryByte_iff small).1 recid
    have derived := deriveChainId_of_nonneg nonneg isProtected
    rw [chain] at derived
    have rebased : tx.V - c * 2 - 8 = 27 ∨ tx.V - c * 2 - 8 = 28 := by
      split_ifs at derived <;> omega
    have byte := toNat_recoveryByte (tx.V - c * 2 - 8).natAbs
    exact ⟨.inr ⟨_, recid, by omega, recovered⟩, sPos, half rfl⟩

end EIP155

/-- The Homestead rules read `V` through its absolute value. -/
theorem HomesteadSigner.Sender_neg {crypto : Crypto N G} {tx : Txdata} :
    HomesteadSigner.Sender crypto { tx with V := -tx.V } = HomesteadSigner.Sender crypto tx :=
  recoverPlain_neg

/-! ### The cached sender -/

section Cache

variable {crypto : Crypto N G} {signer : Signer} {tx : Transaction}

/-- Two EIP-155 signers of one chain id are one. -/
theorem EIP155Signer.ext_chainId {s s2 : EIP155Signer} (same : s.chainId = s2.chainId) : s = s2 := by
  obtain ⟨c, _, mul⟩ := s
  obtain ⟨c2, _, mul2⟩ := s2
  subst mul mul2
  simp only at same
  subst same
  rfl

/-- `Signer.Equal` holds of equal signers only. -/
theorem Signer.Equal_iff {s s2 : Signer} : s.Equal s2 = true ↔ s = s2 := by
  cases s <;> cases s2 <;> simp only [Signer.Equal, reduceCtorEq, Signer.EIP155.injEq, beq_iff_eq]
  rename_i s s2
  exact ⟨fun same => EIP155Signer.ext_chainId same.symm, fun same => by rw [same]⟩

/-- A transaction with no cached sender is coherent. -/
theorem Coherent.of_none (none : tx.fromCache = none) : Coherent crypto tx := by
  intro sigCache cached
  rw [none] at cached
  cases cached

/-- A miss returns what the signer derives and keeps the cache coherent. -/
theorem deriveSender_eq (coherent : Coherent crypto tx) :
    (deriveSender crypto signer tx).1 = signer.Sender crypto tx.data ∧
      (deriveSender crypto signer tx).2.data = tx.data ∧ Coherent crypto (deriveSender crypto signer tx).2 := by
  unfold deriveSender
  split
  · rename_i err derived
    exact ⟨derived.symm, rfl, coherent⟩
  · rename_i addr derived
    refine ⟨derived.symm, rfl, fun sigCache cached => ?_⟩
    cases cached
    exact derived

/-- One call of `Sender` returns what its signer derives, and keeps the cache coherent. -/
theorem Sender_eq (signer : Signer) (coherent : Coherent crypto tx) :
    (Sender crypto signer tx).1 = signer.Sender crypto tx.data ∧
      (Sender crypto signer tx).2.data = tx.data ∧ Coherent crypto (Sender crypto signer tx).2 := by
  unfold Sender
  split
  · rename_i sigCache cached
    split_ifs with equal
    · -- a hit: the cached signer is this one, and its sender is what it derives
      rw [Signer.Equal_iff] at equal
      subst equal
      exact ⟨(coherent sigCache cached).symm, rfl, coherent⟩
    · exact deriveSender_eq coherent
  · exact deriveSender_eq coherent

/-- Over every sequence of calls, the cached `Sender` returns what each call's signer derives. -/
theorem senderCalls_eq (signers : List Signer) (coherent : Coherent crypto tx) :
    (senderCalls crypto signers tx).1 = signers.map fun signer => signer.Sender crypto tx.data := by
  induction signers generalizing tx with
  | nil => rfl
  | cons signer rest ih =>
    obtain ⟨result, data, coherent'⟩ := Sender_eq signer coherent
    simp only [senderCalls, List.map_cons, result, ih coherent', data]

end Cache

/-! ### Replay protection -/

/-- EIP-155 signatures, for every chain id `c ≥ 1`: a signature made for `c` marks the
transaction protected with chain id `c`, recovers from exactly the signed hash and signature
under `c`, and is refused under every other chain id; with a non-negative `V`, the signer of
`c` accepts only `V ∈ {27, 28}` (by the Homestead rules) or `V = 35 + 2c + v`, `v ∈ {0, 1}`, and
only `1 ≤ s ≤ N/2`; and the cached `Sender` returns, over every sequence of calls, what each
call's signer derives. -/
theorem EIP155Signer_replay_protection (crypto : Crypto N G) :
    (∀ (c : Int) (tx : Transaction) (sig : Bytes), 1 ≤ c → sig.length = 65 →
      (sig.getD 64 0 = 0 ∨ sig.getD 64 0 = 1) → 1 ≤ sigR sig ∧ sigR sig < N →
      1 ≤ sigS sig ∧ sigS sig ≤ N / 2 →
      ∃ t, WithSignature (.EIP155 (NewEIP155Signer (some c))) tx sig = some t ∧
        t.data.Protected = true ∧ t.data.ChainId = c ∧
        (NewEIP155Signer (some c)).Sender crypto t.data =
          recoverAddress crypto ((NewEIP155Signer (some c)).Hash crypto.Keccak256 tx.data) sig ∧
        ∀ c', c' ≠ c → (NewEIP155Signer (some c')).Sender crypto t.data = .error .ErrInvalidChainId) ∧
    (∀ (c : Int) (tx : Txdata) (addr : Address), 0 ≤ tx.V →
      (NewEIP155Signer (some c)).Sender crypto tx = .ok addr →
      ((tx.V = 27 ∨ tx.V = 28) ∧ HomesteadSigner.Sender crypto tx = .ok addr ∨
        ∃ v : UInt8, (v = 0 ∨ v = 1) ∧ tx.V = 35 + 2 * c + v.toNat ∧
          recoverAddress crypto ((NewEIP155Signer (some c)).Hash crypto.Keccak256 tx)
            (bePadded tx.R.natAbs 32 ++ bePadded tx.S.natAbs 32 ++ [v]) = .ok addr) ∧
        1 ≤ tx.S ∧ tx.S ≤ (N / 2 : Nat)) ∧
    ∀ (signers : List Signer) (tx : Transaction), Coherent crypto tx →
      (senderCalls crypto signers tx).1 = signers.map fun signer => signer.Sender crypto tx.data :=
  ⟨fun _ tx _ positive sigLength recid rRange sRange =>
      WithSignature_EIP155 (by omega) sigLength recid rRange sRange tx,
    fun _ _ _ nonneg accepted => EIP155Signer.Sender_eq_ok nonneg accepted,
    fun signers _ coherent => senderCalls_eq signers coherent⟩

/-- The signature scheme of the examples: the curve of order `7`, every byte string hashing to
zero, and a point encoded as `0x04` and its value. -/
def toyCrypto : Crypto 7 (ZMod 7) where
  curve := Indigo.Clique.toyCurve
  order_le := by norm_num
  pubkeyBytes P := [4, P.val.toUInt8]
  Keccak256 _ := Indigo.Hash.zero

/-- A transfer of nothing to address `1`, unsigned. -/
def toyTransaction : Transaction := ⟨⟨0, 1, 21000, some 1, 0, [], 0, 0, 0⟩, none⟩

/-- The example signature `r = 1`, `s = 1`, `v = 0` (`Indigo.Clique.toySeal`), made for chain id
`1`: that signer recovers address `0` from it, and the signer of chain id `2` refuses it. -/
theorem EIP155Signer_replay_protection_toy :
    ∃ t, WithSignature (.EIP155 (NewEIP155Signer (some 1))) toyTransaction Indigo.Clique.toySeal = some t ∧
      (NewEIP155Signer (some 1)).Sender toyCrypto t.data = .ok 0 ∧
      (NewEIP155Signer (some 2)).Sender toyCrypto t.data = .error .ErrInvalidChainId := by
  obtain ⟨t, signed, -, -, recovered, refused⟩ := (EIP155Signer_replay_protection toyCrypto).1 1
    toyTransaction Indigo.Clique.toySeal (by decide) (by decide) (by decide) (by decide) (by decide)
  have address : recoverAddress toyCrypto ((NewEIP155Signer (some 1)).Hash toyCrypto.Keccak256 toyTransaction.data)
      Indigo.Clique.toySeal = .ok 0 := by decide +kernel
  exact ⟨t, signed, recovered.trans address, refused 2 (by decide)⟩

/-- A signer of chain id `-31` puts `V = 35 - 62 = -27` on the transaction it signs with
recovery id `0`. Every EIP-155 signer reads that `V` by the Homestead rules, as `27`, and
accepts the transaction. -/
theorem EIP155Signer_accepts_negative_V :
    ∃ t, WithSignature (.EIP155 (NewEIP155Signer (some (-31)))) toyTransaction Indigo.Clique.toySeal = some t ∧
      t.data.V = -27 ∧ ∀ c : Int, (NewEIP155Signer (some c)).Sender toyCrypto t.data = .ok 0 := by
  let t : Transaction := ⟨{ toyTransaction.data with R := 1, S := 1, V := -27 }, none⟩
  have unprotected : t.data.Protected = false := by decide
  have homestead : HomesteadSigner.Sender toyCrypto t.data = .ok 0 := by decide +kernel
  refine ⟨t, rfl, rfl, fun c => ?_⟩
  rw [EIP155Signer.Sender_of_unprotected _ unprotected, homestead]

end Indigo.Core
