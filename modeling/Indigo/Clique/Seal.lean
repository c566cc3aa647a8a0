import Indigo.Clique.Difficulty
import Indigo.Lib.ExchangeSort

/-!
# Preparing, sealing and checking clique headers

`Prepare` fills the consensus fields of a header: the difficulty of the local signer in the
parent's snapshot, and at a checkpoint (a number that is a multiple of the epoch) the sorted
lists of the snapshot's signers and voters. `Seal` delays an out-of-turn signer before signing:
by `wiggleTime` for each rank it is below the top. `verifyCascadingFields` checks, at a
checkpoint, the header's lists against the parent's snapshot, element by element.

A header is the fields these functions read or write; the snapshot `Clique.snapshot` builds at
the parent, the headers stored locally, the hash of a header and the clock are the `Env`.

## Main results

- `checkList_eq_true_iff`, `checkList_eq_none_iff`: the comparison loop of the checkpoint check
  accepts a header list exactly when the snapshot's list is a prefix of it, and panics exactly
  when the header list is a proper prefix of the snapshot's.
- `verifyCascadingFields_checkpoint_unchecked`: so a checkpoint header whose signer list is a
  proper prefix of the snapshot's makes `verifyCascadingFields` panic, and one whose lists
  extend the snapshot's is accepted.
- `seal_delay_checkpoint`: at a checkpoint, `Seal` delays the signer of difficulty `d` by
  `(n - d) * wiggleTime`, `n` the number of signers.
- `seal_no_delay_off_checkpoint`: elsewhere the header `Prepare` leaves has no signer list, and
  `Seal` does not delay any signer.
-/

namespace Indigo.Clique

open Indigo.Evm Indigo.Lib Snapshot

/-- The fields of `types.Header` that `Prepare`, `Seal` and `verifyCascadingFields` read or
write. Times are in seconds. -/
structure SealHeader where
  ParentHash : Hash
  Number : Nat
  Time : Nat
  Difficulty : Nat
  Signers : List Address
  Voters : List Address
deriving DecidableEq

/-- What the header functions read besides the header: the clique configuration and its
period, the clock, the headers stored locally, the hash of a header, and the snapshot
`Clique.snapshot` builds at a block from its number, hash and the batch of parents. -/
structure Env where
  config : CliqueConfig
  Period : Nat
  now : Nat
  GetHeader : Hash → Nat → Option SealHeader
  hash : SealHeader → Hash
  snapshot : Nat → Hash → List SealHeader → Except String Snapshot

namespace Snapshot

/-- `signers`: the signers in ascending order, the map's keys sorted by the exchange sort. -/
def signers (s : Snapshot) : List Address := exchangeSort s.Signers.keys

/-- `voters`: the voters in ascending order. The map is ranged over in ascending order here;
Go's order is unspecified. -/
def voters (s : Snapshot) : List Address := exchangeSort (s.Voters.sort (· ≤ ·))

theorem length_signers (s : Snapshot) : s.signers.length = s.Signers.keys.length :=
  length_exchangeSort _

end Snapshot

/-! ### The checkpoint check -/

/-- The errors of `verifyCascadingFields`. -/
inductive VerifyError where
  | ErrFutureBlock
  | ErrUnknownAncestor
  | ErrInvalidTimestamp
  /-- What `Clique.snapshot` returned. -/
  | snapshot (err : String)
  | errInvalidCheckpointSigners
  | errInvalidCheckpointVoters
deriving DecidableEq

/-- The loop `for i, x := range expected { if x != got[i] { ... } }`: `some false` at the first
mismatch, `none` for Go's index-out-of-range panic when `got` runs out first. -/
def checkList : List Address → List Address → Option Bool
  | [], _ => some true
  | _ :: _, [] => none
  | x :: expected, y :: got => if x ≠ y then some false else checkList expected got

/-- The lists of a checkpoint header against the snapshot of its parent. -/
def checkCheckpoint (snap : Snapshot) (header : SealHeader) : Option (Except VerifyError Unit) :=
  match checkList snap.signers header.Signers with
  | none => none
  | some false => some (.error .errInvalidCheckpointSigners)
  | some true =>
    match checkList snap.voters header.Voters with
    | none => none
    | some false => some (.error .errInvalidCheckpointVoters)
    | some true => some (.ok ())

/-- `verifyCascadingFields`: the fields that depend on the parent. `none` is a panic. -/
def verifyCascadingFields (env : Env) (header : SealHeader) (parents : List SealHeader) :
    Option (Except VerifyError Unit) :=
  -- don't waste time checking blocks from the future
  if header.Time > env.now then some (.error .ErrFutureBlock)
  -- the genesis block is the always valid dead-end
  else if header.Number = 0 then some (.ok ())
  else
    let parent := match parents.getLast? with
      | some parent => some parent
      | none => env.GetHeader header.ParentHash (header.Number - 1)
    match parent with
    | none => some (.error .ErrUnknownAncestor)
    | some parent =>
      if parent.Number ≠ header.Number - 1 ∨ env.hash parent ≠ header.ParentHash then
        some (.error .ErrUnknownAncestor)
      else if parent.Time + env.Period > header.Time then some (.error .ErrInvalidTimestamp)
      else
        match env.snapshot (header.Number - 1) header.ParentHash parents with
        | .error err => some (.error (.snapshot err))
        | .ok snap =>
          if header.Number % env.config.Epoch = 0 then checkCheckpoint snap header
          else some (.ok ())

section CheckList

variable {expected got : List Address}

/-- The loop accepts exactly the lists that start with the expected one. -/
theorem checkList_eq_true_iff : checkList expected got = some true ↔ expected <+: got := by
  induction expected generalizing got with
  | nil => simp [checkList]
  | cons x expected ih =>
    cases got with
    | nil => simp [checkList]
    | cons y got =>
      simp only [checkList, List.cons_prefix_cons]
      split
      · rename_i differ
        simp [differ]
      · rename_i same
        rw [ih]
        simp [not_not.1 same]

/-- The loop panics exactly on a list that is a proper prefix of the expected one: the
expected list goes on where the header's runs out, and they agree before. -/
theorem checkList_eq_none_iff :
    checkList expected got = none ↔ got.length < expected.length ∧ got <+: expected := by
  induction expected generalizing got with
  | nil => simp [checkList]
  | cons x expected ih =>
    cases got with
    | nil => simp [checkList]
    | cons y got =>
      simp only [checkList, List.cons_prefix_cons, List.length_cons]
      split
      · rename_i differ
        simp [Ne.symm differ]
      · rename_i same
        rw [ih]
        simp [not_not.1 same]

end CheckList

/-- What `verifyCascadingFields` has checked before it compares the lists of a checkpoint
header: the header is not from the future, its parent is `parent`, one block below and hashed
into it, and far enough in time, and the parent's snapshot is `snap`. -/
structure ReachesCheckpoint (env : Env) (header : SealHeader) (parents : List SealHeader)
    (parent : SealHeader) (snap : Snapshot) : Prop where
  notFuture : header.Time ≤ env.now
  number : header.Number ≠ 0
  checkpoint : header.Number % env.config.Epoch = 0
  found : parents.getLast?.or (env.GetHeader header.ParentHash (header.Number - 1)) = some parent
  below : parent.Number = header.Number - 1
  hashed : env.hash parent = header.ParentHash
  spaced : parent.Time + env.Period ≤ header.Time
  snapshot : env.snapshot (header.Number - 1) header.ParentHash parents = .ok snap

theorem verifyCascadingFields_checkpoint {env : Env} {header parent : SealHeader}
    {parents : List SealHeader} {snap : Snapshot} (reaches : ReachesCheckpoint env header parents parent snap) :
    verifyCascadingFields env header parents = checkCheckpoint snap header := by
  obtain ⟨notFuture, number, checkpoint, found, below, hashed, spaced, snapshot⟩ := reaches
  simp only [verifyCascadingFields, if_neg (Nat.not_lt.2 notFuture), if_neg number]
  -- the parent from the batch, or else from the chain
  cases last : parents.getLast? with
  | none =>
    rw [last, Option.none_or] at found
    simp [found, below, hashed, Nat.not_lt.2 spaced, snapshot, checkpoint]
  | some top =>
    rw [last, Option.some_or, Option.some.injEq] at found
    simp [found, below, hashed, Nat.not_lt.2 spaced, snapshot, checkpoint]

/-- The checkpoint check reads the header's lists only as far as the snapshot's go: a signer
list that is a proper prefix of the snapshot's panics, and lists that extend the snapshot's
are accepted, whatever they hold past its end. -/
theorem verifyCascadingFields_checkpoint_unchecked {env : Env} {header parent : SealHeader}
    {parents : List SealHeader} {snap : Snapshot}
    (reaches : ReachesCheckpoint env header parents parent snap) :
    (header.Signers.length < snap.signers.length → header.Signers <+: snap.signers →
      verifyCascadingFields env header parents = none) ∧
    (snap.signers <+: header.Signers → snap.voters <+: header.Voters →
      verifyCascadingFields env header parents = some (.ok ())) := by
  rw [verifyCascadingFields_checkpoint reaches]
  refine ⟨fun shorter within => ?_, fun signers voters => ?_⟩
  · simp [checkCheckpoint, checkList_eq_none_iff.2 ⟨shorter, within⟩]
  · simp [checkCheckpoint, checkList_eq_true_iff.2 signers, checkList_eq_true_iff.2 voters]

/-- The chain of the examples: the example genesis is the snapshot at every block, a period of
15 seconds, every stored header is the parent of its successor, and the clock stands at 15. -/
def exampleEnv : Env where
  config := exampleGenesis.config
  Period := 15
  now := 15
  GetHeader _ number := some ⟨Indigo.Hash.zero, number, 0, 0, [], []⟩
  hash _ := Indigo.Hash.zero
  snapshot _ _ _ := .ok exampleGenesis

/-- The checkpoint header of block `30000` of the example chain, with the given signer list and
the genesis voters. -/
def exampleCheckpoint (signers : List Address) : SealHeader :=
  ⟨Indigo.Hash.zero, 30000, 15, 2, signers, [1, 2, 3]⟩

theorem exampleCheckpoint_reaches (signers : List Address) :
    ReachesCheckpoint exampleEnv (exampleCheckpoint signers) []
      ⟨Indigo.Hash.zero, 29999, 0, 0, [], []⟩ exampleGenesis where
  notFuture := Nat.le_refl _
  number := by simp [exampleCheckpoint]
  checkpoint := by simp [exampleCheckpoint, exampleEnv, exampleGenesis, newGenesisSnapshot]
  found := rfl
  below := rfl
  hashed := rfl
  spaced := Nat.le_refl _
  snapshot := rfl

/-- The snapshot lists signers `1` to `4`: a checkpoint header listing signer `1` alone makes
`verifyCascadingFields` panic. -/
theorem verifyCascadingFields_checkpoint_short_panics :
    verifyCascadingFields exampleEnv (exampleCheckpoint [1]) [] = none :=
  (verifyCascadingFields_checkpoint_unchecked (exampleCheckpoint_reaches _)).1 (by decide) (by decide)

/-! ### Preparing and sealing -/

/-- `wiggleTime`, in milliseconds: the delay step of out-of-turn signers. -/
def wiggleTime : Nat := 200

/-- The errors of `Prepare` and `Seal`. -/
inductive SealError where
  /-- What `Clique.snapshot` returned. -/
  | snapshot (err : String)
  /-- `Prepare`'s `"not authorized to sign: %s"`. -/
  | notAuthorizedToSign (signer : Address)
  /-- `"signed too recently: %s"`. -/
  | signedTooRecently (signer : Address)
  | ErrUnknownAncestor
  | errUnknownBlock
  | errWaitTransactions
  /-- `Seal`'s `"%s not authorized to sign"`. -/
  | notAuthorized (signer : Address)
deriving DecidableEq

/-- `Prepare`, on the fields of `SealHeader`: the difficulty of `signer` in the parent's
snapshot, the signer and voter lists at a checkpoint, and the time, the period after the
parent's or now. The vote it may cast off a checkpoint goes into the nonce and the extra data,
which are not modelled. -/
def Prepare (env : Env) (signer : Address) (header : SealHeader) : Except SealError SealHeader :=
  match env.snapshot (header.Number - 1) header.ParentHash [] with
  | .error err => .error (.snapshot err)
  | .ok snap =>
    -- check that we can sign
    if signer ≠ 0 ∧ (snap.Signers.lookup signer).isNone then .error (.notAuthorizedToSign signer)
    else
      let diff := CalcDifficulty snap.Signers signer
      if signer ≠ 0 ∧ diff = 0 then .error (.signedTooRecently signer)
      else
        let header := { header with Difficulty := diff }
        let header :=
          if header.Number % env.config.Epoch = 0 then
            { header with Signers := snap.signers, Voters := snap.voters }
          else header
        match env.GetHeader header.ParentHash (header.Number - 1) with
        | none => .error .ErrUnknownAncestor
        | some parent =>
          let time := parent.Time + env.Period
          .ok { header with Time := if time < env.now then env.now else time }

/-- What `Seal` does once its checks pass: wait for the stop signal, as a signer that signed
recently does, or sign at the header's time plus a delay in milliseconds. -/
inductive Sealing where
  | waitForStop
  | signAt (time delay : Nat)
deriving DecidableEq

/-- `Seal`, up to the signature; `txs` is the number of transactions of the block. -/
def Seal (env : Env) (signer : Address) (header : SealHeader) (txs : Nat) : Except SealError Sealing :=
  -- sealing the genesis block is not supported
  if header.Number = 0 then .error .errUnknownBlock
  -- for 0-period chains, refuse to seal empty blocks
  else if env.Period = 0 ∧ txs = 0 then .error .errWaitTransactions
  else
    match env.snapshot (header.Number - 1) header.ParentHash [] with
    | .error err => .error (.snapshot err)
    | .ok snap =>
      match snap.Signers.lookup signer with
      | none => .error (.notAuthorized signer)
      | some lastBlockSigned =>
        if lastBlockSigned > 0 ∧ header.Number < snap.nextSignableBlockNumber lastBlockSigned then
          .ok .waitForStop
        else
          -- the in-turn signer, with difficulty `n`, does not wait
          let n := header.Signers.length
          let delay := if header.Difficulty < n then (n - header.Difficulty) * wiggleTime else 0
          .ok (.signAt header.Time delay)

section Sealing

variable {env : Env} {signer : Address} {header header' : SealHeader} {txs t delay : Nat}

/-- What `Prepare` fills: the difficulty of the signer in the parent's snapshot, and the
snapshot's lists at a checkpoint only. -/
theorem prepare_ok (prepared : Prepare env signer header = .ok header') :
    ∃ snap, env.snapshot (header.Number - 1) header.ParentHash [] = .ok snap ∧
      header'.Number = header.Number ∧ header'.ParentHash = header.ParentHash ∧
      header'.Difficulty = CalcDifficulty snap.Signers signer ∧
      header'.Signers = if header.Number % env.config.Epoch = 0 then snap.signers else header.Signers := by
  unfold Prepare at prepared
  split at prepared
  · cases prepared
  · rename_i snap found
    refine ⟨snap, found, ?_⟩
    dsimp only at prepared
    split_ifs at prepared with unauthorized recent checkpoint
    -- the two checkpoint branches differ only in the lists; the parent lookup must succeed
    · split at prepared <;> cases prepared
      simp [checkpoint]
    · split at prepared <;> cases prepared
      simp [checkpoint]

/-- The delay `Seal` computes when it signs: `wiggleTime` for each rank the header's difficulty
is below the length of the header's signer list. -/
theorem seal_signAt (sealed : Seal env signer header txs = .ok (.signAt t delay)) :
    t = header.Time ∧ delay = (header.Signers.length - header.Difficulty) * wiggleTime := by
  unfold Seal at sealed
  split_ifs at sealed
  split at sealed
  · cases sealed
  · split at sealed
    · cases sealed
    · split_ifs at sealed with late
      · cases sealed
      · cases sealed
        refine ⟨rfl, ?_⟩
        split_ifs with below
        · rfl
        · simp [Nat.sub_eq_zero_of_le (Nat.not_lt.1 below)]

/-- At a checkpoint `Prepare` puts the snapshot's signers in the header, and `Seal` delays the
signer by `wiggleTime` for each rank its difficulty is below the number of signers. -/
theorem seal_delay_checkpoint (prepared : Prepare env signer header = .ok header')
    (checkpoint : header.Number % env.config.Epoch = 0)
    (sealed : Seal env signer header' txs = .ok (.signAt t delay)) :
    ∃ snap, env.snapshot (header.Number - 1) header.ParentHash [] = .ok snap ∧
      delay = (snap.Signers.keys.length - CalcDifficulty snap.Signers signer) * wiggleTime := by
  obtain ⟨snap, found, -, -, difficulty, signers⟩ := prepare_ok prepared
  rw [if_pos checkpoint] at signers
  refine ⟨snap, found, ?_⟩
  rw [(seal_signAt sealed).2, signers, difficulty, length_signers]

/-- Off a checkpoint the header `Prepare` leaves keeps the signer list it came with, which the
miner leaves empty: `Seal` then delays no signer, in turn or not. -/
theorem seal_no_delay_off_checkpoint (prepared : Prepare env signer header = .ok header')
    (fresh : header.Signers = []) (off : header.Number % env.config.Epoch ≠ 0)
    (sealed : Seal env signer header' txs = .ok (.signAt t delay)) : delay = 0 := by
  obtain ⟨snap, -, -, -, -, signers⟩ := prepare_ok prepared
  rw [if_neg off, fresh] at signers
  rw [(seal_signAt sealed).2, signers, List.length_nil, Nat.zero_sub, Nat.zero_mul]

/-- Signer `2` prepares and seals block `1` of the example chain. Out of turn, with difficulty
`3` of the four signers' `4`, it is due one `wiggleTime`, and `Seal` signs at once. -/
theorem seal_out_of_turn_no_delay :
    ∃ header' t delay, Prepare exampleEnv 2 ⟨Indigo.Hash.zero, 1, 0, 0, [], []⟩ = .ok header' ∧
      Seal exampleEnv 2 header' 1 = .ok (.signAt t delay) ∧ delay = 0 ∧
      header'.Difficulty = 3 ∧ exampleGenesis.Signers.keys.length = 4 := by
  obtain ⟨header', prepared⟩ :
      ∃ header', Prepare exampleEnv 2 ⟨Indigo.Hash.zero, 1, 0, 0, [], []⟩ = .ok header' := ⟨_, rfl⟩
  obtain ⟨t, delay, sealed⟩ : ∃ t delay, Seal exampleEnv 2 header' 1 = .ok (.signAt t delay) := by
    rw [Except.ok.inj prepared.symm]
    exact ⟨_, _, rfl⟩
  refine ⟨header', t, delay, prepared, sealed,
    seal_no_delay_off_checkpoint prepared rfl (by decide) sealed, ?_, by decide⟩
  rw [Except.ok.inj prepared.symm]
  decide

end Sealing

end Indigo.Clique
