import Mathlib.Data.List.AList
import Mathlib.Data.Finset.Card
import Indigo.Evm.Common
import Indigo.Lib.Except

/-!
# Clique voting snapshots

The state of the proof-of-authority votes of `consensus/clique/snapshot.go`: the signers
with the block each signed last, the voters, the votes in the order they were cast and a
tally of them by candidate, and `Snapshot.apply`, which runs the votes of a chain of headers
through `cast`, `uncast` and the passing of a proposal.

Go's maps are association lists with distinct keys (`AList`) for the signers and the tally,
and a finite set for the voters; a header is the four fields `apply` reads, and recovering
its signer is a parameter of the model.

## Main definitions

- `Snapshot.validVote`, `Snapshot.cast`, `Snapshot.uncast`: the tally.
- `Snapshot.discardVote`, `Snapshot.discardVotesBy`, `Snapshot.passVote`: the loops of
  `apply` that drop votes, and the change a passed proposal makes.
- `Snapshot.applyHeader`, `Snapshot.apply`: one header, and a chain of them.
- `CalcDifficulty`: the difficulty a signer puts in its header.

## Main results

What each step can do, said once for the invariants built on them: `TallyOnly` for `cast`
and `uncast`, `discardVote_eq`, `passVote_cases`, `vote_ok`, `applyHeader_ok`, `apply_ok`.
-/

namespace Indigo.Clique

open Indigo.Evm Indigo.Lib

/-- `params.CliqueConfig`, with the epoch length `apply` reads: never zero, since `New`
replaces a zero epoch by `epochLength`. -/
structure CliqueConfig where
  Epoch : Nat
  epoch_pos : 0 < Epoch

/-- The fields of `types.Header` that `apply` reads: the number, the extra data with the
proposal, the nonce with the vote's direction, and the signature. -/
structure Header where
  Number : Int
  Extra : Bytes
  Nonce : Bytes
  Signer : Bytes

/-- `Vote`: a vote `Signer` cast in `Block` on `Address`. -/
structure Vote where
  Signer : Address
  Block : Nat
  Address : Address
  Authorize : Bool
deriving DecidableEq, Repr

/-- `Tally`: the direction of the proposal on a candidate and the votes for it. -/
structure Tally where
  Authorize : Bool
  Votes : Nat
deriving DecidableEq, Repr

/-- `Snapshot`, without the signature cache. -/
structure Snapshot where
  config : CliqueConfig
  Number : Nat
  Hash : Hash
  Signers : AList fun _ : Address => Nat
  Voters : Finset Address
  Votes : List Vote
  Tally : AList fun _ : Address => Tally

/-- The errors of `apply`. -/
inductive ApplyError where
  | errInvalidVotingChain
  | errInvalidVote
  /-- `"%s not authorized to sign"`. -/
  | notAuthorized (signer : Address)
  /-- `"%s not authorized to sign %d: signed recently %d, next eligible signature %d"`. -/
  | signedRecently (signer : Address) (number lastBlockSigned next : Nat)
  /-- What `ecrecover` returned: a missing signature or a failed recovery. -/
  | recover (err : String)

/-! ### The extra data and the nonce -/

/-- `extraVanity`. -/
def extraVanity : Nat := 32

/-- `extraPropose`: the candidate's address and the kind of election. -/
def extraPropose : Nat := 20 + 1

/-- `voterElection` and `signerElection`, the last byte of a proposal. -/
def voterElection : UInt8 := 0xff

def signerElection : UInt8 := 0x00

/-- `nonceAuthVote` and `nonceDropVote`. -/
def nonceAuthVote : Bytes := List.replicate 8 0xff

def nonceDropVote : Bytes := List.replicate 8 0x00

/-- `ExtraHasVote`. -/
def ExtraHasVote (extra : Bytes) : Bool := extra.length == extraVanity + extraPropose

/-- `ExtraCandidate`: the zero address without a proposal. -/
def ExtraCandidate (extra : Bytes) : Address :=
  if extra.length < extraVanity + 20 then 0
  else BytesToAddress ((extra.drop extraVanity).take 20)

/-- `ExtraIsVoterElection`. -/
def ExtraIsVoterElection (extra : Bytes) : Bool :=
  if extra.length < extraVanity + extraPropose then false
  else
    match extra[extraVanity + 20]? with
    | some b => if b = voterElection then true else if b = signerElection then false else false
    | none => false

/-- `ExtraAppendVote`: the proposal on `candidate` after the vanity. -/
def ExtraAppendVote (extra : Bytes) (candidate : Address) (voter : Bool) : Bytes :=
  extra ++ Address.Bytes candidate ++ [if voter then voterElection else signerElection]

namespace Snapshot

/-! ### The tally -/

/-- `newGenesisSnapshot`: the signers, none of which has signed, and the voters. -/
def newGenesisSnapshot (config : CliqueConfig) (number : Nat) (hash : Indigo.Hash)
    (signers voters : List Address) : Snapshot where
  config := config
  Number := number
  Hash := hash
  Signers := signers.foldl (fun m signer => m.insert signer 0) ∅
  Voters := voters.foldl (fun s voter => insert voter s) ∅
  Votes := []
  Tally := ∅

/-- `validVote`: a vote that would change something, a voter election on the voters and a
signer election on the signers. -/
def validVote (s : Snapshot) (address : Address) (authorize voterElection : Bool) : Bool :=
  if voterElection then
    let voter := decide (address ∈ s.Voters)
    (voter && !authorize) || (!voter && authorize)
  else
    let signer := (s.Signers.lookup address).isSome
    (signer && !authorize) || (!signer && authorize)

/-- `cast`: a meaningful vote counts for the candidate's tally, whatever the tally's
direction, or opens a tally in its own. -/
def cast (s : Snapshot) (address : Address) (authorize voterElection : Bool) : Bool × Snapshot :=
  if !s.validVote address authorize voterElection then (false, s)
  else
    match s.Tally.lookup address with
    | some old => (true, { s with Tally := s.Tally.insert address { old with Votes := old.Votes + 1 } })
    | none => (true, { s with Tally := s.Tally.insert address ⟨authorize, 1⟩ })

/-- `uncast`: a vote leaves the tally only if it has the tally's direction. -/
def uncast (s : Snapshot) (address : Address) (authorize : Bool) : Bool × Snapshot :=
  match s.Tally.lookup address with
  | none => (false, s)
  | some tally =>
    if tally.Authorize ≠ authorize then (false, s)
    else if tally.Votes > 1 then
      (true, { s with Tally := s.Tally.insert address { tally with Votes := tally.Votes - 1 } })
    else (true, { s with Tally := s.Tally.erase address })

/-- `nextSignableBlockNumber`, in `uint64`. -/
def nextSignableBlockNumber (s : Snapshot) (lastSignedBlockNumber : Nat) : Nat :=
  (lastSignedBlockNumber + s.Signers.keys.length / 2 + 1) % 2 ^ 64

/-! ### The loops of `apply` -/

/-- Whether a vote is `signer`'s on `candidate`. -/
def Vote.isBy (signer candidate : Address) (vote : Vote) : Bool :=
  vote.Signer == signer && vote.Address == candidate

/-- The first loop of a vote: the voter's previous vote on the candidate, if there is one,
leaves the tally and the list (`break`: only one vote allowed). -/
def discardVote (s : Snapshot) (signer candidate : Address) : Snapshot :=
  match s.Votes.find? (Vote.isBy signer candidate) with
  | none => s
  | some vote =>
    { (s.uncast vote.Address vote.Authorize).2 with
      Votes := s.Votes.eraseP (Vote.isBy signer candidate) }

/-- The loop that discards the votes of a demoted voter: each is uncast, in the order of the
list, and leaves it. -/
def discardVotesBy (s : Snapshot) (voter : Address) : Snapshot :=
  let uncast := s.Votes.foldl
    (fun acc vote => if vote.Signer = voter then (acc.uncast vote.Address vote.Authorize).2 else acc) s
  { uncast with Votes := s.Votes.filter fun vote => vote.Signer ≠ voter }

/-- The change a passed proposal makes: in its direction it adds the candidate to the
signers, or to the voters if it is a signer already; or it removes it from the signers, or
from the voters if it is one, with the votes it cast. -/
def enact (s : Snapshot) (candidate : Address) (authorize : Bool) : Snapshot :=
  if authorize then
    if (s.Signers.lookup candidate).isNone then { s with Signers := s.Signers.insert candidate 0 }
    else { s with Voters := insert candidate s.Voters }
  else
    if candidate ∉ s.Voters then { s with Signers := s.Signers.erase candidate }
    else discardVotesBy { s with Voters := s.Voters.erase candidate } candidate

/-- A proposal passes when its tally has more votes than half the voters; then every vote on
the candidate and its tally go. -/
def passVote (s : Snapshot) (candidate : Address) : Snapshot :=
  let tally := (s.Tally.lookup candidate).getD ⟨false, 0⟩
  if tally.Votes > s.Voters.card / 2 then
    let s := s.enact candidate tally.Authorize
    { s with
      Votes := s.Votes.filter (fun vote => vote.Address ≠ candidate)
      Tally := s.Tally.erase candidate }
  else s

/-- The direction of a vote, from the nonce. -/
def authorizeOf (nonce : Bytes) : Except ApplyError Bool :=
  if nonce = nonceAuthVote then pure true
  else if nonce = nonceDropVote then pure false
  else throw .errInvalidVote

/-- The vote of a header signed by a voter, on the snapshot the voter signed: its previous
vote on the candidate goes, the new one is cast and kept if meaningful, and the proposal may
pass. -/
def vote (s : Snapshot) (header : Header) (signer : Address) (number : Nat) :
    Except ApplyError Snapshot := do
  let candidate := if ExtraHasVote header.Extra then ExtraCandidate header.Extra else 0
  let voterElection := if ExtraHasVote header.Extra then ExtraIsVoterElection header.Extra else false
  let s := s.discardVote signer candidate
  let authorize ← authorizeOf header.Nonce
  -- `cast` reports whether the vote counted, and the snapshot it counted in
  let cast := s.cast candidate authorize voterElection
  let s := if cast.1 then { cast.2 with Votes := cast.2.Votes ++ [⟨signer, number, candidate, authorize⟩] }
    else cast.2
  pure (s.passVote candidate)

/-- One header of `apply`: the votes go at a checkpoint, the signer must be a signer that has
not signed too recently, and a voter's header votes. -/
def applyHeader (ecrecover : Header → Except String Address) (s : Snapshot) (header : Header) :
    Except ApplyError Snapshot := do
  let number := Uint64 header.Number
  let s := if number % s.config.Epoch = 0 then { s with Votes := [], Tally := ∅ } else s
  let signer ← (ecrecover header).mapError .recover
  match s.Signers.lookup signer with
  | none => throw (.notAuthorized signer)
  | some lastBlockSigned =>
    if lastBlockSigned > 0 ∧ number < s.nextSignableBlockNumber lastBlockSigned then
      throw (.signedRecently signer number lastBlockSigned (s.nextSignableBlockNumber lastBlockSigned))
    else
      let s := { s with Signers := s.Signers.insert signer number }
      if signer ∈ s.Voters then s.vote header signer number else pure s

/-- Whether each header's number follows the one before. -/
def Chained : List Header → Bool
  | h :: h' :: rest => Uint64 h'.Number == (Uint64 h.Number + 1) % 2 ^ 64 && Chained (h' :: rest)
  | _ => true

/-- `apply`: the headers must follow the snapshot's block and each other; then each is
applied in turn to a copy, which ends at the last header. -/
def apply (ecrecover : Header → Except String Address) (hash : Header → Indigo.Hash) (s : Snapshot)
    (headers : List Header) : Except ApplyError Snapshot :=
  match headers.getLast? with
  | none => pure s
  | some last =>
    if !Chained headers || headers.head?.map (fun h => Uint64 h.Number) != some ((s.Number + 1) % 2 ^ 64)
    then throw .errInvalidVotingChain
    else do
      let snap ← headers.foldlM (applyHeader ecrecover) s
      pure { snap with Number := (snap.Number + headers.length) % 2 ^ 64, Hash := hash last }

/-- `CalcDifficulty`: one plus the number of signers of lower priority, or `0` when that is at
most half of the signers. A signer that signed more recently has lower priority; among those
that never signed, one whose address sorts later (addresses are numbers below `2^160`, so
`bytes.Compare` is their order). The signer's own entry never counts. -/
def CalcDifficulty (lastSigned : AList fun _ : Address => Nat) (signer : Address) : Nat :=
  let last := (lastSigned.lookup signer).getD 0
  let difficulty :=
    if last > 0 then 1 + lastSigned.entries.countP fun entry => entry.2 > last
    -- haven't signed yet: fall back to address sort
    else 1 + lastSigned.entries.countP fun entry => entry.2 > 0 || (entry.1 : Nat) > signer
  if difficulty ≤ lastSigned.keys.length / 2 then 0 else difficulty

/-! ### What each step changes -/

/-- `t` differs from `s` in its tally at most. -/
def TallyOnly (s t : Snapshot) : Prop := t = { s with Tally := t.Tally }

theorem TallyOnly.refl (s : Snapshot) : TallyOnly s s := rfl

theorem TallyOnly.trans {s t u : Snapshot} (first : TallyOnly s t) (second : TallyOnly t u) :
    TallyOnly s u := by
  unfold TallyOnly at *
  rw [second, first]

section TallyOnly

variable {s t : Snapshot}

theorem TallyOnly.signers (same : TallyOnly s t) : t.Signers = s.Signers := by rw [same]

theorem TallyOnly.voters (same : TallyOnly s t) : t.Voters = s.Voters := by rw [same]

theorem TallyOnly.votes (same : TallyOnly s t) : t.Votes = s.Votes := by rw [same]

theorem TallyOnly.number (same : TallyOnly s t) : t.Number = s.Number := by rw [same]

end TallyOnly

theorem cast_tallyOnly (s : Snapshot) (address : Address) (authorize voterElection : Bool) :
    TallyOnly s (s.cast address authorize voterElection).2 := by
  unfold cast
  split
  · rfl
  · split <;> rfl

theorem uncast_tallyOnly (s : Snapshot) (address : Address) (authorize : Bool) :
    TallyOnly s (s.uncast address authorize).2 := by
  unfold uncast
  split
  · rfl
  · split
    · rfl
    · split <;> rfl

/-- The loop over the demoted voter's votes uncasts them, so it changes the tally only. -/
theorem discardVotesBy_eq (s : Snapshot) (voter : Address) :
    ∃ tally, s.discardVotesBy voter =
      { s with
        Tally := tally
        Votes := s.Votes.filter fun vote => vote.Signer ≠ voter } := by
  have loop : ∀ (votes : List Vote) (acc : Snapshot), TallyOnly acc (votes.foldl
      (fun acc vote => if vote.Signer = voter then (acc.uncast vote.Address vote.Authorize).2 else acc)
      acc) := by
    intro votes
    induction votes with
    | nil => exact TallyOnly.refl
    | cons vote votes ih =>
      intro acc
      rw [List.foldl_cons]
      split
      · exact (uncast_tallyOnly _ _ _).trans (ih _)
      · exact ih acc
  refine ⟨(s.discardVotesBy voter).Tally, ?_⟩
  simp only [discardVotesBy]
  rw [loop s.Votes s]

/-- The voter's earlier vote on the candidate, if any, leaves the list and is uncast. -/
theorem discardVote_eq (s : Snapshot) (signer candidate : Address) :
    ∃ tally, s.discardVote signer candidate =
      { s with
        Tally := tally
        Votes := s.Votes.eraseP (Vote.isBy signer candidate) } := by
  unfold discardVote
  split
  · next none =>
    refine ⟨s.Tally, ?_⟩
    rw [List.eraseP_of_forall_not fun vote member => by simpa using List.find?_eq_none.mp none vote member]
  · next vote found =>
    refine ⟨(s.uncast vote.Address vote.Authorize).2.Tally, ?_⟩
    rw [uncast_tallyOnly s vote.Address vote.Authorize]

/-- What a passed proposal can change. -/
theorem enact_cases (s : Snapshot) (candidate : Address) (authorize : Bool) :
    ((s.Signers.lookup candidate).isNone ∧
      s.enact candidate authorize = { s with Signers := s.Signers.insert candidate 0 }) ∨
    (candidate ∈ s.Signers ∧ s.enact candidate authorize = { s with Voters := insert candidate s.Voters }) ∨
    (candidate ∉ s.Voters ∧ s.enact candidate authorize = { s with Signers := s.Signers.erase candidate }) ∨
    (candidate ∈ s.Voters ∧ ∃ tally, s.enact candidate authorize =
      { s with
        Voters := s.Voters.erase candidate
        Votes := s.Votes.filter fun vote => vote.Signer ≠ candidate
        Tally := tally }) := by
  unfold enact
  split
  · split
    · next added => exact .inl ⟨added, rfl⟩
    · next signer =>
      exact .inr (.inl ⟨AList.lookup_isSome.mp (Option.isSome_iff_ne_none.mpr (by simpa using signer)),
        rfl⟩)
  · split
    · next outside => exact .inr (.inr (.inl ⟨outside, rfl⟩))
    · next voter =>
      obtain ⟨tally, discarded⟩ := discardVotesBy_eq { s with Voters := s.Voters.erase candidate } candidate
      exact .inr (.inr (.inr ⟨not_not.mp voter, tally, discarded⟩))

/-- A proposal that did not pass changes nothing; one that passed is enacted, and the votes
on its candidate and its tally go. -/
theorem passVote_eq (s : Snapshot) (candidate : Address) :
    s.passVote candidate = s ∨ ∃ authorize,
      s.passVote candidate =
        { s.enact candidate authorize with
          Votes := (s.enact candidate authorize).Votes.filter fun vote => vote.Address ≠ candidate
          Tally := (s.enact candidate authorize).Tally.erase candidate } := by
  unfold passVote
  dsimp only
  split
  · exact .inr ⟨_, rfl⟩
  · exact .inl rfl

/-- What a voter's header does: its earlier vote on the candidate goes, the new one is cast
and, if it counted, kept, and the proposal may pass. -/
theorem vote_ok {s s' : Snapshot} {header : Header} {signer : Address} {number : Nat}
    (h : s.vote header signer number = .ok s') :
    ∃ candidate voterElection authorize,
      let discarded := s.discardVote signer candidate
      let cast := discarded.cast candidate authorize voterElection
      s' = (if cast.1 then { cast.2 with Votes := cast.2.Votes ++ [⟨signer, number, candidate, authorize⟩] }
        else cast.2).passVote candidate := by
  simp only [vote, bind_eq_ok] at h
  obtain ⟨authorize, -, done⟩ := h
  refine ⟨if ExtraHasVote header.Extra then ExtraCandidate header.Extra else 0,
    if ExtraHasVote header.Extra then ExtraIsVoterElection header.Extra else false, authorize, ?_⟩
  simp only [pure, Except.pure, Except.ok.injEq] at done
  exact done.symm

/-- What a header does once its signer passed the checks: at a checkpoint the votes go, the
signer's block is recorded, and a voter's header votes. -/
theorem applyHeader_ok {ecrecover : Header → Except String Address} {s s' : Snapshot}
    {header : Header} (h : applyHeader ecrecover s header = .ok s') :
    ∃ signer lastBlockSigned, s.Signers.lookup signer = some lastBlockSigned ∧
      ¬(lastBlockSigned > 0 ∧ Uint64 header.Number < s.nextSignableBlockNumber lastBlockSigned) ∧
      ∃ votes tally, (votes = [] ∨ votes = s.Votes) ∧
        let signed : Snapshot :=
          { s with
            Signers := s.Signers.insert signer (Uint64 header.Number)
            Votes := votes
            Tally := tally }
        ((signer ∈ s.Voters ∧ signed.vote header signer (Uint64 header.Number) = .ok s') ∨
          (signer ∉ s.Voters ∧ s' = signed)) := by
  simp only [applyHeader, bind_eq_ok] at h
  obtain ⟨signer, -, checked⟩ := h
  -- the checkpoint's reset leaves the signers and the voters
  have reset : ∃ votes tally, (votes = [] ∨ votes = s.Votes) ∧
      (if Uint64 header.Number % s.config.Epoch = 0 then { s with Votes := [], Tally := ∅ } else s) =
        { s with Votes := votes, Tally := tally } := by
    split
    · exact ⟨[], ∅, .inl rfl, rfl⟩
    · exact ⟨s.Votes, s.Tally, .inr rfl, rfl⟩
  obtain ⟨votes, tally, cleared, eq⟩ := reset
  rw [eq] at checked
  split at checked
  · cases checked
  · next lastBlockSigned found =>
    split at checked
    · cases checked
    · next allowed =>
      refine ⟨signer, lastBlockSigned, found, allowed, votes, tally, cleared, ?_⟩
      split at checked
      · next voter => exact .inl ⟨voter, checked⟩
      · next other =>
        simp only [pure, Except.pure, Except.ok.injEq] at checked
        exact .inr ⟨other, checked.symm⟩

/-- What `apply` returns: the snapshot itself for no headers, or, for a chain that follows
the snapshot, what the loop over its headers returns, at the last header. -/
theorem apply_ok {ecrecover : Header → Except String Address} {hash : Header → Indigo.Hash}
    {s s' : Snapshot} {headers : List Header} (h : apply ecrecover hash s headers = .ok s') :
    (headers = [] ∧ s' = s) ∨
      ∃ last snap, headers.getLast? = some last ∧ Chained headers = true ∧
        headers.head?.map (fun h => Uint64 h.Number) = some ((s.Number + 1) % 2 ^ 64) ∧
        headers.foldlM (applyHeader ecrecover) s = .ok snap ∧
        s' = { snap with Number := (snap.Number + headers.length) % 2 ^ 64, Hash := hash last } := by
  unfold apply at h
  split at h
  · next none =>
    simp only [pure, Except.pure, Except.ok.injEq] at h
    exact .inl ⟨List.getLast?_eq_none_iff.mp none, h.symm⟩
  · next last found =>
    split at h
    · cases h
    · next chained =>
      simp only [Bool.or_eq_true, Bool.not_eq_true', bne_iff_ne, ne_eq, not_or, not_not] at chained
      simp only [bind_eq_ok, pure, Except.pure, Except.ok.injEq] at h
      obtain ⟨snap, loop, done⟩ := h
      exact .inr ⟨last, snap, found, by simpa using chained.1, chained.2, loop, done.symm⟩

end Snapshot

end Indigo.Clique
