import Indigo.Clique.Snapshot

/-!
# The bookkeeping of clique votes

What `Snapshot.apply` keeps of the votes, and what it does not. The list of votes keeps its
shape: the voters are signers, every vote in it was cast by a current voter, and no voter has
two votes on one candidate. The tally is not tied to the list, though: `cast` counts a
meaningful vote into the candidate's tally whatever the tally's direction and kind of
election, so opposite votes add up and pass the proposal of the first.

## Main results

- `Snapshot.apply_keeps_wf`: `apply` keeps `Wf`, which every genesis snapshot whose voters are
  signers has (`newGenesisSnapshot_wf`).
- `apply_passes_opposite_votes`: one voter asks to drop a signer, another to make it a voter,
  and with two of three voters the signer is dropped.

## Proof strategy

Each step of `apply` is cited by the lemma of `Snapshot` that says what it can change
(`TallyOnly`, `discardVote_eq`, `enact_cases`, `passVote_eq`, `vote_ok`, `applyHeader_ok`),
and the header loop by `foldlM_ok_invariant`.
-/

namespace Indigo.Clique

open Indigo.Evm Indigo.Lib

/-- After removing the first element with a property from a list in which no two elements
have it, no element has it. -/
theorem eraseP_none {α : Type} {p : α → Bool} :
    ∀ {l : List α}, l.Pairwise (fun a b => ¬(p a ∧ p b)) → ∀ a ∈ l.eraseP p, p a = false
  | [], _, _, member => by simp at member
  | x :: xs, single, a, member => by
    obtain ⟨first, rest⟩ := List.pairwise_cons.mp single
    by_cases hit : p x
    · rw [List.eraseP_cons_of_pos hit] at member
      simpa [hit] using first a member
    · rw [List.eraseP_cons_of_neg hit] at member
      rcases List.mem_cons.mp member with rfl | later
      · simpa using hit
      · exact eraseP_none rest a later

namespace Snapshot

/-- What the votes of a snapshot keep: the voters are signers, every vote in the list was
cast by a voter, and no voter has two votes on one candidate. -/
structure Wf (s : Snapshot) : Prop where
  voters_signers : ∀ voter ∈ s.Voters, voter ∈ s.Signers
  votes_voters : ∀ vote ∈ s.Votes, vote.Signer ∈ s.Voters
  votes_single : s.Votes.Pairwise fun a b => ¬(a.Signer = b.Signer ∧ a.Address = b.Address)

section Wf

variable {s : Snapshot}

/-- Dropping votes keeps `Wf`. -/
theorem Wf.of_sublist {t : Snapshot} (wf : s.Wf) (signers : t.Signers = s.Signers)
    (voters : t.Voters = s.Voters) (sub : t.Votes.Sublist s.Votes) : t.Wf where
  voters_signers voter member := signers ▸ wf.voters_signers voter (voters ▸ member)
  votes_voters vote member := voters ▸ wf.votes_voters vote (sub.subset member)
  votes_single := wf.votes_single.sublist sub

theorem Wf.tallyOnly {t : Snapshot} (wf : s.Wf) (same : TallyOnly s t) : t.Wf :=
  wf.of_sublist same.signers same.voters (same.votes ▸ List.Sublist.refl _)

/-- A new signer, or a signer's newer block. -/
theorem Wf.insert_signer (wf : s.Wf) (signer number : Nat) :
    ({ s with Signers := s.Signers.insert signer number } : Snapshot).Wf :=
  ⟨fun voter member => (AList.mem_insert _).mpr (.inr (wf.voters_signers voter member)),
    wf.votes_voters, wf.votes_single⟩

theorem Wf.discardVote (wf : s.Wf) (signer candidate : Address) :
    (s.discardVote signer candidate).Wf := by
  obtain ⟨tally, eq⟩ := discardVote_eq s signer candidate
  rw [eq]
  exact wf.of_sublist rfl rfl List.eraseP_sublist

/-- Once its earlier vote on the candidate went, the voter has none left on it. -/
theorem Wf.discardVote_fresh (wf : s.Wf) (signer candidate : Address) :
    ∀ vote ∈ (s.discardVote signer candidate).Votes, ¬(vote.Signer = signer ∧ vote.Address = candidate) := by
  obtain ⟨tally, eq⟩ := discardVote_eq s signer candidate
  rw [eq]
  intro vote member same
  have single : s.Votes.Pairwise fun a b => ¬(Vote.isBy signer candidate a ∧ Vote.isBy signer candidate b) :=
    wf.votes_single.imp fun {a b} distinct both => by
      simp only [Vote.isBy, Bool.and_eq_true, beq_iff_eq] at both
      exact distinct ⟨both.1.1.trans both.2.1.symm, both.1.2.trans both.2.2.symm⟩
  have gone := eraseP_none single vote member
  simp [Vote.isBy, same.1, same.2] at gone

/-- A vote by a voter that has none on its candidate. -/
theorem Wf.append_vote (wf : s.Wf) {vote : Vote} (voter : vote.Signer ∈ s.Voters)
    (fresh : ∀ other ∈ s.Votes, ¬(other.Signer = vote.Signer ∧ other.Address = vote.Address)) :
    ({ s with Votes := s.Votes ++ [vote] } : Snapshot).Wf where
  voters_signers := wf.voters_signers
  votes_voters other member := by
    rcases List.mem_append.mp member with old | new
    · exact wf.votes_voters other old
    · rw [List.mem_singleton.mp new]
      exact voter
  votes_single := List.pairwise_append.mpr ⟨wf.votes_single, List.pairwise_singleton _ _,
    fun other old last new => by
      rw [List.mem_singleton.mp new]
      exact fresh other old⟩

/-- A passed proposal keeps the voters among the signers, and a demoted voter's votes go. -/
theorem Wf.enact (wf : s.Wf) (candidate : Address) (authorize : Bool) :
    (s.enact candidate authorize).Wf := by
  rcases enact_cases s candidate authorize with ⟨-, eq⟩ | ⟨signer, eq⟩ | ⟨outside, eq⟩ |
    ⟨-, tally, eq⟩ <;> rw [eq]
  · exact wf.insert_signer candidate 0
  · -- a signer becomes a voter
    refine ⟨fun voter member => ?_, fun vote member => Finset.mem_insert_of_mem (wf.votes_voters vote member),
      wf.votes_single⟩
    rcases Finset.mem_insert.mp member with rfl | old
    · exact signer
    · exact wf.voters_signers voter old
  · -- a signer that is not a voter goes
    exact ⟨fun voter member => AList.mem_erase.mpr ⟨fun same => outside (same ▸ member),
      wf.voters_signers voter member⟩, wf.votes_voters, wf.votes_single⟩
  · -- a voter stops voting, and its votes go with it
    refine ⟨fun voter member => wf.voters_signers voter (Finset.mem_of_mem_erase member),
      fun vote member => ?_, wf.votes_single.sublist List.filter_sublist⟩
    obtain ⟨old, other⟩ := List.mem_filter.mp member
    exact Finset.mem_erase.mpr ⟨by simpa using other, wf.votes_voters vote old⟩

theorem Wf.passVote (wf : s.Wf) (candidate : Address) : (s.passVote candidate).Wf := by
  rcases passVote_eq s candidate with same | ⟨authorize, eq⟩
  · rw [same]
    exact wf
  · rw [eq]
    exact (wf.enact candidate authorize).of_sublist rfl rfl List.filter_sublist

/-- A voter's header: the vote it adds is the only one of the voter on its candidate. -/
theorem Wf.vote (wf : s.Wf) {header : Header} {signer : Address} {number : Nat} {s' : Snapshot}
    (voter : signer ∈ s.Voters) (voted : s.vote header signer number = .ok s') : s'.Wf := by
  obtain ⟨candidate, voterElection, authorize, rfl⟩ := vote_ok voted
  have discarded := wf.discardVote signer candidate
  have counted := cast_tallyOnly (s.discardVote signer candidate) candidate authorize voterElection
  have voters : (s.discardVote signer candidate).Voters = s.Voters := by
    obtain ⟨tally, eq⟩ := discardVote_eq s signer candidate
    rw [eq]
  apply Wf.passVote
  split
  · apply (discarded.tallyOnly counted).append_vote
    · rw [counted.voters, voters]
      exact voter
    · rw [counted.votes]
      exact wf.discardVote_fresh signer candidate
  · exact discarded.tallyOnly counted

theorem Wf.applyHeader (wf : s.Wf) {ecrecover : Header → Except String Address} {header : Header}
    {s' : Snapshot} (applied : applyHeader ecrecover s header = .ok s') : s'.Wf := by
  obtain ⟨signer, -, -, -, votes, tally, cleared, outcome⟩ := applyHeader_ok applied
  -- at a checkpoint the votes go, otherwise they stay
  have signed : ({ s with
      Signers := s.Signers.insert signer (Uint64 header.Number)
      Votes := votes
      Tally := tally } : Snapshot).Wf := by
    rcases cleared with rfl | rfl
    · exact ⟨(wf.insert_signer signer _).voters_signers, by simp, by simp⟩
    · exact ⟨(wf.insert_signer signer _).voters_signers, wf.votes_voters, wf.votes_single⟩
  rcases outcome with ⟨voter, voted⟩ | ⟨-, rfl⟩
  · exact signed.vote voter voted
  · exact signed

/-- `apply` keeps the bookkeeping of the votes. -/
theorem apply_keeps_wf (wf : s.Wf) {ecrecover : Header → Except String Address}
    {hash : Header → Indigo.Hash} {headers : List Header} {s' : Snapshot}
    (applied : apply ecrecover hash s headers = .ok s') : s'.Wf := by
  rcases apply_ok applied with ⟨-, rfl⟩ | ⟨last, snap, -, -, -, loop, rfl⟩
  · exact wf
  · have done : snap.Wf := foldlM_ok_invariant (fun _ acc => Wf acc) headers wf
      (fun _ _ _ _ _ _ inv step => inv.applyHeader step) loop
    exact ⟨done.voters_signers, done.votes_voters, done.votes_single⟩

end Wf

/-- The genesis signers are the keys of the map `newGenesisSnapshot` fills. -/
theorem mem_genesis_signers (signers : List Address) (a : Address) :
    ∀ m : AList fun _ : Address => Nat,
      a ∈ signers.foldl (fun m signer => m.insert signer 0) m ↔ a ∈ m ∨ a ∈ signers := by
  induction signers with
  | nil => simp
  | cons signer rest ih =>
    intro m
    rw [List.foldl_cons, ih, AList.mem_insert]
    simp only [List.mem_cons]
    tauto

theorem mem_genesis_voters (voters : List Address) (a : Address) :
    ∀ set : Finset Address, a ∈ voters.foldl (fun s voter => insert voter s) set ↔ a ∈ set ∨ a ∈ voters := by
  induction voters with
  | nil => simp
  | cons voter rest ih =>
    intro set
    rw [List.foldl_cons, ih, Finset.mem_insert]
    simp only [List.mem_cons]
    tauto

/-- A genesis snapshot whose voters are signers has the bookkeeping of the votes. -/
theorem newGenesisSnapshot_wf (config : CliqueConfig) (number : Nat) (hash : Indigo.Hash)
    (signers voters : List Address) (sub : ∀ voter ∈ voters, voter ∈ signers) :
    (newGenesisSnapshot config number hash signers voters).Wf where
  voters_signers voter member := by
    have listed := (mem_genesis_voters voters voter ∅).mp member
    simp only [Finset.notMem_empty, false_or] at listed
    exact (mem_genesis_signers signers voter ∅).mpr (.inr (sub voter listed))
  votes_voters vote member := by simp [newGenesisSnapshot] at member
  votes_single := by simp [newGenesisSnapshot]

end Snapshot

/-! ### Opposite votes pass a proposal -/

/-- The signature scheme of the examples: a header's signature is its signer's address. -/
def exampleRecover (header : Header) : Except String Address := .ok (BytesToAddress header.Signer)

/-- The genesis of the examples: signers `1` to `4`, of which `1` to `3` vote. -/
def exampleGenesis : Snapshot :=
  Snapshot.newGenesisSnapshot ⟨30000, by decide⟩ 0 Indigo.Hash.zero [1, 2, 3, 4] [1, 2, 3]

/-- A header of block `number` signed by `signer`, with a proposal on `candidate` and the
vote of `nonce`. -/
def proposalHeader (number : Int) (signer candidate : Address) (election : UInt8) (nonce : Bytes) :
    Header :=
  ⟨number, List.replicate extraVanity 0 ++ Address.Bytes candidate ++ [election], nonce, [signer.toUInt8]⟩

theorem exampleGenesis_wf : exampleGenesis.Wf :=
  Snapshot.newGenesisSnapshot_wf _ _ _ _ _ (by decide)

/-- The bookkeeping holds after the two votes of `apply_passes_opposite_votes`. -/
theorem apply_wf_opposite_votes :
    ∃ s, Snapshot.apply exampleRecover (fun _ => Indigo.Hash.zero) exampleGenesis
      [proposalHeader 1 1 4 signerElection nonceDropVote,
        proposalHeader 2 2 4 voterElection nonceAuthVote] = .ok s ∧ s.Wf := by
  obtain ⟨s, applied⟩ : ∃ s, Snapshot.apply exampleRecover (fun _ => Indigo.Hash.zero) exampleGenesis
      [proposalHeader 1 1 4 signerElection nonceDropVote,
        proposalHeader 2 2 4 voterElection nonceAuthVote] = .ok s := ⟨_, rfl⟩
  exact ⟨s, applied, Snapshot.apply_keeps_wf exampleGenesis_wf applied⟩

/-- Voter `1` asks to drop signer `4`, then voter `2` asks to make it a voter. Both votes are
meaningful, and `cast` counts the second into the tally the first opened, so with two of the
three voters the drop passes: signer `4` is removed although one voter asked for that, and
nobody asked for it before the second vote came. -/
theorem apply_passes_opposite_votes :
    (∃ s, Snapshot.apply exampleRecover (fun _ => Indigo.Hash.zero) exampleGenesis
        [proposalHeader 1 1 4 signerElection nonceDropVote] = .ok s ∧
      s.Votes = [⟨1, 1, 4, false⟩] ∧ s.Tally.lookup 4 = some ⟨false, 1⟩ ∧
      s.Signers.lookup 4 = some 0) ∧
    ∃ s, Snapshot.apply exampleRecover (fun _ => Indigo.Hash.zero) exampleGenesis
        [proposalHeader 1 1 4 signerElection nonceDropVote,
          proposalHeader 2 2 4 voterElection nonceAuthVote] = .ok s ∧
      s.Signers.lookup 4 = none ∧ s.Votes = [] :=
  ⟨⟨_, rfl, by decide⟩, ⟨_, rfl, by decide⟩⟩

end Indigo.Clique
