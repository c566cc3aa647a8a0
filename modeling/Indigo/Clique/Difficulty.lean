import Mathlib.Order.Interval.Finset.Nat
import Indigo.Clique.Voting

/-!
# The difficulty of a clique signer

`CalcDifficulty` ranks the signers by the last block each signed: a signer's rank is one
plus the number of signers below it, those that signed more recently, or, among those that
never signed, those whose address sorts later. The lower half of the ranks is cut to `0`.
The recently-signed check of `apply` and `verifySeal` refuses a signer that signed within the
last `n/2` blocks, and such a signer is among the lower half: along a chain each block has
one signer, so fewer than `n/2` signers signed after it. The converse does not hold: the
signers that never signed are ranked by address, and the later half of them get `0` although
no check refuses them.

## Main results

- `CalcDifficulty_range`, `CalcDifficulty_ne`: a difficulty is `0` or in `[n/2+1, n]`, and
  two signers never share a nonzero one.
- `CalcDifficulty_recent`: a signer the check refuses gets `0`, as long as the blocks signed
  are distinct and none is after the snapshot's.
- `Reachable.signedUpTo`: `apply` keeps that, from any genesis snapshot.
- `difficulty_refuses_recent`: the three together, for every snapshot `apply` reaches.
- `calcDifficulty_zero_unrefused`: a signer that never signed gets `0` although it is not
  refused.

## Proof strategy

`CalcDifficulty` is `rank` cut at `n/2` (`CalcDifficulty_eq`). The ranking relation `Lower`
is a strict total order on the signers (`Lower_trans`, `Lower_total`), so ranks differ
(`rank_lt`). A refused signer's rank counts signers whose blocks are distinct and lie between
its block and the snapshot's, fewer than `n/2` of them (`rank_le_gap`).
-/

namespace Indigo.Clique

open Indigo.Evm Indigo.Lib Snapshot

/-- A list has fewer elements with a property than with a weaker one that some element has
alone. -/
theorem countP_lt_countP {α : Type} {p q : α → Bool} {l : List α} (weaker : ∀ x, p x → q x)
    (extra : ∃ x ∈ l, q x ∧ ¬p x) : l.countP p < l.countP q := by
  simp only [List.countP_eq_length_filter]
  have sub := List.monotone_filter_right l weaker
  obtain ⟨x, member, hq, hp⟩ := extra
  refine lt_of_le_of_ne sub.length_le fun same => ?_
  have listed : x ∈ l.filter p := sub.eq_of_length same ▸ List.mem_filter.mpr ⟨member, hq⟩
  exact hp (List.mem_filter.mp listed).2

/-! ### Ranks -/

/-- Whether `CalcDifficulty` counts the signer `addr`, whose last block is `n`, below `signer`,
whose last block is `last`. -/
def Lower (signer : Address) (last : Nat) (addr : Address) (n : Nat) : Bool :=
  if last > 0 then n > last else n > 0 || (addr : Nat) > signer

/-- The difficulty of `signer` before the cut: one plus the signers below it. -/
def rank (lastSigned : AList fun _ : Address => Nat) (signer : Address) : Nat :=
  1 + lastSigned.entries.countP fun entry => Lower signer ((lastSigned.lookup signer).getD 0) entry.1 entry.2

theorem CalcDifficulty_eq (lastSigned : AList fun _ : Address => Nat) (signer : Address) :
    CalcDifficulty lastSigned signer =
      if rank lastSigned signer ≤ lastSigned.keys.length / 2 then 0 else rank lastSigned signer := by
  unfold CalcDifficulty rank Lower
  split <;> simp_all

theorem not_lower_self (signer : Address) (last : Nat) : Lower signer last signer last = false := by
  unfold Lower
  split
  · simp
  · simp only [Bool.or_eq_false_iff, decide_eq_false_iff_not, lt_irrefl, not_false_eq_true, and_true]
    omega

/-- Ranking below is transitive. -/
theorem Lower_trans {a b c : Address} {la lb lc : Nat} (first : Lower a la b lb = true)
    (second : Lower b lb c lc = true) : Lower a la c lc = true := by
  unfold Lower at first second ⊢
  by_cases signed : 0 < la
  · -- `b` signed after `a`, and `c` after `b`
    simp only [gt_iff_lt, signed, if_true, decide_eq_true_eq] at first ⊢
    simp only [gt_iff_lt, show 0 < lb by omega, if_true, decide_eq_true_eq] at second
    omega
  · simp only [gt_iff_lt, signed, if_false, Bool.or_eq_true, decide_eq_true_eq] at first ⊢
    by_cases signedB : 0 < lb
    · -- `a` never signed and `c` signed after `b`
      simp only [gt_iff_lt, signedB, if_true, decide_eq_true_eq] at second
      exact .inl (by omega)
    · -- neither `a` nor `b` signed: `b` sorts after `a`
      simp only [gt_iff_lt, signedB, if_false, Bool.or_eq_true, decide_eq_true_eq] at second
      have sorted : a < b := first.resolve_left signedB
      exact second.imp id sorted.trans

/-- Two signers whose blocks differ, or that never signed, are ranked one below the other. -/
theorem Lower_total {a b : Address} {la lb : Nat} (other : a ≠ b) (distinct : 0 < la → la ≠ lb) :
    Lower a la b lb = true ∨ Lower b lb a la = true := by
  unfold Lower
  by_cases signedA : 0 < la <;> by_cases signedB : 0 < lb <;>
    simp only [gt_iff_lt, signedA, signedB, if_true, if_false, Bool.or_eq_true,
      decide_eq_true_eq, true_or, or_true]
  · have := distinct signedA
    omega
  · -- neither signed: the addresses decide
    rcases Nat.lt_or_gt_of_ne other with sorted | sorted
    · exact .inl (.inr sorted)
    · exact .inr (.inr sorted)

section Ranks

variable {lastSigned : AList fun _ : Address => Nat}

theorem mem_entries {a : Address} {n : Nat} (found : lastSigned.lookup a = some n) :
    (⟨a, n⟩ : Sigma fun _ : Address => Nat) ∈ lastSigned.entries :=
  AList.mem_lookup_iff.mp found

/-- A signer's own entry never counts, so its rank is at most the number of signers. -/
theorem rank_le {signer : Address} (member : signer ∈ lastSigned) :
    rank lastSigned signer ≤ lastSigned.keys.length := by
  obtain ⟨last, found⟩ := Option.isSome_iff_exists.mp (AList.lookup_isSome.mpr member)
  have own := not_lower_self signer last
  have fewer : (lastSigned.entries.filter fun entry => Lower signer last entry.1 entry.2).length <
      lastSigned.entries.length :=
    List.length_filter_lt_length_iff_exists.mpr ⟨_, mem_entries found, by simp [own]⟩
  have keys : lastSigned.keys.length = lastSigned.entries.length := by simp [AList.keys, List.keys]
  simp only [rank, found, Option.getD_some, List.countP_eq_length_filter]
  omega

/-- A signer ranked below another has a smaller rank: everything below it is below the other
as well, and so is it. -/
theorem rank_lt {a b : Address} {la lb : Nat} (foundA : lastSigned.lookup a = some la)
    (foundB : lastSigned.lookup b = some lb) (below : Lower a la b lb = true) :
    rank lastSigned b < rank lastSigned a := by
  simp only [rank, foundA, foundB, Option.getD_some]
  have fewer : (lastSigned.entries.countP fun entry => Lower b lb entry.1 entry.2) <
      lastSigned.entries.countP fun entry => Lower a la entry.1 entry.2 :=
    countP_lt_countP (fun _ lower => Lower_trans below lower)
      ⟨_, mem_entries foundB, below, by simp [not_lower_self]⟩
  omega

theorem CalcDifficulty_range {signer : Address} (member : signer ∈ lastSigned) :
    CalcDifficulty lastSigned signer = 0 ∨
      lastSigned.keys.length / 2 + 1 ≤ CalcDifficulty lastSigned signer ∧
        CalcDifficulty lastSigned signer ≤ lastSigned.keys.length := by
  have most := rank_le member
  rw [CalcDifficulty_eq]
  split
  · exact .inl rfl
  · exact .inr ⟨by omega, most⟩

/-- Two signers whose positive blocks differ never share a nonzero difficulty. -/
theorem CalcDifficulty_ne {a b : Address} (memberA : a ∈ lastSigned) (memberB : b ∈ lastSigned)
    (other : b ≠ a)
    (distinct : ∀ x y n, lastSigned.lookup x = some n → lastSigned.lookup y = some n → 0 < n → x = y)
    (nonzero : CalcDifficulty lastSigned a ≠ 0) :
    CalcDifficulty lastSigned b ≠ CalcDifficulty lastSigned a := by
  obtain ⟨la, foundA⟩ := Option.isSome_iff_exists.mp (AList.lookup_isSome.mpr memberA)
  obtain ⟨lb, foundB⟩ := Option.isSome_iff_exists.mp (AList.lookup_isSome.mpr memberB)
  -- the ranks differ, whichever of the two is below the other
  have ranks : rank lastSigned b ≠ rank lastSigned a := by
    rcases Lower_total (Ne.symm other) (fun positive same => other (distinct b a la
      (by rw [same]; exact foundB) foundA positive)) with below | below
    · exact Nat.ne_of_lt (rank_lt foundA foundB below)
    · exact Nat.ne_of_gt (rank_lt foundB foundA below)
  rw [CalcDifficulty_eq] at nonzero ⊢
  rw [CalcDifficulty_eq]
  split at nonzero
  · exact absurd rfl nonzero
  · split
    · exact Ne.symm nonzero
    · exact ranks

/-- What `apply` keeps of the last blocks signed: none after `top`, and no two signers at
the same block. -/
structure SignedUpTo (lastSigned : AList fun _ : Address => Nat) (top : Nat) : Prop where
  le_top : ∀ a n, lastSigned.lookup a = some n → n ≤ top
  distinct : ∀ a b n, lastSigned.lookup a = some n → lastSigned.lookup b = some n → 0 < n → a = b

/-- The signers a rank counts above a signer that signed lie between its block and `top`, at
distinct blocks. -/
theorem rank_le_gap {top : Nat} (signed : SignedUpTo lastSigned top) {a : Address} {la : Nat}
    (found : lastSigned.lookup a = some la) (positive : 0 < la) :
    rank lastSigned a ≤ 1 + (top - la) := by
  let later := (lastSigned.entries.filter fun entry => Lower a la entry.1 entry.2).map Sigma.snd
  have unique : later.Nodup := by
    refine List.Nodup.map_on (fun x memberX y memberY same => ?_)
      (List.Nodup.filter _ (AList.nodupKeys lastSigned).nodup)
    obtain ⟨inX, lowerX⟩ := List.mem_filter.mp memberX
    obtain ⟨inY, lowerY⟩ := List.mem_filter.mp memberY
    have foundX : lastSigned.lookup x.1 = some x.2 := AList.mem_lookup_iff.mpr inX
    have foundY : lastSigned.lookup y.1 = some y.2 := AList.mem_lookup_iff.mpr inY
    simp only [Lower, positive, if_true, decide_eq_true_eq] at lowerX
    have keys := signed.distinct x.1 y.1 x.2 foundX (same ▸ foundY) (by omega)
    exact Sigma.ext keys (heq_of_eq same)
  have within : later.toFinset ⊆ Finset.Ioc la top := by
    intro n member
    obtain ⟨entry, listed, rfl⟩ := List.mem_map.mp (List.mem_toFinset.mp member)
    obtain ⟨inEntries, lower⟩ := List.mem_filter.mp listed
    simp only [Lower, positive, if_true, decide_eq_true_eq] at lower
    exact Finset.mem_Ioc.mpr ⟨lower, signed.le_top entry.1 entry.2 (AList.mem_lookup_iff.mpr inEntries)⟩
  have counted : later.length ≤ top - la := by
    rw [← List.toFinset_card_of_nodup unique, ← Nat.card_Ioc]
    exact Finset.card_le_card within
  simp only [rank, found, Option.getD_some, List.countP_eq_length_filter]
  simpa [later] using counted

end Ranks

/-- The recently-signed check of `apply` and `verifySeal`: `signer` signed a block, and
`number` comes before the next block it may sign. -/
def Snapshot.recentlySigned (s : Snapshot) (signer : Address) (number : Nat) : Bool :=
  (s.Signers.lookup signer).any fun lastBlockSigned =>
    lastBlockSigned > 0 && number < s.nextSignableBlockNumber lastBlockSigned

/-- A signer the check refuses for the block after `top` gets `0`: fewer than half of the
signers signed after it. -/
theorem CalcDifficulty_recent {s : Snapshot} {top : Nat} (signed : SignedUpTo s.Signers top)
    {signer : Address} (refused : s.recentlySigned signer (top + 1) = true) :
    CalcDifficulty s.Signers signer = 0 := by
  obtain ⟨last, found, check⟩ : ∃ last : Nat, s.Signers.lookup signer = some last ∧
      (last > 0 && top + 1 < s.nextSignableBlockNumber last) = true :=
    (Option.any_eq_true _ _).mp refused
  simp only [Bool.and_eq_true, decide_eq_true_eq, nextSignableBlockNumber] at check
  obtain ⟨positive, early⟩ := check
  have wrapped := Nat.mod_le (last + s.Signers.keys.length / 2 + 1) (2 ^ 64)
  have before := signed.le_top signer last found
  have gap := rank_le_gap signed found positive
  have bound : top + 1 < last + s.Signers.keys.length / 2 + 1 := lt_of_lt_of_le (of_decide_eq_true early) wrapped
  rw [CalcDifficulty_eq, if_pos (by omega)]

/-! ### What `apply` keeps of the blocks signed -/

section SignedUpTo

variable {lastSigned : AList fun _ : Address => Nat} {top : Nat}

theorem SignedUpTo.empty (top : Nat) : SignedUpTo (∅ : AList fun _ : Address => Nat) top :=
  ⟨fun _ _ none => by simp at none, fun _ _ _ none _ _ => by simp at none⟩

/-- The signer of the block after `top`. -/
theorem SignedUpTo.insert_next (signed : SignedUpTo lastSigned top) (signer : Address) :
    SignedUpTo (lastSigned.insert signer (top + 1)) (top + 1) := by
  have lookup : ∀ a n, (lastSigned.insert signer (top + 1)).lookup a = some n →
      (a = signer ∧ n = top + 1) ∨ (a ≠ signer ∧ lastSigned.lookup a = some n) := by
    intro a n found
    by_cases same : a = signer
    · subst same
      rw [AList.lookup_insert] at found
      exact .inl ⟨rfl, (Option.some.inj found).symm⟩
    · rw [AList.lookup_insert_ne same] at found
      exact .inr ⟨same, found⟩
  refine ⟨fun a n found => ?_, fun a b n foundA foundB positive => ?_⟩
  · rcases lookup a n found with ⟨-, rfl⟩ | ⟨-, old⟩
    · exact Nat.le_refl _
    · exact Nat.le_succ_of_le (signed.le_top a n old)
  · rcases lookup a n foundA with ⟨sameA, numberA⟩ | ⟨-, oldA⟩ <;>
      rcases lookup b n foundB with ⟨sameB, numberB⟩ | ⟨-, oldB⟩
    · exact sameA.trans sameB.symm
    · exact absurd (signed.le_top b _ oldB) (by omega)
    · exact absurd (signed.le_top a _ oldA) (by omega)
    · exact signed.distinct a b n oldA oldB positive

/-- A new signer, which has not signed. -/
theorem SignedUpTo.insert_zero (signed : SignedUpTo lastSigned top) (signer : Address) :
    SignedUpTo (lastSigned.insert signer 0) top := by
  have lookup : ∀ a n, (lastSigned.insert signer 0).lookup a = some n →
      n = 0 ∨ lastSigned.lookup a = some n := by
    intro a n found
    by_cases same : a = signer
    · subst same
      rw [AList.lookup_insert] at found
      exact .inl (Option.some.inj found).symm
    · rw [AList.lookup_insert_ne same] at found
      exact .inr found
  refine ⟨fun a n found => ?_, fun a b n foundA foundB positive => ?_⟩
  · rcases lookup a n found with rfl | old
    · exact Nat.zero_le _
    · exact signed.le_top a n old
  · rcases lookup a n foundA with rfl | oldA
    · exact absurd positive (lt_irrefl 0)
    · rcases lookup b n foundB with rfl | oldB
      · exact absurd positive (lt_irrefl 0)
      · exact signed.distinct a b n oldA oldB positive

theorem SignedUpTo.erase (signed : SignedUpTo lastSigned top) (signer : Address) :
    SignedUpTo (lastSigned.erase signer) top := by
  have lookup : ∀ a n, (lastSigned.erase signer).lookup a = some n → lastSigned.lookup a = some n := by
    intro a n found
    by_cases same : a = signer
    · subst same
      simp [AList.lookup_erase] at found
    · rwa [AList.lookup_erase_ne same] at found
  exact ⟨fun a n found => signed.le_top a n (lookup a n found),
    fun a b n foundA foundB => signed.distinct a b n (lookup a n foundA) (lookup b n foundB)⟩

end SignedUpTo

/-- A passed proposal adds a signer that has not signed, removes one, or leaves them. -/
theorem passVote_signers (s : Snapshot) (candidate : Address) :
    (s.passVote candidate).Signers = s.Signers ∨
      (s.passVote candidate).Signers = s.Signers.insert candidate 0 ∨
      (s.passVote candidate).Signers = s.Signers.erase candidate := by
  rcases passVote_eq s candidate with same | ⟨authorize, eq⟩
  · exact .inl (by rw [same])
  · rw [eq]
    rcases enact_cases s candidate authorize with ⟨-, enacted⟩ | ⟨-, enacted⟩ | ⟨-, enacted⟩ |
      ⟨-, tally, enacted⟩ <;> rw [enacted]
    · exact .inr (.inl rfl)
    · exact .inl rfl
    · exact .inr (.inr rfl)
    · exact .inl rfl

theorem passVote_number (s : Snapshot) (candidate : Address) :
    (s.passVote candidate).Number = s.Number := by
  rcases passVote_eq s candidate with same | ⟨authorize, eq⟩
  · rw [same]
  · rw [eq]
    rcases enact_cases s candidate authorize with ⟨-, enacted⟩ | ⟨-, enacted⟩ | ⟨-, enacted⟩ |
      ⟨-, tally, enacted⟩ <;> rw [enacted]

/-- A vote leaves the snapshot's number, and changes the signers as a passed proposal does. -/
theorem vote_frame {s s' : Snapshot} {header : Header} {signer : Address} {number : Nat}
    (voted : s.vote header signer number = .ok s') :
    s'.Number = s.Number ∧ ∃ candidate, (s'.Signers = s.Signers ∨
      s'.Signers = s.Signers.insert candidate 0 ∨ s'.Signers = s.Signers.erase candidate) := by
  obtain ⟨candidate, voterElection, authorize, rfl⟩ := vote_ok voted
  obtain ⟨tally, discarded⟩ := discardVote_eq s signer candidate
  have counted := cast_tallyOnly (s.discardVote signer candidate) candidate authorize voterElection
  -- counted or not, the vote leaves the signers and the number before the proposal
  have passed : ∀ t : Snapshot, t.Signers = s.Signers → t.Number = s.Number →
      (t.passVote candidate).Number = s.Number ∧ ∃ c, ((t.passVote candidate).Signers = s.Signers ∨
        (t.passVote candidate).Signers = s.Signers.insert c 0 ∨
        (t.passVote candidate).Signers = s.Signers.erase c) := by
    intro t signers number
    refine ⟨(passVote_number t candidate).trans number, candidate, ?_⟩
    rw [← signers]
    exact passVote_signers t candidate
  have signers : ((s.discardVote signer candidate).cast candidate authorize voterElection).2.Signers =
      s.Signers := by rw [counted.signers, discarded]
  have number : ((s.discardVote signer candidate).cast candidate authorize voterElection).2.Number =
      s.Number := by rw [counted.number, discarded]
  split
  · exact passed _ signers number
  · exact passed _ signers number

/-- A header after `top` adds its block to the signers' and keeps `SignedUpTo`. -/
theorem SignedUpTo.applyHeader {s s' : Snapshot} {top : Nat} (signed : SignedUpTo s.Signers top)
    {ecrecover : Header → Except String Address} {header : Header}
    (next : Uint64 header.Number = top + 1) (applied : applyHeader ecrecover s header = .ok s') :
    s'.Number = s.Number ∧ SignedUpTo s'.Signers (top + 1) := by
  obtain ⟨signer, -, -, -, votes, tally, -, outcome⟩ := applyHeader_ok applied
  have recorded := signed.insert_next signer
  rw [← next] at recorded
  rcases outcome with ⟨-, voted⟩ | ⟨-, rfl⟩
  · obtain ⟨number, candidate, signers⟩ := vote_frame voted
    refine ⟨number, ?_⟩
    rw [← next]
    rcases signers with same | added | removed
    · rw [same]
      exact recorded
    · rw [added]
      exact recorded.insert_zero candidate
    · rw [removed]
      exact recorded.erase candidate
  · exact ⟨rfl, next ▸ recorded⟩

/-- Along a chain that follows block `first`, the header after `pre` is block
`first + pre.length`, as long as that stays below `2^64`. -/
theorem chained_number : ∀ (pre : List Header) {headers : List Header} {x : Header}
    {rest : List Header} {first : Nat}, headers = pre ++ x :: rest → Chained headers = true →
    headers.head?.map (fun h => Uint64 h.Number) = some first → first + pre.length < 2 ^ 64 →
    Uint64 x.Number = first + pre.length
  | [], headers, x, rest, first, split, _, head, _ => by
    subst split
    simpa using head
  | p :: pre, headers, x, rest, first, split, chained, head, below => by
    subst split
    obtain ⟨y, ys, tail⟩ := List.exists_cons_of_ne_nil (List.append_ne_nil_of_right_ne_nil pre
      (List.cons_ne_nil x rest))
    simp only [List.cons_append, tail, Chained, Bool.and_eq_true, beq_iff_eq] at chained
    simp only [List.cons_append, List.head?_cons, Option.map_some, Option.some.injEq] at head
    -- the next header follows without wrapping
    have step : Uint64 y.Number = first + 1 := by
      rw [chained.1, head, Nat.mod_eq_of_lt (by simp only [List.length_cons] at below; omega)]
    have later := chained_number pre tail.symm chained.2 (by simpa using step)
      (by simp only [List.length_cons] at below; omega)
    rw [later, List.length_cons]
    omega

/-- The snapshots `apply` builds from a genesis snapshot, along chains whose block numbers
stay below `2^64`. -/
inductive Reachable (ecrecover : Header → Except String Address) (hash : Header → Indigo.Hash) :
    Snapshot → Prop
  | genesis (config : CliqueConfig) (number : Nat) (genesisHash : Indigo.Hash)
      (signers voters : List Address) :
      Reachable ecrecover hash (newGenesisSnapshot config number genesisHash signers voters)
  | apply {s s' : Snapshot} {headers : List Header} : Reachable ecrecover hash s →
      s.Number + headers.length < 2 ^ 64 → Snapshot.apply ecrecover hash s headers = .ok s' →
      Reachable ecrecover hash s'

theorem genesis_signedUpTo (signers : List Address) (top : Nat) :
    ∀ m : AList fun _ : Address => Nat, SignedUpTo m top →
      SignedUpTo (signers.foldl (fun m signer => m.insert signer 0) m) top := by
  induction signers with
  | nil => exact fun _ signed => signed
  | cons signer rest ih => exact fun m signed => ih _ (signed.insert_zero signer)

/-- Every reachable snapshot has its blocks signed distinct and at most its own. -/
theorem Reachable.signedUpTo {ecrecover : Header → Except String Address}
    {hash : Header → Indigo.Hash} {s : Snapshot} (reachable : Reachable ecrecover hash s) :
    SignedUpTo s.Signers s.Number := by
  induction reachable with
  | genesis config number genesisHash signers voters =>
    exact genesis_signedUpTo signers number ∅ (SignedUpTo.empty number)
  | @apply s s' headers _ below applied signed =>
    rcases apply_ok applied with ⟨-, rfl⟩ | ⟨last, snap, -, chained, head, loop, rfl⟩
    · exact signed
    -- the header after `pre` is block `s.Number + pre.length + 1`
    have first : (s.Number + 1) % 2 ^ 64 = s.Number + 1 := by
      have nonempty : headers ≠ [] := by
        rintro rfl
        simp at head
      have := List.length_pos_of_ne_nil nonempty
      exact Nat.mod_eq_of_lt (by omega)
    rw [first] at head
    have done := foldlM_ok_invariant
      (fun pre acc => acc.Number = s.Number ∧ SignedUpTo acc.Signers (s.Number + pre.length))
      headers ⟨rfl, signed⟩
      (fun pre x rest acc acc' split ⟨number, inv⟩ step => by
        have position := chained_number pre split chained head (by
          have : pre.length < headers.length := by simp [split]
          omega)
        obtain ⟨same, next⟩ := inv.applyHeader (by rw [position]; omega) step
        refine ⟨same.trans number, ?_⟩
        simpa [Nat.add_assoc] using next)
      loop
    obtain ⟨number, inv⟩ := done
    rw [number, Nat.mod_eq_of_lt below]
    exact inv

/-! ### The difficulty of the signers of a reachable snapshot -/

/-- On every snapshot `apply` reaches from a genesis snapshot, with `n` signers: a signer the
recently-signed check refuses for the next block gets difficulty `0`, every difficulty is `0`
or in `[n/2+1, n]`, and no two signers share a nonzero one. -/
theorem difficulty_refuses_recent {ecrecover : Header → Except String Address}
    {hash : Header → Indigo.Hash} {s : Snapshot} (reachable : Reachable ecrecover hash s)
    (below : s.Number + 1 < 2 ^ 64) {signer : Address} (member : signer ∈ s.Signers) :
    (s.recentlySigned signer ((s.Number + 1) % 2 ^ 64) = true →
        CalcDifficulty s.Signers signer = 0) ∧
      (CalcDifficulty s.Signers signer = 0 ∨
        s.Signers.keys.length / 2 + 1 ≤ CalcDifficulty s.Signers signer ∧
          CalcDifficulty s.Signers signer ≤ s.Signers.keys.length) ∧
      ∀ other ∈ s.Signers, other ≠ signer → CalcDifficulty s.Signers signer ≠ 0 →
        CalcDifficulty s.Signers other ≠ CalcDifficulty s.Signers signer := by
  have signed := reachable.signedUpTo
  refine ⟨fun refused => ?_, CalcDifficulty_range member,
    fun other listed different nonzero => CalcDifficulty_ne member listed different signed.distinct nonzero⟩
  rw [Nat.mod_eq_of_lt below] at refused
  exact CalcDifficulty_recent signed refused

theorem difficulty_refuses_recent_first :
    ∃ s, Snapshot.apply exampleRecover (fun _ => Indigo.Hash.zero) exampleGenesis
        [proposalHeader 1 1 0 signerElection nonceDropVote] = .ok s ∧
      (s.recentlySigned 1 ((s.Number + 1) % 2 ^ 64) = true → CalcDifficulty s.Signers 1 = 0) ∧
      (CalcDifficulty s.Signers 1 = 0 ∨
        s.Signers.keys.length / 2 + 1 ≤ CalcDifficulty s.Signers 1 ∧
          CalcDifficulty s.Signers 1 ≤ s.Signers.keys.length) ∧
      ∀ other ∈ s.Signers, other ≠ 1 → CalcDifficulty s.Signers 1 ≠ 0 →
        CalcDifficulty s.Signers other ≠ CalcDifficulty s.Signers 1 :=
  ⟨_, rfl, difficulty_refuses_recent
    (Reachable.apply (Reachable.genesis _ _ _ _ _) (by decide)
      (rfl : Snapshot.apply exampleRecover (fun _ => Indigo.Hash.zero) exampleGenesis
        [proposalHeader 1 1 0 signerElection nonceDropVote] = _))
    (by decide) (by decide)⟩

/-- After block `1`, signed by `1`, signer `4` has never signed, so no check refuses it, yet
it is last in the address order of the three that never signed and gets difficulty `0`. -/
theorem calcDifficulty_zero_unrefused :
    ∃ s, Snapshot.apply exampleRecover (fun _ => Indigo.Hash.zero) exampleGenesis
        [proposalHeader 1 1 0 signerElection nonceDropVote] = .ok s ∧
      4 ∈ s.Signers ∧ s.recentlySigned 4 ((s.Number + 1) % 2 ^ 64) = false ∧
      CalcDifficulty s.Signers 4 = 0 :=
  ⟨_, rfl, by decide⟩

end Indigo.Clique
