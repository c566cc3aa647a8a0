import Indigo.Common.Types
import Mathlib.Data.List.AList

/-!
# The transactions a reorg puts back into the pool

When the head moves to a block that is not a child of the old head, `TxPool.reset`
(`core/tx_pool.go`) walks both branches back to their common ancestor and collects in
`reinject` the transactions of the old branch that the new branch does not hold. The walk first
brings the higher head down to the height of the lower one, then steps both down together until
they meet. All along, `included` holds the hashes of the transactions of the new branch seen so
far, and a transaction of the new branch that the old one holds higher up is taken out of
`reinject` again when the walk reaches it.

## Main results

- `reset_reinject`: with both branches available down to their common ancestor and heads at
  most `maxReorgDepth` apart, the walk ends, and `reinject` holds a transaction of the old branch,
  under its hash, for exactly the hashes of the old branch's transactions that no block of the new
  branch holds.

## Proof strategy

The three loops keep one invariant over the transactions seen on each branch (`Seen`):
`included` holds the hashes of the new branch's, and `reinject` those of the old branch's that
are not among them. Each transaction a loop reads keeps it (`Seen.takeIn_one`,
`Seen.markIncluded_one`), and each loop is an induction over the blocks of its branch
(`Descends`), whose numbers count down one by one to the ancestor.
-/

namespace Indigo.Core

/-- A block, as `reset` reads it: `Hash()`, `ParentHash()`, `NumberU64()` and `Transactions()`. -/
structure Block (Tx : Type) where
  hash : Hash
  parentHash : Hash
  number : UInt64
  transactions : List Tx

/-- What `reset` asks of the chain: `GetBlock(hash, number)`, which gives only a block of that
hash and number. -/
structure Chain (Tx : Type) where
  GetBlock : Hash → UInt64 → Option (Block Tx)
  getBlock_eq : ∀ {h : Hash} {n : UInt64} {b : Block Tx}, GetBlock h n = some b → b.hash = h ∧ b.number = n

namespace TxPool

variable {Tx : Type} (txHash : Tx → Hash) (chain : Chain Tx)

/-- `maxReorgDepth`. -/
def maxReorgDepth : UInt64 := 16

/-- The distance between the two heads. -/
def reorgDepth (branchNum mainNum : UInt64) : UInt64 :=
  if branchNum > mainNum then branchNum - mainNum else mainNum - branchNum

/-- The map `reinject`: transactions under their hashes. -/
abbrev Reinject (Tx : Type) := AList fun _ : Hash => Tx

/-- The pass over a block of the new branch in the lock step: each transaction leaves
`reinject` and joins `included`. -/
def markIncluded (acc : List Hash × Reinject Tx) (txs : List Tx) : List Hash × Reinject Tx :=
  txs.foldl (fun acc tx => (acc.1 ++ [txHash tx], acc.2.erase (txHash tx))) acc

/-- The pass over a block of the old branch: each transaction that is not included joins
`reinject`. -/
def takeIn (included : List Hash) (reinject : Reinject Tx) (txs : List Tx) : Reinject Tx :=
  txs.foldl (fun reinject tx => if txHash tx ∈ included then reinject else reinject.insert (txHash tx) tx)
    reinject

/-- "Rewind main up the chain to a possible common ancestor": down to the old head's number,
including every transaction on the way. `none` is an unrooted chain, or no fuel left. -/
def rewindMain (branchNum : UInt64) : Nat → List Hash → Block Tx → Option (List Hash × Block Tx)
  | 0, _, _ => none
  | fuel + 1, included, main =>
    if main.number > branchNum then
      match chain.GetBlock main.parentHash (main.number - 1) with
      | none => none
      | some parent => rewindMain branchNum fuel (included ++ main.transactions.map txHash) parent
    else some (included, main)

/-- "Rewind branch up the chain to a possible common ancestor": down to the new head's number,
taking in every transaction that is not included. -/
def rewindBranch (mainNum : UInt64) (included : List Hash) :
    Nat → Reinject Tx → Block Tx → Option (Reinject Tx × Block Tx)
  | 0, _, _ => none
  | fuel + 1, reinject, branch =>
    if branch.number > mainNum then
      match chain.GetBlock branch.parentHash (branch.number - 1) with
      | none => none
      | some parent =>
        rewindBranch mainNum included fuel (takeIn txHash included reinject branch.transactions) parent
    else some (reinject, branch)

/-- "Continue up the chain until a common ancestor is found": both blocks step down together,
the new branch's first. -/
def lockStep : Nat → List Hash → Reinject Tx → Block Tx → Block Tx → Option (Reinject Tx)
  | 0, _, _, _, _ => none
  | fuel + 1, included, reinject, branch, main =>
    if branch.hash ≠ main.hash then
      let marked := markIncluded txHash (included, reinject) main.transactions
      match chain.GetBlock main.parentHash (main.number - 1) with
      | none => none
      | some mainParent =>
        match chain.GetBlock branch.parentHash (branch.number - 1) with
        | none => none
        | some branchParent =>
          lockStep fuel marked.1 (takeIn txHash marked.1 marked.2 branch.transactions) branchParent
            mainParent
    else some reinject

/-- The map `reinject` that `reset` builds from the old head to the new one; `none` where it
logs an unrooted chain and returns. The walks take at most `fuel` steps each. -/
def reset (fuel : Nat) (oldBlock : Option (Block Tx)) (newBlock : Block Tx) : Option (Reinject Tx) :=
  match oldBlock with
  | none => some ∅
  | some oldBlock =>
    if oldBlock.hash ≠ newBlock.parentHash then
      -- if the reorg is too deep, avoid doing it
      if reorgDepth oldBlock.number newBlock.number > maxReorgDepth then some ∅
      else
        match rewindMain txHash chain oldBlock.number fuel [] newBlock with
        | none => none
        | some (included, main) =>
          match rewindBranch txHash chain newBlock.number included fuel ∅ oldBlock with
          | none => none
          | some (reinject, branch) => lockStep txHash chain fuel included reinject branch main
    else some ∅

/-! ### The branches -/

/-- `b` descends, parent by parent, through the blocks `Bs` (`b` first) to the ancestor `A`:
`Bs` is the branch of `b` above `A`. -/
inductive Descends : Block Tx → List (Block Tx) → Block Tx → Prop
  | ancestor (A : Block Tx) : Descends A [] A
  | parent {b c A : Block Tx} {Bs : List (Block Tx)} :
      0 < b.number → chain.GetBlock b.parentHash (b.number - 1) = some c → Descends c Bs A →
      Descends b (b :: Bs) A

/-- The transactions of a list of blocks. -/
def txsOf (Bs : List (Block Tx)) : List Tx := Bs.flatMap (·.transactions)

@[simp] theorem txsOf_nil : txsOf ([] : List (Block Tx)) = [] := rfl

@[simp] theorem txsOf_cons (b : Block Tx) (Bs : List (Block Tx)) :
    txsOf (b :: Bs) = b.transactions ++ txsOf Bs := rfl

@[simp] theorem txsOf_append (Bs Cs : List (Block Tx)) : txsOf (Bs ++ Cs) = txsOf Bs ++ txsOf Cs := by
  simp [txsOf]

variable {chain}

/-- A positive block number steps down by one without wrapping. -/
theorem toNat_pred {n : UInt64} (positive : 0 < n) : (n - 1).toNat = n.toNat - 1 := by
  have above : 0 < n.toNat := by simpa using UInt64.lt_iff_toNat_lt.1 positive
  rw [UInt64.toNat_sub_of_le _ _ (UInt64.le_iff_toNat_le.2 (by rw [UInt64.toNat_one]; omega)),
    UInt64.toNat_one]

/-- The parent of a block with a parent is one below it. -/
theorem number_parent {b c : Block Tx} (positive : 0 < b.number)
    (found : chain.GetBlock b.parentHash (b.number - 1) = some c) : c.number.toNat = b.number.toNat - 1 := by
  rw [(chain.getBlock_eq found).2, toNat_pred positive]

/-- A branch counts down one block at a time to its ancestor. -/
theorem Descends.number {b A : Block Tx} {Bs : List (Block Tx)} (descends : Descends chain b Bs A) :
    b.number.toNat = A.number.toNat + Bs.length := by
  induction descends with
  | ancestor => rfl
  | parent positive found _ ih =>
    have below := number_parent positive found
    have above := UInt64.lt_iff_toNat_lt.1 positive
    rw [UInt64.toNat_zero] at above
    rw [List.length_cons]
    omega

/-! ### What the walk has seen -/

/-- What the walk has seen of the two branches: `included` holds the hashes of the new branch's
transactions `NT`, and `reinject` holds, under its hash, one of the old branch's transactions
`OT` for each hash of `OT` that is not among them. -/
structure Seen (included : List Hash) (reinject : Reinject Tx) (OT NT : List Tx) : Prop where
  mem_included : ∀ h, h ∈ included ↔ h ∈ NT.map txHash
  mem_keys : ∀ h, (reinject.lookup h).isSome ↔ h ∈ OT.map txHash ∧ h ∉ NT.map txHash
  mem_values : ∀ h tx, reinject.lookup h = some tx → tx ∈ OT ∧ txHash tx = h

section Seen

variable {txHash} {included : List Hash} {reinject : Reinject Tx} {OT NT : List Tx}

/-- Phase one includes the new branch's transactions before anything is taken in. -/
theorem seen_included (NT : List Tx) : Seen txHash (NT.map txHash) ∅ [] NT where
  mem_included _ := Iff.rfl
  mem_keys _ := by simp
  mem_values _ _ found := by simp at found

/-- A transaction of the old branch joins `reinject` unless it is included. -/
theorem Seen.takeIn_one (seen : Seen txHash included reinject OT NT) (tx : Tx) :
    Seen txHash included (if txHash tx ∈ included then reinject else reinject.insert (txHash tx) tx)
      (OT ++ [tx]) NT := by
  by_cases listed : txHash tx ∈ included
  · -- its hash is already one of the new branch's
    rw [if_pos listed]
    refine ⟨seen.mem_included, fun h => ?_, fun h a found => ?_⟩
    · rw [seen.mem_keys, List.map_append, List.mem_append, List.map_singleton, List.mem_singleton]
      rw [seen.mem_included] at listed
      constructor
      · exact fun ⟨old, fresh⟩ => ⟨.inl old, fresh⟩
      · rintro ⟨old | rfl, fresh⟩
        · exact ⟨old, fresh⟩
        · exact absurd listed fresh
    · obtain ⟨old, key⟩ := seen.mem_values h a found
      exact ⟨List.mem_append_left _ old, key⟩
  · rw [if_neg listed]
    rw [seen.mem_included] at listed
    refine ⟨seen.mem_included, fun h => ?_, fun h a found => ?_⟩
    · by_cases same : h = txHash tx
      · subst same
        simp [listed]
      · rw [AList.lookup_insert_ne same, seen.mem_keys]
        simp [same]
    · by_cases same : h = txHash tx
      · subst same
        rw [AList.lookup_insert, Option.some.injEq] at found
        subst found
        exact ⟨by simp, rfl⟩
      · rw [AList.lookup_insert_ne same] at found
        obtain ⟨old, key⟩ := seen.mem_values h a found
        exact ⟨List.mem_append_left _ old, key⟩

/-- A transaction of the new branch leaves `reinject` and joins `included`. -/
theorem Seen.markIncluded_one (seen : Seen txHash included reinject OT NT) (tx : Tx) :
    Seen txHash (included ++ [txHash tx]) (reinject.erase (txHash tx)) OT (NT ++ [tx]) := by
  refine ⟨fun h => ?_, fun h => ?_, fun h a found => ?_⟩
  · simp [seen.mem_included]
  · by_cases same : h = txHash tx
    · subst same
      simp
    · rw [AList.lookup_erase_ne same, seen.mem_keys]
      simp [same]
  · by_cases same : h = txHash tx
    · subst same
      simp at found
    · rw [AList.lookup_erase_ne same] at found
      exact seen.mem_values h a found

theorem Seen.takeIn (seen : Seen txHash included reinject OT NT) (txs : List Tx) :
    Seen txHash included (takeIn txHash included reinject txs) (OT ++ txs) NT := by
  induction txs generalizing reinject OT with
  | nil => simpa [TxPool.takeIn] using seen
  | cons tx txs ih =>
    have step := ih (seen.takeIn_one tx)
    rwa [List.append_assoc, List.singleton_append] at step

theorem Seen.markIncluded (seen : Seen txHash included reinject OT NT) (txs : List Tx) :
    Seen txHash (markIncluded txHash (included, reinject) txs).1 (markIncluded txHash (included, reinject) txs).2
      OT (NT ++ txs) := by
  induction txs generalizing included reinject NT with
  | nil => simpa [TxPool.markIncluded] using seen
  | cons tx txs ih =>
    have step := ih (seen.markIncluded_one tx)
    rwa [List.append_assoc, List.singleton_append] at step

end Seen

/-! ### The three walks -/

section Walks

variable {A : Block Tx}

/-- The first walk takes the new branch down to the old head's number, or stays where it is. -/
theorem rewindMain_eq {branchNum : UInt64} (low : A.number ≤ branchNum) :
    ∀ {main : Block Tx} {Ms : List (Block Tx)} {fuel : Nat} (included : List Hash),
      Descends chain main Ms A → Ms.length < fuel →
      ∃ Hi Lo main', Ms = Hi ++ Lo ∧ Descends chain main' Lo A ∧
        main'.number.toNat = min main.number.toNat branchNum.toNat ∧
        rewindMain txHash chain branchNum fuel included main =
          some (included ++ (txsOf Hi).map txHash, main')
  | _, _, 0, _, _, short => absurd short (Nat.not_lt_zero _)
  | _, _, fuel + 1, included, .ancestor _, _ => by
    refine ⟨[], [], A, rfl, .ancestor A, ?_, ?_⟩
    · exact (Nat.min_eq_left (UInt64.le_iff_toNat_le.1 low)).symm
    · simp [rewindMain, UInt64.not_lt.2 low]
  | main, _, fuel + 1, included, .parent positive found rest, short => by
    by_cases above : main.number > branchNum
    · -- one step down, taking in the block's transactions
      obtain ⟨Hi, Lo, main', split, lower, height, loop⟩ :=
        rewindMain_eq low (included ++ main.transactions.map txHash) rest
          (show List.length _ < fuel by simp only [List.length_cons] at short; omega)
      have down := number_parent positive found
      have gt := UInt64.lt_iff_toNat_lt.1 above
      refine ⟨main :: Hi, Lo, main', by rw [split, List.cons_append], lower, by omega, ?_⟩
      simp [rewindMain, above, found, loop]
    · exact ⟨[], main :: _, main, rfl, .parent positive found rest,
        (Nat.min_eq_left (UInt64.le_iff_toNat_le.1 (UInt64.not_lt.1 above))).symm, by simp [rewindMain, above]⟩

/-- The second walk takes the old branch down to the new head's number, or stays where it is;
each transaction it passes is taken in unless included. -/
theorem rewindBranch_eq {mainNum : UInt64} (low : A.number ≤ mainNum) {included : List Hash} {NT : List Tx} :
    ∀ {branch : Block Tx} {Bs : List (Block Tx)} {fuel : Nat} {reinject : Reinject Tx} {OT : List Tx},
      Descends chain branch Bs A → Bs.length < fuel → Seen txHash included reinject OT NT →
      ∃ Hi Lo branch' reinject', Bs = Hi ++ Lo ∧ Descends chain branch' Lo A ∧
        branch'.number.toNat = min branch.number.toNat mainNum.toNat ∧
        rewindBranch txHash chain mainNum included fuel reinject branch = some (reinject', branch') ∧
        Seen txHash included reinject' (OT ++ txsOf Hi) NT
  | _, _, 0, _, _, _, short, _ => absurd short (Nat.not_lt_zero _)
  | _, _, fuel + 1, reinject, OT, .ancestor _, _, seen => by
    refine ⟨[], [], A, reinject, rfl, .ancestor A, ?_, ?_, by simpa using seen⟩
    · exact (Nat.min_eq_left (UInt64.le_iff_toNat_le.1 low)).symm
    · simp [rewindBranch, UInt64.not_lt.2 low]
  | branch, _, fuel + 1, reinject, OT, .parent positive found rest, short, seen => by
    by_cases above : branch.number > mainNum
    · obtain ⟨Hi, Lo, branch', reinject', split, lower, height, loop, seen'⟩ :=
        rewindBranch_eq low rest (show List.length _ < fuel by simp only [List.length_cons] at short; omega)
          (seen.takeIn branch.transactions)
      have down := number_parent positive found
      have gt := UInt64.lt_iff_toNat_lt.1 above
      refine ⟨branch :: Hi, Lo, branch', reinject', by rw [split, List.cons_append], lower, by omega, ?_,
        by simpa using seen'⟩
      simp [rewindBranch, above, found, loop]
    · exact ⟨[], branch :: _, branch, reinject, rfl, .parent positive found rest,
        (Nat.min_eq_left (UInt64.le_iff_toNat_le.1 (UInt64.not_lt.1 above))).symm, by simp [rewindBranch, above],
        by simpa using seen⟩

/-- The lock step walks two branches of one length down to their ancestor, where it stops: no
block of one is a block of the other. -/
theorem lockStep_eq :
    ∀ {branch main : Block Tx} {Bs Ms : List (Block Tx)} {fuel : Nat} {included : List Hash}
      {reinject : Reinject Tx} {OT NT : List Tx},
      Descends chain branch Bs A → Descends chain main Ms A → Bs.length = Ms.length →
      (∀ b ∈ Bs, ∀ c ∈ Ms, b.hash ≠ c.hash) → Bs.length < fuel →
      Seen txHash included reinject OT NT →
      ∃ reinject', lockStep txHash chain fuel included reinject branch main = some reinject' ∧
        ∃ included', Seen txHash included' reinject' (OT ++ txsOf Bs) (NT ++ txsOf Ms)
  | _, _, _, _, 0, _, _, _, _, _, _, _, _, short, _ => absurd short (Nat.not_lt_zero _)
  | _, _, _, _, fuel + 1, included, reinject, OT, NT, .ancestor _, .ancestor _, _, _, _, seen =>
    -- both walks reached the ancestor
    ⟨reinject, by simp [lockStep], included, by simpa using seen⟩
  | branch, main, _, _, fuel + 1, included, reinject, OT, NT,
      .parent positiveB foundB restB, .parent positiveM foundM restM, same, apart, short, seen => by
    have differ : branch.hash ≠ main.hash := apart branch List.mem_cons_self main List.mem_cons_self
    have marked := seen.markIncluded main.transactions
    obtain ⟨reinject', loop, included', seen'⟩ :=
      lockStep_eq restB restM (by simpa using same)
        (fun b mb c mc => apart b (List.mem_cons_of_mem _ mb) c (List.mem_cons_of_mem _ mc))
        (show List.length _ < fuel by simp only [List.length_cons] at short; omega)
        (marked.takeIn branch.transactions)
    refine ⟨reinject', ?_, included', by simpa using seen'⟩
    simp only [lockStep, ne_eq, differ, not_false_eq_true, if_true, foundM, foundB]
    exact loop
  | _, _, _, _, _ + 1, _, _, _, _, .ancestor _, .parent .., same, _, _, _ => by
    simp at same
  | _, _, _, _, _ + 1, _, _, _, _, .parent .., .ancestor _, same, _, _, _ => by
    simp at same

end Walks

/-! ### The map `reinject` -/

/-- With both branches available down to their common ancestor `A`, where no block of the old
branch is the new head's parent or a block of the new branch, and heads at most `maxReorgDepth`
apart, `reset` ends, and `reinject` holds a transaction of the old branch, under its hash, for
exactly the hashes of the old branch's transactions that no block of the new branch holds. -/
theorem reset_reinject {oldBlock newBlock A : Block Tx} {Old New : List (Block Tx)}
    (old : Descends chain oldBlock Old A) (new : Descends chain newBlock New A)
    (fork : ∀ b ∈ Old, b.hash ≠ newBlock.parentHash ∧ ∀ c ∈ New, b.hash ≠ c.hash)
    (near : reorgDepth oldBlock.number newBlock.number ≤ maxReorgDepth)
    {fuel : Nat} (enough : Old.length + New.length < fuel) :
    ∃ reinject, reset txHash chain fuel (some oldBlock) newBlock = some reinject ∧
      (∀ h, (reinject.lookup h).isSome ↔ h ∈ (txsOf Old).map txHash ∧ h ∉ (txsOf New).map txHash) ∧
      ∀ h tx, reinject.lookup h = some tx → tx ∈ txsOf Old ∧ txHash tx = h := by
  by_cases child : oldBlock.hash = newBlock.parentHash
  · -- the old head is the new head's parent: its branch above the ancestor is empty
    have empty : Old = [] := by
      cases old with
      | ancestor => rfl
      | parent => exact absurd child (fork oldBlock List.mem_cons_self).1
    subst empty
    refine ⟨∅, by simp [reset, child], fun h => by simp, fun h tx found => by simp at found⟩
  · have heightOld := old.number
    have heightNew := new.number
    obtain ⟨HiN, LoN, main, splitN, lowerN, heightMain, loopMain⟩ :=
      rewindMain_eq txHash (show A.number ≤ oldBlock.number from UInt64.le_iff_toNat_le.2 (by omega)) [] new
        (show New.length < fuel by omega)
    obtain ⟨HiO, LoO, branch, reinject, splitO, lowerO, heightBranch, loopBranch, seen⟩ :=
      rewindBranch_eq txHash (show A.number ≤ newBlock.number from UInt64.le_iff_toNat_le.2 (by omega)) old
        (show Old.length < fuel by omega)
        (seen_included (txsOf HiN))
    -- the two walks stopped at one height, so the lock step has as far to go on each side
    have same : LoO.length = LoN.length := by
      have := lowerO.number
      have := lowerN.number
      omega
    obtain ⟨reinject', loop, included', final⟩ :=
      lockStep_eq txHash lowerO lowerN same
        (fun b mb c mc => (fork b (splitO ▸ List.mem_append_right _ mb)).2 c (splitN ▸ List.mem_append_right _ mc))
        (show LoO.length < fuel by rw [splitO, List.length_append] at enough; omega) seen
    rw [List.nil_append, ← txsOf_append, ← splitO, ← txsOf_append, ← splitN] at final
    refine ⟨reinject', ?_, final.mem_keys, final.mem_values⟩
    simp only [reset, ne_eq, child, not_false_eq_true, if_true, UInt64.not_lt.2 near, if_false]
    rw [loopMain]
    simp only [List.nil_append]
    rw [loopBranch]
    exact loop

/-! ### A transaction that moved down on the new branch -/

/-- The hash whose last byte is `k`. -/
def exampleHash (k : UInt8) : Hash := ⟨List.replicate 31 0 ++ [k], by simp [HashLength]⟩

/-- A transaction `n` of the examples, and its hash. -/
def exampleTxHash (n : Nat) : Hash := exampleHash n.toUInt8

/-- The common ancestor, block `1`. -/
def exampleAncestor : Block Nat := ⟨exampleHash 1, exampleHash 0, 1, []⟩

/-- Block `2` of the old branch, which holds transaction `3`. -/
def exampleOld2 : Block Nat := ⟨exampleHash 2, exampleHash 1, 2, [3]⟩

/-- The old head, block `3`, which holds transactions `4` and `5`. -/
def exampleOld3 : Block Nat := ⟨exampleHash 3, exampleHash 2, 3, [4, 5]⟩

/-- The new head, block `2`, which holds transaction `4` one block lower. -/
def exampleNew2 : Block Nat := ⟨exampleHash 12, exampleHash 1, 2, [4]⟩

/-- The chain of the examples: the ancestor and block `2` of the old branch. -/
def exampleChain : Chain Nat where
  GetBlock h n :=
    if h = exampleHash 1 ∧ n = 1 then some exampleAncestor
    else if h = exampleHash 2 ∧ n = 2 then some exampleOld2
    else none
  getBlock_eq {h n b} found := by
    split_ifs at found with ancestor old2
    · cases found
      exact ⟨ancestor.1.symm, ancestor.2.symm⟩
    · cases found
      exact ⟨old2.1.symm, old2.2.symm⟩

/-- The old head `3` gives way to a new block `2`: transaction `4`, which the old branch held at
block `3`, is taken in by the walk down the old branch and taken out again when the lock step
reaches it at block `2` of the new branch; `3` and `5` are reinjected. -/
theorem reset_reinject_moved :
    ∃ reinject, reset exampleTxHash exampleChain 4 (some exampleOld3) exampleNew2 = some reinject ∧
      (∀ h, (reinject.lookup h).isSome ↔
        h ∈ (txsOf [exampleOld3, exampleOld2]).map exampleTxHash ∧ h ∉ (txsOf [exampleNew2]).map exampleTxHash) ∧
      ∀ h tx, reinject.lookup h = some tx → tx ∈ txsOf [exampleOld3, exampleOld2] ∧ exampleTxHash tx = h :=
  reset_reinject exampleTxHash
    (.parent (by decide) rfl (.parent (by decide) rfl (.ancestor exampleAncestor)))
    (.parent (by decide) rfl (.ancestor exampleAncestor)) (by decide) (by decide) (by decide)

/-- The walk reinjects `3` and `5`. -/
example : (reset exampleTxHash exampleChain 4 (some exampleOld3) exampleNew2).map AList.keys =
    some [exampleTxHash 3, exampleTxHash 5] := by
  decide

end TxPool

end Indigo.Core
