import Indigo.Discover.Table

/-!
# What the table keeps, and what its counters lose

Over every run of `add`, `stuff`, `delete` and revalidation from `newTable`, on any nodes
whose hashes are the Keccak256 of their IDs, each bucket keeps at most `bucketSize` entries
and `maxReplacements` replacements, of distinct IDs, all in the bucket their hash picks, and
no subnet counter exceeds its limit (`newTable_run_wf`).

The counters themselves do not count the nodes: `deleteInBucket` uncounts the address of
the node it deletes whether or not the node was there, so deleting an absent node of a
counted subnet frees a place in it, and a third node of one /24 enters a bucket whose limit
is two (`delete_absent_exceeds_subnet_limit`).

## Proof strategy

The invariant has two halves. `Counted`: counters change only through `DistinctNetSet.Add`
and `Remove`, which keep them within their limits. `Stocked`: the node lists change only
through `bump`, `pushNode`, `deleteNode` and the last-entry swap of `replace`; `SameNodes`
says that a step (`addIP`, `removeIP`) left them alone.
-/

namespace Indigo.Discover

open Indigo.Netutil

/-! ### Distinct IDs -/

/-- No two nodes of the list share an ID. -/
def DistinctIDs (nodes : List Node) : Prop := (nodes.map Node.ID).Nodup

theorem DistinctIDs.sublist {l l' : List Node} (distinct : DistinctIDs l) (sub : List.Sublist l' l) :
    DistinctIDs l' := List.Nodup.sublist (sub.map Node.ID) distinct

theorem DistinctIDs.perm {l l' : List Node} (p : List.Perm l l') : DistinctIDs l ↔ DistinctIDs l' :=
  (p.map Node.ID).nodup_iff

theorem DistinctIDs.cons_iff {n : Node} {l : List Node} :
    DistinctIDs (n :: l) ↔ (∀ x ∈ l, x.ID ≠ n.ID) ∧ DistinctIDs l := by
  simp only [DistinctIDs, List.map_cons, List.nodup_cons, List.mem_map, not_exists, not_and]

/-- Two parts of a list of distinct IDs share none. -/
theorem DistinctIDs.apart {l₁ l₂ : List Node} (distinct : DistinctIDs (l₁ ++ l₂)) {x y : Node}
    (left : x ∈ l₁) (right : y ∈ l₂) : x.ID ≠ y.ID := by
  rw [DistinctIDs, List.map_append, List.nodup_append] at distinct
  exact distinct.2.2 _ (List.mem_map_of_mem left) _ (List.mem_map_of_mem right)

/-- Swapping a node for one of the same ID keeps the IDs distinct. -/
theorem DistinctIDs.swap {l₁ l₂ : List Node} {a n : Node} (distinct : DistinctIDs (l₁ ++ a :: l₂))
    (same : a.ID = n.ID) : DistinctIDs (n :: (l₁ ++ l₂)) := by
  have moved := (DistinctIDs.perm List.perm_middle).mp distinct
  rw [DistinctIDs.cons_iff] at moved ⊢
  exact ⟨fun x member => same ▸ moved.1 x member, moved.2⟩

/-- What `deleteNode` leaves of a list of distinct IDs has none with the deleted ID. -/
theorem DistinctIDs.ne_of_mem_eraseP {l : List Node} (distinct : DistinctIDs l) {x : Node}
    {id : NodeID} (member : x ∈ l.eraseP fun e => decide (e.ID = id)) : x.ID ≠ id := by
  by_cases present : ∃ a ∈ l, a.ID = id
  · obtain ⟨a, inL, same⟩ := present
    obtain ⟨a, l₁, l₂, before, first, split, erased⟩ :=
      List.exists_of_eraseP (p := fun e => decide (e.ID = id)) inL (by simpa using same)
    rw [erased] at member
    rw [split] at distinct
    simp only [decide_eq_true_eq] at first before
    rcases List.mem_append.mp member with early | late
    · exact before x early
    · -- a later node with the ID would repeat the first one's
      have rest : DistinctIDs (a :: l₂) := distinct.sublist (List.sublist_append_right l₁ _)
      exact fun same => (DistinctIDs.cons_iff.mp rest).1 x late (same.trans first.symm)
  · rw [List.eraseP_of_forall_not (fun a inL found => present ⟨a, inL, by simpa using found⟩)] at member
    exact fun same => present ⟨x, member, same⟩

/-! ### The counters -/

/-- Every counter within its configured limit. -/
structure Table.Counted (tab : Table) : Prop where
  ips : tab.ips.Bounded
  ips_limit : tab.ips.Limit = tableIPLimit
  buckets : ∀ c : Fin nBuckets, tab.buckets[c].ips.Bounded
  buckets_limit : ∀ c : Fin nBuckets, tab.buckets[c].ips.Limit = bucketIPLimit

/-- The same nodes in the same buckets of a table with the same own node. -/
def Table.SameNodes (tab tab' : Table) : Prop :=
  tab'.self = tab.self ∧ ∀ c : Fin nBuckets,
    (getElem tab'.buckets c c.isLt).entries = (getElem tab.buckets c c.isLt).entries ∧
      (getElem tab'.buckets c c.isLt).replacements = (getElem tab.buckets c c.isLt).replacements

namespace Table

theorem SameNodes.refl (tab : Table) : tab.SameNodes tab := ⟨rfl, fun _ => ⟨rfl, rfl⟩⟩

theorem SameNodes.trans {tab tab' tab'' : Table} (first : tab.SameNodes tab') (second : tab'.SameNodes tab'') :
    tab.SameNodes tab'' :=
  ⟨second.1.trans first.1, fun c => ⟨(second.2 c).1.trans (first.2 c).1, (second.2 c).2.trans (first.2 c).2⟩⟩

/-- Replacing a bucket by one with the same nodes. -/
theorem sameNodes_setBucket (tab : Table) (b : Fin nBuckets) (bk : Bucket)
    (entries : bk.entries = (getElem tab.buckets b b.isLt).entries)
    (replacements : bk.replacements = (getElem tab.buckets b b.isLt).replacements) : tab.SameNodes (tab.setBucket b bk) := by
  refine ⟨rfl, fun c => ?_⟩
  by_cases same : c = b
  · subst same
    simp [entries, replacements]
  · simp [same]

theorem Counted.setBucket {tab : Table} (counted : tab.Counted) (b : Fin nBuckets) {bk : Bucket}
    (bounded : bk.ips.Bounded) (limit : bk.ips.Limit = bucketIPLimit) : (tab.setBucket b bk).Counted := by
  refine ⟨counted.ips, counted.ips_limit, fun c => ?_, fun c => ?_⟩ <;> by_cases same : c = b
  · subst same
    simpa using bounded
  · simpa [same] using counted.buckets c
  · subst same
    simpa using limit
  · simpa [same] using counted.buckets_limit c

theorem Counted.withIps {tab : Table} (counted : tab.Counted) {ips : DistinctNetSet} (bounded : ips.Bounded)
    (limit : ips.Limit = tableIPLimit) : ({ tab with ips } : Table).Counted :=
  ⟨bounded, limit, counted.buckets, counted.buckets_limit⟩

/-- A counter bumped by `Add` keeps its limit. -/
theorem limited_add {s : DistinctNetSet} {limit : Nat} (bounded : s.Bounded) (same : s.Limit = limit) (ip : IP) :
    (s.Add ip).2.Bounded ∧ (s.Add ip).2.Limit = limit :=
  ⟨DistinctNetSet.Add_le_limit bounded ip, (DistinctNetSet.Add_subnet s ip).2.trans same⟩

theorem limited_remove {s : DistinctNetSet} {limit : Nat} (bounded : s.Bounded) (same : s.Limit = limit) (ip : IP) :
    (s.Remove ip).Bounded ∧ (s.Remove ip).Limit = limit :=
  ⟨DistinctNetSet.Remove_le_limit bounded ip, (DistinctNetSet.Remove_subnet s ip).2.trans same⟩

theorem addIP_frame (tab : Table) (b : Fin nBuckets) (ip : IP) : tab.SameNodes (tab.addIP b ip).2 := by
  unfold addIP
  split
  · exact SameNodes.refl tab
  · dsimp only
    split
    · exact SameNodes.refl tab
    · split
      · exact ⟨rfl, fun _ => ⟨rfl, rfl⟩⟩
      · exact sameNodes_setBucket tab b _ rfl rfl

theorem Counted.addIP {tab : Table} (counted : tab.Counted) (b : Fin nBuckets) (ip : IP) :
    (tab.addIP b ip).2.Counted := by
  unfold Table.addIP
  split
  · exact counted
  · dsimp only
    have table := limited_add counted.ips counted.ips_limit ip
    split
    · exact counted
    · split
      · have undone := limited_remove table.1 table.2 ip
        exact counted.withIps undone.1 undone.2
      · have bucket := limited_add (counted.buckets b) (counted.buckets_limit b) ip
        exact (counted.setBucket b bucket.1 bucket.2).withIps table.1 table.2

theorem removeIP_frame (tab : Table) (b : Fin nBuckets) (ip : IP) : tab.SameNodes (tab.removeIP b ip) := by
  unfold removeIP
  split
  · exact SameNodes.refl tab
  · exact sameNodes_setBucket tab b _ rfl rfl

theorem Counted.removeIP {tab : Table} (counted : tab.Counted) (b : Fin nBuckets) (ip : IP) :
    (tab.removeIP b ip).Counted := by
  unfold Table.removeIP
  split
  · exact counted
  · have table := limited_remove counted.ips counted.ips_limit ip
    have bucket := limited_remove (counted.buckets b) (counted.buckets_limit b) ip
    exact (counted.setBucket b bucket.1 bucket.2).withIps table.1 table.2

end Table

/-! ### The nodes -/

section Nodes

variable (keccak : Bytes → Hash) (selfSha : Hash) (b : Fin nBuckets)

/-- A node that belongs in bucket `b` of a table whose own hash is `selfSha`: its hash is the
Keccak256 of its ID and picks `b`. -/
def Belongs (n : Node) : Prop := n.sha = keccak n.ID.toList ∧ bucketIndex selfSha n.sha = b

/-- The nodes of bucket `b`: within the sizes, of distinct IDs and all belonging in it. -/
structure Bucket.Stocked (bk : Bucket) : Prop where
  entries_le : bk.entries.length ≤ bucketSize
  replacements_le : bk.replacements.length ≤ maxReplacements
  distinct : DistinctIDs (bk.entries ++ bk.replacements)
  belongs : ∀ n ∈ bk.entries ++ bk.replacements, Belongs keccak selfSha b n

/-- The table invariant: every bucket stocked, every counter within its limit. -/
structure Table.Wf (tab : Table) : Prop where
  stocked : ∀ c : Fin nBuckets, (getElem tab.buckets c c.isLt).Stocked keccak tab.self.sha c
  counted : tab.Counted

variable {keccak selfSha b}

theorem Bucket.Stocked.congr {bk bk' : Bucket} (stocked : bk.Stocked keccak selfSha b)
    (entries : bk'.entries = bk.entries) (replacements : bk'.replacements = bk.replacements) :
    bk'.Stocked keccak selfSha b := by
  obtain ⟨e, r, d, p⟩ := stocked
  exact ⟨entries ▸ e, replacements ▸ r, entries ▸ replacements ▸ d, entries ▸ replacements ▸ p⟩

/-- A node with the ID of one that belongs in `b`, hashed from its ID, belongs in `b`. -/
theorem Belongs.of_same {a n : Node} (belongs : Belongs keccak selfSha b a) (same : a.ID = n.ID)
    (hashed : n.sha = keccak n.ID.toList) : Belongs keccak selfSha b n := by
  refine ⟨hashed, ?_⟩
  rw [hashed, ← same, ← belongs.1]
  exact belongs.2

/-- Every node of a list of the bucket belongs in it. -/
theorem Bucket.Stocked.belongs_of {bk : Bucket} (stocked : bk.Stocked keccak selfSha b) {n : Node}
    (member : n ∈ bk.entries ∨ n ∈ bk.replacements) : Belongs keccak selfSha b n :=
  stocked.belongs n (List.mem_append.mpr member)

/-- `bucket.bump` swaps an entry for a node of the same ID, hashed from it. -/
theorem Bucket.Stocked.bump {bk : Bucket} (stocked : bk.Stocked keccak selfSha b) {n : Node}
    (hashed : n.sha = keccak n.ID.toList) : (bk.bump n).2.Stocked keccak selfSha b := by
  rcases bump_cases bk n with ⟨-, ⟨e, member, same⟩, bumped⟩ | ⟨-, -, unchanged⟩
  · rw [bumped]
    obtain ⟨a, l₁, l₂, -, first, split, erased⟩ :=
      List.exists_of_eraseP (p := fun e => decide (e.ID = n.ID)) member (by simpa using same)
    simp only [decide_eq_true_eq] at first
    have shorter := List.length_eraseP_of_mem (p := fun e => decide (e.ID = n.ID)) member
      (by simpa using same)
    have nonempty := List.length_pos_of_mem member
    refine ⟨?_, stocked.replacements_le, ?_, fun x listed => ?_⟩
    · simp only [List.length_cons, shorter]
      have := stocked.entries_le
      omega
    · -- the entries are the old ones with `a` swapped for `n`
      have old := stocked.distinct
      rw [split, List.append_assoc, List.cons_append] at old
      rw [erased, List.cons_append, List.append_assoc]
      exact old.swap first
    · rcases List.mem_append.mp listed with entry | replacement
      · rcases List.mem_cons.mp entry with rfl | kept
        · exact (stocked.belongs_of (.inl member)).of_same same hashed
        · exact stocked.belongs_of (.inl (List.mem_of_mem_eraseP kept))
      · exact stocked.belongs_of (.inr replacement)
  · rw [unchanged]
    exact stocked

/-- A new entry in front, taken out of the replacements. -/
theorem Bucket.Stocked.add {bk : Bucket} (stocked : bk.Stocked keccak selfSha b) {n : Node}
    (belongs : Belongs keccak selfSha b n) (room : bk.entries.length < bucketSize)
    (fresh : ∀ e ∈ bk.entries, e.ID ≠ n.ID) :
    ({ bk with entries := (pushNode bk.entries n bucketSize).1
               replacements := deleteNode bk.replacements n } : Bucket).Stocked keccak selfSha b := by
  have pushed : (pushNode bk.entries n bucketSize).1 = n :: bk.entries := by
    rw [(pushNode_eq bk.entries n bucketSize).1, if_pos room]
  have sub : List.Sublist (bk.entries ++ deleteNode bk.replacements n) (bk.entries ++ bk.replacements) := by
    rw [deleteNode_eq]
    exact List.eraseP_sublist.append_left _
  have rest : DistinctIDs bk.replacements := stocked.distinct.sublist (List.sublist_append_right _ _)
  refine ⟨?_, ?_, ?_, fun x listed => ?_⟩
  · simp only [pushed, List.length_cons]
    omega
  · rw [deleteNode_eq]
    exact le_trans (List.eraseP_sublist.length_le) stocked.replacements_le
  · simp only [pushed, List.cons_append]
    refine DistinctIDs.cons_iff.mpr ⟨fun x listed => ?_, stocked.distinct.sublist sub⟩
    rcases List.mem_append.mp listed with entry | replacement
    · exact fresh x entry
    · rw [deleteNode_eq] at replacement
      exact rest.ne_of_mem_eraseP replacement
  · simp only [pushed, List.cons_append, List.mem_cons] at listed
    rcases listed with rfl | old
    · exact belongs
    · exact stocked.belongs x (sub.subset old)

/-- A new replacement in front, the last one falling off a full list. -/
theorem Bucket.Stocked.replacement {bk : Bucket} (stocked : bk.Stocked keccak selfSha b) {n : Node}
    (belongs : Belongs keccak selfSha b n) (fresh : ∀ e ∈ bk.entries ++ bk.replacements, e.ID ≠ n.ID) :
    ({ bk with replacements := (pushNode bk.replacements n maxReplacements).1 } : Bucket).Stocked
      keccak selfSha b := by
  obtain ⟨rest, pushed, sub, length⟩ : ∃ rest, (pushNode bk.replacements n maxReplacements).1 = n :: rest ∧
      List.Sublist rest bk.replacements ∧ rest.length < maxReplacements := by
    rw [(pushNode_eq _ n _).1]
    have := stocked.replacements_le
    split
    · exact ⟨_, rfl, List.Sublist.refl _, ‹_›⟩
    · refine ⟨_, rfl, List.dropLast_sublist _, ?_⟩
      rw [List.length_dropLast]
      simp only [maxReplacements] at *
      omega
  have kept : List.Sublist (bk.entries ++ rest) (bk.entries ++ bk.replacements) := sub.append_left _
  refine ⟨stocked.entries_le, ?_, ?_, fun x listed => ?_⟩
  · simp only [pushed, List.length_cons]
    omega
  · simp only [pushed]
    refine (DistinctIDs.perm List.perm_middle).mpr (DistinctIDs.cons_iff.mpr
      ⟨fun x listed => fresh x (kept.subset listed), stocked.distinct.sublist kept⟩)
  · simp only [pushed] at listed
    rcases List.mem_cons.mp ((List.perm_middle.mem_iff).mp listed) with rfl | old
    · exact belongs
    · exact stocked.belongs x (kept.subset old)

/-- `deleteNode` on the entries. -/
theorem Bucket.Stocked.delete {bk : Bucket} (stocked : bk.Stocked keccak selfSha b) (n : Node) :
    ({ bk with entries := deleteNode bk.entries n } : Bucket).Stocked keccak selfSha b := by
  have sub : List.Sublist (deleteNode bk.entries n ++ bk.replacements) (bk.entries ++ bk.replacements) := by
    rw [deleteNode_eq]
    exact List.eraseP_sublist.append_right _
  refine ⟨?_, stocked.replacements_le, stocked.distinct.sublist sub,
    fun x listed => stocked.belongs x (sub.subset listed)⟩
  rw [deleteNode_eq]
  exact le_trans (List.eraseP_sublist.length_le) stocked.entries_le

/-- The last entry swapped for a replacement, which leaves the replacements. -/
theorem Bucket.Stocked.swapLast {bk : Bucket} (stocked : bk.Stocked keccak selfSha b) {r : Node}
    (chosen : r ∈ bk.replacements) (nonempty : bk.entries ≠ []) :
    ({ bk with replacements := deleteNode bk.replacements r
               entries := bk.entries.dropLast ++ [r] } : Bucket).Stocked keccak selfSha b := by
  have sub : List.Sublist (bk.entries.dropLast ++ deleteNode bk.replacements r)
      (bk.entries ++ bk.replacements) := by
    rw [deleteNode_eq]
    exact (List.dropLast_sublist _).append List.eraseP_sublist
  have rest : DistinctIDs bk.replacements := stocked.distinct.sublist (List.sublist_append_right _ _)
  have length := List.length_pos_iff.mpr nonempty
  refine ⟨?_, ?_, ?_, fun x listed => ?_⟩
  · simp only [List.length_append, List.length_dropLast, List.length_singleton]
    have := stocked.entries_le
    omega
  · rw [deleteNode_eq]
    exact le_trans (List.eraseP_sublist.length_le) stocked.replacements_le
  · rw [List.append_assoc, List.singleton_append]
    refine (DistinctIDs.perm List.perm_middle).mpr (DistinctIDs.cons_iff.mpr ⟨fun x listed => ?_,
      stocked.distinct.sublist sub⟩)
    rcases List.mem_append.mp listed with entry | replacement
    · exact stocked.distinct.apart (List.mem_of_mem_dropLast entry) chosen
    · rw [deleteNode_eq] at replacement
      exact rest.ne_of_mem_eraseP replacement
  · rw [List.append_assoc, List.singleton_append] at listed
    rcases List.mem_cons.mp ((List.perm_middle.mem_iff).mp listed) with rfl | old
    · exact stocked.belongs_of (.inr chosen)
    · exact stocked.belongs x (sub.subset old)

theorem Table.Wf.sameNodes {tab tab' : Table} (wf : tab.Wf keccak) (same : tab.SameNodes tab')
    (counted : tab'.Counted) : tab'.Wf keccak := by
  refine ⟨fun c => ?_, counted⟩
  rw [same.1]
  exact (wf.stocked c).congr (same.2 c).1 (same.2 c).2

theorem Table.Wf.setBucket {tab : Table} (wf : tab.Wf keccak) {b : Fin nBuckets} {bk : Bucket}
    (stocked : bk.Stocked keccak tab.self.sha b) (ips : bk.ips = (getElem tab.buckets b b.isLt).ips) :
    (tab.setBucket b bk).Wf keccak := by
  refine ⟨fun c => ?_, wf.counted.setBucket b (ips ▸ wf.counted.buckets b) (ips ▸ wf.counted.buckets_limit b)⟩
  by_cases same : c = b
  · subst same
    simpa using stocked
  · simpa [same] using wf.stocked c

theorem Table.Wf.addIP {tab : Table} (wf : tab.Wf keccak) (b : Fin nBuckets) (ip : IP) :
    (tab.addIP b ip).2.Wf keccak :=
  wf.sameNodes (tab.addIP_frame b ip) (wf.counted.addIP b ip)

theorem Table.Wf.removeIP {tab : Table} (wf : tab.Wf keccak) (b : Fin nBuckets) (ip : IP) :
    (tab.removeIP b ip).Wf keccak :=
  wf.sameNodes (tab.removeIP_frame b ip) (wf.counted.removeIP b ip)

/-! ### The operations -/

theorem bump_ips (bk : Bucket) (n : Node) : (bk.bump n).2.ips = bk.ips := by
  rcases bump_cases bk n with ⟨-, -, bumped⟩ | ⟨-, -, unchanged⟩
  · rw [bumped]
  · rw [unchanged]

theorem Table.Wf.bumpOrAdd {tab : Table} (wf : tab.Wf keccak) {b : Fin nBuckets} {n : Node}
    (belongs : Belongs keccak tab.self.sha b n) : (tab.bumpOrAdd b n).2.Wf keccak := by
  unfold Table.bumpOrAdd
  dsimp only
  split
  · exact wf.setBucket ((wf.stocked b).bump belongs.1) (bump_ips _ _)
  · next missed =>
    -- no entry has `n`'s ID: the bump found none
    have fresh : ∀ e ∈ tab.buckets[b].entries, e.ID ≠ n.ID := by
      rcases bump_cases tab.buckets[b] n with ⟨found, -, -⟩ | ⟨-, fresh, -⟩
      · exact absurd found missed
      · exact fresh
    split
    · exact wf
    · next room =>
      split
      · exact wf.addIP b n.IP
      · have added := wf.addIP b n.IP
        have same := tab.addIP_frame b n.IP
        refine added.setBucket ?_ rfl
        refine (added.stocked b).add ?_ ?_ ?_
        · rw [same.1]
          exact belongs
        · rw [(same.2 b).1]
          omega
        · rw [(same.2 b).1]
          exact fresh

/-- A refused `bumpOrAdd` leaves the nodes, and none of the entries has `n`'s ID. -/
theorem Table.bumpOrAdd_refused {tab : Table} {b : Fin nBuckets} {n : Node}
    (refused : (tab.bumpOrAdd b n).1 = false) :
    tab.SameNodes (tab.bumpOrAdd b n).2 ∧ ∀ e ∈ (getElem tab.buckets b b.isLt).entries, e.ID ≠ n.ID := by
  unfold Table.bumpOrAdd at refused ⊢
  dsimp only at refused ⊢
  split at refused
  · cases refused
  · next missed =>
    have fresh : ∀ e ∈ tab.buckets[b].entries, e.ID ≠ n.ID := by
      rcases bump_cases tab.buckets[b] n with ⟨found, -, -⟩ | ⟨-, fresh, -⟩
      · exact absurd found missed
      · exact fresh
    refine ⟨?_, fresh⟩
    rw [if_neg missed]
    by_cases full : tab.buckets[b].entries.length ≥ bucketSize
    · rw [if_pos full]
      exact SameNodes.refl tab
    · rw [if_neg full] at refused ⊢
      by_cases failed : (!(tab.addIP b n.IP).1) = true
      · rw [if_pos failed]
        exact tab.addIP_frame b n.IP
      · rw [if_neg failed] at refused
        cases refused

theorem Table.Wf.addReplacement {tab : Table} (wf : tab.Wf keccak) {b : Fin nBuckets} {n : Node}
    (belongs : Belongs keccak tab.self.sha b n)
    (fresh : ∀ e ∈ (getElem tab.buckets b b.isLt).entries, e.ID ≠ n.ID) :
    (tab.addReplacement b n).Wf keccak := by
  unfold Table.addReplacement
  split
  · exact wf
  · next absent =>
    dsimp only
    split
    · exact wf.addIP b n.IP
    · have added := wf.addIP b n.IP
      have same := tab.addIP_frame b n.IP
      -- `n`'s ID is neither among the entries nor among the replacements
      have apart : ∀ e ∈ (tab.addIP b n.IP).2.buckets[b].entries ++
          (tab.addIP b n.IP).2.buckets[b].replacements, e.ID ≠ n.ID := by
        intro e member
        rw [(same.2 b).1, (same.2 b).2] at member
        rcases List.mem_append.mp member with entry | replacement
        · exact fresh e entry
        · exact fun found => absent (List.any_eq_true.mpr ⟨e, replacement, by simpa using found⟩)
      have pushed := added.setBucket (b := b) ((added.stocked b).replacement (by rw [same.1]; exact belongs) apart) rfl
      split
      · exact pushed.removeIP b _
      · exact pushed

theorem Table.Wf.deleteInBucket {tab : Table} (wf : tab.Wf keccak) (b : Fin nBuckets) (n : Node) :
    (tab.deleteInBucket b n).Wf keccak :=
  (wf.setBucket ((wf.stocked b).delete n) rfl).removeIP b n.IP

theorem Table.Wf.replace {tab : Table} (wf : tab.Wf keccak) (b : Fin nBuckets) (last : Node) (pick : Nat) :
    (tab.replace b last pick).2.Wf keccak := by
  unfold Table.replace
  dsimp only
  split
  · exact wf
  · next isLast =>
    -- `last` is the last entry, so there are entries
    have nonempty : tab.buckets[b].entries ≠ [] := by
      intro empty
      apply isLast
      rw [empty]
      simp
    split
    · exact (wf.setBucket ((wf.stocked b).swapLast (List.get_mem _ _) nonempty) rfl).removeIP b last.IP
    · exact wf.deleteInBucket b last

theorem Table.Wf.add {tab : Table} (wf : tab.Wf keccak) {n : Node} (hashed : n.sha = keccak n.ID.toList) :
    (tab.add n).Wf keccak := by
  have belongs : Belongs keccak tab.self.sha (tab.bucket n.sha) n := ⟨hashed, rfl⟩
  unfold Table.add
  dsimp only
  split
  · next refused =>
    obtain ⟨same, fresh⟩ := Table.bumpOrAdd_refused (by simpa using refused)
    refine (wf.bumpOrAdd belongs).addReplacement ?_ ?_
    · rw [same.1]
      exact belongs
    · rw [(same.2 _).1]
      exact fresh
  · exact wf.bumpOrAdd belongs

theorem Table.Wf.stuff {tab : Table} (wf : tab.Wf keccak) {nodes : List Node}
    (hashed : ∀ n ∈ nodes, n.sha = keccak n.ID.toList) : (tab.stuff nodes).Wf keccak := by
  unfold Table.stuff
  induction nodes generalizing tab with
  | nil => exact wf
  | cons n rest ih =>
    rw [List.foldl_cons]
    refine ih ?_ fun m member => hashed m (List.mem_cons_of_mem n member)
    -- one node: skipped if our own or its bucket is full, else bumped or added
    split
    · exact wf
    · dsimp only
      split
      · exact wf.bumpOrAdd ⟨hashed n List.mem_cons_self, rfl⟩
      · exact wf

theorem Table.Wf.delete {tab : Table} (wf : tab.Wf keccak) (n : Node) : (tab.delete n).Wf keccak :=
  wf.deleteInBucket _ n

theorem Table.Wf.revalidate {tab : Table} (wf : tab.Wf keccak) (bi : Fin nBuckets) {last : Node}
    (hashed : last.sha = keccak last.ID.toList) (alive : Bool) (pick : Nat) :
    (tab.revalidate bi last alive pick).Wf keccak := by
  unfold Table.revalidate
  split
  · exact wf.setBucket ((wf.stocked bi).bump hashed) (bump_ips _ _)
  · exact wf.replace bi last pick

end Nodes

/-- The nodes an operation brings to the table are hashed from their IDs. -/
def Op.Hashed (keccak : Bytes → Hash) : Op → Prop
  | .add n => n.sha = keccak n.ID.toList
  | .stuff nodes => ∀ n ∈ nodes, n.sha = keccak n.ID.toList
  | .delete _ => True
  | .revalidate _ last _ _ => last.sha = keccak last.ID.toList

theorem Table.Wf.apply {keccak : Bytes → Hash} {tab : Table} (wf : tab.Wf keccak) :
    ∀ {op : Op}, op.Hashed keccak → (op.apply tab).Wf keccak
  | .add _, hashed => wf.add hashed
  | .stuff _, hashed => wf.stuff hashed
  | .delete n, _ => wf.delete n
  | .revalidate bi _ alive pick, hashed => wf.revalidate bi hashed alive pick

theorem Table.Wf.run {keccak : Bytes → Hash} {tab : Table} (wf : tab.Wf keccak) :
    ∀ {ops : List Op}, (∀ op ∈ ops, op.Hashed keccak) → (tab.run ops).Wf keccak
  | [], _ => wf
  | op :: ops, hashed => by
    unfold Table.run
    rw [List.foldl_cons]
    exact (wf.apply (hashed op List.mem_cons_self)).run fun o member => hashed o (List.mem_cons_of_mem op member)

theorem newTable_wf (keccak : Bytes → Hash) (self : Node) : (newTable self).Wf keccak := by
  refine ⟨fun c => ⟨?_, ?_, ?_, ?_⟩, ⟨fun k => ?_, rfl, fun c k => ?_, fun c => ?_⟩⟩ <;>
    simp [newTable, DistinctIDs, DistinctNetSet.count, bucketSize, maxReplacements]

/-- Every run from `newTable`, on nodes hashed from their IDs, keeps every bucket within its
sizes, of distinct IDs and in place, and every subnet counter within its limit. -/
theorem newTable_run_wf (keccak : Bytes → Hash) (self : Node) {ops : List Op}
    (hashed : ∀ op ∈ ops, op.Hashed keccak) : ((newTable self).run ops).Wf keccak :=
  (newTable_wf keccak self).run hashed

/-! ### What the counters lose -/

/-- A node of the subnet `1.2.3.0/24`, with an ID of its own and that ID's `exampleHash`, in
bucket 0 of `exampleSelf`. -/
def subnetNode (last id : UInt8) : Node :=
  ⟨[1, 2, 3, last], Vector.replicate _ id, exampleHash (List.replicate 64 id)⟩

/-- The run of `delete_absent_exceeds_subnet_limit` keeps the table invariant. -/
theorem newTable_run_wf_subnet :
    ((newTable exampleSelf).run [.add (subnetNode 4 1), .add (subnetNode 5 2), .delete (subnetNode 6 3),
      .add (subnetNode 7 4)]).Wf exampleHash :=
  newTable_run_wf exampleHash exampleSelf (by
    intro op member
    simp only [List.mem_cons, List.not_mem_nil, or_false] at member
    -- the three added nodes carry the hash of their IDs, and a deletion asks for nothing
    rcases member with rfl | rfl | rfl | rfl
    · exact (rfl : (subnetNode 4 1).sha = exampleHash (subnetNode 4 1).ID.toList)
    · exact (rfl : (subnetNode 5 2).sha = exampleHash (subnetNode 5 2).ID.toList)
    · trivial
    · exact (rfl : (subnetNode 7 4).sha = exampleHash (subnetNode 7 4).ID.toList))

/-- Two nodes of `1.2.3.0/24` fill the bucket's share of the subnet; deleting a third that
was never added uncounts it anyway, and a fourth is let in: the bucket holds three nodes of
the subnet, above `bucketIPLimit`, while both counters say two. -/
theorem delete_absent_exceeds_subnet_limit :
    ∃ tab, (newTable exampleSelf).run [.add (subnetNode 4 1), .add (subnetNode 5 2),
        .delete (subnetNode 6 3), .add (subnetNode 7 4)] = tab ∧
      (tab.buckets.get ⟨0, by decide⟩).entries = [subnetNode 7 4, subnetNode 5 2, subnetNode 4 1] ∧
      (tab.buckets.get ⟨0, by decide⟩).ips.count ((tab.buckets.get ⟨0, by decide⟩).ips.key [1, 2, 3, 4]) =
        bucketIPLimit ∧
      tab.ips.count (tab.ips.key [1, 2, 3, 4]) = 2 :=
  ⟨_, rfl, by decide⟩

end Indigo.Discover
