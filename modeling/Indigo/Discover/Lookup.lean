import Indigo.Discover.Table
import Indigo.Lib.Search
import Indigo.Lib.Nearest

/-!
# The Kademlia lookup

`Table.lookup` of `table.go`: start from the `bucketSize` nodes of the table closest to the
target, ask up to `alpha` of the closest not asked yet, and merge each reply into the
result through `nodesByDistance.push`, skipping nodes whose IDs were seen in a reply.

The queries run concurrently and a reply does not say which query it answers, so a run is
driven by the replies in the order they arrive, each one the nodes `bondall` kept; any
content is allowed. `lookupLoop` returns the result when the last pending query has been
answered by the last reply, and `none` when the replies do not fit the queries made.

## Main results

- `push_eq`: on a sorted list within its bound, `push` is `insertNearest` by XOR distance.
- `LookupInv`: what one received node keeps of the result (`LookupInv.receiveNode`), and so
  a whole run (`lookupLoop_inv`).
- `lookup_nearest`: the result is sorted, within `bucketSize`, made of candidates, and no
  candidate missing from a full result is closer than its farthest node (`NearestResult`).
- `lookup_returns_duplicate`: a node that answers with itself is in the result twice.
-/

namespace Indigo.Discover

open Indigo.Lib

/-- `nodesByDistance`: nodes ordered by distance to `target`. -/
structure NodesByDistance where
  entries : List Node
  target : Hash

/-- `nodesByDistance.push`: insert `n` after the nodes not farther than it, keeping at most
`maxElems`. `sort.Search` finds the first entry farther than `n`. -/
def NodesByDistance.push (h : NodesByDistance) (n : Node) (maxElems : Nat) : NodesByDistance :=
  let ix := Search h.entries.length fun i => h.entries[i]?.any fun e => distcmp h.target e.sha n.sha > 0
  let entries := if h.entries.length < maxElems then h.entries ++ [n] else h.entries
  if ix = entries.length then { h with entries }
  else
    -- `copy(h.entries[ix+1:], h.entries[ix:])` then `h.entries[ix] = n`
    { h with entries := entries.take ix ++ n :: (entries.drop ix).dropLast }

/-- The XOR distance of a node's hash to the target, by which a result is ordered. -/
def nodeDistance (target : Hash) (n : Node) : Nat := distance target n.sha

theorem push_target (h : NodesByDistance) (n : Node) (maxElems : Nat) :
    (h.push n maxElems).target = h.target := by
  simp only [NodesByDistance.push]
  split_ifs <;> rfl

/-- `sort.Search` in `push` finds the first entry strictly farther than `n`. -/
theorem push_search (h : NodesByDistance) (n : Node)
    (sorted : NearestFirst (nodeDistance h.target) h.entries) :
    Search h.entries.length (fun i => h.entries[i]?.any fun e => distcmp h.target e.sha n.sha > 0) =
      h.entries.findIdx fun e => decide (nodeDistance h.target n < nodeDistance h.target e) := by
  have same : (fun e : Node => decide (distcmp h.target e.sha n.sha > 0)) =
      fun e => decide (nodeDistance h.target n < nodeDistance h.target e) := by
    funext e
    exact decide_eq_decide.mpr (distcmp_pos_iff _ _ _)
  rw [Search_eq_findIdx, same]
  -- the entries farther than `n` are a suffix, the list being sorted
  intro a b before within farther
  simp only [decide_eq_true_eq, distcmp_pos_iff] at farther ⊢
  rcases Nat.lt_or_eq_of_le before with earlier | rfl
  · exact lt_of_lt_of_le farther (List.pairwise_iff_getElem.mp sorted a b (by omega) within earlier)
  · exact farther

/-- On a sorted list within its bound, `push` is the bounded ordered insertion. -/
theorem push_eq (h : NodesByDistance) (n : Node) {maxElems : Nat}
    (sorted : NearestFirst (nodeDistance h.target) h.entries) (bounded : h.entries.length ≤ maxElems) :
    (h.push n maxElems).entries = insertNearest (nodeDistance h.target) maxElems n h.entries := by
  have within : (h.entries.findIdx fun e => decide (nodeDistance h.target n < nodeDistance h.target e)) ≤
      h.entries.length := List.findIdx_le_length
  simp only [NodesByDistance.push, insertNearest]
  rw [push_search h n sorted, orderedInsert_eq_findIdx]
  generalize (h.entries.findIdx fun e => decide (nodeDistance h.target n < nodeDistance h.target e)) = i
    at within ⊢
  by_cases room : h.entries.length < maxElems
  · -- `n` is appended, then slid into place
    have length : (h.entries.take i ++ n :: h.entries.drop i).length = h.entries.length + 1 := by
      simp only [List.length_append, List.length_take, List.length_cons, List.length_drop]
      omega
    simp only [room, if_true, List.length_append, List.length_singleton]
    rw [List.take_of_length_le (by omega : (h.entries.take i ++ n :: h.entries.drop i).length ≤ maxElems),
      if_neg (by omega), List.take_append_of_le_length within, List.drop_append_of_le_length within,
      List.dropLast_concat]
  · have full : h.entries.length = maxElems := by omega
    simp only [room, if_false]
    by_cases last : i = h.entries.length
    · -- farther than every entry: `n` falls off
      subst last
      rw [if_pos rfl, List.take_length, List.drop_length, ← full,
        List.take_append_of_le_length (Nat.le_refl _), List.take_length]
    · -- the last entry falls off
      have before : i < h.entries.length := by omega
      have rest : maxElems - (h.entries.take i).length = (h.entries.length - i - 1) + 1 := by
        rw [List.length_take]
        omega
      rw [if_neg last, List.take_append, List.take_take, Nat.min_eq_right (by omega),
        rest, List.take_succ_cons, List.dropLast_eq_take, List.length_drop]

theorem push_spec (h : NodesByDistance) (n : Node) {maxElems : Nat}
    (sorted : NearestFirst (nodeDistance h.target) h.entries) (bounded : h.entries.length ≤ maxElems) :
    NearestFirst (nodeDistance h.target) (h.push n maxElems).entries ∧
      (h.push n maxElems).entries.length ≤ maxElems := by
  rw [push_eq h n sorted bounded, length_insertNearest]
  exact ⟨sorted_insertNearest n sorted, Nat.min_le_right _ _⟩

theorem mem_push {h : NodesByDistance} {n r : Node} {maxElems : Nat}
    (sorted : NearestFirst (nodeDistance h.target) h.entries) (bounded : h.entries.length ≤ maxElems)
    (member : r ∈ (h.push n maxElems).entries) : r = n ∨ r ∈ h.entries := by
  rw [push_eq h n sorted bounded] at member
  exact mem_insertNearest member

/-! ### The lookup -/

/-- `Table.closest`: push every entry of every bucket, in order, keeping `nresults`. -/
def Table.closest (tab : Table) (target : Hash) (nresults : Nat) : NodesByDistance :=
  tab.buckets.toList.foldl (fun close b => b.entries.foldl (fun close n => close.push n nresults) close)
    ⟨[], target⟩

/-- The state of a lookup between its rounds: the IDs asked and seen, the number of queries
pending and the result so far. -/
structure LookupState where
  asked : List NodeID
  seen : List NodeID
  pendingQueries : Nat
  result : NodesByDistance

/-- The asking loop over the result: each node not asked yet is asked while fewer than
`alpha` queries are pending. -/
def askLoop : List Node → List NodeID → Nat → List NodeID × Nat
  | [], asked, pending => (asked, pending)
  | n :: rest, asked, pending =>
    if pending < alpha then
      if n.ID ∈ asked then askLoop rest asked pending else askLoop rest (n.ID :: asked) (pending + 1)
    else (asked, pending)

/-- Ask the closest nodes not asked yet. -/
def LookupState.ask (st : LookupState) : LookupState :=
  let asked := askLoop st.result.entries st.asked st.pendingQueries
  { st with asked := asked.1, pendingQueries := asked.2 }

/-- One node of a reply: pushed into the result unless it is nil or its ID was seen. -/
def LookupState.receiveNode (st : LookupState) (n : Option Node) : LookupState :=
  match n with
  | some n =>
    if n.ID ∈ st.seen then st
    else { st with seen := n.ID :: st.seen, result := st.result.push n bucketSize }
  | none => st

/-- A whole reply, after which one query fewer is pending. -/
def LookupState.receive (st : LookupState) (reply : List (Option Node)) : LookupState :=
  let st := reply.foldl LookupState.receiveNode st
  { st with pendingQueries := st.pendingQueries - 1 }

/-- The main loop of `lookup`, one round per reply: it stops when no query is pending. -/
def lookupLoop (st : LookupState) : List (List (Option Node)) → Option (List Node)
  | [] => if st.ask.pendingQueries = 0 then some st.ask.result.entries else none
  | reply :: replies =>
    if st.ask.pendingQueries = 0 then none else lookupLoop (st.ask.receive reply) replies

/-- The result `lookup` starts from: the table's closest nodes, or the refreshed table's when
there are none and a refresh is asked for. -/
def Table.initialResult (tab refreshed : Table) (target : Hash) (refreshIfEmpty : Bool) :
    NodesByDistance :=
  let result := tab.closest target bucketSize
  if result.entries.length > 0 || !refreshIfEmpty then result else refreshed.closest target bucketSize

/-- `Table.lookup`: the nodes closest to `Keccak256(targetID)` it has found. -/
def Table.lookup (keccak : Bytes → Hash) (tab refreshed : Table) (targetID : NodeID)
    (refreshIfEmpty : Bool) (replies : List (List (Option Node))) : Option (List Node) :=
  lookupLoop ⟨[tab.self.ID], [], 0, tab.initialResult refreshed (keccak targetID.toList) refreshIfEmpty⟩
    replies

/-! ### What a lookup keeps -/

/-- Sorted toward `target` and within `k` entries. -/
def Ranked (target : Hash) (k : Nat) (h : NodesByDistance) : Prop :=
  h.target = target ∧ NearestFirst (nodeDistance target) h.entries ∧ h.entries.length ≤ k

theorem Ranked.push {target : Hash} {k : Nat} {h : NodesByDistance} (ranked : Ranked target k h)
    (n : Node) : Ranked target k (h.push n k) := by
  obtain ⟨same, sorted, bounded⟩ := ranked
  subst same
  exact ⟨push_target h n k, push_spec h n sorted bounded⟩

theorem Ranked.pushAll {target : Hash} {k : Nat} (nodes : List Node) :
    ∀ {h : NodesByDistance}, Ranked target k h → Ranked target k (nodes.foldl (fun h n => h.push n k) h) := by
  induction nodes with
  | nil => exact id
  | cons n rest ih => exact fun ranked => ih (ranked.push n)

theorem closest_ranked (tab : Table) (target : Hash) (k : Nat) : Ranked target k (tab.closest target k) := by
  unfold Table.closest
  -- bucket after bucket, each entry pushed in turn
  have step : ∀ (buckets : List Bucket) {h : NodesByDistance}, Ranked target k h →
      Ranked target k (buckets.foldl (fun close b => b.entries.foldl (fun close n => close.push n k) close) h) := by
    intro buckets
    induction buckets with
    | nil => exact id
    | cons b rest ih => exact fun ranked => ih (Ranked.pushAll b.entries ranked)
  exact step _ ⟨rfl, List.Pairwise.nil, Nat.zero_le _⟩

theorem initialResult_ranked (tab refreshed : Table) (target : Hash) (refreshIfEmpty : Bool) :
    Ranked target bucketSize (tab.initialResult refreshed target refreshIfEmpty) := by
  dsimp only [Table.initialResult]
  split
  · exact closest_ranked tab target bucketSize
  · exact closest_ranked refreshed target bucketSize

section Invariant

variable {target : Hash}

/-- Nodes with one ID have one hash, as `NewNode` makes them. -/
def Consistent (nodes : List Node) : Prop := ∀ a ∈ nodes, ∀ b ∈ nodes, a.ID = b.ID → a.sha = b.sha

instance (nodes : List Node) : Decidable (Consistent nodes) :=
  inferInstanceAs (Decidable (∀ a ∈ nodes, ∀ b ∈ nodes, a.ID = b.ID → a.sha = b.sha))

/-- A candidate is in the result by its ID, or the result is full of nodes as close. -/
def Covered (target : Hash) (result : List Node) (c : Node) : Prop :=
  (∃ r ∈ result, r.ID = c.ID) ∨
    (result.length = bucketSize ∧ ∀ r ∈ result, nodeDistance target r ≤ nodeDistance target c)

/-- A node with the ID and hash of a covered one is covered. -/
theorem Covered.of_same {result : List Node} {c n : Node} (covered : Covered target result c)
    (sameID : c.ID = n.ID) (sameSha : c.sha = n.sha) : Covered target result n := by
  rcases covered with ⟨r, member, same⟩ | ⟨full, far⟩
  · exact .inl ⟨r, member, same.trans sameID⟩
  · exact .inr ⟨full, fun r member => by simpa [nodeDistance, sameSha] using far r member⟩

/-- Pushing a node keeps every candidate covered, so long as a result node shares its ID only
with the same hash. -/
theorem Covered.insert {result : List Node} {c : Node} (covered : Covered target result c)
    (sorted : NearestFirst (nodeDistance target) result)
    (sameSha : ∀ r ∈ result, r.ID = c.ID → r.sha = c.sha) (n : Node) :
    Covered target (insertNearest (nodeDistance target) bucketSize n result) c := by
  rcases covered with ⟨r, member, same⟩ | ⟨full, far⟩
  · -- the node with `c`'s ID stays, or falls off behind nodes as close as it
    rcases insertNearest_keeps n sorted (List.mem_cons_of_mem n member) with kept | ⟨full, dropped⟩
    · exact .inl ⟨r, kept, same⟩
    · refine .inr ⟨full, fun z listed => ?_⟩
      simpa [nodeDistance, sameSha r member same] using dropped z listed
  · refine .inr ⟨?_, insertNearest_dominated n (by omega) far⟩
    rw [length_insertNearest]
    omega

/-- What a lookup keeps of its result, relative to the candidates met so far: sorted within
`bucketSize`, made of candidates that cover all the others, and every ID seen is a
candidate's. -/
structure LookupInv (target : Hash) (cands : List Node) (st : LookupState) : Prop where
  target_eq : st.result.target = target
  sorted : NearestFirst (nodeDistance target) st.result.entries
  bounded : st.result.entries.length ≤ bucketSize
  origin : ∀ r ∈ st.result.entries, r ∈ cands
  covers : ∀ c ∈ cands, Covered target st.result.entries c
  seen : ∀ id ∈ st.seen, ∃ c ∈ cands, c.ID = id

/-- The start: every candidate is in the result. -/
theorem LookupInv.start (asked : List NodeID) {h : NodesByDistance} (ranked : Ranked target bucketSize h) :
    LookupInv target h.entries ⟨asked, [], 0, h⟩ :=
  ⟨ranked.1, ranked.2.1, ranked.2.2, fun _ member => member,
    fun c member => .inl ⟨c, member, rfl⟩, fun _ none => by cases none⟩

theorem LookupInv.ask {cands : List Node} {st : LookupState} (inv : LookupInv target cands st) :
    LookupInv target cands st.ask :=
  ⟨inv.target_eq, inv.sorted, inv.bounded, inv.origin, inv.covers, inv.seen⟩

theorem LookupInv.receive_pending {cands : List Node} {st : LookupState}
    (inv : LookupInv target cands st) (pending : Nat) :
    LookupInv target cands { st with pendingQueries := pending } :=
  ⟨inv.target_eq, inv.sorted, inv.bounded, inv.origin, inv.covers, inv.seen⟩

/-- The step: one node of a reply, new or seen. -/
theorem LookupInv.receiveNode {cands : List Node} {st : LookupState} (inv : LookupInv target cands st)
    (n : Option Node) (consistent : Consistent (cands ++ n.toList)) :
    LookupInv target (cands ++ n.toList) (st.receiveNode n) := by
  have listed : ∀ c ∈ cands, c ∈ cands ++ n.toList := fun c member => List.mem_append_left _ member
  cases n with
  | none => simpa [LookupState.receiveNode] using inv
  | some n =>
    have fresh : n ∈ cands ++ [n] := List.mem_append_right _ List.mem_cons_self
    by_cases known : n.ID ∈ st.seen
    · -- a seen ID: a candidate with it is covered, and so `n`
      simp only [LookupState.receiveNode, known, if_true, Option.toList_some]
      obtain ⟨c, member, same⟩ := inv.seen n.ID known
      refine ⟨inv.target_eq, inv.sorted, inv.bounded, fun r kept => listed r (inv.origin r kept),
        fun d member' => ?_, fun id seen => ?_⟩
      · rcases List.mem_append.mp member' with old | new
        · exact inv.covers d old
        · rw [List.mem_singleton.mp new]
          exact (inv.covers c member).of_same same (consistent c (listed c member) n fresh same)
      · obtain ⟨c', member', same'⟩ := inv.seen id seen
        exact ⟨c', listed c' member', same'⟩
    · -- a new ID: `n` is pushed into the result
      simp only [LookupState.receiveNode, known, if_false, Option.toList_some]
      have pushed := push_eq st.result n (inv.target_eq ▸ inv.sorted) inv.bounded
      rw [inv.target_eq] at pushed
      refine ⟨(push_target _ _ _).trans inv.target_eq, ?_, ?_, fun r kept => ?_, fun c member => ?_,
        fun id seen => ?_⟩
      · rw [pushed]
        exact sorted_insertNearest n inv.sorted
      · rw [pushed, length_insertNearest]
        exact Nat.min_le_right _ _
      · rw [pushed] at kept
        rcases mem_insertNearest kept with rfl | old
        · exact fresh
        · exact listed r (inv.origin r old)
      · rw [pushed]
        rcases List.mem_append.mp member with old | new
        · exact (inv.covers c old).insert inv.sorted
            (fun r kept same => consistent r (listed r (inv.origin r kept)) c (listed c old) same) n
        · rw [List.mem_singleton.mp new]
          rcases insertNearest_keeps n inv.sorted List.mem_cons_self with kept | ⟨full, far⟩
          · exact .inl ⟨n, kept, rfl⟩
          · exact .inr ⟨full, far⟩
      · rcases List.mem_cons.mp seen with rfl | old
        · exact ⟨n, fresh, rfl⟩
        · obtain ⟨c, member, same⟩ := inv.seen id old
          exact ⟨c, listed c member, same⟩

/-- A whole reply, node after node. -/
theorem LookupInv.receive {cands : List Node} {st : LookupState} (inv : LookupInv target cands st)
    (reply : List (Option Node)) (consistent : Consistent (cands ++ reply.filterMap id)) :
    LookupInv target (cands ++ reply.filterMap id) (st.receive reply) := by
  unfold LookupState.receive
  refine LookupInv.receive_pending ?_ _
  induction reply generalizing cands st with
  | nil => simpa using inv
  | cons n rest ih =>
    have sub : cands ++ n.toList ++ rest.filterMap id = cands ++ (n :: rest).filterMap id := by
      cases n <;> simp
    rw [List.foldl_cons, ← sub]
    refine ih (inv.receiveNode n fun a ma b mb => consistent a ?_ b ?_) (by rwa [sub])
    · rw [← sub]
      exact List.mem_append_left _ ma
    · rw [← sub]
      exact List.mem_append_left _ mb

/-- The run: the invariant holds of the state the loop returns from, with every node of
every reply a candidate. -/
theorem lookupLoop_inv : ∀ (replies : List (List (Option Node))) {cands : List Node}
    {st : LookupState} {result : List Node}, LookupInv target cands st →
    Consistent (cands ++ replies.flatten.filterMap id) → lookupLoop st replies = some result →
    ∃ st', LookupInv target (cands ++ replies.flatten.filterMap id) st' ∧ st'.result.entries = result
  | [], cands, st, result, inv, _, done => by
    simp only [lookupLoop] at done
    split at done
    · cases done
      exact ⟨st.ask, by simpa using inv.ask, rfl⟩
    · cases done
  | reply :: replies, cands, st, result, inv, consistent, done => by
    simp only [lookupLoop] at done
    split at done
    · cases done
    · have assoc : cands ++ (reply :: replies).flatten.filterMap id =
          cands ++ reply.filterMap id ++ replies.flatten.filterMap id := by
        simp
      rw [assoc] at consistent ⊢
      have received := inv.ask.receive reply fun a ma b mb =>
        consistent a (List.mem_append_left _ ma) b (List.mem_append_left _ mb)
      exact lookupLoop_inv replies received consistent done

end Invariant

/-- What a lookup promises of its result over the candidates it met: at most `bucketSize`
nodes, sorted by `distcmp` toward the target, all candidates, and when it is full no
candidate whose ID it misses is closer than its farthest node. -/
structure NearestResult (target : Hash) (cands result : List Node) : Prop where
  bounded : result.length ≤ bucketSize
  sorted : result.Pairwise fun a b => distcmp target a.sha b.sha ≤ 0
  origin : ∀ r ∈ result, r ∈ cands
  closest : result.length = bucketSize → ∀ c ∈ cands, (∀ r ∈ result, r.ID ≠ c.ID) →
    ∀ far ∈ result.getLast?, 0 ≤ distcmp target c.sha far.sha

/-- Every lookup that ends returns the nearest of the nodes of its initial result and of all
replies, for any replies. -/
theorem lookup_nearest {keccak : Bytes → Hash} {tab refreshed : Table} {targetID : NodeID}
    {refreshIfEmpty : Bool} {replies : List (List (Option Node))} {result : List Node}
    (consistent : Consistent ((tab.initialResult refreshed (keccak targetID.toList) refreshIfEmpty).entries ++
      replies.flatten.filterMap id))
    (found : tab.lookup keccak refreshed targetID refreshIfEmpty replies = some result) :
    NearestResult (keccak targetID.toList)
      ((tab.initialResult refreshed (keccak targetID.toList) refreshIfEmpty).entries ++
        replies.flatten.filterMap id) result := by
  have start := LookupInv.start [tab.self.ID]
    (initialResult_ranked tab refreshed (keccak targetID.toList) refreshIfEmpty)
  obtain ⟨st, inv, rfl⟩ := lookupLoop_inv replies start consistent found
  refine ⟨inv.bounded, inv.sorted.imp fun nearer => ?_, inv.origin, fun _ c listed absent far last => ?_⟩
  · rw [distcmp_eq, compareSign]
    simp only [nodeDistance] at nearer
    split_ifs <;> omega
  · -- a candidate missing by its ID is no closer than all of the full result
    rcases inv.covers c listed with ⟨r, member, same⟩ | ⟨-, dominated⟩
    · exact absurd same (absent r member)
    · have farther := dominated far (List.mem_of_getLast? last)
      rw [distcmp_eq, compareSign]
      simp only [nodeDistance] at farther
      split_ifs <;> omega

/-- The initial result is never marked as seen: when the only node of the table answers the
query with itself, it is pushed again and the lookup returns it twice. -/
theorem lookup_returns_duplicate :
    ((newTable exampleSelf).add exampleNode).lookup exampleHash (newTable exampleSelf)
      exampleSelf.ID true [[some exampleNode]] = some [exampleNode, exampleNode] := by
  decide

/-- The same run keeps the promises of `lookup_nearest`, duplicate and all. -/
theorem lookup_nearest_duplicate :
    NearestResult (exampleHash exampleSelf.ID.toList)
      ((((newTable exampleSelf).add exampleNode).initialResult (newTable exampleSelf)
          (exampleHash exampleSelf.ID.toList) true).entries ++
        [[some exampleNode]].flatten.filterMap id) [exampleNode, exampleNode] :=
  @lookup_nearest exampleHash _ _ exampleSelf.ID _ _ _ (by decide) (by decide)

end Indigo.Discover
