import Indigo.Discover.Node

/-!
# The Kademlia table

The node table of `table.go`: `nBuckets` buckets, each with live `entries` (most recently
seen first), `replacements` and a subnet counter, and a table-wide subnet counter. The
operations are those of `table.go` run under `tab.mutex`: `add`, `stuff`, `delete`, and the
locked half of `doRevalidate`, which bumps the node it pinged or replaces it.

The table is passed and returned; `bucket` gives the index of a node's bucket instead of a
pointer to it. `rand.Intn` of `replace` is the argument `pick`, taken modulo the length.

## Main results

- `bump_cases`, `pushNode_eq`, `deleteNode_eq`: the list operations, as list functions.
- `bucketIndex_val`: the bucket of a hash is its log distance past `bucketMinDistance`.
-/

namespace Indigo.Discover

open Indigo.Netutil

/-- `alpha`: the Kademlia concurrency factor. -/
def alpha : Nat := 3
/-- `bucketSize`. -/
def bucketSize : Nat := 16
/-- `maxReplacements`. -/
def maxReplacements : Nat := 10
/-- `hashBits`. -/
def hashBits : Nat := HashLength * 8
/-- `nBuckets`. -/
def nBuckets : Nat := hashBits / 15
/-- `bucketMinDistance`. -/
def bucketMinDistance : Nat := hashBits - nBuckets
/-- `bucketIPLimit`, `bucketSubnet`: at most 2 addresses from the same /24 in a bucket. -/
def bucketIPLimit : Nat := 2
def bucketSubnet : Nat := 24
/-- `tableIPLimit`, `tableSubnet`. -/
def tableIPLimit : Nat := 10
def tableSubnet : Nat := 24

/-- `bucket`. -/
structure Bucket where
  entries : List Node
  replacements : List Node
  ips : DistinctNetSet

/-- `Table`, with what its operations under `tab.mutex` read and write. -/
structure Table where
  buckets : Vector Bucket nBuckets
  ips : DistinctNetSet
  self : Node

/-- The buckets `newTable` makes, and its counters. -/
def newTable (self : Node) : Table where
  buckets := Vector.replicate nBuckets ⟨[], [], ⟨bucketSubnet, bucketIPLimit, ∅⟩⟩
  ips := ⟨tableSubnet, tableIPLimit, ∅⟩
  self := self

/-- The index `Table.bucket` picks for `sha`: the log distance to our own hash, counted from
`bucketMinDistance`. A log distance is at most `hashBits`, so the cut at the last bucket
never applies (`bucketIndex_val`). -/
def bucketIndex (self sha : Hash) : Fin nBuckets :=
  let d := logdist self sha
  if d ≤ bucketMinDistance then ⟨0, by decide⟩
  else ⟨min (d - bucketMinDistance - 1) (nBuckets - 1), by unfold nBuckets hashBits HashLength; omega⟩

theorem bucketIndex_val (self sha : Hash) :
    (bucketIndex self sha).val =
      if logdist self sha ≤ bucketMinDistance then 0 else logdist self sha - bucketMinDistance - 1 := by
  have bound := logdist_le self sha
  simp only [bucketIndex]
  split
  · rfl
  · simp only [nBuckets, hashBits, bucketMinDistance, HashLength] at *
    omega

/-! ### The list operations -/

/-- `pushNode`: `n` in front, at most `max` of them; the entry that fell off, if any. -/
def pushNode (list : List Node) (n : Node) (max : Nat) : List Node × Option Node :=
  if list.length < max then (n :: list, none)
  else (n :: list.dropLast, list.getLast?)

/-- `deleteNode`: drop the first entry with `n`'s ID. -/
def deleteNode (list : List Node) (n : Node) : List Node :=
  match list.findIdx? fun e => decide (e.ID = n.ID) with
  | some i => list.take i ++ list.drop (i + 1)
  | none => list

/-- `bucket.bump`: move the entry with `n`'s ID to the front, replaced by `n`. -/
def Bucket.bump (b : Bucket) (n : Node) : Bool × Bucket :=
  match b.entries.findIdx? fun e => decide (e.ID = n.ID) with
  | some i => (true, { b with entries := n :: (b.entries.take i ++ b.entries.drop (i + 1)) })
  | none => (false, b)

/-- Taking out the element at the first index a predicate holds at is `List.eraseP`. -/
theorem take_drop_findIdx? {α : Type} {p : α → Bool} {l : List α} {i : Nat}
    (found : l.findIdx? p = some i) : l.take i ++ l.drop (i + 1) = l.eraseP p := by
  induction l generalizing i with
  | nil => simp at found
  | cons x xs ih =>
    rw [List.findIdx?_cons] at found
    by_cases hx : p x
    · simp only [hx, if_true, Option.some.injEq] at found
      subst found
      simp [List.eraseP_cons_of_pos hx]
    · simp only [hx, if_false, Bool.false_eq_true] at found
      obtain ⟨j, rest, rfl⟩ : ∃ j, xs.findIdx? p = some j ∧ i = j + 1 := by
        cases h : xs.findIdx? p <;> simp_all
      simp [List.eraseP_cons_of_neg hx, ih rest]

theorem deleteNode_eq (list : List Node) (n : Node) :
    deleteNode list n = list.eraseP fun e => decide (e.ID = n.ID) := by
  unfold deleteNode
  split
  · exact take_drop_findIdx? ‹_›
  · rw [List.eraseP_of_forall_not]
    intro e member
    simp [List.findIdx?_eq_none_iff.mp ‹_› e member]

theorem pushNode_eq (list : List Node) (n : Node) (max : Nat) :
    (pushNode list n max).1 = n :: (if list.length < max then list else list.dropLast) ∧
      (∀ removed, (pushNode list n max).2 = some removed → removed ∈ list) := by
  unfold pushNode
  split
  · exact ⟨rfl, fun _ none => by cases none⟩
  · exact ⟨rfl, fun removed last => List.mem_of_getLast? last⟩

/-- A bump either finds an entry with `n`'s ID, which it drops and puts `n` in front of the
rest, or leaves the bucket. -/
theorem bump_cases (b : Bucket) (n : Node) :
    ((b.bump n).1 = true ∧ (∃ e ∈ b.entries, e.ID = n.ID) ∧
        (b.bump n).2 = { b with entries := n :: b.entries.eraseP fun e => decide (e.ID = n.ID) }) ∨
      ((b.bump n).1 = false ∧ (∀ e ∈ b.entries, e.ID ≠ n.ID) ∧ (b.bump n).2 = b) := by
  unfold Bucket.bump
  split
  · next i found =>
    refine .inl ⟨rfl, ?_, by rw [take_drop_findIdx? found]⟩
    obtain ⟨within, holds, -⟩ := List.findIdx?_eq_some_iff_getElem.mp found
    exact ⟨_, List.getElem_mem within, by simpa using holds⟩
  · next none =>
    exact .inr ⟨rfl, fun e member => of_decide_eq_false (List.findIdx?_eq_none_iff.mp none e member), rfl⟩

/-! ### The table operations -/

namespace Table

/-- The table with bucket `b` replaced. -/
def setBucket (tab : Table) (b : Fin nBuckets) (bk : Bucket) : Table :=
  { tab with buckets := tab.buckets.set b bk }

@[simp] theorem setBucket_self (tab : Table) (b : Fin nBuckets) (bk : Bucket) :
    (tab.setBucket b bk).buckets[b.val] = bk := by
  simp [setBucket]

@[simp] theorem setBucket_ne (tab : Table) {b c : Fin nBuckets} (bk : Bucket) (other : c ≠ b) :
    (tab.setBucket b bk).buckets[c.val] = tab.buckets[c.val] := by
  simp [setBucket, Vector.getElem_set_ne _ _ (Fin.val_ne_of_ne other.symm)]

@[simp] theorem setBucket_ips (tab : Table) (b : Fin nBuckets) (bk : Bucket) :
    (tab.setBucket b bk).ips = tab.ips := rfl

@[simp] theorem setBucket_self_node (tab : Table) (b : Fin nBuckets) (bk : Bucket) :
    (tab.setBucket b bk).self = tab.self := rfl

/-- `Table.bucket`: the bucket for the node hash `sha`. -/
def bucket (tab : Table) (sha : Hash) : Fin nBuckets := bucketIndex tab.self.sha sha

/-- `Table.addIP`: count a non-LAN address in the table and in bucket `b`, unless either is
at its limit. -/
def addIP (tab : Table) (b : Fin nBuckets) (ip : IP) : Bool × Table :=
  if IsLAN ip then (true, tab)
  else
    let added := tab.ips.Add ip
    if !added.1 then (false, tab)
    else
      let addedBucket := tab.buckets[b].ips.Add ip
      if !addedBucket.1 then (false, { tab with ips := added.2.Remove ip })
      else (true, { tab.setBucket b { tab.buckets[b] with ips := addedBucket.2 } with ips := added.2 })

/-- `Table.removeIP`: uncount a non-LAN address in the table and in bucket `b`. -/
def removeIP (tab : Table) (b : Fin nBuckets) (ip : IP) : Table :=
  if IsLAN ip then tab
  else
    { tab.setBucket b { tab.buckets[b] with ips := tab.buckets[b].ips.Remove ip } with
      ips := tab.ips.Remove ip }

/-- `Table.addReplacement`: put `n` in front of the replacements of bucket `b`, if no
replacement has its ID and its address is within the limits. -/
def addReplacement (tab : Table) (b : Fin nBuckets) (n : Node) : Table :=
  if tab.buckets[b].replacements.any fun e => decide (e.ID = n.ID) then tab
  else
    let added := tab.addIP b n.IP
    if !added.1 then added.2
    else
      let tab := added.2
      let pushed := pushNode tab.buckets[b].replacements n maxReplacements
      let tab := tab.setBucket b { tab.buckets[b] with replacements := pushed.1 }
      match pushed.2 with
      | some removed => tab.removeIP b removed.IP
      | none => tab

/-- `Table.deleteInBucket`: drop `n` from the entries of bucket `b` and uncount its address,
whether or not it was there. -/
def deleteInBucket (tab : Table) (b : Fin nBuckets) (n : Node) : Table :=
  let tab := tab.setBucket b { tab.buckets[b] with entries := deleteNode tab.buckets[b].entries n }
  tab.removeIP b n.IP

/-- `Table.replace`: if `last` is still the last entry of bucket `b`, put the replacement
at `pick` in its place, or drop it when there are no replacements. -/
def replace (tab : Table) (b : Fin nBuckets) (last : Node) (pick : Nat) : Option Node × Table :=
  let bk := tab.buckets[b]
  if (bk.entries.getLast?.map Node.ID) ≠ some last.ID then (none, tab)
  else if nonempty : bk.replacements ≠ [] then
    let r := bk.replacements.get ⟨pick % bk.replacements.length,
      Nat.mod_lt _ (List.length_pos_iff.mpr nonempty)⟩
    let tab := tab.setBucket b
      { bk with replacements := deleteNode bk.replacements r, entries := bk.entries.dropLast ++ [r] }
    (some r, tab.removeIP b last.IP)
  else (none, tab.deleteInBucket b last)

/-- `Table.bumpOrAdd`: bump `n` in bucket `b`, or put it in front of the entries if there
is room and its address is within the limits. Whether `n` is now an entry. -/
def bumpOrAdd (tab : Table) (b : Fin nBuckets) (n : Node) : Bool × Table :=
  let bumped := tab.buckets[b].bump n
  if bumped.1 then (true, tab.setBucket b bumped.2)
  else if tab.buckets[b].entries.length ≥ bucketSize then (false, tab)
  else
    let added := tab.addIP b n.IP
    if !added.1 then (false, added.2)
    else
      let tab := added.2
      let bk := tab.buckets[b]
      (true, tab.setBucket b
        { bk with
          entries := (pushNode bk.entries n bucketSize).1
          replacements := deleteNode bk.replacements n })

/-- `Table.add`: bump or add `new`, or else keep it as a replacement. -/
def add (tab : Table) (new : Node) : Table :=
  let b := tab.bucket new.sha
  let added := tab.bumpOrAdd b new
  if !added.1 then added.2.addReplacement b new else added.2

/-- `Table.stuff`: add each node but our own to its bucket if that has room. -/
def stuff (tab : Table) (nodes : List Node) : Table :=
  nodes.foldl (fun tab n =>
    if n.ID = tab.self.ID then tab
    else
      let b := tab.bucket n.sha
      if tab.buckets[b].entries.length < bucketSize then (tab.bumpOrAdd b n).2 else tab) tab

/-- `Table.delete`. -/
def delete (tab : Table) (node : Node) : Table := tab.deleteInBucket (tab.bucket node.sha) node

/-- The locked half of `doRevalidate`: `last`, pinged in bucket `bi`, is bumped if it
answered and replaced if not. -/
def revalidate (tab : Table) (bi : Fin nBuckets) (last : Node) (alive : Bool) (pick : Nat) : Table :=
  if alive then tab.setBucket bi (tab.buckets[bi].bump last).2
  else (tab.replace bi last pick).2

end Table

/-- An operation on the table under `tab.mutex`, with its arguments. -/
inductive Op
  | add (n : Node)
  | stuff (nodes : List Node)
  | delete (n : Node)
  | revalidate (bi : Fin nBuckets) (last : Node) (alive : Bool) (pick : Nat)

def Op.apply (tab : Table) : Op → Table
  | .add n => tab.add n
  | .stuff nodes => tab.stuff nodes
  | .delete n => tab.delete n
  | .revalidate bi last alive pick => tab.revalidate bi last alive pick

/-- The table after the operations, in the order they took the lock. -/
def Table.run (tab : Table) (ops : List Op) : Table := ops.foldl Op.apply tab

/-- The hash of the examples in place of Keccak256, injective on IDs with distinct first
bytes: that byte, as the last byte of a hash that is otherwise zero. Every such hash is within
distance 8 of the zero hash, so in bucket 0 of a table whose own node hashes to zero. -/
def exampleHash (id : Bytes) : Hash := ⟨List.replicate 31 0 ++ [id.headD 0], by simp [HashLength]⟩

/-- The local node of the examples. -/
def exampleSelf : Node := ⟨[127, 0, 0, 1], Vector.replicate _ 0, exampleHash (List.replicate 64 0)⟩

/-- A node at a public address. -/
def exampleNode : Node := ⟨[1, 2, 3, 4], Vector.replicate _ 1, exampleHash (List.replicate 64 1)⟩

end Indigo.Discover
