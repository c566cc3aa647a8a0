import Indigo.Trie.Trie

set_option linter.dupNamespace false

/-!
# Hashing and committing a trie

`trie/hasher.go`: the hasher collapses a trie bottom-up. A node's children that encode to
32 bytes or more are replaced by the Keccak256 of their encoding, smaller ones are embedded
in their parent; the root is always hashed. It returns the collapsed node and a copy of the
original with the computed hashes cached in. When committing, every hashed node is inserted
in the database together with its references to its hashed children, and clean nodes old
enough are unloaded: they become hash nodes.

Keccak256 is a parameter `keccak`. The hasher never reads the database, so a commit is
modelled as the list of database writes in the order the hasher makes them, applied to the
database afterwards (`Database.writeAll`).

## Main definitions

- `Hasher.hash`, `Hasher.hashChildren`, `Hasher.store`.
- `Trie.Hash`, `Trie.Commit`.
-/

namespace Indigo.Trie

/-- A write of the hasher to the database: `db.insert` or `db.reference`. -/
inductive Write where
  | insert (hash : Hash) (blob : Bytes)
  | reference (child parent : Hash)

namespace Database

/-- Make one write. -/
def write (db : Database) : Write → Option Database
  | .insert hash blob => db.insert hash blob
  | .reference child parent => db.reference child parent

/-- Make the writes in order; a panic stops them. -/
def writeAll (db : Database) (ws : List Write) : Option Database := ws.foldlM write db

end Database

/-- The number of nodes of a tree, for the termination of the hasher. -/
def Node.size : Node → Nat
  | .full children _ => (List.ofFn fun i => (children i).size).sum + 1
  | .short _ val _ => val.size + 1
  | _ => 1

theorem Node.size_child_lt (children : Fin 17 → Node) (flags : NodeFlag) (i : Fin 17) :
    (children i).size < (Node.full children flags).size := by
  have member : (children i).size ∈ List.ofFn fun i => (children i).size :=
    List.mem_ofFn.mpr ⟨i, rfl⟩
  have below := List.le_sum_of_mem member
  simp only [Node.size]
  omega

/-- The hash of a hash node: `hashed.(hashNode)`, `nil` otherwise. -/
def Node.hashOf? : Node → Option Hash
  | .hash h => some h
  | _ => none

/-- `hasher`, without its buffers and with no leaf callback. -/
structure Hasher where
  cachegen : UInt16
  cachelimit : UInt16

namespace Hasher

variable (keccak : Bytes → Hash)

/-- The references `store` makes from a stored node to its hashed children. -/
def childReferences (n : Node) (hash : Hash) : List Write :=
  match n with
  | .short _ (.hash child) _ => [.reference child hash]
  | .full children _ =>
    (List.finRange 16).filterMap fun i =>
      match children i.castSucc with
      | .hash child => some (.reference child hash)
      | _ => none
  | _ => []

/-- `store`: a collapsed node that encodes to 32 bytes or more, or any node when `force`,
is replaced by its hash and, when committing, written to the database. Hash nodes and
`nil` are left as they are. -/
def store (n : Node) (commit force : Bool) : Node × List Write :=
  match n with
  | .hash _ | .nil => (n, [])
  | n =>
    let enc := n.encode
    -- nodes smaller than 32 bytes are stored inside their parent
    if enc.length < 32 ∧ !force then (n, [])
    else
      let hash := n.cache.1.getD (keccak enc)
      (.hash hash, if commit then .insert hash enc :: childReferences n hash else [])

/-- What `hash` returns from the cached data of `n` alone, without walking it: its hash
when only hashing, and when committing, its hash in place of the node if it can be
unloaded, or itself if it is clean. -/
def cached (h : Hasher) (n : Node) (commit : Bool) : Option (Node × Node) :=
  match n.cache with
  | (some hash, dirty) =>
    if !commit then some (.hash hash, n)
    else if n.canUnload h.cachegen h.cachelimit then some (.hash hash, .hash hash)
    else if !dirty then some (.hash hash, n)
    else none
  | (none, _) => none

/-- The copy of a node that caches the hash `hashed` computed for it, clean after a commit. -/
def withHash (cached : Node) (hashed : Option Hash) (commit : Bool) : Node :=
  match cached with
  | .short key val flags =>
    .short key val { flags with hash := hashed, dirty := if commit then false else flags.dirty }
  | .full children flags =>
    .full children { flags with hash := hashed, dirty := if commit then false else flags.dirty }
  | n => n

mutual

/-- `hash`: the collapsed form of `n` (its hash, or the node itself when it is embedded in
its parent), the node with the computed hashes cached, and the database writes. -/
def hash (h : Hasher) (n : Node) (commit force : Bool) : Option (Node × Node × List Write) :=
  match n with
  -- the method `cache` is called on a `nil` interface
  | .nil => none
  | n =>
    match h.cached n commit with
    | some (hashed, cachedNode) => some (hashed, cachedNode, [])
    | none => do
      -- not processed yet or needs storage: walk the children
      let (collapsed, cachedNode, childWrites) ← h.hashChildren n commit
      let (hashed, writes) := store keccak collapsed commit force
      pure (hashed, withHash cachedNode hashed.hashOf? commit, childWrites ++ writes)
termination_by (n.size, 1)

/-- `hashChildren`: the node with its children collapsed, and with their hashes cached. The
`nil` children of the collapsed node become empty value nodes, written as empty strings. -/
def hashChildren (h : Hasher) (original : Node) (commit : Bool) : Option (Node × Node × List Write) :=
  match original with
  | .short key val flags =>
    match val with
    | .value _ => some (.short key val flags, .short key val flags, [])
    | val => do
      let (collapsedVal, cachedVal, writes) ← h.hash val commit false
      let collapsedVal := match collapsedVal with
        | .nil => Node.value []
        | c => c
      pure (.short key collapsedVal flags, .short key cachedVal flags, writes)
  | .full children flags => do
    let (collapsed, cachedChildren, writes) ← (List.finRange 16).foldlM
      (fun (collapsed, cachedChildren, writes) i =>
        match children i.castSucc with
        | .nil => some (Function.update collapsed i.castSucc (.value []), cachedChildren, writes)
        | _ => do
          let (c, cc, w) ← h.hash (children i.castSucc) commit false
          pure (Function.update collapsed i.castSucc c, Function.update cachedChildren i.castSucc cc,
            writes ++ w))
      (children, children, [])
    let collapsed := match children 16 with
      | .nil => Function.update collapsed 16 (.value [])
      | _ => collapsed
    pure (.full collapsed flags, .full cachedChildren flags, writes)
  -- value and hash nodes don't have children so they're left as were
  | n => some (n, original, [])
termination_by (original.size, 0)
decreasing_by
  · exact Prod.Lex.left _ _ (by simp only [Node.size]; omega)
  · exact Prod.Lex.left _ _ (Node.size_child_lt _ _ _)

end

end Hasher

namespace Trie

variable (keccak : Bytes → Indigo.Hash)

/-- The hasher of a trie, at its cache generation. -/
def hasher (t : Trie) : Hasher := ⟨t.cachegen, t.cachelimit⟩

/-- `hashRoot`: the root hashed, with `emptyRoot` for the empty trie. -/
def hashRoot (t : Trie) (commit : Bool) : Option (Node × Node × List Write) :=
  match t.root with
  | .nil => some (.hash emptyRoot, .nil, [])
  | root => t.hasher.hash keccak root commit true

/-- `Hash`: the root hash. It does not write to the database; the trie keeps the hashes it
computed. -/
def Hash (t : Trie) : Option (Indigo.Hash × Trie) := do
  let (hashed, cached, _) ← t.hashRoot keccak false
  let hash ← hashed.hashOf?
  pure (hash, { t with root := cached })

/-- `Commit`: write all nodes to the database, and start a new cache generation. -/
def Commit (t : Trie) (db : Database) : Option (Indigo.Hash × Trie × Database) := do
  let (hashed, cached, writes) ← t.hashRoot keccak true
  let db ← db.writeAll writes
  let hash ← hashed.hashOf?
  pure (hash, { t with root := cached, cachegen := t.cachegen + 1 }, db)

end Trie

end Indigo.Trie
