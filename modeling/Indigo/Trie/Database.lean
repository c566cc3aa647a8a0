import Indigo.Common.Types

/-!
# The trie database

`trie/database.go`: an in-memory write layer in front of a disk database. Every cached
node keeps its encoding, the number of live nodes that reference it and the children it
references; the cached nodes are threaded on a flush-list, from `oldest` to `newest`, in
the order they were inserted. The meta root, at the zero hash, holds the references of the
tries' roots.

Go's maps become functions; a node's `children` map is a list of pairs, since the
database iterates over it. Accessing a field through a missing entry dereferences a `nil`
pointer and panics: such an operation returns `none`.

## Main definitions

- `Database.insert`, `Database.reference`: what committing a trie does to the database.
- `Database.Node`: the encoding of a node, from memory or from disk.
-/

namespace Indigo.Trie

/-- A `map[common.Hash]int`, in the order the keys were added. -/
abbrev Counts := List (Hash × Int)

namespace Counts

/-- `m[key]`, zero when absent. -/
def get (m : Counts) (key : Hash) : Int := ((m.find? (·.1 = key)).map (·.2)).getD 0

/-- Whether `key` is present: `_, ok := m[key]`. -/
def contains (m : Counts) (key : Hash) : Bool := m.any (·.1 = key)

/-- `m[key] = v`. A new key goes last. -/
def set (m : Counts) (key : Hash) (v : Int) : Counts :=
  if m.contains key then m.map fun (k, w) => if k = key then (k, v) else (k, w)
  else m ++ [(key, v)]

/-- `delete(m, key)`. -/
def erase (m : Counts) (key : Hash) : Counts := m.filter (·.1 ≠ key)

/-- The keys, in the order of iteration. -/
def keys (m : Counts) : List Hash := m.map (·.1)

end Counts

/-- `cachedNode`. -/
structure CachedNode where
  blob : Bytes
  /-- The number of live nodes referencing this one. -/
  parents : Int
  /-- The children referenced by this node. -/
  children : Counts
  flushPrev : Hash
  flushNext : Hash

/-- `Database`, without its metrics and the preimages of the secure trie. -/
structure Database where
  /-- The persistent store, as a key-value map from hashes. -/
  diskdb : Hash → Option Bytes
  nodes : Hash → Option CachedNode
  /-- Oldest tracked node, flush-list head. -/
  oldest : Hash
  /-- Newest tracked node, flush-list tail. -/
  newest : Hash
  /-- Storage size of the nodes cache: `32 + len(blob)` for every node. -/
  nodesSize : Nat

namespace Database

/-- `NewDatabase`: only the meta root is cached. -/
def NewDatabase (diskdb : Hash → Option Bytes) : Database :=
  { diskdb := diskdb
    nodes := fun h => if h = Hash.zero then some ⟨[], 0, [], Hash.zero, Hash.zero⟩ else none
    oldest := Hash.zero, newest := Hash.zero, nodesSize := 0 }

/-- Replace the entry of `h`. -/
def setNode (db : Database) (h : Hash) (n : Option CachedNode) : Database :=
  { db with nodes := Function.update db.nodes h n }

/-- Change the entry of `h` through its pointer, `db.nodes[h].field = ...`: a panic when
`h` is not cached. -/
def modifyNode (db : Database) (h : Hash) (f : CachedNode → CachedNode) : Option Database :=
  (db.nodes h).map fun n => db.setNode h (some (f n))

/-- `insert`: cache a node that is not cached yet, at the end of the flush-list. -/
def insert (db : Database) (hash : Hash) (blob : Bytes) : Option Database :=
  -- if the node's already cached, skip
  if (db.nodes hash).isSome then some db
  else
    let db := db.setNode hash (some ⟨blob, 0, [], db.newest, Hash.zero⟩)
    let db := { db with nodesSize := db.nodesSize + HashLength + blob.length }
    -- update the flush-list endpoints
    if db.oldest = Hash.zero then some { db with oldest := hash, newest := hash }
    else
      (db.modifyNode db.newest fun n => { n with flushNext := hash }).map
        fun db => { db with newest := hash }

/-- `reference`: a reference from `parent` to `child`, counted once per parent unless the
parent is the meta root. -/
def reference (db : Database) (child parent : Hash) : Option Database :=
  match db.nodes child with
  -- if the node does not exist, it's a node pulled from disk, skip
  | none => some db
  | some node =>
    match db.nodes parent with
    | none => none
    | some p =>
      -- if the reference already exists, only duplicate for roots
      if p.children.contains child ∧ parent ≠ Hash.zero then some db
      else
        let db := db.setNode child (some { node with parents := node.parents + 1 })
        db.modifyNode parent fun p => { p with children := p.children.set child (p.children.get child + 1) }

/-- `Node`: a cached node's encoding, or else the disk's. A blob that Go would return as
`nil` (the meta root's) is empty here. -/
def Node (db : Database) (hash : Hash) : Option Bytes :=
  match db.nodes hash with
  | some n => some n.blob
  | none => db.diskdb hash

end Database

end Indigo.Trie
