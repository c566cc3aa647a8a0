import Indigo.Trie.Node
import Indigo.Trie.Database

set_option linter.dupNamespace false

/-!
# Trie operations

`trie/trie.go`: lookups, insertions and deletions on a trie whose nodes are loaded from
the database on demand. Each operation walks down the hex key; a hash node met on the way
is resolved from the database, and the operation goes on in the decoded node.

A walk may go through the same hash again and again when the database holds a cycle, which
only a hash collision can make; the model bounds every walk by `fuel` and returns `none`
when it runs out, as it does when Go panics.

## Main definitions

- `Trie.tryGet`, `Trie.insert`, `Trie.delete`: the recursive walks, over a node.
- `Trie.TryGet`, `Trie.TryUpdate`, `Trie.TryDelete`, `New`: the operations on a trie.
-/

namespace Indigo.Trie

/-- `emptyRoot`: the root hash of an empty trie, Keccak256 of the RLP empty string. -/
def emptyRoot : Hash :=
  ⟨[0x56, 0xe8, 0x1f, 0x17, 0x1b, 0xcc, 0x55, 0xa6, 0xff, 0x83, 0x45, 0xe6, 0x92, 0xc0, 0xf8,
    0x6e, 0x5b, 0x48, 0xe0, 0x1b, 0x99, 0x6c, 0xad, 0xc0, 0x01, 0x62, 0x2f, 0xb5, 0xe3, 0x63,
    0xb4, 0x21], rfl⟩

/-- The errors of a trie operation: `MissingNodeError`, a node that the database does not
hold, met at the path `path`. -/
inductive TrieError where
  | missingNode (hash : Hash) (path : List Nibble)

/-- A trie operation: a value or an error, or `none` when it panics or does not end within
its fuel. -/
abbrev Result (α : Type) := Option (Except TrieError α)

/-- `Trie`. The database it sits on is passed to every operation. -/
structure Trie where
  root : Node
  originalRoot : Hash
  /-- The cache generation, one more with each commit. -/
  cachegen : UInt16
  /-- The number of cache generations to keep. -/
  cachelimit : UInt16

namespace Trie

/-- `newFlag`: the flag of a node created now. -/
def newFlag (t : Trie) : NodeFlag := { hash := none, gen := t.cachegen, dirty := true }

/-- `resolveHash`: load the node `n` from the database. A node that cannot be decoded
panics, in `mustDecodeNode`. -/
def resolveHash (t : Trie) (db : Database) (n : Hash) (pref : List Nibble) : Result Node :=
  match db.Node n with
  | none | some [] => some (.error (.missingNode n pref))
  | some enc =>
    match decodeNode (some n) enc t.cachegen with
    | some (.ok node) => some (.ok node)
    | _ => none

/-- `resolve`: load `n` if it is a hash node. -/
def resolve (t : Trie) (db : Database) (n : Node) (pref : List Nibble) : Result Node :=
  match n with
  | .hash h => t.resolveHash db h pref
  | n => some (.ok n)

/-- `tryGet`: the value at `key` from `pos` on, the node with what was resolved on the way
put in place, and whether anything was resolved. -/
def tryGet (t : Trie) (db : Database) : Nat → Node → List Nibble → Nat →
    Result (Option Bytes × Node × Bool)
  | 0, _, _, _ => none
  | fuel + 1, origNode, key, pos =>
    match origNode with
    | .nil => some (.ok (none, .nil, false))
    | .value v => some (.ok (some v, .value v, false))
    | .short nkey val flags =>
      if (key.length : Int) - pos < nkey.length ∨ nkey ≠ (key.drop pos).take nkey.length then
        -- key not found in trie
        some (.ok (none, origNode, false))
      else
        match t.tryGet db fuel val key (pos + nkey.length) with
        | some (.ok (value, newnode, true)) =>
          some (.ok (value, .short nkey newnode { flags with gen := t.cachegen }, true))
        | r => r.map fun r => r.map fun (value, _, didResolve) => (value, origNode, didResolve)
    | .full children flags =>
      match key[pos]? with
      | none => none
      | some i =>
        match t.tryGet db fuel (children i) key (pos + 1) with
        | some (.ok (value, newnode, true)) =>
          some (.ok (value, .full (Function.update children i newnode) { flags with gen := t.cachegen }, true))
        | r => r.map fun r => r.map fun (value, _, didResolve) => (value, origNode, didResolve)
    | .hash h =>
      match t.resolveHash db h (key.take pos) with
      | none => none
      | some (.error err) => some (.error err)
      | some (.ok child) =>
        (t.tryGet db fuel child key pos).map fun r => r.map fun (value, newnode, _) => (value, newnode, true)

/-- `insert`: put `value` at `key` below `n`, reached by `pref`; whether anything changed,
and the new node. -/
def insert (t : Trie) (db : Database) : Nat → Node → List Nibble → List Nibble → Node →
    Result (Bool × Node)
  | 0, _, _, _, _ => none
  | fuel + 1, n, pref, key, value =>
    if key = [] then
      match n, value with
      | .value v, .value w => some (.ok (v ≠ w, value))
      -- the value is asserted to be a value node too
      | .value _, _ => none
      | _, _ => some (.ok (true, value))
    else
      match n with
      | .short nkey nval _ =>
        let matchlen := prefixLen key nkey
        -- if the whole key matches, keep this short node as is and only update the value
        if matchlen = nkey.length then
          match t.insert db fuel nval (pref ++ key.take matchlen) (key.drop matchlen) value with
          | some (.ok (true, nn)) => some (.ok (true, .short nkey nn t.newFlag))
          | some (.ok (false, _)) => some (.ok (false, n))
          | r => r
        else
          -- otherwise branch out at the index where they differ
          match nkey[matchlen]?, key[matchlen]? with
          | some ni, some ki =>
            match t.insert db fuel .nil (pref ++ nkey.take (matchlen + 1)) (nkey.drop (matchlen + 1)) nval with
            | some (.ok (_, old)) =>
              let branch := Function.update (fun _ => Node.nil) ni old
              match t.insert db fuel .nil (pref ++ key.take (matchlen + 1)) (key.drop (matchlen + 1)) value with
              | some (.ok (_, new)) =>
                let branch : Node := .full (Function.update branch ki new) t.newFlag
                -- replace this short node with the branch if it occurs at index 0
                if matchlen = 0 then some (.ok (true, branch))
                else some (.ok (true, .short (key.take matchlen) branch t.newFlag))
              | r => r
            | r => r
          | _, _ => none
      | .full children _ =>
        match key with
        | [] => none
        | k :: rest =>
          match t.insert db fuel (children k) (pref ++ [k]) rest value with
          | some (.ok (true, nn)) => some (.ok (true, .full (Function.update children k nn) t.newFlag))
          | some (.ok (false, _)) => some (.ok (false, n))
          | r => r
      | .nil => some (.ok (true, .short key value t.newFlag))
      | .hash h =>
        -- load the node and insert into it, which leaves the nodes on the path loaded
        match t.resolveHash db h pref with
        | none => none
        | some (.error err) => some (.error err)
        | some (.ok rn) =>
          match t.insert db fuel rn pref key value with
          | some (.ok (true, nn)) => some (.ok (true, nn))
          | some (.ok (false, _)) => some (.ok (false, rn))
          | r => r
      | .value _ => none

/-- The single child left in a full node: `pos` is its index, `-1` for none and `-2` for
two or more. -/
def remainingChild (children : Fin 17 → Node) : Int :=
  (List.finRange 17).foldl (fun pos i =>
    match children i with
    | .nil => pos
    | _ => if pos = -1 then (i : Int) else -2) (-1)

/-- `delete`: remove `key` below `n`, reached by `pref`, reducing the trie to minimal form
on the way up. -/
def delete (t : Trie) (db : Database) : Nat → Node → List Nibble → List Nibble →
    Result (Bool × Node)
  | 0, _, _, _ => none
  | fuel + 1, n, pref, key =>
    match n with
    | .short nkey nval _ =>
      let matchlen := prefixLen key nkey
      -- don't replace n on mismatch
      if matchlen < nkey.length then some (.ok (false, n))
      -- remove n entirely for whole matches
      else if matchlen = key.length then some (.ok (true, .nil))
      else
        -- the key is longer than n.Key: remove the remaining suffix from the subtrie
        match t.delete db fuel nval (pref ++ key.take nkey.length) (key.drop nkey.length) with
        | some (.ok (true, child)) =>
          match child with
          -- merge the short nodes, to avoid a short node below a short node
          | .short ckey cval _ => some (.ok (true, .short (nkey ++ ckey) cval t.newFlag))
          | child => some (.ok (true, .short nkey child t.newFlag))
        | some (.ok (false, _)) => some (.ok (false, n))
        | r => r
    | .full children _ =>
      match key with
      | [] => none
      | k :: rest =>
        match t.delete db fuel (children k) (pref ++ [k]) rest with
        | some (.ok (true, nn)) =>
          let children := Function.update children k nn
          let pos := remainingChild children
          if _h : pos ≥ 0 then
            let p : Fin 17 := Fin.ofNat 17 pos.toNat
            let reduced : Node := .short [p] (children p) t.newFlag
            if pos ≠ 16 then
              -- a short node left alone replaces n, with the missing nibble in front of its
              -- key; it is resolved just for this check
              match t.resolve db (children p) pref with
              | some (.ok (.short ckey cval _)) => some (.ok (true, .short (p :: ckey) cval t.newFlag))
              | some (.ok _) => some (.ok (true, reduced))
              | some (.error err) => some (.error err)
              | none => none
            else some (.ok (true, reduced))
          -- n still contains at least two values and cannot be reduced
          else some (.ok (true, .full children t.newFlag))
        | some (.ok (false, _)) => some (.ok (false, n))
        | r => r
    | .value _ => some (.ok (true, .nil))
    | .nil => some (.ok (false, .nil))
    | .hash h =>
      match t.resolveHash db h pref with
      | none => none
      | some (.error err) => some (.error err)
      | some (.ok rn) =>
        match t.delete db fuel rn pref key with
        | some (.ok (true, nn)) => some (.ok (true, nn))
        | some (.ok (false, _)) => some (.ok (false, rn))
        | r => r

/-- `TryGet`: the value stored at `key`. The trie keeps what the lookup resolved. -/
def TryGet (t : Trie) (db : Database) (fuel : Nat) (key : Bytes) : Result (Option Bytes × Trie) :=
  (t.tryGet db fuel t.root (keybytesToHex key) 0).map fun r => r.map fun (value, newroot, didResolve) =>
    (value, if didResolve then { t with root := newroot } else t)

/-- `TryUpdate`: store `value` at `key`; an empty value deletes the key. -/
def TryUpdate (t : Trie) (db : Database) (fuel : Nat) (key value : Bytes) : Result Trie :=
  let k := keybytesToHex key
  let r := if value.length ≠ 0 then t.insert db fuel t.root [] k (.value value)
    else t.delete db fuel t.root [] k
  r.map fun r => r.map fun (_, n) => { t with root := n }

/-- `TryDelete`: remove `key`. -/
def TryDelete (t : Trie) (db : Database) (fuel : Nat) (key : Bytes) : Result Trie :=
  (t.delete db fuel t.root [] (keybytesToHex key)).map fun r => r.map fun (_, n) => { t with root := n }

end Trie

/-- `New`: the trie with the given root, loaded from the database unless it is the zero hash
or `emptyRoot`. -/
def New (root : Hash) (db : Database) : Result Trie :=
  let trie : Trie := { root := .nil, originalRoot := root, cachegen := 0, cachelimit := 0 }
  if root ≠ Hash.zero ∧ root ≠ emptyRoot then
    (trie.resolveHash db root []).map fun r => r.map fun rootnode => { trie with root := rootnode }
  else some (.ok trie)

end Indigo.Trie
