import Indigo.Trie.Encoding
import Indigo.Rlp.Raw

/-!
# Trie nodes

`trie/node.go`: a trie is built from full nodes (a branch on the next nibble, the value of
the key that ends here at index 16), short nodes (a run of nibbles leading to one child),
hash nodes (a child stored in the database under its hash) and value nodes. Full and short
nodes carry a flag with the hash of their encoding once computed, the cache generation
they were loaded or created in, and whether they changed since they were last stored.

A node is stored as the RLP encoding of its collapsed form (see `Trie.Hasher`): keys in
compact form, children that encode to 32 bytes or more replaced by their hash. Here are
that encoding and its reading back, `decodeNode`.

## Main definitions

- `Node.toItem`: the RLP item `rlp.Encode` writes for a collapsed node.
- `decodeNode`, `decodeShort`, `decodeFull`, `decodeRef`: the decoder, by well-founded
  recursion on the length of the input, since an embedded node is decoded from the
  buffer of its parent.
-/

namespace Indigo.Trie

open Indigo.Rlp

/-- `nodeFlag`: the cached hash (`nil` as `none`), the cache generation, and the dirty bit. -/
structure NodeFlag where
  hash : Option Hash
  gen : UInt16
  dirty : Bool
deriving DecidableEq

/-- `nodeFlag.canUnload`: a clean node at least `cachelimit` generations old. -/
def NodeFlag.canUnload (f : NodeFlag) (cachegen cachelimit : UInt16) : Bool :=
  !f.dirty && cachegen - f.gen ≥ cachelimit

/-- A trie node. A Go `nil` node is `Node.nil`. -/
inductive Node where
  | full (children : Fin 17 → Node) (flags : NodeFlag)
  | short (key : List Nibble) (val : Node) (flags : NodeFlag)
  | hash (h : Hash)
  | value (v : Bytes)
  | nil

namespace Node

/-- `cache`: the cached hash and the dirty bit. A hash or value node has no hash and
counts as dirty. The method is not called on `nil`. -/
def cache : Node → Option Hash × Bool
  | full _ flags | short _ _ flags => (flags.hash, flags.dirty)
  | _ => (none, true)

/-- `canUnload`: only full and short nodes are ever unloaded. -/
def canUnload (n : Node) (cachegen cachelimit : UInt16) : Bool :=
  match n with
  | full _ flags | short _ _ flags => flags.canUnload cachegen cachelimit
  | _ => false

/-- The RLP item of a collapsed node. A full node is the list of its 17 children (its
`EncodeRLP`), a short node the list of its compact key and its child; hash and value nodes
are byte strings, and `rlp` writes a `nil` interface as the empty list. The key of a
collapsed short node is kept in hex form here and written in compact form. -/
def toItem : Node → Item
  | full children _ => .list (List.ofFn fun i => (children i).toItem)
  | short key val _ => .list [.str (hexToCompact key), val.toItem]
  | hash h => .str h.bytes
  | value v => .str v
  | nil => .list []

/-- The bytes `rlp.Encode` writes for a collapsed node. -/
def encode (n : Node) : Bytes := n.toItem.encode

end Node

/-! ### Decoding -/

/-- The errors of `decodeNode`. `wrapped` is Go's `decodeError`, which records the path
from the node that failed up to the node being decoded. -/
inductive DecodeError where
  /-- `io.ErrUnexpectedEOF`, for an empty buffer. -/
  | unexpectedEOF
  /-- An error of the `rlp` package, passed on as it is. -/
  | rlp (err : Rlp.Error)
  /-- `"decode error: %v"`. -/
  | decode (err : Rlp.Error)
  /-- `"invalid number of list elements: %v"`. -/
  | invalidListElements (count : Nat)
  /-- `"invalid value node: %v"`. -/
  | invalidValueNode (err : Rlp.Error)
  /-- `"oversized embedded node (size is %d bytes, want size < %d)"`. -/
  | oversizedEmbedded (size : Nat)
  /-- `"invalid RLP string size %d (want 0 or 32)"`. -/
  | invalidStringSize (size : Nat)
  | wrapped (what : DecodeError) (stack : List String)

/-- `wrapError`: push `ctx` on the path of a `decodeError`, or start one. -/
def wrapError (err : DecodeError) (ctx : String) : DecodeError :=
  match err with
  | .wrapped what stack => .wrapped what (stack ++ [ctx])
  | err => .wrapped err [ctx]

/-- A decoding that returns a value or an error, or panics (`none`): `compactToHex`
indexes the first byte of an empty key. -/
abbrev Decoded (α : Type) := Option (Except DecodeError α)

/-- `indices[i]` of a child, as `decodeFull` names it in a path. -/
def childContext (i : Nat) : String := "[" ++ toString i ++ "]"

mutual

/-- `decodeNode`: a full node from a list of 17 values, a short node from a list of two. -/
def decodeNode (hash : Option Hash) (buf : Bytes) (cachegen : UInt16) : Decoded Node :=
  if buf = [] then some (.error .unexpectedEOF)
  else
    match split : SplitList buf with
    | .error err => some (.error (.decode err))
    | .ok (elems, _) =>
      -- a list whose values cannot be counted counts as none
      let c := match CountValues elems with
        | .ok c => c
        | .error _ => 0
      if c = 2 then
        (decodeShort hash elems cachegen).map fun r => r.mapError (wrapError · "short")
      else if c = 17 then
        (decodeFull hash elems cachegen).map fun r => r.mapError (wrapError · "full")
      else some (.error (.invalidListElements c))
termination_by (buf.length, 0, 0)
decreasing_by
  all_goals exact Prod.Lex.left _ _ (splitList_content_lt split)

/-- `decodeShort`: the compact key, then a value if the key has the terminator, else a
reference to a child. -/
def decodeShort (hash : Option Hash) (elems : Bytes) (cachegen : UInt16) : Decoded Node :=
  match _split : SplitString elems with
  | .error err => some (.error (.rlp err))
  | .ok (kbuf, rest) =>
    let flag : NodeFlag := { hash := hash, gen := cachegen, dirty := false }
    match compactToHex kbuf with
    | none => none
    | some key =>
      if hasTerm key then
        -- value node
        match SplitString rest with
        | .error err => some (.error (.invalidValueNode err))
        | .ok (val, _) => some (.ok (.short key (.value val) flag))
      else
        match decodeRef rest cachegen with
        | none => none
        | some (.error err) => some (.error (wrapError err "val"))
        | some (.ok (r, _)) => some (.ok (.short key r flag))
termination_by (elems.length, 3, 0)
decreasing_by
  exact Prod.Lex.left _ _ (splitString_rest_lt _split)

/-- `decodeFull`: sixteen references, then the value at index 16, which is `nil` when
empty. -/
def decodeFull (hash : Option Hash) (elems : Bytes) (cachegen : UInt16) : Decoded Node :=
  match decodeChildren 0 (fun _ => .nil) elems cachegen with
  | none => none
  | some (.error err) => some (.error err)
  | some (.ok (children, elems)) =>
    match SplitString elems with
    | .error err => some (.error (.rlp err))
    | .ok (val, _) =>
      let children := if val.length > 0 then Function.update children 16 (.value val) else children
      some (.ok (.full children { hash := hash, gen := cachegen, dirty := false }))
termination_by (elems.length, 3, 0)
decreasing_by
  exact Prod.Lex.right _ (Prod.Lex.left _ _ (by omega))

/-- The loop of `decodeFull` from child `i` on, with the children decoded so far. -/
def decodeChildren (i : Nat) (children : Fin 17 → Node) (elems : Bytes) (cachegen : UInt16) :
    Decoded ((Fin 17 → Node) × Bytes) :=
  if i < 16 then
    match decodeRef elems cachegen with
    | none => none
    | some (.error err) => some (.error (wrapError err (childContext i)))
    | some (.ok (cld, rest)) =>
      decodeChildren (i + 1) (Function.update children (Fin.ofNat 17 i) cld) rest.val cachegen
  else some (.ok (children, elems))
termination_by (elems.length, 2, 16 - i)
decreasing_by
  · exact Prod.Lex.right _ (Prod.Lex.left _ _ (by omega))
  · exact Prod.Lex.left _ _ rest.property

/-- `decodeRef`: an embedded node (a list, shorter than a hash), an empty string for no
node, or a 32-byte hash. The rest of the buffer comes with the proof that it is shorter,
by which the loop of `decodeFull` terminates. -/
def decodeRef (buf : Bytes) (cachegen : UInt16) :
    Decoded (Node × {rest : Bytes // rest.length < buf.length}) :=
  match split : Split buf with
  | .error err => some (.error (.rlp err))
  | .ok (kind, val, rest) =>
    let rest : {rest : Bytes // rest.length < buf.length} := ⟨rest, split_rest_lt split⟩
    if kind = .List then
      -- 'embedded' node reference: the encoding must be smaller than a hash
      let size := buf.length - rest.val.length
      if size > HashLength then some (.error (.oversizedEmbedded size))
      else (decodeNode none buf cachegen).map fun r => r.map (·, rest)
    else if kind = .String ∧ val.length = 0 then some (.ok (.nil, rest))
    else if h : kind = .String ∧ val.length = 32 then
      some (.ok (.hash ⟨val, h.2⟩, rest))
    else some (.error (.invalidStringSize val.length))
termination_by (buf.length, 1, 0)
decreasing_by
  exact Prod.Lex.right _ (Prod.Lex.left _ _ (by omega))

end

end Indigo.Trie
