import Indigo.Lib.Loop
import Indigo.Trie.Delete
import Indigo.Trie.Writes

set_option linter.dupNamespace false

/-!
# Hashing and committing a trie

The hasher over a node that stands for a shaped tree `t` returns what the tree says: the
collapsed node is `t`'s hash when the node is the root or encodes to 32 bytes or more, and
else a node whose encoding is `itemOf t`; the copy with the hashes cached still stands for
`t`. When committing, its writes are blocks of inserts of the encodings of subtrees of `t`
under their hashes, followed by the references from each to its hashed children; once they
can be read from the database, every node of the copy is clean and stored.

## Main results

- `Hasher.hash_spec`: the hasher over any node that stands for a shaped tree.
- `Trie.hash_spec`: `Hash` returns `rootHash t` and keeps the trie standing for `t`.
- `Trie.commit_spec`: `Commit` goes through, returns `rootHash t`, and once its inserts can
  be read, leaves the trie standing for `t` with every node stored.
- `hashChildren_encode_decodes`: the encoding of the collapsed node, which `store` writes,
  decodes to the node `decodedOf` describes.

## Proof strategy

Induction on `Repr`. A node whose flag already holds its hash is settled by `FlagOk`
(`collapse_cached`). Otherwise the hasher walks the children (`ChildrenOut`, one lemma for
each kind of node; the loop over the children of a full node by `foldlM_invariant`) and
stores the collapsed node (`collapse_walk`). The database that the writes lead to is only
known to extend the one the trie sat on and to hold what was inserted, so every fact about
the cached copy is stated for any such database.
-/

namespace Indigo.Trie

open Indigo.Lib Indigo.Rlp

/-! ### A database that holds more -/

section Mono

variable {keccak : Bytes → Hash} {db db' : Database}

theorem InDb.mono (ext : db.Extends db') {t : Tree} (inDb : InDb keccak db t) : InDb keccak db' t :=
  ext _ _ inDb

theorem Complete.mono (ext : db.Extends db') {t : Tree} (complete : Complete keccak db t) :
    Complete keccak db' t := by
  induction t with
  | empty | leaf _ => trivial
  | ext p c ih => exact ⟨ih complete.1, fun hashed => (complete.2 hashed).mono ext⟩
  | branch cs ih => exact fun i => ⟨ih i (complete i).1, fun hashed => ((complete i).2 hashed).mono ext⟩

theorem Stored.mono (ext : db.Extends db') {t : Tree} (stored : Stored keccak db t) : Stored keccak db' t :=
  ⟨stored.1.mono ext, stored.2.mono ext⟩

theorem FlagOk.mono (ext : db.Extends db') {top : Bool} {f : NodeFlag} {t : Tree}
    (ok : FlagOk keccak db top f t) : FlagOk keccak db' top f t := by
  refine ⟨fun h cached => ?_, ok.embedded⟩
  obtain ⟨same, big, stored⟩ := ok.cached h cached
  exact ⟨same, big, fun clean => (stored clean).mono ext⟩

theorem Repr.mono (ext : db.Extends db') {top : Bool} {n : Node} {t : Tree} (repr : Repr keccak db top n t) :
    Repr keccak db' top n t := by
  induction repr with
  | nil top => exact .nil top
  | value top v => exact .value top v
  | short top key val flags c _ ok ih => exact .short top key val flags c ih (ok.mono ext)
  | full top children flags cs _ ok ih => exact .full top children flags cs ih (ok.mono ext)
  | hash top t node stored big => exact .hash top t node (stored.mono ext) big

end Mono

/-! ### Storing a collapsed node -/

section Store

variable (keccak : Bytes → Hash)

theorem itemOf_ne_empty_list {t : Tree} (node : IsNode t) : itemOf keccak t ≠ .list [] := by
  cases t with
  | ext p c => simp [itemOf]
  | branch cs => simp [itemOf]
  | empty | leaf _ => exact absurd node id

/-- A node whose item is that of a tree of the database is a short or a full node. -/
theorem shortOrFull_of_item {cn : Node} {t : Tree} (node : IsNode t) (item : cn.toItem = itemOf keccak t) :
    (∃ children flags, cn = .full children flags) ∨ ∃ key val flags, cn = .short key val flags := by
  obtain ⟨items, isList⟩ := itemOf_node keccak node
  cases cn with
  | full children flags => exact .inl ⟨children, flags, rfl⟩
  | short key val flags => exact .inr ⟨key, val, flags, rfl⟩
  | hash h => simp [Node.toItem, isList] at item
  | value v => simp [Node.toItem, isList] at item
  | nil => exact absurd item.symm (by simpa [Node.toItem] using itemOf_ne_empty_list keccak node)

theorem hashOf?_of_item {cn : Node} {t : Tree} (node : IsNode t) (item : cn.toItem = itemOf keccak t) :
    cn.hashOf? = none ∧ cn ≠ .nil := by
  rcases shortOrFull_of_item keccak node item with ⟨_, _, rfl⟩ | ⟨_, _, _, rfl⟩ <;> exact ⟨rfl, nofun⟩

/-- `store` on a collapsed node whose item is `itemOf t`. -/
theorem store_node {cn : Node} {t : Tree} (node : IsNode t) (item : cn.toItem = itemOf keccak t)
    (commit force : Bool) :
    Hasher.store keccak cn commit force =
      if (encOf keccak t).length < 32 ∧ (!force) = true then (cn, [])
      else
        let hash := cn.cache.1.getD (keccak (encOf keccak t))
        (.hash hash, if commit then .insert hash (encOf keccak t) :: Hasher.childReferences cn hash else []) := by
  have enc : cn.encode = encOf keccak t := by rw [Node.encode, item, encOf]
  -- the side conditions of the last case of store: the node is neither a hash nor empty
  rcases shortOrFull_of_item keccak node item with ⟨_, _, rfl⟩ | ⟨_, _, _, rfl⟩ <;>
    rw [Hasher.store, enc] <;> simp

theorem childReferences_refs (cn : Node) (hash : Hash) :
    ∀ w ∈ Hasher.childReferences cn hash, ∃ child, w = .reference child hash := by
  intro w member
  unfold Hasher.childReferences at member
  split at member
  · exact ⟨_, List.mem_singleton.mp member⟩
  · obtain ⟨i, -, made⟩ := List.mem_filterMap.mp member
    split at made
    · exact ⟨_, (Option.some.injEq _ _ ▸ made).symm⟩
    · cases made
  · cases member

end Store

/-! ### What the hasher returns -/

section Collapse

variable (keccak : Bytes → Hash) (db : Database)

/-- The writes `ws` insert the encodings of subtrees of `t` under their hashes. -/
def InsertsOf (t : Tree) (ws : List Write) : Prop :=
  ∀ h b, .insert h b ∈ ws → ∃ u : Tree, u.Subtree t ∧ IsNode u ∧ h = hashOf keccak u ∧ b = encOf keccak u

/-- What `hash` returns, the collapsed node, the copy with hashes cached and the writes, for a
node that stands for `t`: the collapsed node refers to `t` as its parent does, and the
copy stands for `t` in any database that extends `db` and holds what was inserted. -/
structure Collapse (top commit : Bool) (t : Tree) (out : Node × Node × List Write) : Prop where
  hashed : top = true ∨ Big keccak t → out.1 = .hash (hashOf keccak t)
  embedded : ¬(top = true ∨ Big keccak t) → out.1.toItem = itemOf keccak t ∧ out.1.hashOf? = none
  blocks : Blocks out.2.2
  inserts : InsertsOf keccak t out.2.2
  noWrites : commit = false → out.2.2 = []
  cached : ∀ db', db.Extends db' → db'.Written out.2.2 → Repr keccak db' top out.2.1 t
  stored : commit = true → ∀ db', db.Extends db' → db'.Written out.2.2 →
    Complete keccak db' t ∧ (top = true ∨ Big keccak t → InDb keccak db' t)

/-- What `hashChildren` returns for a node with the flag `flags` that stands for `t`: the
collapsed node has the encoding of `t` and still the flag's hash; the copy stands for `t`
once it gets a flag that does. -/
structure ChildrenOut (top commit : Bool) (flags : NodeFlag) (t : Tree) (out : Node × Node × List Write) :
    Prop where
  item : out.1.toItem = itemOf keccak t
  cache : out.1.cache.1 = flags.hash
  blocks : Blocks out.2.2
  inserts : InsertsOf keccak t out.2.2
  noWrites : commit = false → out.2.2 = []
  cached : ∀ db', db.Extends db' → db'.Written out.2.2 → ∀ hashed,
    FlagOk keccak db' top { flags with hash := hashed, dirty := if commit then false else flags.dirty } t →
    Repr keccak db' top (Hasher.withHash out.2.1 hashed commit) t
  complete : commit = true → ∀ db', db.Extends db' → db'.Written out.2.2 → Complete keccak db' t

variable {keccak db}

theorem InsertsOf.nil {t : Tree} : InsertsOf keccak t [] := fun _ _ member => nomatch member

theorem InsertsOf.append {t : Tree} {ws ws' : List Write} (first : InsertsOf keccak t ws)
    (second : InsertsOf keccak t ws') : InsertsOf keccak t (ws ++ ws') := by
  intro h b member
  rcases List.mem_append.mp member with inFirst | inSecond
  · exact first h b inFirst
  · exact second h b inSecond

theorem InsertsOf.mono {t t' : Tree} {ws : List Write} (inserts : InsertsOf keccak t ws)
    (below : ∀ u : Tree, u.Subtree t → u.Subtree t') : InsertsOf keccak t' ws := by
  intro h b member
  obtain ⟨u, sub, node, hash, blob⟩ := inserts h b member
  exact ⟨u, below u sub, node, hash, blob⟩

theorem Blocks.single {hash : Hash} {blob : Bytes} {refs : List Write}
    (fromNode : ∀ w ∈ refs, ∃ child, w = .reference child hash) : Blocks (.insert hash blob :: refs) := by
  simpa using Blocks.block fromNode Blocks.nil

theorem childRef_node {c : Tree} (node : IsNode c) :
    childRef keccak (itemOf keccak c) c =
      if (encOf keccak c).length < 32 then itemOf keccak c else .str (hashOf keccak c).bytes := by
  cases c with
  | ext _ _ | branch _ => rfl
  | empty | leaf _ => exact absurd node id

/-- A child collapsed below its parent is what its parent's encoding holds for it. -/
theorem Collapse.childRef {commit : Bool} {c : Tree} {out : Node × Node × List Write} (node : IsNode c)
    (collapse : Collapse keccak db false commit c out) :
    out.1.toItem = childRef keccak (itemOf keccak c) c ∧ out.1 ≠ .nil := by
  rw [childRef_node node]
  by_cases big : Big keccak c
  · rw [if_neg (Nat.not_lt.mpr big), collapse.hashed (.inr big)]
    exact ⟨rfl, nofun⟩
  · have embedded := collapse.embedded (by simpa using big)
    rw [if_pos (Nat.lt_of_not_le big), embedded.1]
    exact ⟨rfl, (hashOf?_of_item keccak node embedded.1).2⟩

theorem Repr.cached_hash {top : Bool} {n : Node} {t : Tree} (repr : Repr keccak db top n t) {hv : Hash}
    (cached : n.cache.1 = some hv) :
    hv = hashOf keccak t ∧ (top = true ∨ Big keccak t) ∧ (n.cache.2 = false → Stored keccak db t) := by
  cases repr with
  | short _ _ _ flags _ _ ok | full _ _ flags _ _ ok => exact ok.cached hv cached
  | nil | value | hash => cases cached

/-- The result of `hash` for a node of the database that it does not walk. -/
theorem Collapse.of_hash {top commit : Bool} {t : Tree} {cachedN : Node} (big : top = true ∨ Big keccak t)
    (cached : ∀ db', db.Extends db' → Repr keccak db' top cachedN t)
    (stored : commit = true → Stored keccak db t) :
    Collapse keccak db top commit t (.hash (hashOf keccak t), cachedN, []) where
  hashed _ := rfl
  embedded small := absurd big small
  blocks := .nil
  inserts := .nil
  noWrites _ := rfl
  cached db' ext _ := cached db' ext
  stored committing _ ext _ := ⟨((stored committing).1.mono ext), fun _ => (stored committing).2.mono ext⟩

theorem Node.clean_of_canUnload {n : Node} {cachegen cachelimit : UInt16}
    (unload : n.canUnload cachegen cachelimit = true) : n.cache.2 = false := by
  cases n with
  | full _ flags | short _ _ flags =>
    simp only [Node.canUnload, NodeFlag.canUnload, Bool.and_eq_true, Bool.not_eq_true'] at unload
    exact unload.1
  | hash _ | value _ | nil => cases unload

/-- A node whose flag holds its hash: `hash` returns that hash and the node itself, or its
hash node if it is unloaded. -/
theorem collapse_cached (h : Hasher) {top commit : Bool} {n : Node} {t : Tree} (repr : Repr keccak db top n t)
    (node : IsNode t) {hashed cachedN : Node} (cached : h.cached n commit = some (hashed, cachedN)) :
    Collapse keccak db top commit t (hashed, cachedN, []) := by
  unfold Hasher.cached at cached
  split at cached
  next hv dirty cache =>
    obtain ⟨same, big, stored⟩ := repr.cached_hash (by rw [cache])
    have clean : dirty = false → Stored keccak db t := by simpa [cache] using stored
    subst same
    split_ifs at cached with hashing unload notDirty <;> cases cached
    · -- only hashing: the node is kept as it is
      exact Collapse.of_hash big (fun db' ext => repr.mono ext) fun committing => by simp [committing] at hashing
    · -- committed long ago: unloaded
      have stored := clean (by simpa [cache] using Node.clean_of_canUnload unload)
      exact Collapse.of_hash big (fun db' ext => .hash top t node (stored.mono ext) big) fun _ => stored
    · have stored := clean (by simpa using notDirty)
      exact Collapse.of_hash big (fun db' ext => repr.mono ext) fun _ => stored
  next => cases cached

theorem cached_eq_none {h : Hasher} {n : Node} {commit : Bool} (cached : h.cached n commit = none)
    (hashing : commit = false) : n.cache.1 = none := by
  subst hashing
  unfold Hasher.cached at cached
  split at cached
  · simp at cached
  next cache => rw [cache]

/-- A node that `hash` walks: its children collapsed, it is stored, hashed when it is the
root or big and else embedded, and its copy gets the hash it was given. -/
theorem collapse_walk {top commit : Bool} {flags : NodeFlag} {t : Tree} (node : IsNode t)
    (flagOk : FlagOk keccak db top flags t) (walked : commit = false → flags.hash = none)
    {collapsed cachedN : Node} {ws : List Write}
    (children : ChildrenOut keccak db top commit flags t (collapsed, cachedN, ws))
    {hashed : Node} {writes : List Write}
    (stores : Hasher.store keccak collapsed commit top = (hashed, writes)) :
    Collapse keccak db top commit t (hashed, Hasher.withHash cachedN hashed.hashOf? commit, ws ++ writes) := by
  rw [store_node keccak node children.item] at stores
  by_cases small : (encOf keccak t).length < 32 ∧ (!top) = true
  · -- embedded in its parent: nothing written, no hash cached
    rw [if_pos small] at stores
    obtain ⟨rfl, rfl⟩ := Prod.mk.inj stores
    have notHashed : ¬(top = true ∨ Big keccak t) := by
      simp only [Bool.not_eq_true'] at small
      simp [Big, small.2, small.1]
    rw [(hashOf?_of_item keccak node children.item).1, List.append_nil]
    exact {
      hashed := fun big => absurd big notHashed
      embedded := fun _ => ⟨children.item, (hashOf?_of_item keccak node children.item).1⟩
      blocks := children.blocks
      inserts := children.inserts
      noWrites := children.noWrites
      cached := fun db' ext written => children.cached db' ext written none
        ⟨fun _ none => (by cases none), fun _ _ => (by simpa [Big] using notHashed)⟩
      stored := fun committing db' ext written =>
        ⟨children.complete committing db' ext written, fun big => absurd big notHashed⟩ }
  · -- hashed: under the hash its flag holds, which is that of `t`
    rw [if_neg small] at stores
    obtain ⟨rfl, rfl⟩ := Prod.mk.inj stores
    have isHashed : top = true ∨ Big keccak t := by
      by_cases root : top = true
      · exact .inl root
      · exact .inr (by simp only [Big]; simp_all)
    have hash : collapsed.cache.1.getD (keccak (encOf keccak t)) = hashOf keccak t := by
      rw [children.cache]
      cases cachedHash : flags.hash with
      | none => rfl
      | some h => exact (flagOk.cached h cachedHash).1
    rw [hash]
    have inserted : ∀ db', db'.Written (ws ++ if commit then .insert (hashOf keccak t) (encOf keccak t) ::
        Hasher.childReferences collapsed (hashOf keccak t) else []) → commit = true → InDb keccak db' t :=
      fun db' written committing => written _ _ (by simp [committing])
    refine {
      hashed := fun _ => rfl
      embedded := fun small => absurd isHashed small
      blocks := children.blocks.append ?_
      inserts := children.inserts.append ?_
      noWrites := fun hashing => by
        rw [show ws = [] from children.noWrites hashing]
        simp [hashing]
      cached := fun db' ext written => children.cached db' ext written.left _
        ⟨fun h same => ?_, fun _ none => (by cases none)⟩
      stored := fun committing db' ext written =>
        ⟨children.complete committing db' ext written.left, fun _ => inserted db' written committing⟩ }
    · cases commit
      · exact .nil
      · exact Blocks.single (childReferences_refs _ _)
    · intro h b member
      cases commit
      · cases member
      · rcases List.mem_cons.mp member with written | reference
        · obtain ⟨rfl, rfl⟩ := Write.insert.inj written
          exact ⟨t, .refl t, node, rfl, rfl⟩
        · obtain ⟨child, impossible⟩ := childReferences_refs _ _ _ reference
          cases impossible
    · -- a clean copy with a hash is stored: by this commit, or it was not walked
      obtain rfl := Option.some.inj same
      refine ⟨rfl, isHashed, fun clean => ?_⟩
      cases commit
      · have embedded := flagOk.embedded (by simpa using clean) (walked rfl)
        simp [embedded.1, Big] at isHashed
        exact absurd isHashed embedded.2
      · exact ⟨children.complete rfl db' ext written.left, inserted db' written rfl⟩

end Collapse

/-! ### Walking the children -/

section Children

variable {keccak : Bytes → Hash} {db : Database}

theorem isNode_of {c : Tree} (occupied : c ≠ .empty) (notLeaf : ¬IsLeaf c) : IsNode c := by
  cases c with
  | ext _ _ | branch _ => trivial
  | empty => exact occupied rfl
  | leaf _ => exact notLeaf trivial

/-- The value slot of a full node holds no node of the database. -/
theorem complete_of_last {c : Tree} (last : c = .empty ∨ IsLeaf c) :
    Complete keccak db c ∧ (Hashed keccak c → InDb keccak db c) := by
  rcases last with rfl | leaf
  · exact ⟨trivial, fun hashed => absurd hashed.1 id⟩
  · cases c with
    | leaf _ => exact ⟨trivial, fun hashed => absurd hashed.1 id⟩
    | _ => exact absurd leaf id

/-- The children of a short node: a value is kept, a full or hash node is hashed below it. -/
theorem hashChildren_short (h : Hasher) {top commit : Bool} {key : List Nibble} {val : Node}
    {flags : NodeFlag} {c : Tree} (reprVal : Repr keccak db false val c) (shaped : Shaped (.ext key c))
    (ih : Shaped c → IsNode c → ∃ out, h.hash keccak val commit false = some out ∧
      Collapse keccak db false commit c out) :
    ∃ out, h.hashChildren keccak (.short key val flags) commit = some out ∧
      ChildrenOut keccak db top commit flags (.ext key c) out := by
  obtain ⟨-, -, extensible, -, shapedC⟩ := shaped
  cases c with
  | leaf v =>
    -- the value stays in the short node
    obtain rfl := reprVal.eq_value
    refine ⟨_, by rw [Hasher.hashChildren], ?_⟩
    exact {
      item := rfl
      cache := rfl
      blocks := .nil
      inserts := .nil
      noWrites := fun _ => rfl
      cached := fun _ _ _ _ ok => .short top key (.value v) _ (.leaf v) (.value false v) ok
      complete := fun _ _ _ _ => ⟨trivial, fun hashed => absurd hashed.1 id⟩ }
  | branch cs =>
    have node : IsNode (PTree.branch cs) := trivial
    obtain ⟨⟨collapsedV, cachedV, ws⟩, hashV, collapse⟩ := ih shapedC node
    obtain ⟨item, notNil⟩ := collapse.childRef node
    have notValue : ∀ v, val ≠ .value v := by
      rintro v rfl
      cases reprVal
    rw [Hasher.hashChildren]
    swap
    · exact notValue
    rw [hashV]
    refine ⟨_, rfl, ?_⟩
    exact {
      item := by simp only [Node.toItem, itemOf, item]
      cache := rfl
      blocks := collapse.blocks
      inserts := collapse.inserts.mono fun u sub => .ext key sub
      noWrites := collapse.noWrites
      cached := fun db' ext written _ ok => .short top key cachedV _ _ (collapse.cached db' ext written) ok
      complete := fun committing db' ext written =>
        have stored := collapse.stored committing db' ext written
        ⟨stored.1, fun hashed => stored.2 (.inr hashed.2)⟩ }
  | empty | ext _ _ => exact absurd extensible id

variable (keccak db)

/-- The state of the loop of `hashChildren` over the first sixteen children of a full node,
after the children `done`: their collapsed forms are what the encoding of the branch
holds for them and their copies stand for their trees; the other children are untouched. -/
structure LoopInv (commit : Bool) (children : Fin 17 → Node) (cs : Fin 17 → Tree) (done : List (Fin 16))
    (st : (Fin 17 → Node) × (Fin 17 → Node) × List Write) : Prop where
  item : ∀ j ∈ done, (st.1 j.castSucc).toItem = childRef keccak (itemOf keccak (cs j.castSucc)) (cs j.castSucc)
  todo : ∀ j : Fin 17, (∀ k ∈ done, j ≠ k.castSucc) → st.1 j = children j ∧ st.2.1 j = children j
  blocks : Blocks st.2.2
  inserts : InsertsOf keccak (.branch cs) st.2.2
  noWrites : commit = false → st.2.2 = []
  cached : ∀ db', db.Extends db' → db'.Written st.2.2 → ∀ j ∈ done,
    Repr keccak db' false (st.2.1 j.castSucc) (cs j.castSucc) ∧ (commit = true →
      Complete keccak db' (cs j.castSucc) ∧ (Hashed keccak (cs j.castSucc) → InDb keccak db' (cs j.castSucc)))

variable {keccak db}

theorem LoopInv.start {commit : Bool} {children : Fin 17 → Node} {cs : Fin 17 → Tree} :
    LoopInv keccak db commit children cs [] (children, children, []) where
  item _ member := nomatch member
  todo _ _ := ⟨rfl, rfl⟩
  blocks := .nil
  inserts := .nil
  noWrites _ := rfl
  cached _ _ _ _ member := nomatch member

/-- One round of the loop: the child `x` is collapsed, unless it is `nil`, which becomes an
empty value. -/
theorem LoopInv.step (h : Hasher) {commit : Bool} {children : Fin 17 → Node} {cs : Fin 17 → Tree}
    (reprs : ∀ i, Repr keccak db false (children i) (cs i)) (shaped : Shaped (.branch cs))
    (ih : ∀ i, Shaped (cs i) → IsNode (cs i) → ∃ out, h.hash keccak (children i) commit false = some out ∧
      Collapse keccak db false commit (cs i) out)
    {pre : List (Fin 16)} {x : Fin 16} {rest : List (Fin 16)} (split : List.finRange 16 = pre ++ x :: rest)
    {collapsed cachedChildren : Fin 17 → Node} {writes : List Write}
    (inv : LoopInv keccak db commit children cs pre (collapsed, cachedChildren, writes)) :
    ∃ acc', (match children x.castSucc with
      | .nil => some (Function.update collapsed x.castSucc (.value []), cachedChildren, writes)
      | _ => do
        let (c, cc, w) ← h.hash keccak (children x.castSucc) commit false
        pure (Function.update collapsed x.castSucc c, Function.update cachedChildren x.castSucc cc,
          writes ++ w)) = some acc' ∧ LoopInv keccak db commit children cs (pre ++ [x]) acc' := by
  have fresh : x ∉ pre := fun member =>
    (List.nodup_append.mp (split ▸ List.nodup_finRange 16)).2.2 x member x List.mem_cons_self rfl
  have others : ∀ j ∈ pre, j.castSucc ≠ x.castSucc := fun j member same =>
    fresh (Fin.castSucc_injective 16 same ▸ member)
  have untouched := inv.todo x.castSucc fun k member same => others k member same.symm
  obtain ⟨-, notLeaf, -, shapedChildren⟩ := shaped
  by_cases nil : children x.castSucc = .nil
  · -- an empty slot: written as the empty string
    have empty : cs x.castSucc = .empty := ((reprs x.castSucc).nil_iff).mp nil
    rw [nil]
    refine ⟨_, rfl, {
      item := fun j member => ?_
      todo := fun j away => ?_
      blocks := inv.blocks
      inserts := inv.inserts
      noWrites := inv.noWrites
      cached := fun db' ext written j member => ?_ }⟩
    · dsimp only
      rcases List.mem_append.mp member with old | new
      · rw [Function.update_of_ne (others j old)]
        exact inv.item j old
      · obtain rfl := List.mem_singleton.mp new
        rw [Function.update_self, empty]
        rfl
    · have notX : j ≠ x.castSucc := away x (by simp)
      dsimp only
      rw [Function.update_of_ne notX]
      exact inv.todo j fun k member => away k (List.mem_append_left _ member)
    · rcases List.mem_append.mp member with old | new
      · exact inv.cached db' ext written j old
      · obtain rfl := List.mem_singleton.mp new
        rw [untouched.2, nil, empty]
        exact ⟨.nil false, fun _ => complete_of_last (.inl rfl)⟩
  · -- a node: hashed below the branch
    have occupied : cs x.castSucc ≠ .empty := fun empty => nil (((reprs x.castSucc).nil_iff).mpr empty)
    have node := isNode_of occupied (notLeaf x.castSucc (castSucc_ne_sixteen x))
    obtain ⟨⟨c, cc, w⟩, hashC, collapse⟩ := ih x.castSucc (shapedChildren _) node
    split
    · contradiction
    rw [hashC]
    refine ⟨_, rfl, {
      item := fun j member => ?_
      todo := fun j away => ?_
      blocks := inv.blocks.append collapse.blocks
      inserts := inv.inserts.append (collapse.inserts.mono fun u sub => .branch cs x.castSucc sub)
      noWrites := fun hashing => ?_
      cached := fun db' ext written j member => ?_ }⟩
    · dsimp only
      rcases List.mem_append.mp member with old | new
      · rw [Function.update_of_ne (others j old)]
        exact inv.item j old
      · obtain rfl := List.mem_singleton.mp new
        rw [Function.update_self]
        exact (collapse.childRef node).1
    · have notX : j ≠ x.castSucc := away x (by simp)
      dsimp only
      rw [Function.update_of_ne notX, Function.update_of_ne notX]
      exact inv.todo j fun k member => away k (List.mem_append_left _ member)
    · show writes ++ w = []
      rw [show writes = [] from inv.noWrites hashing, show w = [] from collapse.noWrites hashing, List.append_nil]
    · dsimp only
      rcases List.mem_append.mp member with old | new
      · rw [Function.update_of_ne (others j old)]
        exact inv.cached db' ext written.left j old
      · obtain rfl := List.mem_singleton.mp new
        rw [Function.update_self]
        refine ⟨collapse.cached db' ext written.right, fun committing => ?_⟩
        have stored := collapse.stored committing db' ext written.right
        exact ⟨stored.1, fun hashed => stored.2 (.inr hashed.2)⟩

/-- The children of a full node: the first sixteen collapsed in order, `nil` ones written as
empty values, and the value slot kept. -/
theorem hashChildren_full (h : Hasher) {top commit : Bool} {children : Fin 17 → Node} {flags : NodeFlag}
    {cs : Fin 17 → Tree} (reprs : ∀ i, Repr keccak db false (children i) (cs i)) (shaped : Shaped (.branch cs))
    (ih : ∀ i, Shaped (cs i) → IsNode (cs i) → ∃ out, h.hash keccak (children i) commit false = some out ∧
      Collapse keccak db false commit (cs i) out) :
    ∃ out, h.hashChildren keccak (.full children flags) commit = some out ∧
      ChildrenOut keccak db top commit flags (.branch cs) out := by
  rw [Hasher.hashChildren]
  refine foldlM_bind_invariant (LoopInv keccak db commit children cs) _ (List.finRange 16) LoopInv.start
    (fun pre x rest acc split inv => ?_) (fun out inv => ?_)
  · obtain ⟨collapsed, cachedChildren, writes⟩ := acc
    exact inv.step h reprs shaped ih split
  obtain ⟨collapsed, cachedChildren, writes⟩ := out
  have last := shaped.2.2.1
  have untouched : collapsed 16 = children 16 ∧ cachedChildren 16 = children 16 :=
    inv.todo 16 fun k _ same => castSucc_ne_sixteen k same.symm
  -- the full node, whatever the collapsed value slot is
  have done : ∀ collapsed' : Fin 17 → Node,
      (collapsed' 16).toItem = childRef keccak (itemOf keccak (cs 16)) (cs 16) →
      (∀ j : Fin 16, collapsed' j.castSucc = collapsed j.castSucc) →
      ChildrenOut keccak db top commit flags (.branch cs)
        (.full collapsed' flags, .full cachedChildren flags, writes) := by
    intro collapsed' atLast below
    have reprAll : ∀ db', db.Extends db' → db'.Written writes → ∀ i,
        Repr keccak db' false (cachedChildren i) (cs i) := by
      intro db' ext written i
      induction i using Fin.lastCases with
      | last =>
        show Repr keccak db' false (cachedChildren 16) (cs 16)
        rw [untouched.2]
        exact (reprs 16).mono ext
      | cast j => exact (inv.cached db' ext written j (List.mem_finRange j)).1
    refine {
      item := ?_
      cache := rfl
      blocks := inv.blocks
      inserts := inv.inserts
      noWrites := inv.noWrites
      cached := fun db' ext written _ ok => .full top cachedChildren _ cs (reprAll db' ext written) ok
      complete := fun committing db' ext written i => ?_ }
    · simp only [Node.toItem, itemOf]
      congr 1
      apply congrArg List.ofFn
      funext i
      induction i using Fin.lastCases with
      | last => exact atLast
      | cast j => exact (below j).symm ▸ inv.item j (List.mem_finRange j)
    · induction i using Fin.lastCases with
      | last => exact complete_of_last last
      | cast j => exact (inv.cached db' ext written j (List.mem_finRange j)).2 committing
  dsimp only
  split
  next nil =>
    -- no value: the slot is written as the empty string
    have empty : cs 16 = .empty := ((reprs 16).nil_iff).mp nil
    refine ⟨_, rfl, done _ (by rw [Function.update_self, empty]; rfl) fun j => ?_⟩
    exact Function.update_of_ne (castSucc_ne_sixteen j) _ _
  next notNil =>
    -- a value, which the slot keeps
    obtain ⟨v, leaf⟩ : ∃ v, cs 16 = .leaf v := by
      rcases last with empty | isLeaf
      · exact absurd (((reprs 16).nil_iff).mpr empty) notNil
      · cases found : cs 16 with
        | leaf v => exact ⟨v, rfl⟩
        | _ => simp [found, IsLeaf] at isLeaf
    have value := (leaf ▸ reprs 16).eq_value
    refine ⟨_, rfl, done _ ?_ fun j => rfl⟩
    rw [untouched.1, value, leaf]
    rfl

end Children

/-! ### The hasher and the root -/

section Hash

variable (keccak : Bytes → Indigo.Hash) (db : Database)

/-- `hash` over a node that stands for a shaped tree of the database. -/
theorem Hasher.hash_spec (h : Hasher) (commit : Bool) {top : Bool} {n : Node} {t : Tree}
    (repr : Repr keccak db top n t) (shaped : Shaped t) (node : IsNode t) :
    ∃ out, h.hash keccak n commit top = some out ∧ Collapse keccak db top commit t out := by
  induction repr with
  | nil | value => exact absurd node id
  | hash top t node stored big =>
    -- a hash node is returned as it is, and the database already holds its tree
    refine ⟨_, ?_, Collapse.of_hash big (fun db' ext => .hash top t node (stored.mono ext) big) fun _ => stored⟩
    simp [Hasher.hash, Hasher.cached, Node.cache, Hasher.hashChildren, Hasher.store, Hasher.withHash]
  | short top key val flags c reprVal flagOk ih =>
    rw [Hasher.hash]
    swap
    · exact nofun
    cases cached : h.cached (.short key val flags) commit with
    | some r => exact ⟨_, rfl, collapse_cached h (.short top key val flags c reprVal flagOk) node cached⟩
    | none =>
      obtain ⟨⟨collapsed, cachedN, ws⟩, children, childrenOut⟩ : ∃ out, _ ∧
          ChildrenOut keccak db top commit flags (.ext key c) out := hashChildren_short h reprVal shaped ih
      cases stores : Hasher.store keccak collapsed commit top with
      | mk hashed writes =>
        rw [children]
        simp only [Option.bind_eq_bind, Option.bind_some, stores]
        exact ⟨_, rfl, collapse_walk node flagOk (cached_eq_none cached) childrenOut stores⟩
  | full top children flags cs reprs flagOk ih =>
    rw [Hasher.hash]
    swap
    · exact nofun
    cases cached : h.cached (.full children flags) commit with
    | some r => exact ⟨_, rfl, collapse_cached h (.full top children flags cs reprs flagOk) node cached⟩
    | none =>
      obtain ⟨⟨collapsed, cachedN, ws⟩, walked, childrenOut⟩ : ∃ out, _ ∧
          ChildrenOut keccak db top commit flags (.branch cs) out := hashChildren_full h reprs shaped ih
      cases stores : Hasher.store keccak collapsed commit top with
      | mk hashed writes =>
        rw [walked]
        simp only [Option.bind_eq_bind, Option.bind_some, stores]
        exact ⟨_, rfl, collapse_walk node flagOk (cached_eq_none cached) childrenOut stores⟩

/-- What `hashRoot` returns for a trie whose root stands for `t`. -/
structure RootOut (commit : Bool) (t : Tree) (out : Node × Node × List Write) : Prop where
  hashed : out.1 = .hash (rootHash keccak t)
  blocks : Blocks out.2.2
  inserts : InsertsOf keccak t out.2.2
  noWrites : commit = false → out.2.2 = []
  cached : ∀ db', db.Extends db' → db'.Written out.2.2 → Repr keccak db' true out.2.1 t
  stored : commit = true → ∀ db', db.Extends db' → db'.Written out.2.2 → t = .empty ∨ Stored keccak db' t

theorem rootHash_of_node {t : Tree} (node : IsNode t) : rootHash keccak t = hashOf keccak t := by
  cases t with
  | ext _ _ | branch _ => rfl
  | empty | leaf _ => exact absurd node id

/-- `hashRoot`: `emptyRoot` for an empty trie, else the root hashed whatever its size. -/
theorem Trie.hashRoot_spec (tr : Trie) (commit : Bool) {t : Tree} (repr : Repr keccak db true tr.root t)
    (shaped : Shaped t) (notLeaf : ¬IsLeaf t) :
    ∃ out, tr.hashRoot keccak commit = some out ∧ RootOut keccak db commit t out := by
  by_cases empty : t = .empty
  · subst empty
    have nil := repr.eq_nil
    refine ⟨_, by rw [Trie.hashRoot, nil], ?_⟩
    exact {
      hashed := rfl
      blocks := .nil
      inserts := .nil
      noWrites := fun _ => rfl
      cached := fun _ _ _ => .nil true
      stored := fun _ _ _ _ => .inl rfl }
  · have node := isNode_of empty notLeaf
    have notNil : tr.root ≠ .nil := fun nil => empty (repr.nil_iff.mp nil)
    obtain ⟨out, hashed, collapse⟩ := tr.hasher.hash_spec keccak db commit repr shaped node
    refine ⟨out, ?_, {
      hashed := by rw [collapse.hashed (.inl rfl), rootHash_of_node keccak node]
      blocks := collapse.blocks
      inserts := collapse.inserts
      noWrites := collapse.noWrites
      cached := collapse.cached
      stored := fun committing db' ext written =>
        have stored := collapse.stored committing db' ext written
        .inr ⟨stored.1, stored.2 (.inl rfl)⟩ }⟩
    rw [Trie.hashRoot]
    split
    · contradiction
    · exact hashed

/-- `Hash`: the root hash of the tree, and the trie, with the computed hashes cached, still
stands for it. -/
theorem Trie.hash_spec (tr : Trie) {t : Tree} (repr : Repr keccak db true tr.root t) (shaped : Shaped t)
    (notLeaf : ¬IsLeaf t) :
    ∃ root, tr.Hash keccak = some (rootHash keccak t, { tr with root := root }) ∧ Repr keccak db true root t := by
  obtain ⟨⟨hashed, root, ws⟩, hashRoot, out⟩ := tr.hashRoot_spec keccak db false repr shaped notLeaf
  have noWrites : ws = [] := out.noWrites rfl
  subst noWrites
  refine ⟨root, ?_, out.cached db (Database.Extends.refl db) fun _ _ member => nomatch member⟩
  simp [Trie.Hash, hashRoot, show hashed = _ from out.hashed, Node.hashOf?]

/-- `Commit`: the writes of the hasher go through; the trie, in a new cache generation,
stands for the same tree in the new database, with its root stored, once the database can
read back what was inserted. -/
theorem Trie.commit_spec (tr : Trie) (newest : db.NewestCached) {t : Tree} (repr : Repr keccak db true tr.root t)
    (shaped : Shaped t) (notLeaf : ¬IsLeaf t) :
    ∃ root ws db', tr.Commit keccak db = some (rootHash keccak t, { tr with root := root, cachegen := tr.cachegen + 1 }, db') ∧
      Blocks ws ∧ InsertsOf keccak t ws ∧ db.Keeps db' ∧ db'.NewestCached ∧
      db.AddsOnly db' (fun h b => .insert h b ∈ ws) ∧ (∀ h b, .insert h b ∈ ws → (db'.nodes h).isSome) ∧
      (db.Extends db' → db'.Written ws → Repr keccak db' true root t ∧ (t = .empty ∨ Stored keccak db' t)) := by
  obtain ⟨⟨hashed, root, ws⟩, hashRoot, out⟩ := tr.hashRoot_spec keccak db true repr shaped notLeaf
  obtain ⟨db', written, keeps, newest', adds, cached⟩ := Database.writeAll_spec out.blocks newest
  refine ⟨root, ws, db', ?_, out.blocks, out.inserts, keeps, newest', adds, cached,
    fun ext readable => ⟨out.cached db' ext readable, out.stored rfl db' ext readable⟩⟩
  simp [Trie.Commit, hashRoot, written, show hashed = _ from out.hashed, Node.hashOf?]

/-! ### Reading back what is stored -/

/-- The collapsed node of a short or full node, which `store` encodes and writes, decodes to the
node `decodedOf` describes: the key in hex form, the values in place, the children hashed by
`store` as hash nodes and the embedded ones decoded in place. -/
theorem hashChildren_encode_decodes (h : Hasher) (commit : Bool) {top : Bool} {n : Node} {t : Tree}
    (repr : Repr keccak db top n t) (shaped : Shaped t) (bounded : Bounded t) (node : IsNode t)
    (loaded : n.hashOf? = none) (hash : Option Indigo.Hash) (gen : UInt16) :
    ∃ out, h.hashChildren keccak n commit = some out ∧
      decodeNode hash out.1.encode gen = some (.ok (decodedOf keccak hash gen t)) := by
  have decodes := decodeNode_encOf_eq keccak shaped bounded node hash gen []
  rw [List.append_nil] at decodes
  -- the collapsed node carries the item of the tree, so its encoding is the tree's
  have readBack : ∀ {flags : NodeFlag} {out : Node × Node × List Write},
      ChildrenOut keccak db top commit flags t out →
        decodeNode hash out.1.encode gen = some (.ok (decodedOf keccak hash gen t)) := by
    intro flags out children
    rw [Node.encode, children.item]
    exact decodes
  cases repr with
  | nil | value => exact absurd node id
  | hash => simp [Node.hashOf?] at loaded
  | short top key val flags c reprVal flagOk =>
    obtain ⟨out, walked, children⟩ : ∃ out, _ ∧ ChildrenOut keccak db top commit flags (.ext key c) out :=
      hashChildren_short h reprVal shaped fun shapedC nodeC =>
        Hasher.hash_spec keccak db h commit reprVal shapedC nodeC
    exact ⟨out, walked, readBack children⟩
  | full top children flags cs reprs flagOk =>
    obtain ⟨out, walked, childrenOut⟩ : ∃ out, _ ∧ ChildrenOut keccak db top commit flags (.branch cs) out :=
      hashChildren_full h reprs shaped fun i shapedI nodeI =>
        Hasher.hash_spec keccak db h commit (reprs i) shapedI nodeI
    exact ⟨out, walked, readBack childrenOut⟩

/-- The tree of the key `[1]` with the value `[5]`. -/
def leafExt : Tree := .ext [1, terminator] (.leaf [5])

/-- A short node for `leafExt`, changed since it was last hashed. -/
def leafShort : Node := .short [1, terminator] (.value [5]) { hash := none, gen := 0, dirty := true }

theorem hashChildren_encode_decodes_leaf :
    Repr (fun _ => Hash.zero) (Database.NewDatabase fun _ => none) true leafShort leafExt ∧
      Shaped leafExt ∧ Bounded leafExt ∧ IsNode leafExt ∧ leafShort.hashOf? = none ∧
      ∃ out, (Hasher.mk 0 0).hashChildren (fun _ => Hash.zero) leafShort false = some out ∧
        decodeNode none out.1.encode 0 = some (.ok (decodedOf (fun _ => Hash.zero) none 0 leafExt)) := by
  have repr : Repr (fun _ => Hash.zero) (Database.NewDatabase fun _ => none) true leafShort leafExt :=
    .short true _ _ _ _ (.value false [5]) ⟨fun _ cached => (by cases cached), fun clean _ => (by cases clean)⟩
  have shaped : Shaped leafExt :=
    ⟨List.cons_ne_nil _ _, ⟨[1], by decide, .inr rfl⟩, trivial, by simp [hasTerm, terminator, IsLeaf],
      List.cons_ne_nil _ _⟩
  have bounded : Bounded leafExt := by
    intro k v found
    obtain ⟨rest, rfl, atLeaf⟩ := (under_eq_some_iff _ _ _ _).mp found
    simp only [PTree.lookup_leaf] at atLeaf
    split at atLeaf
    · next empty =>
      cases atLeaf
      subst empty
      simp
    · cases atLeaf
  exact ⟨repr, shaped, bounded, trivial, rfl,
    hashChildren_encode_decodes _ _ _ false repr shaped bounded trivial rfl none 0⟩

end Hash

end Indigo.Trie
