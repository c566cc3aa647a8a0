import Indigo.Trie.Spec

/-!
# Decoding the stored nodes

`decodeNode` reads back what the hasher stores: decoding the encoding of the node a shaped
tree collapses to gives a node that stands for the same tree, its hashed children as hash
nodes and its small children decoded in place. This is how a node loaded from the
database (`resolveHash`) stands for the tree that was stored.

## Main results

- `small_itemOf`: the item of a shaped, bounded tree fits the sizes of RLP headers.
- `decodeNode_encOf_eq`: decoding a node's encoding gives exactly `decodedOf`, the node with
  the key in hex form, the values in place, hashed children as hash nodes and embedded
  children decoded in place.
- `decodeNode_encOf`: that node stands for the tree.
- `decodeNode_empty_key_panics`: a short node whose key is the empty string makes the
  decoder panic.

## Proof strategy

One lemma per function of the decoder says exactly what it returns on the encoding of a
tree (`decodeShort_ext`, `decodeFull_branch`, `decodeRef_child`); the round trip is then an
induction on the tree. That the decoded node stands for the tree is a separate induction
that decodes nothing (`repr_decodedOf`).
-/

namespace Indigo.Trie

open Indigo.Lib Indigo.Rlp

/-! ### Sizes -/

theorem length_header_le (small large : UInt8) {size : Nat} (bound : size < 2 ^ 64) :
    (header small large size).length ≤ 9 := by
  rw [length_header]
  split
  · omega
  · have := (length_beBytes_le_iff size 8).mpr (by simpa using bound)
    omega

theorem length_encode_str_le {bs : Bytes} (bound : bs.length < 2 ^ 64) :
    (Item.str bs).encode.length ≤ bs.length + 9 := by
  match bs with
  | [b] =>
    by_cases single : b < 0x80
    · simp [encode_str_single single]
    · have := length_header_le 0x80 0xB7 (show 1 < 2 ^ 64 by norm_num)
      simp [Item.encode, single]
      omega
  | [] => simp [Item.encode, header]
  | _ :: _ :: _ =>
    have := length_header_le 0x80 0xB7 bound
    simp only [Item.encode, List.length_append]
    omega

theorem length_encode_list_le {items : List Item} (bound : (Item.encodeAll items).length < 2 ^ 64) :
    (Item.list items).encode.length ≤ (Item.encodeAll items).length + 9 := by
  have := length_header_le 0xC0 0xF7 bound
  rw [encode_list, List.length_append]
  omega

theorem length_encodeAll_le (items : List Item) {b : Nat} (each : ∀ it ∈ items, it.encode.length ≤ b) :
    (Item.encodeAll items).length ≤ items.length * b := by
  induction items with
  | nil => simp
  | cons it rest ih =>
    have first := each it (by simp)
    have others := ih fun it member => each it (by simp [member])
    simp only [encodeAll_cons, List.length_append, List.length_cons]
    rw [Nat.add_mul, Nat.one_mul]
    omega

theorem length_encode_hash (h : Hash) : (Item.str h.bytes).encode.length = 33 := by
  have notSingle : ∀ b, h.bytes = [b] → 0x80 ≤ b := fun b single => by
    simpa [single] using h.length_bytes'
  rw [encode_str_of_not_single _ notSingle, List.length_append, length_header]
  simp

theorem smallAll_iff {items : List Item} : Item.SmallAll items ↔ ∀ it ∈ items, it.Small := by
  induction items with
  | nil => simp [Item.SmallAll]
  | cons it rest ih => simp [Item.SmallAll, ih]

theorem length_decodeNibbles_le (l : List Nibble) : (decodeNibbles l).length ≤ l.length := by
  match l with
  | [] => simp [decodeNibbles]
  | [_] => simp [decodeNibbles]
  | _ :: _ :: rest =>
    have := length_decodeNibbles_le rest
    simp only [decodeNibbles, List.length_cons]
    omega

theorem length_hexToCompact_le (p : List Nibble) : (hexToCompact p).length ≤ p.length + 1 := by
  have dropped : (if hasTerm p = true then p.dropLast else p).length ≤ p.length := by
    split <;> simp
  dsimp only [hexToCompact]
  generalize (if hasTerm p = true then p.dropLast else p) = hex at dropped ⊢
  cases hex with
  | nil => simp
  | cons first rest =>
    have := length_decodeNibbles_le rest
    have := length_decodeNibbles_le (first :: rest)
    simp only [List.length_cons] at dropped this ⊢
    split <;> simp only [List.length_cons] <;> omega

/-! ### The encodings of shaped trees fit -/

theorem Shaped.exists_lookup {t : Tree} (shaped : Shaped t) (occupied : t ≠ .empty) :
    ∃ k v, t.lookup k = some v := by
  induction t with
  | empty => exact absurd rfl occupied
  | leaf v => exact ⟨[], v, by simp [PTree.lookup_leaf]⟩
  | ext p c ih =>
    obtain ⟨k, v, found⟩ := ih shaped.2.2.2.2 shaped.2.2.1.ne_empty
    exact ⟨p ++ k, v, by simpa [PTree.lookup_ext] using found⟩
  | branch cs ih =>
    obtain ⟨a, _, _, left, _⟩ := shaped.1
    obtain ⟨k, v, found⟩ := ih a (shaped.2.2.2 a) left
    exact ⟨a :: k, v, by simpa [PTree.lookup_branch] using found⟩

section Sizes

variable (keccak : Bytes → Hash)

theorem Bounded.of_ext {p : List Nibble} {c : Tree} (bounded : Bounded (.ext p c)) : Bounded c := by
  intro k v found
  have bound := bounded (p ++ k) v (by simpa [PTree.lookup_ext] using found)
  simp only [List.length_append] at bound
  omega

theorem Bounded.of_branch {cs : Fin 17 → Tree} (bounded : Bounded (.branch cs)) (i : Fin 17) :
    Bounded (cs i) := by
  intro k v found
  have bound := bounded (i :: k) v (by simpa [PTree.lookup_branch] using found)
  simp only [List.length_cons] at bound
  omega

/-- A node child costs its parent 33 bytes at most: an embedded node under 32 bytes, or a
hash. -/
theorem childRef_of_node {c : Tree} (notLeaf : ¬IsLeaf c) (small : (itemOf keccak c).Small) :
    (childRef keccak (itemOf keccak c) c).Small ∧ (childRef keccak (itemOf keccak c) c).encode.length ≤ 33 := by
  cases c with
  | empty => simp [childRef, Item.Small, Item.encode, header]
  | leaf v => exact absurd trivial notLeaf
  | ext p c' | branch cs =>
    simp only [childRef]
    split
    · exact ⟨small, by omega⟩
    · exact ⟨by simp [Item.Small], by rw [length_encode_hash]⟩

/-- A value below a short node costs its parent its own encoding. -/
theorem leafRef_small {v : Bytes} (bound : v.length < 2 ^ 62) :
    (Item.str v).Small ∧ (Item.str v).encode.length ≤ v.length + 9 :=
  ⟨by simp only [Item.Small]; omega, length_encode_str_le (by omega)⟩

/-- A full node's item: sixteen references, then the value at index 16. -/
theorem itemOf_branch (cs : Fin 17 → Tree) :
    itemOf keccak (.branch cs) =
      .list ((List.ofFn fun i : Fin 16 => childRef keccak (itemOf keccak (cs i.castSucc)) (cs i.castSucc)) ++
        [childRef keccak (itemOf keccak (cs 16)) (cs 16)]) := by
  rw [itemOf, List.ofFn_succ', List.concat_eq_append]
  rfl

theorem small_itemOf {t : Tree} (shaped : Shaped t) (bounded : Bounded t) : (itemOf keccak t).Small := by
  induction t with
  | empty => simp [itemOf, Item.Small, Item.SmallAll]
  | leaf v => exact (leafRef_small (bounded [] v (by simp [PTree.lookup_leaf])).2).1
  | ext p c ih =>
    obtain ⟨_, _, below, _, shapedC⟩ := shaped
    -- the path is part of a key, so it is bounded too
    obtain ⟨k, v, found⟩ := shapedC.exists_lookup below.ne_empty
    have pathBound : p.length < 2 ^ 62 := by
      have := (bounded (p ++ k) v (by simpa [PTree.lookup_ext] using found)).1
      simp only [List.length_append] at this
      omega
    have keyLength := length_hexToCompact_le p
    have keyEnc := length_encode_str_le (show (hexToCompact p).length < 2 ^ 64 by omega)
    -- what the child costs: a value, or a node child of at most 33 bytes
    have child : (childRef keccak (itemOf keccak c) c).Small ∧
        (childRef keccak (itemOf keccak c) c).encode.length ≤ 2 ^ 62 + 9 := by
      cases c with
      | leaf w =>
        have bound := (bounded.of_ext [] w (by simp [PTree.lookup_leaf])).2
        obtain ⟨small, length⟩ := leafRef_small bound
        exact ⟨small, by simp only [childRef]; omega⟩
      | branch cs =>
        have := childRef_of_node keccak (c := .branch cs) (by simp [IsLeaf]) (ih shapedC bounded.of_ext)
        exact ⟨this.1, by omega⟩
      | empty => exact absurd below id
      | ext _ _ => exact absurd below id
    refine ⟨?_, by simp [Item.SmallAll, Item.Small, child.1]; omega⟩
    simp only [encodeAll_cons, encodeAll_nil, List.append_nil, List.length_append]
    omega
  | branch cs ih =>
    obtain ⟨_, notLeaf, last, shapedCs⟩ := shaped
    -- sixteen node children of 33 bytes at most, and the value at index 16
    have first : ∀ i : Fin 16, (childRef keccak (itemOf keccak (cs i.castSucc)) (cs i.castSucc)).Small ∧
        (childRef keccak (itemOf keccak (cs i.castSucc)) (cs i.castSucc)).encode.length ≤ 33 :=
      fun i => childRef_of_node keccak (notLeaf _ (by simpa [Fin.ext_iff] using i.isLt.ne))
        (ih _ (shapedCs _) (bounded.of_branch _))
    have final : (childRef keccak (itemOf keccak (cs 16)) (cs 16)).Small ∧
        (childRef keccak (itemOf keccak (cs 16)) (cs 16)).encode.length ≤ 2 ^ 62 + 9 := by
      rcases last with empty | isLeaf
      · rw [empty]
        simp [childRef, Item.Small, Item.encode, header]
      · cases found : cs 16 with
        | leaf v =>
          have bound := (bounded.of_branch 16 [] v (by simp [found, PTree.lookup_leaf])).2
          obtain ⟨small, length⟩ := leafRef_small bound
          exact ⟨small, by simp only [childRef]; omega⟩
        | _ => simp [found, IsLeaf] at isLeaf
    have firstLength := length_encodeAll_le
      (List.ofFn fun i : Fin 16 => childRef keccak (itemOf keccak (cs i.castSucc)) (cs i.castSucc)) (b := 33)
      (fun it member => by
        obtain ⟨i, rfl⟩ := List.mem_ofFn.mp member
        exact (first i).2)
    simp only [List.length_ofFn] at firstLength
    simp only [itemOf_branch, Item.Small, encodeAll_append, smallAll_append, List.length_append,
      encodeAll_cons, encodeAll_nil, List.append_nil]
    refine ⟨by omega, smallAll_iff.mpr fun it member => ?_, by simp [Item.SmallAll, final.1]⟩
    obtain ⟨i, rfl⟩ := List.mem_ofFn.mp member
    exact (first i).1

end Sizes

/-! ### The steps of the decoder -/

theorem castSucc_ne_sixteen (k : Fin 16) : k.castSucc ≠ (16 : Fin 17) := fun same => by
  have atLast := congrArg Fin.val same
  simp at atLast
  omega

/-- `decodeNode` on the encoding of a list: a short node for two values, a full node for
seventeen. -/
theorem decodeNode_list {items : List Item} (small : (Item.list items).Small) (hash : Option Hash)
    (rest : Bytes) (gen : UInt16) :
    decodeNode hash ((Item.list items).encode ++ rest) gen =
      if items.length = 2 then
        (decodeShort hash (Item.encodeAll items) gen).map fun r => r.mapError (wrapError · "short")
      else if items.length = 17 then
        (decodeFull hash (Item.encodeAll items) gen).map fun r => r.mapError (wrapError · "full")
      else some (.error (.invalidListElements items.length)) := by
  have nonempty : (Item.list items).encode ++ rest ≠ [] := by
    have := length_encode_pos (.list items)
    exact List.ne_nil_of_length_pos (by rw [List.length_append]; omega)
  rw [decodeNode, if_neg nonempty]
  split
  · next err split => simp [splitList_encode small] at split
  · next elems _ split =>
    rw [splitList_encode small, Except.ok.injEq, Prod.mk.injEq] at split
    obtain ⟨rfl, -⟩ := split
    rw [countValues_encodeAll items small.2]

/-! ### Malformed input -/

/-- `decodeShort` panics on a key that is the empty string, whatever follows it:
`compactToHex` indexes the first nibble of an empty key. -/
theorem decodeShort_empty_key (hash : Option Hash) (rest : Bytes) (gen : UInt16) :
    decodeShort hash ((Item.str []).encode ++ rest) gen = none := by
  have split := splitString_encode (show ([] : Bytes).length < 2 ^ 64 by simp) rest
  rw [decodeShort]
  split
  · next err split' => simp [split] at split'
  · next kbuf rest' split' =>
    rw [split, Except.ok.injEq, Prod.mk.injEq] at split'
    obtain ⟨rfl, rfl⟩ := split'
    rfl

/-- A list of two values whose first, the key, is the empty string makes `decodeNode` panic,
whatever the second. -/
theorem decodeNode_empty_key_panics {it : Item} (small : (Item.list [.str [], it]).Small)
    (hash : Option Hash) (rest : Bytes) (gen : UInt16) :
    decodeNode hash ((Item.list [.str [], it]).encode ++ rest) gen = none := by
  -- two values: the list is read as a short node
  have two : [Item.str [], it].length = 2 := rfl
  rw [decodeNode_list small, if_pos two, encodeAll_cons, decodeShort_empty_key]
  rfl

theorem decodeNode_empty_key_panics_c2 :
    (Item.list [.str [], .str []]).Small ∧ decodeNode none [0xC2, 0x80, 0x80] 0 = none := by
  have small : (Item.list [.str [], .str []]).Small := by
    simp [Item.Small, Item.SmallAll, Item.encodeAll, Item.encode, header]
  exact ⟨small, decodeNode_empty_key_panics small none [] 0⟩

/-- `decodeRef` after the first value of the buffer is split off. -/
theorem decodeRef_eq {buf val rest : Bytes} {kind : Kind} (split : Split buf = .ok (kind, val, rest))
    (gen : UInt16) :
    decodeRef buf gen =
      if kind = .List then
        if buf.length - rest.length > HashLength then
          some (.error (.oversizedEmbedded (buf.length - rest.length)))
        else (decodeNode none buf gen).map fun r => r.map (·, ⟨rest, split_rest_lt split⟩)
      else if kind = .String ∧ val.length = 0 then some (.ok (.nil, ⟨rest, split_rest_lt split⟩))
      else if h : kind = .String ∧ val.length = HashLength then
        some (.ok (.hash ⟨val, h.2⟩, ⟨rest, split_rest_lt split⟩))
      else some (.error (.invalidStringSize val.length)) := by
  rw [decodeRef]
  split
  · next err split' => simp [split] at split'
  · next kind' val' rest' split' =>
    rw [split, Except.ok.injEq, Prod.mk.injEq, Prod.mk.injEq] at split'
    obtain ⟨rfl, rfl, rfl⟩ := split'
    rfl

theorem decodeRef_empty (rest : Bytes) (gen : UInt16) :
    ∃ h, decodeRef ((Item.str []).encode ++ rest) gen = some (.ok (.nil, ⟨rest, h⟩)) := by
  have split := split_encode (.str []) (by simp [Item.Small]) rest
  rw [decodeRef_eq split]
  simp [Item.kind, Item.payload, length_encode_pos]

theorem decodeRef_hash (h : Hash) (rest : Bytes) (gen : UInt16) :
    ∃ p, decodeRef ((Item.str h.bytes).encode ++ rest) gen = some (.ok (.hash h, ⟨rest, p⟩)) := by
  have split := split_encode (.str h.bytes) (by simp [Item.Small]) rest
  have kind : (Item.str h.bytes).kind = .String := by
    match bytes : h.bytes, h.length_bytes' with
    | _ :: _ :: _, _ => rfl
  rw [decodeRef_eq split]
  simp [kind, Item.payload, length_encode_pos, HashLength]

/-- An embedded node is decoded in place, from the buffer of its parent. -/
theorem decodeRef_embedded {items : List Item} (small : (Item.list items).Small)
    (short : (Item.list items).encode.length < 32) (rest : Bytes) (gen : UInt16) :
    ∃ p, decodeRef ((Item.list items).encode ++ rest) gen =
      (decodeNode none ((Item.list items).encode ++ rest) gen).map fun r => r.map (·, ⟨rest, p⟩) := by
  have split := split_encode (.list items) small rest
  have size : ¬((Item.list items).encode ++ rest).length - rest.length > HashLength := by
    simp only [List.length_append, HashLength]
    omega
  rw [decodeRef_eq split, if_pos (show (Item.list items).kind = .List from rfl), if_neg size]
  exact ⟨_, rfl⟩

/-- The loop of `decodeFull` over sixteen references, each of which decodes to a node with
the property `P` of its index. It fills the children from `i` on and leaves the others. -/
theorem decodeChildren_ofFn {refs : Fin 16 → Item} {P : Fin 17 → Node → Prop} {gen : UInt16}
    (each : ∀ j rest, ∃ n h, decodeRef ((refs j).encode ++ rest) gen = some (.ok (n, ⟨rest, h⟩)) ∧
      P j.castSucc n)
    (rest : Bytes) (k : Nat) :
    ∀ i (acc : Fin 17 → Node), i + k = 16 →
      ∃ acc', decodeChildren i acc (Item.encodeAll ((List.ofFn refs).drop i) ++ rest) gen =
          some (.ok (acc', rest)) ∧
        (∀ j : Fin 17, j.val < i → acc' j = acc j) ∧
        (∀ j : Fin 16, i ≤ j.val → P j.castSucc (acc' j.castSucc)) ∧ acc' 16 = acc 16 := by
  -- induction on the number of references left to read
  induction k with
  | zero =>
    intro i acc last
    have done : (List.ofFn refs).drop i = [] := by simp; omega
    refine ⟨acc, ?_, fun _ _ => rfl, fun j below => by omega, rfl⟩
    rw [done, encodeAll_nil, List.nil_append, decodeChildren, if_neg (by omega)]
  | succ k ih =>
    intro i acc left
    have more : i < 16 := by omega
    have next : (List.ofFn refs).drop i = refs ⟨i, more⟩ :: (List.ofFn refs).drop (i + 1) := by
      rw [List.drop_eq_getElem_cons (by simpa using more), List.getElem_ofFn]
    obtain ⟨n, shorter, read, holds⟩ :=
      each ⟨i, more⟩ (Item.encodeAll ((List.ofFn refs).drop (i + 1)) ++ rest)
    obtain ⟨acc', loop, below, above, last⟩ :=
      ih (i + 1) (Function.update acc (Fin.ofNat 17 i) n) (by omega)
    have slot : (Fin.ofNat 17 i : Fin 17) = (⟨i, more⟩ : Fin 16).castSucc := by
      ext
      simp [Nat.mod_eq_of_lt (show i < 17 by omega)]
    refine ⟨acc', ?_, fun j lt => ?_, fun j le => ?_, ?_⟩
    · rw [next, encodeAll_cons, List.append_assoc, decodeChildren, if_pos more, read]
      exact loop
    · rw [below j (by omega), Function.update_of_ne]
      intro same
      rw [same, slot] at lt
      simp at lt
    · rcases Nat.lt_or_eq_of_le le with lt | rfl
      · exact above j lt
      · have slot : (Fin.ofNat 17 j.val : Fin 17) = j.castSucc := slot
        rw [below _ (by simp), slot, Function.update_self]
        exact holds
    · rw [last, Function.update_of_ne]
      rw [slot]
      simp [Fin.ext_iff]
      omega

/-! ### What decoding gives -/

section Decoded

variable (keccak : Bytes → Hash)

/-- The node a parent's decoding holds for a child tree, given the node the child's own
encoding decodes to: no child as `nil`, a value in place, a node that encodes to less than
32 bytes decoded in place and a bigger one as its hash. It mirrors `childRef`. -/
def decodedRef (c : Tree) (inPlace : Node) : Node :=
  match c with
  | .empty => .nil
  | .leaf v => .value v
  | c => if (encOf keccak c).length < 32 then inPlace else .hash (hashOf keccak c)

/-- The node `decodeNode` reads from the encoding of the node a tree collapses to: its key in
hex form, its children as `decodedRef` gives them, clean and caching `hash`; the embedded
nodes below cache nothing. -/
def decodedOf (hash : Option Hash) (gen : UInt16) : Tree → Node
  | .empty => .nil
  | .leaf v => .value v
  | .ext p c => .short p (decodedRef keccak c (decodedOf none gen c)) { hash := hash, gen := gen, dirty := false }
  | .branch cs =>
    .full (fun i => decodedRef keccak (cs i) (decodedOf none gen (cs i))) { hash := hash, gen := gen, dirty := false }

theorem decodedRef_node {c : Tree} (node : IsNode c) (inPlace : Node) :
    decodedRef keccak c inPlace =
      if (encOf keccak c).length < 32 then inPlace else .hash (hashOf keccak c) := by
  cases c with
  | ext p c | branch cs => rfl
  | empty | leaf _ => exact absurd node id

theorem cache_decodedOf {t : Tree} (node : IsNode t) (hash : Option Hash) (gen : UInt16) :
    (decodedOf keccak hash gen t).cache = (hash, false) := by
  cases t with
  | ext p c | branch cs => rfl
  | empty | leaf _ => exact absurd node id

end Decoded

/-! ### Decoding the encoding of a tree -/

section Trees

variable (keccak : Bytes → Hash) (db : Database)

theorem itemOf_node {t : Tree} (node : IsNode t) : ∃ items, itemOf keccak t = .list items := by
  cases t with
  | ext p c => exact ⟨_, rfl⟩
  | branch cs => exact ⟨_, rfl⟩
  | empty | leaf _ => exact absurd node id

/-- The flag of a decoded embedded node: it caches no hash. -/
theorem flagOk_none (gen : UInt16) {t : Tree} (notBig : ¬Big keccak t) :
    FlagOk keccak db false { hash := none, gen := gen, dirty := false } t :=
  ⟨fun _ cached => (by cases cached), fun _ _ => ⟨rfl, notBig⟩⟩

/-- A child that is a node decodes from its reference in its parent: in place when it is
embedded, as a hash node when it is hashed. -/
theorem decodeRef_node {c : Tree} (node : IsNode c) (small : (itemOf keccak c).Small) {gen : UInt16}
    (decodes : ¬Big keccak c → ∀ rest, decodeNode none (encOf keccak c ++ rest) gen =
      some (.ok (decodedOf keccak none gen c)))
    (rest : Bytes) :
    ∃ h, decodeRef ((childRef keccak (itemOf keccak c) c).encode ++ rest) gen =
      some (.ok (decodedRef keccak c (decodedOf keccak none gen c), ⟨rest, h⟩)) := by
  -- on a node, both `childRef` and `decodedRef` choose by the size of the encoding
  have ref : childRef keccak (itemOf keccak c) c = if (encOf keccak c).length < 32
      then itemOf keccak c else .str (hashOf keccak c).bytes := by
    cases c with
    | ext p c | branch cs => rfl
    | empty | leaf _ => exact absurd node id
  rw [ref, decodedRef_node keccak node]
  by_cases embedded : (encOf keccak c).length < 32
  · obtain ⟨items, list⟩ := itemOf_node keccak node
    have read := decodes (by simp only [Big]; omega) rest
    rw [encOf, list] at read embedded
    rw [list] at small
    rw [if_pos (by rwa [encOf, list]), if_pos (by rwa [encOf, list]), list]
    obtain ⟨p, byRef⟩ := decodeRef_embedded small embedded rest gen
    refine ⟨p, ?_⟩
    rw [byRef, read]
    rfl
  · rw [if_neg embedded, if_neg embedded]
    exact decodeRef_hash (hashOf keccak c) rest gen

/-- Every child but a value decodes from its reference. -/
theorem decodeRef_child {c : Tree} (notLeaf : ¬IsLeaf c) (shaped : Shaped c) (bounded : Bounded c)
    {gen : UInt16}
    (decodes : IsNode c → ¬Big keccak c → ∀ rest, decodeNode none (encOf keccak c ++ rest) gen =
      some (.ok (decodedOf keccak none gen c)))
    (rest : Bytes) :
    ∃ h, decodeRef ((childRef keccak (itemOf keccak c) c).encode ++ rest) gen =
      some (.ok (decodedRef keccak c (decodedOf keccak none gen c), ⟨rest, h⟩)) := by
  have small := small_itemOf keccak shaped bounded
  cases c with
  | empty => exact decodeRef_empty rest gen
  | leaf v => exact absurd trivial notLeaf
  | ext p c => exact decodeRef_node keccak (c := .ext p c) trivial small (decodes trivial) rest
  | branch cs => exact decodeRef_node keccak (c := .branch cs) trivial small (decodes trivial) rest

/-- A short node decodes to a short node over its key, with its value or its child. -/
theorem decodeShort_ext {p : List Nibble} {c : Tree} (hex : Hex p) (term : hasTerm p = true ↔ IsLeaf c)
    (keyBound : (hexToCompact p).length < 2 ^ 64) (leafBound : ∀ v, c = .leaf v → v.length < 2 ^ 64)
    {gen : UInt16}
    (child : ¬IsLeaf c → ∃ h, decodeRef ((childRef keccak (itemOf keccak c) c).encode ++ []) gen =
      some (.ok (decodedRef keccak c (decodedOf keccak none gen c), ⟨[], h⟩)))
    (hash : Option Hash) :
    decodeShort hash (Item.encodeAll [.str (hexToCompact p), childRef keccak (itemOf keccak c) c]) gen =
      some (.ok (decodedOf keccak hash gen (.ext p c))) := by
  have split := splitString_encode keyBound (childRef keccak (itemOf keccak c) c).encode
  simp only [encodeAll_cons, encodeAll_nil, List.append_nil]
  rw [decodeShort]
  split
  · next err split' => simp [split] at split'
  · next kbuf rest split' =>
    rw [split, Except.ok.injEq, Prod.mk.injEq] at split'
    obtain ⟨rfl, rfl⟩ := split'
    simp only [compactToHex_hexToCompact hex]
    by_cases leaf : IsLeaf c
    · -- the key ends with the terminator: the value is read in place
      obtain ⟨v, rfl⟩ : ∃ v, c = .leaf v := by
        cases c with
        | leaf v => exact ⟨v, rfl⟩
        | _ => exact absurd leaf id
      have value := splitString_encode (leafBound v rfl) []
      rw [List.append_nil] at value
      rw [if_pos (term.mpr leaf), show childRef keccak (itemOf keccak (.leaf v)) (.leaf v) = .str v from rfl,
        value]
      rfl
    · obtain ⟨h, read⟩ := child leaf
      rw [if_neg (mt term.mp leaf), ← List.append_nil (childRef keccak (itemOf keccak c) c).encode, read]
      rfl

/-- A full node decodes to a full node over its sixteen children and its value. -/
theorem decodeFull_branch {cs : Fin 17 → Tree}
    (last : cs 16 = .empty ∨ ∃ v, cs 16 = .leaf v ∧ v ≠ [] ∧ v.length < 2 ^ 64) {gen : UInt16}
    (child : ∀ j : Fin 16, ∀ rest, ∃ h, decodeRef
      ((childRef keccak (itemOf keccak (cs j.castSucc)) (cs j.castSucc)).encode ++ rest) gen =
        some (.ok (decodedRef keccak (cs j.castSucc) (decodedOf keccak none gen (cs j.castSucc)), ⟨rest, h⟩)))
    (hash : Option Hash) :
    decodeFull hash (Item.encodeAll
        ((List.ofFn fun i : Fin 16 => childRef keccak (itemOf keccak (cs i.castSucc)) (cs i.castSucc)) ++
          [childRef keccak (itemOf keccak (cs 16)) (cs 16)])) gen =
      some (.ok (decodedOf keccak hash gen (.branch cs))) := by
  obtain ⟨acc, loop, -, filled, unset⟩ :=
    decodeChildren_ofFn (P := fun i n => n = decodedRef keccak (cs i) (decodedOf keccak none gen (cs i)))
      (fun j rest => by
        obtain ⟨h, read⟩ := child j rest
        exact ⟨_, h, read, rfl⟩)
      (childRef keccak (itemOf keccak (cs 16)) (cs 16)).encode 16 0 (fun _ => .nil) rfl
  rw [List.drop_zero] at loop
  -- the sixteen references fill every child but the value slot
  have children : ∀ value : Node, value = decodedRef keccak (cs 16) (decodedOf keccak none gen (cs 16)) →
      Function.update acc 16 value = fun i => decodedRef keccak (cs i) (decodedOf keccak none gen (cs i)) := by
    intro value slot
    funext i
    induction i using Fin.lastCases with
    | last => exact (Function.update_self ..).trans slot
    | cast j =>
      rw [Function.update_of_ne (castSucc_ne_sixteen j)]
      exact filled j (Nat.zero_le _)
  rw [decodeFull, encodeAll_append, encodeAll_cons, encodeAll_nil, List.append_nil, loop]
  dsimp only
  rcases last with empty | ⟨v, leaf, nonempty, bound⟩
  · -- no value: the seventeenth child stays `nil`
    have ref : childRef keccak (itemOf keccak (cs 16)) (cs 16) = .str [] := by rw [empty]; rfl
    have value := splitString_encode (show ([] : Bytes).length < 2 ^ 64 by simp) []
    rw [List.append_nil] at value
    have same : acc = Function.update acc 16 .nil := by rw [← unset, Function.update_eq_self]
    rw [ref, value]
    dsimp only
    rw [if_neg (by simp), same, children .nil (by rw [empty]; rfl)]
    rfl
  · -- a value: it becomes the seventeenth child
    have ref : childRef keccak (itemOf keccak (cs 16)) (cs 16) = .str v := by rw [leaf]; rfl
    have value := splitString_encode bound []
    rw [List.append_nil] at value
    rw [ref, value]
    dsimp only
    rw [if_pos (List.length_pos_iff.mpr nonempty), children (.value v) (by rw [leaf]; rfl)]
    rfl

/-- Decoding the encoding of a shaped tree's node gives the node `decodedOf` describes. -/
theorem decodeNode_encOf_eq {t : Tree} (shaped : Shaped t) (bounded : Bounded t) (node : IsNode t)
    (hash : Option Hash) (gen : UInt16) (rest : Bytes) :
    decodeNode hash (encOf keccak t ++ rest) gen = some (.ok (decodedOf keccak hash gen t)) := by
  have small := small_itemOf keccak shaped bounded
  induction t generalizing hash rest with
  | empty | leaf _ => exact absurd node id
  | ext p c ih =>
    obtain ⟨_, hex, below, term, shapedC⟩ := shaped
    have child : ¬IsLeaf c → ∃ h, decodeRef ((childRef keccak (itemOf keccak c) c).encode ++ []) gen =
        some (.ok (decodedRef keccak c (decodedOf keccak none gen c), ⟨[], h⟩)) := fun notLeaf =>
      decodeRef_child keccak notLeaf shapedC bounded.of_ext
        (fun nodeC _ rest => ih shapedC bounded.of_ext nodeC none rest
          (small_itemOf keccak shapedC bounded.of_ext)) []
    have leafBound : ∀ v, c = .leaf v → v.length < 2 ^ 64 := by
      rintro v rfl
      exact small.2.2.1
    rw [encOf, itemOf, decodeNode_list small, decodeShort_ext keccak hex term small.2.1 leafBound child hash]
    rfl
  | branch cs ih =>
    obtain ⟨_, notLeaf, last, shapedCs⟩ := shaped
    have child : ∀ j : Fin 16, ∀ rest, ∃ h, decodeRef
        ((childRef keccak (itemOf keccak (cs j.castSucc)) (cs j.castSucc)).encode ++ rest) gen =
          some (.ok (decodedRef keccak (cs j.castSucc) (decodedOf keccak none gen (cs j.castSucc)),
            ⟨rest, h⟩)) := fun j rest =>
      decodeRef_child keccak (notLeaf _ (castSucc_ne_sixteen j)) (shapedCs _) (bounded.of_branch _)
        (fun nodeC _ rest => ih _ (shapedCs _) (bounded.of_branch _) nodeC none rest
          (small_itemOf keccak (shapedCs _) (bounded.of_branch _)))
        rest
    have value : cs 16 = .empty ∨ ∃ v, cs 16 = .leaf v ∧ v ≠ [] ∧ v.length < 2 ^ 64 := by
      rcases last with empty | isLeaf
      · exact .inl empty
      · cases found : cs 16 with
        | leaf v =>
          have nonempty : v ≠ [] := by simpa [found, Shaped] using shapedCs 16
          have bound := (bounded.of_branch 16 [] v (by simp [found, PTree.lookup_leaf])).2
          exact .inr ⟨v, rfl, nonempty, by omega⟩
        | _ => simp [found, IsLeaf] at isLeaf
    rw [itemOf_branch] at small
    have seventeen : ((List.ofFn fun i : Fin 16 => childRef keccak (itemOf keccak (cs i.castSucc))
        (cs i.castSucc)) ++ [childRef keccak (itemOf keccak (cs 16)) (cs 16)]).length = 17 := by simp
    rw [encOf, itemOf_branch, decodeNode_list small, seventeen, decodeFull_branch keccak value child hash]
    rfl

/-- A decoded child stands for its tree, when the database holds it if it is hashed. -/
theorem repr_decodedRef {c : Tree} (complete : Complete keccak db c) (stored : Hashed keccak c → InDb keccak db c)
    {gen : UInt16} (inPlace : IsNode c → ¬Big keccak c → Repr keccak db false (decodedOf keccak none gen c) c) :
    Repr keccak db false (decodedRef keccak c (decodedOf keccak none gen c)) c := by
  by_cases node : IsNode c
  · rw [decodedRef_node keccak node]
    split
    · next embedded => exact inPlace node (by simp only [Big]; omega)
    · next hashed =>
      have big : Big keccak c := by simp only [Big]; omega
      exact Repr.hash false c node ⟨complete, stored ⟨node, big⟩⟩ (.inr big)
  · cases c with
    | empty => exact Repr.nil false
    | leaf v => exact Repr.value false v
    | ext _ _ | branch _ => exact absurd trivial node

/-- The node decoding gives stands for the tree, when the database holds the nodes it refers
to by hash. -/
theorem repr_decodedOf {t : Tree} (shaped : Shaped t) (node : IsNode t) (complete : Complete keccak db t)
    {hash : Option Hash} {top : Bool} {gen : UInt16}
    (flagOk : FlagOk keccak db top { hash := hash, gen := gen, dirty := false } t) :
    Repr keccak db top (decodedOf keccak hash gen t) t := by
  induction t generalizing hash top with
  | empty | leaf _ => exact absurd node id
  | ext p c ih =>
    obtain ⟨_, _, _, _, shapedC⟩ := shaped
    obtain ⟨completeC, storedC⟩ := complete
    exact Repr.short top p _ _ c (repr_decodedRef keccak db completeC storedC fun nodeC notBig =>
      ih shapedC nodeC completeC (flagOk_none keccak db gen notBig)) flagOk
  | branch cs ih =>
    obtain ⟨_, _, _, shapedCs⟩ := shaped
    exact Repr.full top _ _ cs (fun i => repr_decodedRef keccak db (complete i).1 (complete i).2
      fun nodeC notBig => ih i (shapedCs i) nodeC (complete i).1 (flagOk_none keccak db gen notBig)) flagOk

/-- Decoding the encoding of a shaped tree's node gives a node that stands for the tree, when
the database holds the nodes it refers to by hash. The decoded node is clean and caches
`hash`. -/
theorem decodeNode_encOf {t : Tree} (shaped : Shaped t) (bounded : Bounded t) (node : IsNode t)
    (complete : Complete keccak db t) {hash : Option Hash} {top : Bool} {gen : UInt16}
    (flagOk : FlagOk keccak db top { hash := hash, gen := gen, dirty := false } t) (rest : Bytes) :
    ∃ n, decodeNode hash (encOf keccak t ++ rest) gen = some (.ok n) ∧ Repr keccak db top n t ∧
      n.cache = (hash, false) :=
  ⟨_, decodeNode_encOf_eq keccak shaped bounded node hash gen rest,
    repr_decodedOf keccak db shaped node complete flagOk, cache_decodedOf keccak node hash gen⟩

end Trees

end Indigo.Trie
