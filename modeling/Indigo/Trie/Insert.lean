import Indigo.Trie.Get

/-!
# Insertion

`Trie.insert` puts a value at a key below a node that stands for a tree `t`, and returns a
node that stands for `t.insert key v`, the Patricia insertion of `Lib.Patricia`: the
short node whose key the new key leaves is split into a full node at the first nibble
where they differ. When it reports no change, the tree is unchanged, and the parent keeps
its node.

## Main results

- `insert_spec`: with enough fuel, `insert` refines `PTree.insert`.
- `Within.insert`: insertion keeps the invariant of the tree.

## Proof strategy

Induction on the fuel; `InsertSpec fuel` states the result at every node, and each kind
of node is one lemma that takes the induction hypothesis for the fuel left. The branches
where Go panics are ruled out by `Within`: keys are never proper prefixes of each other.
-/

namespace Indigo.Trie

open Indigo.Lib Indigo.Rlp

theorem prefixLen_eq_commonLen (a b : List Nibble) : prefixLen a b = commonLen a b := by
  induction a generalizing b with
  | nil => cases b <;> rfl
  | cons x xs ih =>
    cases b with
    | nil => rfl
    | cons y ys => simp [prefixLen, commonLen, ih]

/-! ### What a node standing for a small tree is -/

section Repr

variable {keccak : Bytes → Hash} {db : Database} {top : Bool} {n : Node}

theorem Repr.eq_nil {repr : Repr keccak db top n .empty} : n = .nil := by
  cases repr with
  | nil => rfl
  | hash _ _ node => exact absurd node id

theorem Repr.eq_value {v : Bytes} (repr : Repr keccak db top n (.leaf v)) : n = .value v := by
  cases repr with
  | value => rfl
  | hash _ _ node => exact absurd node id

theorem flagOk_newFlag (keccak : Bytes → Hash) (db : Database) (tr : Trie) (top : Bool) (t : Tree) :
    FlagOk keccak db top tr.newFlag t :=
  ⟨fun _ cached => (by cases cached), fun clean => (by simp [Trie.newFlag] at clean)⟩

end Repr

/-! ### Keys met on the way -/

namespace Within

variable {q : List Nibble}

/-- A valid key meets the keys below a subtree only where it is one of them. -/
theorem separated {t : Tree} (within : Within q t) {key : List Nibble} (valid : ValidKey (q ++ key)) :
    t.Separated key := by
  intro k v found related
  have whole := (within.valid k v found).1
  rcases related with isPrefix | isPrefix
  · exact List.append_cancel_left (whole.eq_of_comparable valid ((List.prefix_append_right_inj q).mpr isPrefix))
  · exact (List.append_cancel_left (valid.eq_of_comparable whole ((List.prefix_append_right_inj q).mpr isPrefix))).symm

/-- Below a whole key there is nothing but a value or nothing. -/
theorem empty_or_leaf {t : Tree} (within : Within q t) (valid : ValidKey q) :
    t = .empty ∨ ∃ w, t = .leaf w := by
  cases t with
  | empty => exact .inl rfl
  | leaf w => exact .inr ⟨w, rfl⟩
  | ext p c =>
    obtain ⟨k, v, found⟩ := within.canonical.exists_lookup (by simp)
    have nonempty : k ≠ [] := by
      rintro rfl
      simp [PTree.lookup_ext_nil (within.shaped.1)] at found
    exact absurd (within.leaf_of_key valid found) nonempty
  | branch cs =>
    obtain ⟨k, v, found⟩ := within.canonical.exists_lookup (by simp)
    have nonempty : k ≠ [] := by
      rintro rfl
      simp at found
    exact absurd (within.leaf_of_key valid found) nonempty

end Within

/-! ### The steps of `insert` -/

section Insert

variable (keccak : Bytes → Hash) (db : Database) (tr : Trie) (v : Bytes)

-- the lemmas of this section compute `insert` by `simp`
attribute [local simp] Trie.insert

/-- What `insert` does with fuel `fuel`, at every node: it returns a node that stands for
`t.insert key v`, and reports no change only when the tree is unchanged. -/
def InsertSpec (fuel : Nat) : Prop :=
  ∀ {n : Node} {t : Tree} {pref key : List Nibble} {top : Bool}, Repr keccak db top n t →
    Within pref t → ValidKey (pref ++ key) → walkFuel n key.length ≤ fuel →
    ∃ dirty n', tr.insert db fuel n pref key (.value v) = some (.ok (dirty, n')) ∧
      Repr keccak db top n' (t.insert key v) ∧ (dirty = false → t.insert key v = t)

/-- `insert` into nothing: the value itself at the end of the key, else a short node. -/
theorem insert_nil (fuel : Nat) (pref key : List Nibble) (value : Node) :
    tr.insert db (fuel + 1) .nil pref key value =
      some (.ok (true, if key = [] then value else .short key value tr.newFlag)) := by
  by_cases empty : key = []
  · simp [empty]
  · simp [empty]

/-- The node `insert_nil` makes for the value `v` below a path. -/
theorem repr_extend_leaf (key : List Nibble) :
    Repr keccak db false (if key = [] then .value v else .short key (.value v) tr.newFlag)
      (PTree.extend key (.leaf v)) := by
  by_cases empty : key = []
  · simp only [empty, if_true, PTree.extend]
    exact .value false v
  · simp only [empty, if_false, PTree.extend]
    exact .short false key _ _ _ (.value false v) (flagOk_newFlag keccak db tr false _)

/-- The node `insert_nil` makes for an old child below the rest of a short node's key. -/
theorem repr_extend {val : Node} {c : Tree} (reprC : Repr keccak db false val c) (key : List Nibble) :
    Repr keccak db false (if key = [] then val else .short key val tr.newFlag) (PTree.extend key c) := by
  by_cases empty : key = []
  · simpa [empty, PTree.extend] using reprC
  · simp only [empty, if_false, PTree.extend]
    exact .short false key _ _ _ reprC (flagOk_newFlag keccak db tr false _)

/-- At the end of the key: the new value replaces a value or nothing. -/
theorem insert_at_end {n : Node} {t : Tree} {pref : List Nibble} {top : Bool} (fuel : Nat)
    (repr : Repr keccak db top n t) (within : Within pref t) (valid : ValidKey (pref ++ [])) :
    ∃ dirty n', tr.insert db (fuel + 1) n pref [] (.value v) = some (.ok (dirty, n')) ∧
      Repr keccak db top n' (t.insert [] v) ∧ (dirty = false → t.insert [] v = t) := by
  rw [List.append_nil] at valid
  rcases within.empty_or_leaf valid with rfl | ⟨w, rfl⟩
  · rw [repr.eq_nil]
    exact ⟨true, _, by simp, .value top v, by simp⟩
  · rw [repr.eq_value]
    refine ⟨decide (w ≠ v), _, by simp, .value top v, fun same => ?_⟩
    simp only [decide_eq_false_iff_not, not_not] at same
    simp [PTree.insert, same]

/-- A short node whose key the new key goes on past: insert below it. -/
theorem insert_short_along {fuel : Nat} (ih : InsertSpec keccak db tr v fuel) {top : Bool}
    {nkey : List Nibble} {nval : Node} {flags : NodeFlag} {c : Tree} {pref key : List Nibble}
    (reprC : Repr keccak db false nval c) (flagOk : FlagOk keccak db top flags (.ext nkey c))
    (within : Within pref (.ext nkey c)) (valid : ValidKey (pref ++ key))
    (enough : walkFuel (.short nkey nval flags) key.length ≤ fuel + 1)
    (nonempty : key ≠ []) (along : commonLen key nkey = nkey.length) :
    ∃ dirty n', tr.insert db (fuel + 1) (.short nkey nval flags) pref key (.value v) = some (.ok (dirty, n')) ∧
      Repr keccak db top n' ((PTree.ext nkey c).insert key v) ∧
      (dirty = false → (PTree.ext nkey c).insert key v = .ext nkey c) := by
  have isPrefix := (commonLen_eq_length_iff key nkey).mp along
  have split : key = nkey ++ key.drop nkey.length := (List.prefix_iff_eq_append.mp isPrefix).symm
  have taken : key.take nkey.length = nkey := (List.prefix_iff_eq_take.mp isPrefix).symm
  have validC : ValidKey ((pref ++ nkey) ++ key.drop nkey.length) := by
    rw [List.append_assoc, ← split]
    exact valid
  have fuelC : walkFuel nval (key.drop nkey.length).length ≤ fuel := by
    have bound := walkFuel_le nval (key.drop nkey.length).length
    have : 0 < nkey.length := List.length_pos_iff.mpr within.shaped.1
    have := isPrefix.length_le
    rw [List.length_drop] at bound ⊢
    simp only [walkFuel] at enough
    omega
  obtain ⟨dirty, n', inserted, reprC', unchanged⟩ := ih reprC within.of_ext validC fuelC
  rw [PTree.insert_ext_along c v nonempty along]
  simp only [Trie.insert, if_neg nonempty, prefixLen_eq_commonLen, along, if_true, taken, inserted]
  cases dirty with
  | true => exact ⟨true, _, rfl, .short top nkey n' _ _ reprC' (flagOk_newFlag keccak db tr top _), by simp⟩
  | false =>
    rw [unchanged rfl]
    exact ⟨false, _, rfl, .short top nkey nval flags c reprC flagOk, fun _ => rfl⟩

/-- The full node of a split: the old child below the rest of the short node's key, the new
value below the rest of the new key. -/
theorem repr_split {nval : Node} {c : Tree} (reprC : Repr keccak db false nval c) (ni ki : Nibble)
    (prest krest : List Nibble) (top : Bool) :
    Repr keccak db top
      (.full (Function.update (Function.update (fun _ => Node.nil) ni
          (if prest = [] then nval else .short prest nval tr.newFlag))
        ki (if krest = [] then .value v else .short krest (.value v) tr.newFlag)) tr.newFlag)
      (.branch (Function.update (Function.update (fun _ => .empty) ni (PTree.extend prest c))
        ki (PTree.extend krest (.leaf v)))) := by
  refine .full top _ _ _ (fun i => ?_) (flagOk_newFlag keccak db tr top _)
  by_cases new : i = ki
  · subst new
    simpa using repr_extend_leaf keccak db tr v krest
  · simp only [Function.update_of_ne new]
    by_cases old : i = ni
    · subst old
      simpa using repr_extend keccak db tr reprC prest
    · simpa [Function.update_of_ne old] using Repr.nil false

/-- A short node whose key the new key leaves before its end: a full node where they part. -/
theorem insert_short_split {fuel : Nat} {top : Bool} {nkey : List Nibble} {nval : Node}
    {flags : NodeFlag} {c : Tree} {pref key : List Nibble}
    (reprC : Repr keccak db false nval c) (within : Within pref (.ext nkey c)) (valid : ValidKey (pref ++ key))
    (enough : walkFuel (.short nkey nval flags) key.length ≤ fuel + 1)
    (nonempty : key ≠ []) (parts : commonLen key nkey ≠ nkey.length) :
    ∃ dirty n', tr.insert db (fuel + 1) (.short nkey nval flags) pref key (.value v) = some (.ok (dirty, n')) ∧
      Repr keccak db top n' ((PTree.ext nkey c).insert key v) ∧
      (dirty = false → (PTree.ext nkey c).insert key v = .ext nkey c) := by
  set m := commonLen key nkey with hm
  have inNkey : m < nkey.length := lt_of_le_of_ne (commonLen_le_right key nkey) parts
  -- the key goes on past `m`: a key that stopped inside the short node's key would be a
  -- proper prefix of the keys below it
  have inKey : m < key.length := by
    by_contra atEnd
    obtain ⟨common, restK, restN, splitK, splitN, len, -⟩ := commonLen_spec key nkey
    have whole : restK = [] := by
      have := congrArg List.length splitK
      simp only [List.length_append] at this
      exact List.eq_nil_of_length_eq_zero (by omega)
    obtain ⟨k, w, found⟩ := within.canonical.exists_lookup (by simp)
    obtain ⟨rest, rfl, -⟩ := (under_eq_some_iff _ _ _ _).mp found
    have inside : key <+: nkey ++ rest := by
      rw [splitK, whole, List.append_nil, splitN, List.append_assoc]
      exact List.prefix_append _ _
    have same := congrArg List.length (within.separated valid _ _ found (.inr inside))
    simp only [List.length_append] at same
    omega
  obtain ⟨f, rfl⟩ : ∃ f, fuel = f + 1 := ⟨fuel - 1, by simp only [walkFuel] at enough; omega⟩
  rw [PTree.insert_ext_split c v inNkey inKey]
  rw [Trie.insert]
  simp only [if_neg nonempty, prefixLen_eq_commonLen, ← hm, if_neg parts,
    List.getElem?_eq_getElem inNkey, List.getElem?_eq_getElem inKey, insert_nil]
  have branch := repr_split keccak db tr v reprC nkey[m] key[m] (nkey.drop (m + 1)) (key.drop (m + 1))
  by_cases zero : m = 0
  · simp only [if_pos zero]
    exact ⟨true, _, rfl, branch top, by simp⟩
  · simp only [if_neg zero]
    exact ⟨true, _, rfl, .short top _ _ _ _ (branch false) (flagOk_newFlag keccak db tr top _), by simp⟩

/-- A full node: insert below the child of the key's first nibble. -/
theorem insert_full {fuel : Nat} (ih : InsertSpec keccak db tr v fuel) {top : Bool}
    {children : Fin 17 → Node} {flags : NodeFlag} {cs : Fin 17 → Tree} {pref : List Nibble}
    {k : Nibble} {rest : List Nibble}
    (reprCs : ∀ i, Repr keccak db false (children i) (cs i)) (flagOk : FlagOk keccak db top flags (.branch cs))
    (within : Within pref (.branch cs)) (valid : ValidKey (pref ++ k :: rest))
    (enough : walkFuel (.full children flags) (k :: rest).length ≤ fuel + 1) :
    ∃ dirty n', tr.insert db (fuel + 1) (.full children flags) pref (k :: rest) (.value v) =
        some (.ok (dirty, n')) ∧
      Repr keccak db top n' ((PTree.branch cs).insert (k :: rest) v) ∧
      (dirty = false → (PTree.branch cs).insert (k :: rest) v = .branch cs) := by
  have validC : ValidKey ((pref ++ [k]) ++ rest) := by simpa using valid
  have fuelC : walkFuel (children k) rest.length ≤ fuel := by
    have := walkFuel_le (children k) rest.length
    simp only [walkFuel, List.length_cons] at enough
    omega
  obtain ⟨dirty, n', inserted, reprC', unchanged⟩ := ih (reprCs k) (within.of_branch k) validC fuelC
  simp only [Trie.insert, reduceCtorEq, if_false, inserted, PTree.insert]
  cases dirty with
  | true =>
    refine ⟨true, _, rfl, .full top _ _ _ (fun i => ?_) (flagOk_newFlag keccak db tr top _), by simp⟩
    by_cases same : i = k
    · subst same
      simpa using reprC'
    · simpa [Function.update_of_ne same] using reprCs i
  | false =>
    rw [unchanged rfl, Function.update_eq_self]
    exact ⟨false, _, rfl, .full top children flags cs reprCs flagOk, fun _ => rfl⟩

/-- A hash node: load it, and insert into the loaded node. -/
theorem insert_hash {fuel : Nat} (ih : InsertSpec keccak db tr v fuel) {top : Bool} {t : Tree}
    {pref key : List Nibble} (node : IsNode t) (stored : Stored keccak db t) (big : top = true ∨ Big keccak t)
    (within : Within pref t) (valid : ValidKey (pref ++ key))
    (enough : walkFuel (.hash (hashOf keccak t)) key.length ≤ fuel + 1) (nonempty : key ≠ []) :
    ∃ dirty n', tr.insert db (fuel + 1) (.hash (hashOf keccak t)) pref key (.value v) =
        some (.ok (dirty, n')) ∧
      Repr keccak db top n' (t.insert key v) ∧ (dirty = false → t.insert key v = t) := by
  obtain ⟨rn, resolve, reprR, cache⟩ := resolveHash_spec keccak db tr within node stored big pref
  have fuelR : walkFuel rn key.length ≤ fuel := by
    rw [walkFuel_of_clean cache]
    simp only [walkFuel] at enough
    omega
  obtain ⟨dirty, n', inserted, repr', unchanged⟩ := ih reprR within valid fuelR
  simp only [Trie.insert, if_neg nonempty, resolve, inserted]
  cases dirty with
  | true => exact ⟨true, n', rfl, repr', by simp⟩
  | false =>
    rw [unchanged rfl]
    exact ⟨false, rn, rfl, reprR, fun _ => rfl⟩

/-- `insert` refines `PTree.insert`: with enough fuel, at every node that stands for a tree
within the path to it, it returns a node that stands for the tree with `v` put at the key. -/
theorem insert_spec (fuel : Nat) : InsertSpec keccak db tr v fuel := by
  -- induction on the fuel, one lemma for each kind of node
  induction fuel with
  | zero =>
    intro n t pref key top repr within valid enough
    cases n <;> simp [walkFuel] at enough
  | succ fuel ih =>
    intro n t pref key top repr within valid enough
    by_cases atEnd : key = []
    · subst atEnd
      exact insert_at_end keccak db tr v fuel repr within valid
    cases repr with
    | nil =>
      refine ⟨true, .short key (.value v) tr.newFlag, by simp [atEnd], ?_, by simp⟩
      obtain ⟨a, rest, rfl⟩ := List.exists_cons_of_ne_nil atEnd
      exact .short top _ _ _ _ (.value false v) (flagOk_newFlag keccak db tr top _)
    | value top w =>
      -- a value has no key below it
      have whole := (within.valid [] w (by simp [PTree.lookup_leaf])).1
      have same := whole.eq_of_comparable valid (by simp)
      exact absurd (by simpa using same) atEnd
    | short top nkey nval flags c reprC flagOk =>
      by_cases along : commonLen key nkey = nkey.length
      · exact insert_short_along keccak db tr v ih reprC flagOk within valid enough atEnd along
      · exact insert_short_split keccak db tr v reprC within valid enough atEnd along
    | full top children flags cs reprCs flagOk =>
      obtain ⟨k, rest, rfl⟩ := List.exists_cons_of_ne_nil atEnd
      exact insert_full keccak db tr v ih reprCs flagOk within valid enough
    | hash top t node stored big => exact insert_hash keccak db tr v ih node stored big within valid enough atEnd

end Insert

/-- Insertion keeps the invariant of a tree, for a valid key and a nonempty value. -/
theorem Within.insert {q : List Nibble} {t : Tree} (within : Within q t) {key : List Nibble} {v : Bytes}
    (valid : ValidKey (q ++ key)) (nonempty : v ≠ []) (keyBound : key.length < 2 ^ 62)
    (valueBound : v.length < 2 ^ 62) : Within q (t.insert key v) := by
  have sep := within.separated valid
  refine ⟨PTree.canonical_insert within.canonical key v, fun k w found => ?_, fun k w found => ?_⟩
  · rw [PTree.lookup_insert within.canonical sep] at found
    by_cases same : k = key
    · subst same
      simp only [Function.update_self, Option.some.injEq] at found
      exact ⟨valid, found ▸ nonempty⟩
    · rw [Function.update_of_ne same] at found
      exact within.valid k w found
  · rw [PTree.lookup_insert within.canonical sep] at found
    by_cases same : k = key
    · subst same
      simp only [Function.update_self, Option.some.injEq] at found
      exact ⟨keyBound, found ▸ valueBound⟩
    · rw [Function.update_of_ne same] at found
      exact within.bounded k w found

end Indigo.Trie
