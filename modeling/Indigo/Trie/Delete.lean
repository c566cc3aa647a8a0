import Indigo.Trie.Insert

/-!
# Deletion

`Trie.delete` removes a key below a node that stands for a tree `t`, and returns a node
that stands for `t.delete key`, the Patricia deletion of `Lib.Patricia`: a short node left
above a short node is merged with it, and a full node left with one child becomes a short
node of one nibble, merged with that child when it is a short node.

## Main results

- `remainingChild_of_sole`, `remainingChild_neg`: what `remainingChild` finds.
- `delete_spec`: with enough fuel, `delete` refines `PTree.delete`.
- `Within.delete`: deletion keeps the invariant of the tree.

## Proof strategy

As for insertion: induction on the fuel, one lemma for each kind of node. A node that
changed is never a hash node, so a short node's new child is a short node exactly when its
tree is an extension, which is when `merge` joins the two paths.
-/

namespace Indigo.Trie

open Indigo.Lib Indigo.Rlp

/-! ### `remainingChild` -/

section Remaining

variable (children : Fin 17 → Node)

/-- One step of the loop of `remainingChild`. -/
theorem remainingChild_eq : Trie.remainingChild children = (List.finRange 17).foldl (fun pos i =>
    match children i with
    | .nil => pos
    | _ => if pos = -1 then (i : Int) else -2) (-1) := rfl

variable {children}

private theorem foldl_skip (l : List (Fin 17)) (empty : ∀ i ∈ l, children i = .nil) (acc : Int) :
    l.foldl (fun pos i =>
      match children i with
      | .nil => pos
      | _ => if pos = -1 then (i : Int) else -2) acc = acc := by
  induction l generalizing acc with
  | nil => rfl
  | cons j rest ih =>
    rw [List.foldl_cons, empty j (by simp)]
    exact ih (fun i member => empty i (by simp [member])) acc

private theorem foldl_two (l : List (Fin 17)) {acc : Int} (seen : acc ≠ -1)
    (occupied : ∃ i ∈ l, children i ≠ .nil) (stuck : 0 ≤ acc ∨ acc = -2) :
    l.foldl (fun pos i =>
      match children i with
      | .nil => pos
      | _ => if pos = -1 then (i : Int) else -2) acc = -2 := by
  induction l generalizing acc with
  | nil => simp at occupied
  | cons j rest ih =>
    rw [List.foldl_cons]
    by_cases empty : children j = .nil
    · rw [empty]
      obtain ⟨i, member, occ⟩ := occupied
      have other : i ≠ j := fun same => occ (same ▸ empty)
      exact ih seen ⟨i, by simpa [other] using member, occ⟩ stuck
    · -- a second occupied child: the loop is at `-2` from now on
      have step : (match children j with
          | .nil => acc
          | _ => if acc = -1 then (j : Int) else -2) = -2 := by
        split
        · next nil => exact absurd nil empty
        · simp [seen]
      rw [step]
      by_cases more : ∃ i ∈ rest, children i ≠ .nil
      · exact ih (by decide) more (.inr rfl)
      · push Not at more
        exact foldl_skip rest more (-2)

private theorem foldl_from_none (l : List (Fin 17)) {a b : Fin 17} (distinct : a ≠ b) (memA : a ∈ l)
    (memB : b ∈ l) (occA : children a ≠ .nil) (occB : children b ≠ .nil) :
    l.foldl (fun pos i =>
      match children i with
      | .nil => pos
      | _ => if pos = -1 then (i : Int) else -2) (-1) = -2 := by
  induction l with
  | nil => simp at memA
  | cons j rest ih =>
    rw [List.foldl_cons]
    by_cases empty : children j = .nil
    · rw [empty]
      have otherA : a ≠ j := fun same => occA (same ▸ empty)
      have otherB : b ≠ j := fun same => occB (same ▸ empty)
      exact ih (by simpa [otherA] using memA) (by simpa [otherB] using memB)
    · -- the first occupied child is `j`; another one comes later
      have step : (match children j with
          | .nil => (-1 : Int)
          | _ => if (-1 : Int) = -1 then (j : Int) else -2) = (j : Int) := by
        split
        · next nil => exact absurd nil empty
        · simp
      rw [step]
      have later : ∃ i ∈ rest, children i ≠ .nil := by
        by_cases same : a = j
        · have otherB : b ≠ j := fun sameB => distinct (same.trans sameB.symm)
          exact ⟨b, by simpa [otherB] using memB, occB⟩
        · exact ⟨a, by simpa [same] using memA, occA⟩
      exact foldl_two rest (by omega) later (.inl (by omega))

/-- One occupied child: `remainingChild` is its index. -/
theorem remainingChild_of_sole {a : Fin 17} (occupied : children a ≠ .nil)
    (others : ∀ b, b ≠ a → children b = .nil) : Trie.remainingChild children = (a : Int) := by
  obtain ⟨before, after, split⟩ := List.append_of_mem (List.mem_finRange a)
  have nodup := List.nodup_finRange 17
  rw [split, List.nodup_append] at nodup
  have notBefore : ∀ i ∈ before, children i = .nil := fun i member =>
    others i fun same => nodup.2.2 i member a (by simp) same
  have notAfter : ∀ i ∈ after, children i = .nil := fun i member =>
    others i fun same => (List.nodup_cons.mp nodup.2.1).1 (same ▸ member)
  rw [remainingChild_eq, split, List.foldl_append, foldl_skip before notBefore, List.foldl_cons]
  have step : (match children a with
      | .nil => (-1 : Int)
      | _ => if (-1 : Int) = -1 then (a : Int) else -2) = (a : Int) := by
    split
    · next nil => exact absurd nil occupied
    · simp
  rw [step, foldl_skip after notAfter]

/-- No occupied child, or two: `remainingChild` is negative. -/
theorem remainingChild_neg (notSole : ¬∃ a, children a ≠ .nil ∧ ∀ b, b ≠ a → children b = .nil) :
    Trie.remainingChild children < 0 := by
  by_cases any : ∃ a, children a ≠ .nil
  · obtain ⟨a, occupied⟩ := any
    have two : ∃ b, b ≠ a ∧ children b ≠ .nil := by
      by_contra alone
      push Not at alone
      exact notSole ⟨a, occupied, alone⟩
    obtain ⟨b, other, occB⟩ := two
    rw [remainingChild_eq, foldl_from_none _ other.symm (List.mem_finRange a) (List.mem_finRange b)
      occupied occB]
    decide
  · push Not at any
    rw [remainingChild_eq, foldl_skip _ (fun i _ => any i)]
    decide

end Remaining

/-! ### Nodes and trees at the places `delete` changes -/

section Shapes

variable {keccak : Bytes → Hash} {db : Database} {top : Bool} {n : Node} {t : Tree}

theorem Repr.nil_iff (repr : Repr keccak db top n t) : n = .nil ↔ t = .empty := by
  cases repr with
  | nil => simp
  | value => simp
  | short => simp
  | full => simp
  | hash _ _ node =>
    cases t with
    | empty => exact absurd node id
    | _ => simp

theorem Repr.of_short {key : List Nibble} {val : Node} {flags : NodeFlag}
    (repr : Repr keccak db top (.short key val flags) t) : ∃ c, t = .ext key c ∧ Repr keccak db false val c := by
  cases repr with
  | short _ _ _ _ c reprC => exact ⟨c, rfl, reprC⟩

/-- `merge` adds nothing but its path above a tree that is not an extension. -/
theorem merge_of_repr (p : List Nibble) (repr : Repr keccak db top n t)
    (notShort : ∀ k v f, n ≠ .short k v f) (notHash : ∀ h, n ≠ .hash h) : PTree.merge p t = .ext p t := by
  cases repr with
  | short => exact absurd rfl (notShort _ _ _)
  | hash => exact absurd rfl (notHash _)
  | _ => rfl

theorem merge_extensible (p : List Nibble) {c : Tree} (below : c.Extensible) : PTree.merge p c = .ext p c := by
  cases c with
  | leaf v => rfl
  | branch cs => rfl
  | _ => exact absurd below id

/-- A branch with two children has no sole child. -/
theorem soleChild_branch {cs : Fin 17 → Tree} (canonical : (PTree.branch cs).Canonical) :
    PTree.soleChild cs = none := by
  cases canonical with
  | branch _ a b distinct left right =>
    cases sole : PTree.soleChild cs with
    | none => rfl
    | some x =>
      obtain ⟨-, others⟩ := PTree.soleChild_some sole
      by_cases same : a = x
      · exact absurd (others b fun sameB => distinct (same.trans sameB.symm)) right
      · exact absurd (others a same) left

end Shapes

/-- Deletion keeps the invariant of a tree, for a valid key. -/
theorem Within.delete {q : List Nibble} {t : Tree} (within : Within q t) {key : List Nibble}
    (valid : ValidKey (q ++ key)) : Within q (t.delete key) := by
  have sep := within.separated valid
  refine ⟨PTree.canonical_delete within.canonical sep, fun k w found => ?_, fun k w found => ?_⟩
  · rw [PTree.lookup_delete within.canonical sep] at found
    by_cases same : k = key
    · subst same
      simp at found
    · rw [Function.update_of_ne same] at found
      exact within.valid k w found
  · rw [PTree.lookup_delete within.canonical sep] at found
    by_cases same : k = key
    · subst same
      simp at found
    · rw [Function.update_of_ne same] at found
      exact within.bounded k w found

/-! ### The steps of `delete` -/

section Delete

variable (keccak : Bytes → Hash) (db : Database) (tr : Trie)

-- the lemmas of this section compute `delete` by `simp`
attribute [local simp] Trie.delete

/-- `resolve` on a node that stands for a tree within the walk: a node that is not a hash
node and stands for the same tree. -/
theorem resolve_spec {n : Node} {t : Tree} {q : List Nibble} {top : Bool} (repr : Repr keccak db top n t)
    (within : Within q t) (pref : List Nibble) :
    ∃ rn, tr.resolve db n pref = some (.ok rn) ∧ Repr keccak db top rn t ∧ ∀ h, rn ≠ .hash h := by
  cases repr with
  | hash top t node stored big =>
    obtain ⟨rn, resolve, reprR, cache⟩ := resolveHash_spec keccak db tr within node stored big pref
    refine ⟨rn, resolve, reprR, fun h same => ?_⟩
    simp [same, Node.cache] at cache
  | nil => exact ⟨_, rfl, .nil top, fun _ => by simp⟩
  | value => exact ⟨_, rfl, .value top _, fun _ => by simp⟩
  | short top key val flags c reprC flagOk => exact ⟨_, rfl, .short top key val flags c reprC flagOk, fun _ => by simp⟩
  | full top children flags cs reprCs flagOk => exact ⟨_, rfl, .full top children flags cs reprCs flagOk, fun _ => by simp⟩

/-- What `delete` does with fuel `fuel`, at every node: it returns a node that stands for
`t.delete key`, reports no change only when the tree is unchanged, and a node that changed
is not a hash node. -/
def DeleteSpec (fuel : Nat) : Prop :=
  ∀ {n : Node} {t : Tree} {pref key : List Nibble} {top : Bool}, Repr keccak db top n t →
    Within pref t → ValidKey (pref ++ key) → walkFuel n key.length ≤ fuel →
    ∃ dirty n', tr.delete db fuel n pref key = some (.ok (dirty, n')) ∧
      Repr keccak db top n' (t.delete key) ∧ (dirty = false → t.delete key = t) ∧
      (dirty = true → ∀ h, n' ≠ .hash h)

/-- A short node: untouched when the key leaves it, gone when the key ends with it, else
the deletion goes on below and the short node takes in a short child. -/
theorem delete_short {fuel : Nat} (ih : DeleteSpec keccak db tr fuel) {top : Bool} {nkey : List Nibble}
    {nval : Node} {flags : NodeFlag} {c : Tree} {pref key : List Nibble}
    (reprC : Repr keccak db false nval c) (flagOk : FlagOk keccak db top flags (.ext nkey c))
    (within : Within pref (.ext nkey c)) (valid : ValidKey (pref ++ key))
    (enough : walkFuel (.short nkey nval flags) key.length ≤ fuel + 1) :
    ∃ dirty n', tr.delete db (fuel + 1) (.short nkey nval flags) pref key = some (.ok (dirty, n')) ∧
      Repr keccak db top n' ((PTree.ext nkey c).delete key) ∧
      (dirty = false → (PTree.ext nkey c).delete key = .ext nkey c) ∧ (dirty = true → ∀ h, n' ≠ .hash h) := by
  by_cases outside : commonLen key nkey < nkey.length
  · -- the key leaves the short node
    have tree : (PTree.ext nkey c).delete key = .ext nkey c := by simp [PTree.delete, outside]
    refine ⟨false, .short nkey nval flags, by simp [prefixLen_eq_commonLen, outside], ?_,
      fun _ => tree, by simp⟩
    rw [tree]
    exact .short top nkey nval flags c reprC flagOk
  by_cases whole : commonLen key nkey = key.length
  · -- the key ends with the short node
    have fits : nkey.length ≤ key.length := by omega
    refine ⟨true, .nil, by simp [prefixLen_eq_commonLen, whole, fits], ?_, by simp,
      fun _ _ => by simp⟩
    simp only [PTree.delete, if_neg outside, if_pos whole]
    exact .nil top
  -- the key goes on below the short node
  have along : commonLen key nkey = nkey.length :=
    le_antisymm (commonLen_le_right key nkey) (not_lt.mp outside)
  have isPrefix := (commonLen_eq_length_iff key nkey).mp along
  have split : key = nkey ++ key.drop nkey.length := (List.prefix_iff_eq_append.mp isPrefix).symm
  have taken : key.take nkey.length = nkey := (List.prefix_iff_eq_take.mp isPrefix).symm
  have validC : ValidKey ((pref ++ nkey) ++ key.drop nkey.length) := by
    rw [List.append_assoc, ← split]
    exact valid
  have fuelC : walkFuel nval (key.drop nkey.length).length ≤ fuel := by
    have bound := walkFuel_le nval (key.drop nkey.length).length
    have : 0 < nkey.length := List.length_pos_iff.mpr within.shaped.1
    have := isPrefix.length_le
    rw [List.length_drop] at bound ⊢
    simp only [walkFuel] at enough
    omega
  obtain ⟨dirty, n', deleted, reprC', unchanged, notHash⟩ := ih reprC within.of_ext validC fuelC
  have tree : (PTree.ext nkey c).delete key = PTree.merge nkey (c.delete (key.drop nkey.length)) := by
    simp [PTree.delete, outside, whole]
  rw [tree]
  simp only [Trie.delete, prefixLen_eq_commonLen, if_neg outside, if_neg whole, taken, deleted]
  cases dirty with
  | false =>
    rw [unchanged rfl, merge_extensible nkey within.shaped.2.2.1]
    exact ⟨false, _, rfl, .short top nkey nval flags c reprC flagOk, fun _ => rfl, by simp⟩
  | true =>
    -- merge a short child into this short node
    cases n' with
    | short ckey cval cflags =>
      obtain ⟨d, same, reprD⟩ := reprC'.of_short
      rw [same]
      exact ⟨true, _, rfl, .short top _ _ _ d reprD (flagOk_newFlag keccak db tr top _), by simp, by simp⟩
    | hash h => exact absurd rfl (notHash rfl h)
    | full children cflags =>
      rw [merge_of_repr nkey reprC' (by simp) (by simp)]
      exact ⟨true, _, rfl, .short top _ _ _ _ reprC' (flagOk_newFlag keccak db tr top _), by simp, by simp⟩
    | value w =>
      rw [merge_of_repr nkey reprC' (by simp) (by simp)]
      exact ⟨true, _, rfl, .short top _ _ _ _ reprC' (flagOk_newFlag keccak db tr top _), by simp, by simp⟩
    | nil =>
      rw [merge_of_repr nkey reprC' (by simp) (by simp)]
      exact ⟨true, _, rfl, .short top _ _ _ _ reprC' (flagOk_newFlag keccak db tr top _), by simp, by simp⟩

/-- A full node: delete below the child of the key's first nibble; a full node left with one
child becomes a short node of one nibble, merged with the child when it is a short node. -/
theorem delete_full {fuel : Nat} (ih : DeleteSpec keccak db tr fuel) {top : Bool}
    {children : Fin 17 → Node} {flags : NodeFlag} {cs : Fin 17 → Tree} {pref : List Nibble}
    {k : Nibble} {rest : List Nibble}
    (reprCs : ∀ i, Repr keccak db false (children i) (cs i)) (flagOk : FlagOk keccak db top flags (.branch cs))
    (within : Within pref (.branch cs)) (valid : ValidKey (pref ++ k :: rest))
    (enough : walkFuel (.full children flags) (k :: rest).length ≤ fuel + 1) :
    ∃ dirty n', tr.delete db (fuel + 1) (.full children flags) pref (k :: rest) = some (.ok (dirty, n')) ∧
      Repr keccak db top n' ((PTree.branch cs).delete (k :: rest)) ∧
      (dirty = false → (PTree.branch cs).delete (k :: rest) = .branch cs) ∧
      (dirty = true → ∀ h, n' ≠ .hash h) := by
  have validC : ValidKey ((pref ++ [k]) ++ rest) := by simpa using valid
  have fuelC : walkFuel (children k) rest.length ≤ fuel := by
    have := walkFuel_le (children k) rest.length
    simp only [walkFuel, List.length_cons] at enough
    omega
  obtain ⟨dirty, nn, deleted, reprC', unchanged, notHash⟩ := ih (reprCs k) (within.of_branch k) validC fuelC
  cases dirty with
  | false =>
    have same : (PTree.branch cs).delete (k :: rest) = .branch cs := by
      simp only [PTree.delete, unchanged rfl, Function.update_eq_self, soleChild_branch within.canonical]
    refine ⟨false, .full children flags, by simp [deleted], ?_, fun _ => same, by simp⟩
    rw [same]
    exact .full top children flags cs reprCs flagOk
  | true =>
    have reprs : ∀ i, Repr keccak db false (Function.update children k nn i)
        (Function.update cs k ((cs k).delete rest) i) := by
      intro i
      by_cases same : i = k
      · subst same
        simpa using reprC'
      · simpa [Function.update_of_ne same] using reprCs i
    have withins : ∀ i, Within (pref ++ [i]) (Function.update cs k ((cs k).delete rest) i) := by
      intro i
      by_cases same : i = k
      · subst same
        simpa using (within.of_branch i).delete validC
      · simpa [Function.update_of_ne same] using within.of_branch i
    rw [PTree.delete]
    simp only [Trie.delete, deleted]
    cases sole : PTree.soleChild (Function.update cs k ((cs k).delete rest)) with
    | none =>
      -- two children are left, or none: the full node stays
      have neg : Trie.remainingChild (Function.update children k nn) < 0 := by
        apply remainingChild_neg
        rintro ⟨a, occupied, others⟩
        have found := PTree.soleChild_eq_some (mt (reprs a).nil_iff.mpr occupied)
          fun b other => (reprs b).nil_iff.mp (others b other)
        rw [sole] at found
        cases found
      rw [dif_neg (by omega)]
      exact ⟨true, _, rfl, .full top _ _ _ reprs (flagOk_newFlag keccak db tr top _), by simp, by simp⟩
    | some p =>
      obtain ⟨occupied, others⟩ := PTree.soleChild_some sole
      have pos : Trie.remainingChild (Function.update children k nn) = p :=
        remainingChild_of_sole (mt (reprs p).nil_iff.mp occupied) fun b other => (reprs b).nil_iff.mpr (others b other)
      have index : Fin.ofNat 17 ((p : Nat) : Int).toNat = p := by simp
      simp only [pos, index]
      rw [dif_pos (by omega)]
      by_cases last : p = 16
      · -- the value is left: a short node of the terminator
        subst last
        have value : Function.update cs k ((cs k).delete rest) 16 = .empty ∨
            ∃ w, Function.update cs k ((cs k).delete rest) 16 = .leaf w := by
          have kept := within.shaped.2.2.1
          by_cases same : k = 16
          · subst same
            rcases kept with empty | leaf
            · simp [empty, PTree.delete]
            · cases found : cs 16 with
              | leaf w => simp [PTree.delete]
              | _ => simp [found, IsLeaf] at leaf
          · rw [Function.update_of_ne (Ne.symm same)]
            rcases kept with empty | leaf
            · exact .inl empty
            · cases found : cs 16 with
              | leaf w => exact .inr ⟨w, rfl⟩
              | _ => simp [found, IsLeaf] at leaf
        have merged : PTree.merge [16] (Function.update cs k ((cs k).delete rest) 16) =
            .ext [16] (Function.update cs k ((cs k).delete rest) 16) := by
          rcases value with empty | ⟨w, leaf⟩
          · rw [empty]
            rfl
          · rw [leaf]
            rfl
        rw [if_neg (by simp), merged]
        exact ⟨true, _, rfl, .short top _ _ _ _ (reprs 16) (flagOk_newFlag keccak db tr top _), by simp, by simp⟩
      · -- a node is left: load it, to merge it when it is a short node
        obtain ⟨rn, resolve, reprR, notHashR⟩ := resolve_spec keccak db tr (reprs p) (withins p) pref
        have notLast : ((p : Nat) : Int) ≠ 16 := by
          intro same
          exact last (Fin.ext (by omega))
        rw [if_pos notLast, resolve]
        cases rn with
        | short ckey cval cflags =>
          obtain ⟨d, same, reprD⟩ := reprR.of_short
          rw [same]
          exact ⟨true, _, rfl, .short top _ _ _ d reprD (flagOk_newFlag keccak db tr top _), by simp, by simp⟩
        | hash h => exact absurd rfl (notHashR h)
        | full cchildren cflags =>
          rw [merge_of_repr [p] reprR (by simp) (by simp)]
          exact ⟨true, _, rfl, .short top _ _ _ _ (reprs p) (flagOk_newFlag keccak db tr top _), by simp, by simp⟩
        | value w =>
          rw [merge_of_repr [p] reprR (by simp) (by simp)]
          exact ⟨true, _, rfl, .short top _ _ _ _ (reprs p) (flagOk_newFlag keccak db tr top _), by simp, by simp⟩
        | nil =>
          rw [merge_of_repr [p] reprR (by simp) (by simp)]
          exact ⟨true, _, rfl, .short top _ _ _ _ (reprs p) (flagOk_newFlag keccak db tr top _), by simp, by simp⟩

/-- `delete` refines `PTree.delete`: with enough fuel, at every node that stands for a tree
within the path to it, it returns a node that stands for the tree without the key. -/
theorem delete_spec (fuel : Nat) : DeleteSpec keccak db tr fuel := by
  -- induction on the fuel, one lemma for each kind of node
  induction fuel with
  | zero =>
    intro n t pref key top repr within valid enough
    cases n <;> simp [walkFuel] at enough
  | succ fuel ih =>
    intro n t pref key top repr within valid enough
    cases repr with
    | nil => exact ⟨false, .nil, by simp, .nil top, fun _ => rfl, by simp⟩
    | value top w => exact ⟨true, .nil, by simp, .nil top, by simp, by simp⟩
    | short top nkey nval flags c reprC flagOk =>
      exact delete_short keccak db tr ih reprC flagOk within valid enough
    | full top children flags cs reprCs flagOk =>
      cases key with
      | nil =>
        -- a full node is never at the end of a key
        rcases within.empty_or_leaf (by simpa using valid) with empty | ⟨w, leaf⟩
        · cases empty
        · cases leaf
      | cons k rest => exact delete_full keccak db tr ih reprCs flagOk within valid enough
    | hash top t node stored big =>
      -- load the node, then delete from it
      obtain ⟨rn, resolve, reprR, cache⟩ := resolveHash_spec keccak db tr within node stored big pref
      have fuelR : walkFuel rn key.length ≤ fuel := by
        rw [walkFuel_of_clean cache]
        simp only [walkFuel] at enough
        omega
      obtain ⟨dirty, n', deleted, repr', unchanged, notHash⟩ := ih reprR within valid fuelR
      simp only [Trie.delete, resolve, deleted]
      cases dirty with
      | true => exact ⟨true, n', rfl, repr', by simp, notHash⟩
      | false =>
        rw [unchanged rfl]
        exact ⟨false, rn, rfl, reprR, fun _ => rfl, by simp⟩

end Delete

end Indigo.Trie
