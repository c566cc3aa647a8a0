import Indigo.Lib.PrefixTree

/-!
# Patricia insertion and deletion

The update algorithms of a compressed prefix tree: insertion splits an extension at the
first symbol where the key leaves it and puts a branch there; deletion removes the value
and merges what is left on the way up, an extension under an extension into one, and a
branch with one occupied child into an extension.

Both are right for a key that is no proper prefix of a key of the tree and has none of its
keys as a proper prefix (`Separated`); then they update the meaning of the tree at that
key and keep the tree canonical.

## Main results

- `PTree.lookup_insert`, `PTree.canonical_insert`
- `PTree.lookup_delete`, `PTree.canonical_delete`
-/

namespace Indigo.Lib

variable {α β : Type} [DecidableEq α]

/-- The length of the longest common prefix of two lists. -/
def commonLen : List α → List α → Nat
  | a :: as, b :: bs => if a = b then commonLen as bs + 1 else 0
  | _, _ => 0

/-- Two lists are their common prefix followed by parts that start differently. -/
theorem commonLen_spec (xs ys : List α) :
    ∃ common restX restY, xs = common ++ restX ∧ ys = common ++ restY ∧
      commonLen xs ys = common.length ∧
      ∀ a b, restX.head? = some a → restY.head? = some b → a ≠ b := by
  induction xs generalizing ys with
  | nil => exact ⟨[], [], ys, rfl, rfl, by simp [commonLen], by simp⟩
  | cons x xs ih =>
    cases ys with
    | nil => exact ⟨[], x :: xs, [], rfl, rfl, by simp [commonLen], by simp⟩
    | cons y ys =>
      by_cases same : x = y
      · subst same
        obtain ⟨common, restX, restY, hx, hy, len, differ⟩ := ih ys
        exact ⟨x :: common, restX, restY, by simp [hx], by simp [hy], by simp [commonLen, len], differ⟩
      · exact ⟨[], x :: xs, y :: ys, rfl, rfl, by simp [commonLen, same], by simpa using same⟩

theorem commonLen_le_left (xs ys : List α) : commonLen xs ys ≤ xs.length := by
  obtain ⟨common, restX, _, rfl, -, len, -⟩ := commonLen_spec xs ys
  simp [len]

theorem commonLen_le_right (xs ys : List α) : commonLen xs ys ≤ ys.length := by
  obtain ⟨common, _, restY, -, rfl, len, -⟩ := commonLen_spec xs ys
  simp [len]

/-- A list shares all of `p` exactly when `p` is a prefix of it. -/
theorem commonLen_eq_length_iff (key p : List α) : commonLen key p = p.length ↔ p <+: key := by
  obtain ⟨common, restX, restY, rfl, rfl, len, differ⟩ := commonLen_spec key p
  rw [len]
  constructor
  · intro same
    have : restY = [] := by simpa using same
    subst this
    simp
  · intro isPrefix
    cases restY with
    | nil => simp
    | cons b restY =>
      exfalso
      obtain ⟨tail, split⟩ := isPrefix
      simp only [List.append_assoc, List.cons_append, List.append_cancel_left_eq] at split
      cases restX with
      | nil => simp at split
      | cons a restX =>
        simp only [List.cons.injEq] at split
        exact differ a b rfl rfl split.1.symm

/-! ### Meanings of the pieces the algorithms build -/

namespace PTree

@[simp] theorem lookup_empty_eq : (empty : PTree α β).lookup = fun _ => none := rfl

/-- A tree below the path `p`: the tree itself for the empty path, else an extension. -/
def extend (p : List α) (t : PTree α β) : PTree α β := if p = [] then t else .ext p t

/-- An extension by `p` of `t`, merged with `t` when `t` is an extension itself. -/
def merge (p : List α) (t : PTree α β) : PTree α β :=
  match t with
  | .ext q d => .ext (p ++ q) d
  | t => .ext p t

theorem lookup_extend (p : List α) (t : PTree α β) : (extend p t).lookup = under p t.lookup := by
  by_cases empty : p = []
  · simp [extend, empty]
  · simp [extend, empty, lookup_ext]

theorem lookup_merge (p : List α) (t : PTree α β) : (merge p t).lookup = under p t.lookup := by
  cases t with
  | ext q d => simp [merge, lookup_ext, under_under]
  | _ => rfl

/-- The value `v` alone, at the key `key`. -/
theorem under_leaf (key : List α) (v : β) :
    under key (leaf v).lookup = Function.update (fun _ => none) key (some v) := by
  funext query
  by_cases same : query = key
  · subst same
    simpa [lookup_leaf] using under_append query [] (leaf v).lookup
  · rw [Function.update_of_ne same]
    cases h : stripPrefix key query with
    | none => simp [under, h]
    | some rest =>
      obtain rfl := (stripPrefix_eq_some_iff key query rest).mp h
      have : rest ≠ [] := by
        rintro rfl
        simp at same
      simp [under, lookup_leaf, this]

/-- Below a single symbol, a map is a branch with one occupied child. -/
theorem under_singleton (a : α) (m : KeyMap α β) :
    under [a] m = route (Function.update (fun _ _ => none) a m) := by
  funext query
  cases query with
  | nil => simp [under, stripPrefix]
  | cons b rest =>
    by_cases same : b = a
    · subst same
      simp [under, stripPrefix]
    · simp [under, stripPrefix, Ne.symm same, same]

/-- A branch whose only occupied child is `a` means what that child means below `a`. -/
theorem route_of_sole (edges : α → KeyMap α β) (a : α) (others : ∀ b, b ≠ a → edges b = fun _ => none) :
    route edges = under [a] (edges a) := by
  rw [under_singleton]
  congr 1
  funext b
  by_cases same : b = a
  · subst same
    simp
  · simp [same, others b same]

/-! ### Keys apart from the others -/

/-- No key of `t` is a proper prefix of `key` and `key` is no proper prefix of a key of
`t`: the keys of a trie whose keys all end in one terminator are apart in this way. -/
def Separated (t : PTree α β) (key : List α) : Prop :=
  ∀ k v, t.lookup k = some v → (k <+: key ∨ key <+: k) → k = key

theorem Separated.of_ext {p rest : List α} {c : PTree α β} (sep : (ext p c).Separated (p ++ rest)) :
    c.Separated rest := by
  intro k v found related
  have inTree : (ext p c).lookup (p ++ k) = some v := by simpa [lookup_ext] using found
  have related' : p ++ k <+: p ++ rest ∨ p ++ rest <+: p ++ k := by
    simpa [List.prefix_append_right_inj] using related
  simpa using sep _ _ inTree related'

theorem Separated.of_branch {cs : α → PTree α β} {a : α} {rest : List α}
    (sep : (branch cs).Separated (a :: rest)) : (cs a).Separated rest := by
  intro k v found related
  have inTree : (branch cs).lookup (a :: k) = some v := by simpa [lookup_branch] using found
  have related' : a :: k <+: a :: rest ∨ a :: rest <+: a :: k := by simpa using related
  simpa using sep _ _ inTree related'

/-- A separated key that leaves an extension early is a proper prefix of none of its keys,
so it is not a prefix of the path at all unless the tree is empty. -/
theorem Separated.not_prefix_path {p key : List α} {c : PTree α β}
    (canonical : (ext p c).Canonical) (sep : (ext p c).Separated key) (short : key.length < p.length) :
    ¬key <+: p := by
  intro isPrefix
  cases canonical with
  | ext _ _ _ below child =>
    have occupied : c ≠ .empty := by
      rintro rfl
      exact below
    obtain ⟨k, v, found⟩ := child.exists_lookup occupied
    have inTree : (ext p c).lookup (p ++ k) = some v := by simpa [lookup_ext] using found
    have same := sep _ _ inTree (.inr (isPrefix.trans (List.prefix_append p k)))
    have := congrArg List.length same
    simp at this
    omega

/-! ### Insertion -/

/-- Insertion, as `trie.go`'s `insert` does it. A value above the key is left alone: the
keys of a separated key set never meet one. -/
def insert : PTree α β → List α → β → PTree α β
  | _, [], v => .leaf v
  | .empty, key@(_ :: _), v => .ext key (.leaf v)
  | .leaf w, _ :: _, _ => .leaf w
  | .ext p c, key@(_ :: _), v =>
    let m := commonLen key p
    if m = p.length then .ext p (c.insert (key.drop m) v)
    else
      -- branch out at the index where they differ
      match p.drop m, key.drop m with
      | pi :: prest, ki :: krest =>
        let br := branch (Function.update (Function.update (fun _ => .empty) pi (extend prest c))
          ki (extend krest (.leaf v)))
        if m = 0 then br else .ext (key.take m) br
      | _, _ => .ext p c
  | .branch cs, a :: rest, v => .branch (Function.update cs a ((cs a).insert rest v))

section Insertion

-- the lemmas of this section and the next compute `insert` by `simp`
attribute [local simp] PTree.insert

/-- Insertion through an extension whose path the key goes on past. -/
theorem insert_ext_along {p key : List α} (c : PTree α β) (v : β) (nonempty : key ≠ [])
    (along : commonLen key p = p.length) :
    (ext p c).insert key v = .ext p (c.insert (key.drop p.length) v) := by
  obtain ⟨a, rest, rfl⟩ := List.exists_cons_of_ne_nil nonempty
  simp [along]

/-- Insertion through an extension that the key leaves at `m`, before the end of both. -/
theorem insert_ext_split {p key : List α} (c : PTree α β) (v : β)
    (inPath : commonLen key p < p.length) (inKey : commonLen key p < key.length) :
    (ext p c).insert key v =
      let m := commonLen key p
      let br := branch (Function.update (Function.update (fun _ => .empty) p[m]
        (extend (p.drop (m + 1)) c)) key[m] (extend (key.drop (m + 1)) (.leaf v)))
      if m = 0 then br else .ext (key.take m) br := by
  obtain ⟨a, rest, rfl⟩ := List.exists_cons_of_ne_nil (List.ne_nil_of_length_pos (by omega : 0 < key.length))
  simp only [insert, if_neg (Nat.ne_of_lt inPath), List.drop_eq_getElem_cons inPath,
    List.drop_eq_getElem_cons inKey]

theorem insert_ne_empty (t : PTree α β) (key : List α) (v : β) : t.insert key v ≠ .empty := by
  cases key with
  | nil => cases t <;> simp
  | cons a rest =>
    cases t with
    | empty => simp
    | leaf w => simp
    | ext p c =>
      simp only [insert]
      split
      · simp
      · split
        · split <;> simp
        · simp
    | branch cs => simp

theorem extensible_insert {t : PTree α β} (below : t.Extensible) (key : List α) (v : β) :
    (t.insert key v).Extensible := by
  cases key with
  | nil => cases t <;> trivial
  | cons a rest =>
    cases t with
    | leaf w => trivial
    | branch cs => trivial
    | empty => exact absurd below id
    | ext p c => exact absurd below id

omit [DecidableEq α] in
theorem canonical_extend {p : List α} {t : PTree α β} (below : t.Extensible) (canonical : t.Canonical) :
    (extend p t).Canonical := by
  by_cases empty : p = []
  · simpa [extend, empty] using canonical
  · simpa [extend, empty] using Canonical.ext p t empty below canonical

omit [DecidableEq α] in
theorem extend_ne_empty {p : List α} {t : PTree α β} (occupied : t ≠ .empty) : extend p t ≠ .empty := by
  by_cases empty : p = []
  · simpa [extend, empty] using occupied
  · simp [extend, empty]

omit [DecidableEq α] in
theorem Extensible.ne_empty {t : PTree α β} (below : t.Extensible) : t ≠ .empty := by
  rintro rfl
  exact below

/-- The branch that insertion puts where a key leaves an extension. -/
theorem canonical_split {pi ki : α} (distinct : pi ≠ ki) (prest krest : List α) {c : PTree α β}
    (below : c.Extensible) (canonical : c.Canonical) (v : β) :
    (branch (Function.update (Function.update (fun _ => .empty) pi (extend prest c))
      ki (extend krest (.leaf v)))).Canonical := by
  apply Canonical.branch _ pi ki distinct
  · simpa [Function.update_of_ne distinct] using extend_ne_empty below.ne_empty
  · simpa using extend_ne_empty (t := leaf v) (by simp)
  · intro x
    by_cases atK : x = ki
    · subst atK
      simpa using canonical_extend (p := krest) (t := leaf v) trivial (.leaf v)
    · rw [Function.update_of_ne atK]
      by_cases atP : x = pi
      · subst atP
        simpa using canonical_extend (p := prest) below canonical
      · rw [Function.update_of_ne atP]
        exact .empty

theorem canonical_insert {t : PTree α β} (canonical : t.Canonical) (key : List α) (v : β) :
    (t.insert key v).Canonical := by
  induction canonical generalizing key with
  | empty =>
    cases key with
    | nil => exact .leaf v
    | cons a rest => exact .ext _ _ (by simp) trivial (.leaf v)
  | leaf w => cases key <;> exact .leaf _
  | ext p c nonempty below child ih =>
    cases key with
    | nil => exact .leaf v
    | cons a rest =>
      simp only [insert]
      split
      · exact .ext p _ nonempty (extensible_insert below _ v) (ih _)
      · next diverges =>
        split
        · next pi prest ki krest droppedP droppedK =>
          -- the key and the path part at position `m`, with different symbols
          obtain ⟨common, restK, restP, splitK, splitP, len, differ⟩ := commonLen_spec (a :: rest) p
          have distinct : pi ≠ ki := by
            have atP : restP.head? = some pi := by
              rw [len, splitP, List.drop_left] at droppedP
              simp [droppedP]
            have atK : restK.head? = some ki := by
              rw [len, splitK, List.drop_left] at droppedK
              simp [droppedK]
            exact (differ ki pi atK atP).symm
          have branch := canonical_split distinct prest krest below child v
          split
          · exact branch
          · next notZero =>
            refine .ext _ _ ?_ trivial branch
            simpa using notZero
        · exact .ext p c nonempty below child
  | branch cs a b distinct left right children ih =>
    cases key with
    | nil => exact .leaf v
    | cons x rest =>
      simp only [insert]
      have occupied : ∀ y, cs y ≠ .empty → Function.update cs x ((cs x).insert rest v) y ≠ .empty := by
        intro y occupied
        by_cases same : y = x
        · subst same
          simpa using insert_ne_empty _ _ _
        · simpa [Function.update_of_ne same] using occupied
      refine .branch _ a b distinct (occupied a left) (occupied b right) ?_
      intro y
      by_cases same : y = x
      · subst same
        simpa using ih y rest
      · simpa [Function.update_of_ne same] using children y


/-! ### What insertion means -/

/-- The meanings of the children of a branch after one of them changed. -/
theorem lookup_update_children (cs : α → PTree α β) (a : α) (t : PTree α β) :
    (fun b => (Function.update cs a t b).lookup) = Function.update (fun b => (cs b).lookup) a t.lookup := by
  funext b
  by_cases same : b = a
  · subst same
    simp
  · simp [Function.update_of_ne same]

/-- At the empty key, a value replaces a tree whose keys a separated empty key leaves apart. -/
theorem lookup_leaf_of_separated {t : PTree α β} (sep : t.Separated []) (v : β) :
    (leaf v).lookup = Function.update t.lookup [] (some v) := by
  funext query
  by_cases same : query = []
  · subst same
    simp [lookup_leaf]
  · rw [Function.update_of_ne same]
    cases found : t.lookup query with
    | none => simp [lookup_leaf, same]
    | some w => exact absurd (sep query w found (.inr (List.nil_prefix))) same

/-- A branch put where the key leaves an extension means the extension's map with the value
added at the key. -/
theorem lookup_split {pi ki : α} (distinct : pi ≠ ki) (prest krest : List α) (c : PTree α β) (v : β) :
    (branch (Function.update (Function.update (fun _ => .empty) pi (extend prest c))
      ki (extend krest (.leaf v)))).lookup =
      Function.update (under (pi :: prest) c.lookup) (ki :: krest) (some v) := by
  have split : pi :: prest = [pi] ++ prest := rfl
  rw [split, ← under_under, under_singleton, ← route_update, lookup_branch, lookup_update_children,
    lookup_update_children]
  congr 2
  · funext b
    by_cases same : b = pi
    · subst same
      simp [lookup_extend]
    · simp [Function.update_of_ne same, lookup_empty_eq]
  · simp [Function.update_of_ne (Ne.symm distinct), lookup_extend, under_leaf]

theorem lookup_insert {t : PTree α β} (canonical : t.Canonical) {key : List α} (sep : t.Separated key)
    (v : β) : (t.insert key v).lookup = Function.update t.lookup key (some v) := by
  induction canonical generalizing key with
  | empty =>
    cases key with
    | nil => exact lookup_leaf_of_separated sep v
    | cons a rest =>
      simp only [insert, lookup_ext, under_leaf]
      rfl
  | leaf w =>
    cases key with
    | nil => exact lookup_leaf_of_separated sep v
    | cons a rest => exact absurd (sep [] w rfl (.inl List.nil_prefix)) (by simp)
  | ext p c nonempty below child ih =>
    have canonical : (ext p c).Canonical := .ext p c nonempty below child
    cases key with
    | nil => exact lookup_leaf_of_separated sep v
    | cons a rest =>
      rw [lookup_ext]
      simp only [insert]
      obtain ⟨common, restK, restP, splitK, splitP, len, differ⟩ := commonLen_spec (a :: rest) p
      split
      · next whole =>
        -- the path is a prefix of the key: insert below it
        rw [whole]
        obtain ⟨r, hr⟩ := (commonLen_eq_length_iff _ _).mp whole
        rw [← hr] at sep ⊢
        rw [List.drop_left, lookup_ext, ih sep.of_ext, under_update]
      · next diverges =>
        rw [len] at diverges ⊢
        have pathRest : p.drop common.length = restP := by rw [splitP, List.drop_left]
        have keyRest : (a :: rest).drop common.length = restK := by rw [splitK, List.drop_left]
        rw [pathRest, keyRest]
        cases restP with
        | nil => simp [splitP] at diverges
        | cons pi prest =>
          cases restK with
          | nil =>
            -- the key is a proper prefix of the path, which a separated key never is
            refine absurd ?_ (sep.not_prefix_path canonical ?_)
            · rw [splitK, splitP]
              simp
            · simp [splitK, splitP]
          | cons ki krest =>
            dsimp only
            have distinct : pi ≠ ki := (differ ki pi rfl rfl).symm
            have whole := lookup_split distinct prest krest c v
            have outer : under common (Function.update (under (pi :: prest) c.lookup) (ki :: krest) (some v)) =
                Function.update (under p c.lookup) (a :: rest) (some v) := by
              rw [under_update, under_under, ← splitP, ← splitK]
            have pathPrefix : (a :: rest).take common.length = common := by rw [splitK, List.take_left]
            split
            · next atRoot =>
              have : common = [] := List.eq_nil_of_length_eq_zero atRoot
              subst this
              simpa [whole] using outer
            · rw [pathPrefix, lookup_ext, whole, outer]
  | branch cs a b distinct left right children ih =>
    cases key with
    | nil => exact lookup_leaf_of_separated sep v
    | cons x rest =>
      simp only [insert, lookup_branch, lookup_update_children, ih x sep.of_branch, route_update]

end Insertion

/-! ### Deletion -/

/-- The only occupied child of a branch, when there is exactly one. -/
noncomputable def soleChild (cs : α → PTree α β) : Option α :=
  open Classical in
  if h : ∃ a, cs a ≠ .empty ∧ ∀ b, cs b ≠ .empty → b = a then some h.choose else none

omit [DecidableEq α] in
theorem soleChild_some {cs : α → PTree α β} {a : α} (sole : soleChild cs = some a) :
    cs a ≠ .empty ∧ ∀ b, b ≠ a → cs b = .empty := by
  unfold soleChild at sole
  split at sole
  · next h =>
    obtain rfl := Option.some.inj sole
    refine ⟨h.choose_spec.1, fun b other => ?_⟩
    by_contra occupied
    exact other (h.choose_spec.2 b occupied)
  · simp at sole

omit [DecidableEq α] in
theorem soleChild_eq_some {cs : α → PTree α β} {a : α} (occupied : cs a ≠ .empty)
    (others : ∀ b, b ≠ a → cs b = .empty) : soleChild cs = some a := by
  have unique : ∀ b, cs b ≠ .empty → b = a := fun b occ => by
    by_contra other
    exact occ (others b other)
  have h : ∃ a, cs a ≠ .empty ∧ ∀ b, cs b ≠ .empty → b = a := ⟨a, occupied, unique⟩
  unfold soleChild
  rw [dif_pos h]
  exact congrArg some (unique _ h.choose_spec.1)

omit [DecidableEq α] in
/-- A branch with an occupied child and not exactly one has two. -/
theorem soleChild_none {cs : α → PTree α β} (none : soleChild cs = none) {a : α} (occupied : cs a ≠ .empty) :
    ∃ b, b ≠ a ∧ cs b ≠ .empty := by
  by_contra alone
  have others : ∀ b, b ≠ a → cs b = .empty := fun b other => by
    by_contra occupiedB
    exact alone ⟨b, other, occupiedB⟩
  have sole := soleChild_eq_some occupied others
  simp [none] at sole

/-- Deletion, as `trie.go`'s `delete` does it: what is left below an extension is merged
into it, and a branch left with one child becomes an extension. -/
noncomputable def delete : PTree α β → List α → PTree α β
  | .empty, _ => .empty
  | .leaf _, _ => .empty
  | .ext p c, key =>
    if commonLen key p < p.length then .ext p c
    else if commonLen key p = key.length then .empty
    else merge p (c.delete (key.drop p.length))
  | .branch cs, [] => .branch cs
  | .branch cs, a :: rest =>
    let cs := Function.update cs a ((cs a).delete rest)
    match soleChild cs with
    | some b => merge [b] (cs b)
    | none => .branch cs

section Deletion

-- the lemmas of this section compute `delete` and `merge` by `simp`
attribute [local simp] PTree.delete PTree.merge

theorem delete_branch_shape (cs : α → PTree α β) (key : List α) :
    (∃ ds, (branch cs).delete key = .branch ds) ∨ (∃ q d, (branch cs).delete key = .ext q d) := by
  cases key with
  | nil => exact .inl ⟨cs, rfl⟩
  | cons a rest =>
    simp only [delete]
    split
    · next b _ =>
      right
      cases h : Function.update cs a ((cs a).delete rest) b <;> simp
    · exact .inl ⟨_, rfl⟩

omit [DecidableEq α] in
theorem canonical_merge {p : List α} (nonempty : p ≠ []) {t : PTree α β} (canonical : t.Canonical)
    (occupied : t ≠ .empty) : (merge p t).Canonical := by
  cases canonical with
  | empty => exact absurd rfl occupied
  | leaf v => exact .ext p _ nonempty trivial (.leaf v)
  | ext q d _ below child => exact .ext (p ++ q) d (by simp [nonempty]) below child
  | branch cs a b distinct left right children =>
    exact .ext p _ nonempty trivial (.branch cs a b distinct left right children)

theorem canonical_delete {t : PTree α β} (canonical : t.Canonical) {key : List α} (sep : t.Separated key) :
    (t.delete key).Canonical := by
  induction canonical generalizing key with
  | empty => exact .empty
  | leaf w => exact .empty
  | ext p c nonempty below child ih =>
    simp only [delete]
    split
    · exact .ext p c nonempty below child
    · next whole =>
      split
      · exact .empty
      · next longer =>
        have isPrefix : p <+: key := (commonLen_eq_length_iff _ _).mp (by
          have := commonLen_le_right key p
          omega)
        obtain ⟨r, rfl⟩ := isPrefix
        rw [List.drop_left]
        cases c with
        | leaf w =>
          -- the key would go on below a value
          have inTree : (ext p (leaf w)).lookup (p ++ []) = some w := by
            rw [lookup_ext, under_append]
            rfl
          have same := sep _ w inTree (.inl (by simp))
          obtain rfl : r = [] := by simpa using same.symm
          rw [List.append_nil] at longer
          exact absurd ((commonLen_eq_length_iff _ _).mpr (List.prefix_refl _)) longer
        | branch cs =>
          have deleted := ih sep.of_ext
          rcases delete_branch_shape cs r with ⟨ds, shape⟩ | ⟨q, d, shape⟩
          all_goals
            rw [shape] at deleted ⊢
            exact canonical_merge nonempty deleted (by simp)
        | empty => exact absurd below id
        | ext _ _ => exact absurd below id
  | branch cs a b distinct left right children ih =>
    cases key with
    | nil => exact .branch cs a b distinct left right children
    | cons x rest =>
      simp only [delete]
      have updated : ∀ y, (Function.update cs x ((cs x).delete rest) y).Canonical := by
        intro y
        by_cases same : y = x
        · subst same
          simpa using ih y sep.of_branch
        · simpa [Function.update_of_ne same] using children y
      -- one of the two occupied children is not the one deleted from
      have stays : ∃ y, y ≠ x ∧ cs y ≠ .empty := by
        by_cases atA : a = x
        · exact ⟨b, fun same => distinct (atA.trans same.symm), right⟩
        · exact ⟨a, atA, left⟩
      obtain ⟨y, other, occupied⟩ := stays
      have occupied' : Function.update cs x ((cs x).delete rest) y ≠ .empty := by
        simpa [Function.update_of_ne other] using occupied
      split
      · next c sole =>
        exact canonical_merge (by simp) (updated c) (soleChild_some sole).1
      · next none =>
        obtain ⟨z, distinct', occupiedZ⟩ := soleChild_none none occupied'
        exact .branch _ z y distinct' occupiedZ occupied' updated

theorem lookup_delete {t : PTree α β} (canonical : t.Canonical) {key : List α} (sep : t.Separated key) :
    (t.delete key).lookup = Function.update t.lookup key none := by
  induction canonical generalizing key with
  | empty =>
    funext query
    by_cases same : query = key
    · subst same
      simp
    · simp [Function.update_of_ne same]
  | leaf w =>
    -- the only key of a value is the empty key, which the separated key must be
    funext query
    have atNil : [] = key := sep [] w rfl (.inl List.nil_prefix)
    subst atNil
    by_cases same : query = []
    · subst same
      simp
    · simp [lookup_leaf, same]
  | ext p c nonempty below child ih =>
    rw [lookup_ext]
    simp only [delete]
    split
    · next short =>
      -- the key does not go through the path: nothing to delete
      have notPrefix : ¬p <+: key := fun isPrefix => by
        rw [(commonLen_eq_length_iff _ _).mpr isPrefix] at short
        omega
      rw [lookup_ext, eq_comm, Function.update_eq_self_iff, under_of_not_prefix p key _ notPrefix]
    · next whole =>
      have isPrefix : p <+: key := (commonLen_eq_length_iff _ _).mp (by
        have := commonLen_le_right key p
        omega)
      obtain ⟨r, rfl⟩ := isPrefix
      split
      · next exact =>
        -- the key is the path: the only key below it, removed with it
        have bound := commonLen_le_right (p ++ r) p
        rw [List.length_append] at exact
        obtain rfl : r = [] := List.eq_nil_of_length_eq_zero (by omega)
        funext query
        by_cases same : query = p ++ []
        · subst same
          simp
        · rw [Function.update_of_ne same]
          cases found : under p c.lookup query with
          | none => rfl
          | some v =>
            obtain ⟨k, rfl, inner⟩ := (under_eq_some_iff _ _ _ _).mp found
            have inTree : (ext p c).lookup (p ++ k) = some v := by simpa [lookup_ext] using inner
            exact absurd (sep _ _ inTree (.inr (by simp))) same
      · rw [List.drop_left, lookup_merge, ih sep.of_ext, under_update]
  | branch cs a b distinct left right children ih =>
    cases key with
    | nil =>
      simp only [delete]
      funext query
      by_cases same : query = []
      · subst same
        simp
      · simp [Function.update_of_ne same]
    | cons x rest =>
      simp only [delete]
      have whole : (branch (Function.update cs x ((cs x).delete rest))).lookup =
          Function.update (branch cs).lookup (x :: rest) none := by
        simp only [lookup_branch, lookup_update_children, ih x sep.of_branch, route_update]
      split
      · next c sole =>
        rw [lookup_merge, ← whole, lookup_branch]
        obtain ⟨-, others⟩ := soleChild_some sole
        rw [route_of_sole _ c fun d other => by simp [others d other]]
      · exact whole

end Deletion

end PTree

end Indigo.Lib
