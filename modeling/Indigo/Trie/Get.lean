import Indigo.Trie.Roundtrip

/-!
# Lookups

`Trie.tryGet` walks down a node that stands for a tree and returns what the tree maps the
rest of the key to, loading hash nodes from the database on the way. The node it returns,
with the loaded nodes put in place, still stands for the same tree.

## Main results

- `resolveHash_spec`: loading a stored tree's hash gives a clean node that stands for it.
- `tryGet_spec`: with enough fuel, `tryGet` returns `t.lookup` of the rest of the key.

## Proof strategy

A walk down a valid key keeps the subtree it is at `Within` the part of the key read so
far: its keys complete that part to valid keys. This rules out the branches where Go
panics (a value with key left, a full node with no key left). The induction is on the
fuel; a hash node costs one step more than the node it loads (`walkFuel`).
-/

namespace Indigo.Trie

open Indigo.Lib Indigo.Rlp

/-! ### Subtrees met on a walk -/

/-- The invariant of a subtree reached by the path `q`: canonical, bounded, and its keys
complete `q` to valid keys. -/
structure Within (q : List Nibble) (t : Tree) : Prop where
  canonical : t.Canonical
  valid : ValidBelow q t
  bounded : Bounded t

namespace Within

variable {q : List Nibble}

theorem of_wellFormed {t : Tree} (wf : WellFormed t) : Within [] t :=
  ⟨wf.canonical, fun k v found => ⟨wf.keys k v found, wf.values k v found⟩, wf.bounded⟩

theorem shaped {t : Tree} (within : Within q t) : Shaped t :=
  shaped_of_validBelow within.canonical within.valid

theorem of_ext {p : List Nibble} {c : Tree} (within : Within q (.ext p c)) : Within (q ++ p) c := by
  obtain ⟨canonical, valid, bounded⟩ := within
  cases canonical with
  | ext _ _ _ _ child => exact ⟨child, valid.of_ext, bounded.of_ext⟩

theorem of_branch {cs : Fin 17 → Tree} (within : Within q (.branch cs)) (i : Fin 17) :
    Within (q ++ [i]) (cs i) := by
  obtain ⟨canonical, valid, bounded⟩ := within
  cases canonical with
  | branch _ _ _ _ _ _ children => exact ⟨children i, valid.of_branch i, bounded.of_branch i⟩

/-- A subtree with a key below it: the path to it is not a whole key. -/
theorem path_ne_key {t : Tree} (within : Within q t) {k : List Nibble} {v : Bytes}
    (found : t.lookup k = some v) (nonempty : k ≠ []) {key : List Nibble} (valid : ValidKey key)
    (prefixOf : key <+: q) : False := by
  have whole := (within.valid k v found).1
  have same := valid.eq_of_comparable whole (prefixOf.trans (List.prefix_append q k))
  have lengths := congrArg List.length same
  have shorter := prefixOf.length_le
  simp only [List.length_append] at lengths
  have : k.length ≠ 0 := by simpa using nonempty
  omega

/-- Below a whole key there is at most a value. -/
theorem leaf_of_key {t : Tree} (within : Within q t) (valid : ValidKey q) {k : List Nibble} {v : Bytes}
    (found : t.lookup k = some v) : k = [] := by
  by_contra nonempty
  exact within.path_ne_key found nonempty valid (List.prefix_refl q)

end Within

/-! ### Loading a node -/

section Resolve

variable (keccak : Bytes → Hash) (db : Database) (tr : Trie)

theorem Repr.flagOk_gen {top : Bool} {f : NodeFlag} {t : Tree} (ok : FlagOk keccak db top f t)
    (gen : UInt16) : FlagOk keccak db top { f with gen := gen } t :=
  ⟨ok.cached, ok.embedded⟩

theorem encOf_ne_nil (t : Tree) : encOf keccak t ≠ [] :=
  List.ne_nil_of_length_pos (length_encode_pos _)

/-- `resolveHash` on the hash of a stored tree: the decoded node stands for the tree, is
clean and caches the hash it was loaded under. -/
theorem resolveHash_spec {q : List Nibble} {t : Tree} (within : Within q t) (node : IsNode t)
    (stored : Stored keccak db t) {top : Bool} (big : top = true ∨ Big keccak t) (pref : List Nibble) :
    ∃ n, tr.resolveHash db (hashOf keccak t) pref = some (.ok n) ∧ Repr keccak db top n t ∧
      n.cache = (some (hashOf keccak t), false) := by
  have flagOk : FlagOk keccak db top { hash := some (hashOf keccak t), gen := tr.cachegen, dirty := false } t :=
    ⟨fun h cached => ⟨(Option.some.inj cached).symm, big, fun _ => stored⟩, fun _ none => by cases none⟩
  obtain ⟨n, decoded, repr, cache⟩ := decodeNode_encOf keccak db within.shaped within.bounded node
    stored.1 flagOk []
  rw [List.append_nil] at decoded
  refine ⟨n, ?_, repr, cache⟩
  unfold Trie.resolveHash
  rw [stored.2]
  split
  · next none => cases none
  · next empty => exact absurd (Option.some.inj empty) (encOf_ne_nil keccak t)
  · next _ enc _ same => rw [← Option.some.inj same, decoded]

end Resolve

/-! ### `tryGet` -/

/-- The fuel a walk needs at the node `n` with `rest` nibbles of the key left: two for each
nibble, and one more to load a hash node. -/
def walkFuel (n : Node) (rest : Nat) : Nat :=
  match n with
  | .hash _ => 2 * rest + 2
  | _ => 2 * rest + 1

theorem walkFuel_le (n : Node) (rest : Nat) : walkFuel n rest ≤ 2 * rest + 2 := by
  cases n <;> simp [walkFuel]

theorem walkFuel_of_clean {n : Node} {h : Option Hash} (cache : n.cache = (h, false)) (rest : Nat) :
    walkFuel n rest = 2 * rest + 1 := by
  cases n with
  | hash _ => simp [Node.cache] at cache
  | _ => rfl

/-- The test of `tryGet` at a short node, in terms of prefixes. -/
theorem short_mismatch_iff {key : List Nibble} (nkey : List Nibble) {pos : Nat} (le : pos ≤ key.length) :
    ((key.length : Int) - pos < nkey.length ∨ nkey ≠ (key.drop pos).take nkey.length) ↔
      ¬nkey <+: key.drop pos := by
  constructor
  · rintro (short | differ) isPrefix
    · have := isPrefix.length_le
      simp only [List.length_drop] at this
      omega
    · exact differ (List.prefix_iff_eq_take.mp isPrefix)
  · intro notPrefix
    exact .inr fun same => notPrefix (List.prefix_iff_eq_take.mpr same)

theorem lookup_ext_along {p l : List Nibble} (c : Tree) (isPrefix : p <+: l) :
    (PTree.ext p c).lookup l = c.lookup (l.drop p.length) := by
  conv_lhs => rw [← List.prefix_iff_eq_append.mp isPrefix]
  rw [PTree.lookup_ext, under_append]

theorem lookup_ext_off {p l : List Nibble} (c : Tree) (notPrefix : ¬p <+: l) :
    (PTree.ext p c).lookup l = none := by
  rw [PTree.lookup_ext, under_of_not_prefix _ _ _ notPrefix]

section Get

variable (keccak : Bytes → Hash) (db : Database) (tr : Trie) {key : List Nibble}

/-- At a value the whole key has been read. -/
theorem drop_eq_nil_of_leaf (valid : ValidKey key) {pos : Nat} {v : Bytes}
    (within : Within (key.take pos) (.leaf v)) : key.drop pos = [] := by
  have whole := (within.valid [] v (by simp [PTree.lookup_leaf])).1
  rw [List.append_nil] at whole
  have same := whole.eq_of_comparable valid (List.take_prefix pos key)
  have lengths := congrArg List.length same
  simp only [List.length_take] at lengths
  simp only [List.drop_eq_nil_iff]
  omega

/-- At a full node part of the key is left. -/
theorem pos_lt_of_branch (valid : ValidKey key) {pos : Nat} {cs : Fin 17 → Tree}
    (within : Within (key.take pos) (.branch cs)) (le : pos ≤ key.length) : pos < key.length := by
  by_contra atEnd
  obtain ⟨k, v, found⟩ := within.canonical.exists_lookup (by simp)
  have nonempty : k ≠ [] := by
    rintro rfl
    simp at found
  have whole : key.take pos = key := List.take_of_length_le (by omega)
  exact within.path_ne_key found nonempty valid (by rw [whole])

theorem lookup_branch_drop {pos : Nat} (lt : pos < key.length) (cs : Fin 17 → Tree) :
    (PTree.branch cs).lookup (key.drop pos) = (cs key[pos]).lookup (key.drop (pos + 1)) := by
  rw [List.drop_eq_getElem_cons lt, PTree.lookup_branch, route_cons]

/-- `tryGet` at a node standing for `t`, with `pos` nibbles of the key read, returns what
`t` maps the rest of the key to, and a node that still stands for `t`. -/
theorem tryGet_spec (valid : ValidKey key) (fuel : Nat) :
    ∀ {n : Node} {t : Tree} {pos : Nat} {top : Bool}, Repr keccak db top n t →
      Within (key.take pos) t → pos ≤ key.length → walkFuel n (key.length - pos) ≤ fuel →
      ∃ n' resolved, tr.tryGet db fuel n key pos = some (.ok (t.lookup (key.drop pos), n', resolved)) ∧
        Repr keccak db top n' t := by
  -- induction on the fuel; each case of `tryGet` is one case of `Repr`
  induction fuel with
  | zero =>
    intro n t pos top repr within le enough
    have := walkFuel_le n (key.length - pos)
    cases n <;> simp [walkFuel] at enough
  | succ fuel ih =>
    intro n t pos top repr within le enough
    cases repr with
    | nil => exact ⟨.nil, false, by simp [Trie.tryGet], .nil top⟩
    | value top v =>
      refine ⟨.value v, false, ?_, .value top v⟩
      simp [Trie.tryGet, PTree.lookup_leaf, drop_eq_nil_of_leaf valid within]
    | short top nkey val flags c reprC flagOk =>
      by_cases along : nkey <+: key.drop pos
      · -- the key goes on below the short node
        have mismatch := (short_mismatch_iff nkey le).not.mpr (not_not.mpr along)
        have longer : pos + nkey.length ≤ key.length := by
          have := along.length_le
          simp only [List.length_drop] at this
          omega
        have path : key.take (pos + nkey.length) = key.take pos ++ nkey := by
          rw [List.take_add, ← List.prefix_iff_eq_take.mp along]
        have fuelC : walkFuel val (key.length - (pos + nkey.length)) ≤ fuel := by
          have := walkFuel_le val (key.length - (pos + nkey.length))
          have : 0 < nkey.length := List.length_pos_iff.mpr within.shaped.1
          simp only [walkFuel] at enough
          omega
        obtain ⟨n', resolved, get, reprC'⟩ :=
          ih reprC (path ▸ within.of_ext) longer fuelC
        have lookup : (PTree.ext nkey c).lookup (key.drop pos) = c.lookup (key.drop (pos + nkey.length)) := by
          rw [lookup_ext_along c along, List.drop_drop]
        simp only [Trie.tryGet, if_neg mismatch, get, lookup]
        cases resolved with
        | true => exact ⟨_, true, rfl, .short top nkey n' _ c reprC' (Repr.flagOk_gen keccak db flagOk _)⟩
        | false => exact ⟨_, false, rfl, .short top nkey val flags c reprC flagOk⟩
      · -- the key leaves the short node: not found
        have mismatch := (short_mismatch_iff nkey le).mpr along
        refine ⟨_, false, ?_, .short top nkey val flags c reprC flagOk⟩
        simp only [Trie.tryGet, if_pos mismatch, lookup_ext_off c along]
    | full top children flags cs reprCs flagOk =>
      have lt := pos_lt_of_branch valid within le
      have path : key.take (pos + 1) = key.take pos ++ [key[pos]] := List.take_succ_eq_append_getElem lt
      have fuelC : walkFuel (children key[pos]) (key.length - (pos + 1)) ≤ fuel := by
        have := walkFuel_le (children key[pos]) (key.length - (pos + 1))
        simp only [walkFuel] at enough
        omega
      obtain ⟨n', resolved, get, reprC'⟩ :=
        ih (reprCs key[pos]) (path ▸ within.of_branch key[pos]) lt fuelC
      simp only [Trie.tryGet, List.getElem?_eq_getElem lt, get, lookup_branch_drop lt]
      cases resolved with
      | true =>
        refine ⟨_, true, rfl, .full top _ _ cs (fun i => ?_) (Repr.flagOk_gen keccak db flagOk _)⟩
        by_cases same : i = key[pos]
        · subst same
          simpa using reprC'
        · simpa [Function.update_of_ne same] using reprCs i
      | false => exact ⟨_, false, rfl, .full top children flags cs reprCs flagOk⟩
    | hash top t node stored big =>
      -- load the node, then walk it: one step of fuel for the load
      obtain ⟨rn, resolve, reprR, cache⟩ := resolveHash_spec keccak db tr within node stored big (key.take pos)
      have fuelR : walkFuel rn (key.length - pos) ≤ fuel := by
        rw [walkFuel_of_clean cache]
        simp only [walkFuel] at enough
        omega
      obtain ⟨n', resolved, get, repr'⟩ := ih reprR within le fuelR
      exact ⟨n', true, by simp [Trie.tryGet, resolve, get, Except.map], repr'⟩

end Get

end Indigo.Trie
