import Indigo.Lib.Patricia
import Indigo.Trie.Hasher

/-!
# What a trie stands for

A trie stands for a prefix tree over hex keys (`Tree`): a short node is an extension, a
full node a branch on the next nibble, a value node a leaf, and a hash node the tree of the
node stored under that hash. The operations keep the tree `WellFormed`: canonical, with
every key made of digits and the terminator, and no empty value. Such a tree has the shape
that `trie.go` relies on (`Shaped`).

The encoding of the node a tree collapses to (`itemOf`) and its hash (`hashOf`) are
functions of the tree alone. `Repr keccak db top n t` says that the node `n` stands for
`t`: its hash nodes hold the hashes of the trees they replace, whose encodings the database
holds, and every hash cached in a flag is the hash of its node's tree. `top` is set at the
root, which is hashed whatever its size.

## Main definitions

- `WellFormed`, `Shaped`, `shaped_of_wellFormed`
- `itemOf`, `encOf`, `hashOf`, `rootHash`
- `Stored`, `FlagOk`, `Repr`
-/

namespace Indigo.Trie

open Indigo.Lib Indigo.Rlp

/-- The tree of keys and values a trie stands for. -/
abbrev Tree := PTree Nibble Bytes

/-! ### Keys and shape -/

/-- A key of the trie in hex form: digits, then the terminator. -/
def ValidKey (k : List Nibble) : Prop :=
  ∃ digits, (∀ n ∈ digits, IsDigit n) ∧ k = digits ++ [terminator]

theorem validKey_keybytesToHex (key : Bytes) : ValidKey (keybytesToHex key) :=
  ⟨_, digits_flatMap_byteNibbles key, rfl⟩

theorem terminator_not_digit : ¬IsDigit terminator := by decide

theorem snoc_inj (xs : List Nibble) {ys : List Nibble} {a b : Nibble} (same : xs ++ [a] = ys ++ [b]) : xs = ys ∧ a = b := by
  have parts := List.append_inj' same rfl
  exact ⟨parts.1, by simpa using parts.2⟩

/-- One key of the trie is never a proper prefix of another: the terminator ends both. -/
theorem ValidKey.eq_of_comparable {k k' : List Nibble} (valid : ValidKey k) (valid' : ValidKey k')
    (isPrefix : k <+: k') : k = k' := by
  obtain ⟨digits, _, rfl⟩ := valid
  obtain ⟨digits', isDigits', rfl⟩ := valid'
  obtain ⟨tail, split⟩ := isPrefix
  rcases List.eq_nil_or_concat tail with rfl | ⟨front, last, rfl⟩
  · simpa using split
  · -- the terminator of `k` would be a digit of `k'`
    have parts := snoc_inj (digits ++ [terminator] ++ front) (by simpa using split)
    have member : terminator ∈ digits' := by
      rw [← parts.1]
      simp
    exact absurd (isDigits' _ member) terminator_not_digit

theorem separated_of_valid {t : Tree} (keys : ∀ k v, t.lookup k = some v → ValidKey k)
    {key : List Nibble} (valid : ValidKey key) : t.Separated key := by
  intro k v found related
  rcases related with isPrefix | isPrefix
  · exact (keys k v found).eq_of_comparable valid isPrefix
  · exact ((valid.eq_of_comparable (keys k v found) isPrefix)).symm

/-- Every key and value is shorter than `2^62`, as the keys and values of Go slices are;
the encodings of the nodes then fit the sizes an RLP header carries. -/
def Bounded (t : Tree) : Prop := ∀ k v, t.lookup k = some v → k.length < 2 ^ 62 ∧ v.length < 2 ^ 62

/-- The invariant of the tree of a trie. -/
structure WellFormed (t : Tree) : Prop where
  canonical : t.Canonical
  keys : ∀ k v, t.lookup k = some v → ValidKey k
  values : ∀ k v, t.lookup k = some v → v ≠ []
  bounded : Bounded t

theorem wellFormed_empty : WellFormed .empty :=
  ⟨.empty, fun _ _ found => by simp at found, fun _ _ found => by simp at found,
    fun _ _ found => by simp at found⟩

/-- Whether a tree is a value. -/
def IsLeaf : Tree → Prop
  | .leaf _ => True
  | _ => False

/-- The shape of a trie after any sequence of operations, in the terms of its nodes: a
short node has a nonempty key and leads to a value exactly when its key has the
terminator, else to a full node; a full node has two children at least, none of its first
sixteen is a value, and the seventeenth is nothing or a value; no value is empty. Keys are
hex keys. -/
def Shaped : Tree → Prop
  | .empty => True
  | .leaf v => v ≠ []
  | .ext p c => p ≠ [] ∧ Hex p ∧ c.Extensible ∧ (hasTerm p = true ↔ IsLeaf c) ∧ Shaped c
  | .branch cs =>
    (∃ a b, a ≠ b ∧ cs a ≠ .empty ∧ cs b ≠ .empty) ∧ (∀ i : Fin 17, i ≠ 16 → ¬IsLeaf (cs i)) ∧
      (cs 16 = .empty ∨ IsLeaf (cs 16)) ∧ ∀ i, Shaped (cs i)

/-- The keys and values of a subtree reached by the path `q`. -/
def ValidBelow (q : List Nibble) (t : Tree) : Prop :=
  ∀ k v, t.lookup k = some v → ValidKey (q ++ k) ∧ v ≠ []

theorem ValidBelow.of_ext {q p : List Nibble} {c : Tree} (valid : ValidBelow q (.ext p c)) :
    ValidBelow (q ++ p) c := by
  intro k v found
  simpa [List.append_assoc] using valid (p ++ k) v (by simpa [PTree.lookup_ext] using found)

theorem ValidBelow.of_branch {q : List Nibble} {cs : Fin 17 → Tree} (valid : ValidBelow q (.branch cs))
    (i : Fin 17) : ValidBelow (q ++ [i]) (cs i) := by
  intro k v found
  simpa [List.append_assoc] using valid (i :: k) v (by simpa [PTree.lookup_branch] using found)

/-- Below the terminator, the only key left is the empty one. -/
theorem ValidKey.rest_nil {q k : List Nibble} (valid : ValidKey (q ++ terminator :: k)) : k = [] := by
  obtain ⟨digits, isDigits, split⟩ := valid
  rcases List.eq_nil_or_concat k with rfl | ⟨front, last, rfl⟩
  · rfl
  · exfalso
    have parts := snoc_inj (q ++ terminator :: front) (by simpa using split)
    have member : terminator ∈ digits := by
      rw [← parts.1]
      simp
    exact terminator_not_digit (isDigits _ member)

/-- A key ends in the terminator and nowhere else. -/
theorem ValidKey.last_eq {q : List Nibble} {a : Nibble} (valid : ValidKey (q ++ [a])) : a = terminator := by
  obtain ⟨digits, _, split⟩ := valid
  exact (snoc_inj _ split).2

theorem ValidKey.digits_of_append {q k : List Nibble} (valid : ValidKey (q ++ k)) (nonempty : k ≠ []) :
    ∀ n ∈ q, IsDigit n := by
  obtain ⟨digits, isDigits, split⟩ := valid
  rcases List.eq_nil_or_concat k with rfl | ⟨front, last, rfl⟩
  · exact absurd rfl nonempty
  · have parts := snoc_inj (q ++ front) (by simpa using split)
    intro n member
    exact isDigits n (by rw [← parts.1]; simp [member])

/-- The end of a key is a hex key. -/
theorem ValidKey.hex_of_append {q p : List Nibble} (valid : ValidKey (q ++ p)) : Hex p := by
  rcases List.eq_nil_or_concat p with rfl | ⟨front, last, rfl⟩
  · exact ⟨[], by simp, .inl rfl⟩
  · rw [List.concat_eq_append, ← List.append_assoc] at valid
    have atEnd : last = terminator := ValidKey.last_eq valid
    subst atEnd
    have digits := ValidKey.digits_of_append valid (by simp)
    exact ⟨front, fun n member => digits n (List.mem_append.mpr (.inr member)), .inr (List.concat_eq_append ..)⟩

theorem shaped_of_validBelow {t : Tree} (canonical : t.Canonical) {q : List Nibble}
    (valid : ValidBelow q t) : Shaped t := by
  induction canonical generalizing q with
  | empty => trivial
  | leaf v => exact (valid [] v (by simp [PTree.lookup_leaf])).2
  | ext p c nonempty below child ih =>
    have inner := valid.of_ext
    have pathShape : Hex p ∧ (hasTerm p = true ↔ IsLeaf c) := by
      cases c with
      | leaf v =>
        -- the key of the value is the path itself
        have key := (inner [] v (by simp [PTree.lookup_leaf])).1
        rw [List.append_nil] at key
        refine ⟨key.hex_of_append, ?_⟩
        obtain ⟨front, last, rfl⟩ := (List.eq_nil_or_concat p).resolve_left nonempty
        rw [List.concat_eq_append, ← List.append_assoc] at key
        simp [IsLeaf, hasTerm, ValidKey.last_eq key]
      | branch cs =>
        -- the path is followed by more of a key, so it is digits only
        obtain ⟨k, v, found⟩ := child.exists_lookup below.ne_empty
        have key := (inner k v found).1
        have nonemptyK : k ≠ [] := by
          rintro rfl
          simp at found
        have digits := ValidKey.digits_of_append (q := q ++ p) (by simpa using key) nonemptyK
        have pathDigits : ∀ n ∈ p, IsDigit n := fun n member => digits n (List.mem_append.mpr (.inr member))
        exact ⟨⟨p, pathDigits, .inl rfl⟩, by simp [IsLeaf, hasTerm_of_digits pathDigits]⟩
      | empty => exact absurd below id
      | ext _ _ => exact absurd below id
    exact ⟨nonempty, pathShape.1, below, pathShape.2, ih inner⟩
  | branch cs a b distinct left right children ih =>
    refine ⟨⟨a, b, distinct, left, right⟩, ?_, ?_, fun i => ih i (valid.of_branch i)⟩
    · intro i other
      cases found : cs i with
      | leaf v =>
        have key := (valid.of_branch i [] v (by simp [found, PTree.lookup_leaf])).1
        exact absurd (ValidKey.last_eq (by simpa using key)) other
      | _ => simp [IsLeaf]
    · -- below the terminator only the empty key is left: nothing, or a value
      by_cases empty : cs 16 = .empty
      · exact .inl empty
      · right
        obtain ⟨k, v, found⟩ := (children 16).exists_lookup empty
        have key := (valid.of_branch 16 k v found).1
        rw [List.append_assoc, List.singleton_append] at key
        have atNil : k = [] := ValidKey.rest_nil key
        subst atNil
        cases h : cs 16 with
        | leaf w => trivial
        | empty => exact absurd h empty
        | ext p c =>
          have nonempty := by
            have canonical := children 16
            rw [h] at canonical
            cases canonical with
            | ext _ _ nonempty _ _ => exact nonempty
          rw [h] at found
          simp [PTree.lookup_ext_nil nonempty] at found
        | branch ds =>
          rw [h] at found
          simp at found

theorem shaped_of_wellFormed {t : Tree} (wf : WellFormed t) : Shaped t :=
  shaped_of_validBelow (q := []) wf.canonical fun k v found => ⟨wf.keys k v found, wf.values k v found⟩

/-! ### Encodings and hashes of trees -/

section Hashing

variable (keccak : Bytes → Hash)

/-- The item a parent holds for a child tree whose own item is `it`: a value as a string,
no child as the empty string, and a node itself when it encodes to less than 32 bytes,
else its hash. -/
def childRef (it : Item) : Tree → Item
  | .empty => .str []
  | .leaf v => .str v
  | _ => if it.encode.length < 32 then it else .str (keccak it.encode).bytes

/-- The item of the node a tree collapses to: a short node is its compact key and its
child, a full node its seventeen children. -/
def itemOf : Tree → Item
  | .empty => .list []
  | .leaf v => .str v
  | .ext p c => .list [.str (hexToCompact p), childRef keccak (itemOf c) c]
  | .branch cs => .list (List.ofFn fun i => childRef keccak (itemOf (cs i)) (cs i))

/-- The encoding of the node a tree collapses to. -/
def encOf (t : Tree) : Bytes := (itemOf keccak t).encode

/-- The hash of the node a tree collapses to. -/
def hashOf (t : Tree) : Hash := keccak (encOf keccak t)

/-- A node whose encoding takes 32 bytes or more, so that its parent refers to it by hash. -/
def Big (t : Tree) : Prop := 32 ≤ (encOf keccak t).length

/-- The trees a node of the database stands for: short and full nodes. -/
def IsNode : Tree → Prop
  | .ext _ _ | .branch _ => True
  | _ => False

/-- A child that its parent refers to by hash. -/
def Hashed (t : Tree) : Prop := IsNode t ∧ Big keccak t

/-- The root hash of a trie: `emptyRoot` for the empty trie, else the hash of the root's
encoding, whatever its size. -/
def rootHash (t : Tree) : Hash :=
  match t with
  | .empty => emptyRoot
  | t => hashOf keccak t

/-- The database holds the encoding of `t` under its hash. -/
def InDb (db : Database) (t : Tree) : Prop := db.Node (hashOf keccak t) = some (encOf keccak t)

/-- The database holds every hashed node below `t`. -/
def Complete (db : Database) : Tree → Prop
  | .empty | .leaf _ => True
  | .ext _ c => Complete db c ∧ (Hashed keccak c → InDb keccak db c)
  | .branch cs => ∀ i, Complete db (cs i) ∧ (Hashed keccak (cs i) → InDb keccak db (cs i))

/-- The database holds `t` and every hashed node below it. -/
def Stored (db : Database) (t : Tree) : Prop := Complete keccak db t ∧ InDb keccak db t

/-- A flag agrees with the tree of its node: a cached hash is the node's hash (a node below
the root is hashed only when big), and a clean node with a hash is stored; a clean node
without one is embedded in its parent. -/
structure FlagOk (db : Database) (top : Bool) (f : NodeFlag) (t : Tree) : Prop where
  cached : ∀ h, f.hash = some h → h = hashOf keccak t ∧ (top = true ∨ Big keccak t) ∧
    (f.dirty = false → Stored keccak db t)
  embedded : f.dirty = false → f.hash = none → top = false ∧ ¬Big keccak t

/-- `Repr keccak db top n t`: the node `n` stands for the tree `t`; `top` at the root. -/
inductive Repr (db : Database) : Bool → Node → Tree → Prop
  | nil (top : Bool) : Repr db top .nil .empty
  | value (top : Bool) (v : Bytes) : Repr db top (.value v) (.leaf v)
  | short (top : Bool) (key : List Nibble) (val : Node) (flags : NodeFlag) (c : Tree) :
      Repr db false val c → FlagOk keccak db top flags (.ext key c) →
      Repr db top (.short key val flags) (.ext key c)
  | full (top : Bool) (children : Fin 17 → Node) (flags : NodeFlag) (cs : Fin 17 → Tree) :
      (∀ i, Repr db false (children i) (cs i)) → FlagOk keccak db top flags (.branch cs) →
      Repr db top (.full children flags) (.branch cs)
  | hash (top : Bool) (t : Tree) : IsNode t → Stored keccak db t → (top = true ∨ Big keccak t) →
      Repr db top (.hash (hashOf keccak t)) t

end Hashing

end Indigo.Trie
