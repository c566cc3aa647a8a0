import Indigo.Trie.Commit

set_option linter.dupNamespace false

/-!
# Runs of trie operations

`runRandTest` in `trie/trie_test.go` starts from the empty trie on a fresh database over an
empty disk and applies updates, deletions, lookups, `Hash`, `Commit`, and a commit followed
by reopening the trie on the committed root (`reset`), checking every lookup against a Go
map of the values written. Here a run is `State.run`, the map is `refRun`, and the tree the
trie stands for after each operation is `treeRun`.

Keccak256 is a parameter. It cannot be injective, so the results assume instead that it
does not collide on the nodes that the run itself commits (`NoCollision`): two of them with
the same hash have the same encoding, and none hashes to the zero hash or to `emptyRoot`.
A run that never commits assumes nothing.

## Main results

- `State.run_spec`: a run goes through, every lookup returns the reference map's value,
  and the trie keeps standing for the tree of the map.
- `run_gets_reference`: every lookup from the empty trie returns the reference value.
- `run_shaped`: the trie keeps the shape that `trie.go` relies on.
- `run_hash_history_independent`: runs that end in the same map end in the same hash.

## Proof strategy

The invariant `Inv` of a state: the root stands for a well-formed tree whose keys are hex
keys, and the database, with no disk, holds only encodings of nodes of the trees committed
so far. One lemma for each operation keeps it (`Inv.update`, `Inv.delete`, `Inv.get`,
`Inv.hash`, `Inv.commit`, `Inv.reset`), and `State.run_spec` follows by induction on the
operations. After a commit, every inserted hash is cached; its encoding is the one inserted,
or one cached before, and `NoCollision` makes them equal.
-/

namespace Indigo.Trie

open Indigo.Lib

/-- An operation of `runRandTest`: `update` with an empty value deletes. -/
inductive Op where
  | update (key value : Bytes)
  | delete (key : Bytes)
  | get (key : Bytes)
  | hash
  | commit
  | reset
deriving DecidableEq

/-- The trie and the database it sits on. -/
structure State where
  trie : Trie
  db : Database

/-- Enough fuel for a walk along a key: two rounds for each nibble of its hex form. -/
def keyFuel (key : Bytes) : Nat := 2 * (keybytesToHex key).length + 2

namespace State

variable (keccak : Bytes → Indigo.Hash)

/-- One operation, with what a lookup returns. -/
def step (s : State) : Op → Result (List (Option Bytes) × State)
  | .update key value =>
    (s.trie.TryUpdate s.db (keyFuel key) key value).map fun r => r.map fun tr => ([], { s with trie := tr })
  | .delete key =>
    (s.trie.TryDelete s.db (keyFuel key) key).map fun r => r.map fun tr => ([], { s with trie := tr })
  | .get key =>
    (s.trie.TryGet s.db (keyFuel key) key).map fun r => r.map fun (value, tr) => ([value], { s with trie := tr })
  | .hash => (s.trie.Hash keccak).map fun (_, tr) => .ok ([], { s with trie := tr })
  | .commit => (s.trie.Commit keccak s.db).map fun (_, tr, db) => .ok ([], ⟨tr, db⟩)
  | .reset =>
    match s.trie.Commit keccak s.db with
    | none => none
    | some (root, _, db) => (New root db).map fun r => r.map fun tr => ([], ⟨tr, db⟩)

/-- A run: the operations in order, with what the lookups return; an error or a panic
stops it. -/
def run (s : State) : List Op → Result (List (Option Bytes) × State)
  | [] => some (.ok ([], s))
  | op :: ops =>
    match s.step keccak op with
    | some (.ok (out, s')) => (s'.run ops).map fun r => r.map fun (outs, s'') => (out ++ outs, s'')
    | some (.error err) => some (.error err)
    | none => none

end State

/-- `New(common.Hash{}, NewDatabase(diskdb))` over an empty disk: the start of the test. -/
def initial : State :=
  ⟨{ root := .nil, originalRoot := Hash.zero, cachegen := 0, cachelimit := 0 },
    Database.NewDatabase fun _ => none⟩

/-! ### The reference map and the tree -/

/-- The map of the test, `values`: what a key was last set to. -/
abbrev RefMap := Bytes → Option Bytes

namespace Op

/-- What an operation does to the map, with what a lookup expects. -/
def refStep (m : RefMap) : Op → List (Option Bytes) × RefMap
  | .update key value => ([], Function.update m key (if value.length ≠ 0 then some value else none))
  | .delete key => ([], Function.update m key none)
  | .get key => ([m key], m)
  | .hash | .commit | .reset => ([], m)

/-- What an operation does to the tree the trie stands for. -/
noncomputable def treeStep (t : Tree) : Op → Tree
  | .update key value =>
    if value.length ≠ 0 then t.insert (keybytesToHex key) value else t.delete (keybytesToHex key)
  | .delete key => t.delete (keybytesToHex key)
  | _ => t

/-- The tree an operation commits. -/
def commitsAt (t : Tree) : Op → List Tree
  | .commit | .reset => [t]
  | _ => []

/-- Keys and values fit in Go slices, so that the encodings of nodes fit RLP headers. -/
def Small : Op → Prop
  | .update key value => key.length < 2 ^ 61 ∧ value.length < 2 ^ 62
  | _ => True

end Op

/-- The map after a run, with what the lookups expect. -/
def refRun (m : RefMap) : List Op → List (Option Bytes) × RefMap
  | [] => ([], m)
  | op :: ops => ((op.refStep m).1 ++ (refRun (op.refStep m).2 ops).1, (refRun (op.refStep m).2 ops).2)

/-- The tree after a run. -/
noncomputable def treeRun (t : Tree) : List Op → Tree
  | [] => t
  | op :: ops => treeRun (op.treeStep t) ops

/-- The trees a run commits, in order. -/
noncomputable def commits (t : Tree) : List Op → List Tree
  | [] => []
  | op :: ops => op.commitsAt t ++ commits (op.treeStep t) ops

/-- A node of the database that one of the trees `ts` stores: a short or a full node in it. -/
def Committed (ts : List Tree) (u : Tree) : Prop := ∃ t ∈ ts, u.Subtree t ∧ IsNode u

/-- Keccak256 does not collide on the nodes `P`, and none of them hashes to the zero hash
(the meta root of the database) or to `emptyRoot`. -/
structure NoCollision (keccak : Bytes → Indigo.Hash) (P : Tree → Prop) : Prop where
  injective : ∀ u u', P u → P u' → hashOf keccak u = hashOf keccak u' → encOf keccak u = encOf keccak u'
  notZero : ∀ u, P u → hashOf keccak u ≠ Hash.zero
  notEmptyRoot : ∀ u, P u → hashOf keccak u ≠ emptyRoot

/-- The tree stands for the map: a byte key's hex form leads to its value. -/
def Models (t : Tree) (m : RefMap) : Prop := ∀ key, t.lookup (keybytesToHex key) = m key

/-- Every key of the tree is the hex form of a byte key. -/
def HexKeys (t : Tree) : Prop := ∀ k v, t.lookup k = some v → ∃ key, k = keybytesToHex key

/-- The invariant of a run: the root stands for a well-formed tree whose keys are hex keys,
and the database, over an empty disk, holds only encodings of nodes of the trees `done`
committed so far, besides the meta root. -/
structure Inv (keccak : Bytes → Indigo.Hash) (done : List Tree) (s : State) (t : Tree) : Prop where
  repr : Repr keccak s.db true s.trie.root t
  within : Within [] t
  hexKeys : HexKeys t
  noDisk : ∀ h, s.db.diskdb h = none
  newest : s.db.NewestCached
  consistent : ∀ h c, s.db.nodes h = some c →
    h = Hash.zero ∨ ∃ u, Committed done u ∧ h = hashOf keccak u ∧ c.blob = encOf keccak u

/-! ### Keys and the map -/

theorem length_keybytesToHex (key : Bytes) : (keybytesToHex key).length = 2 * key.length + 1 := by
  induction key with
  | nil => rfl
  | cons b rest ih =>
    simp only [keybytesToHex, List.flatMap_cons, List.length_append, byteNibbles, List.length_cons,
      List.length_nil] at ih ⊢
    omega

theorem keybytesToHex_injective : Function.Injective keybytesToHex := fun a b same => by
  have back := hexToKeybytes_keybytesToHex a
  rw [same, hexToKeybytes_keybytesToHex] at back
  exact (Option.some.inj back).symm

/-- Setting a hex key in the tree sets the byte key in the map. -/
theorem Models.update {t t' : Tree} {m : RefMap} (models : Models t m) {key : Bytes} {r : Option Bytes}
    (lookup : t'.lookup = Function.update t.lookup (keybytesToHex key) r) :
    Models t' (Function.update m key r) := by
  intro key'
  rw [lookup]
  by_cases same : key' = key
  · subst same
    simp
  · rw [Function.update_of_ne (keybytesToHex_injective.ne same), Function.update_of_ne same]
    exact models key'

theorem HexKeys.update {t t' : Tree} (hexKeys : HexKeys t) {key : Bytes} {r : Option Bytes}
    (lookup : t'.lookup = Function.update t.lookup (keybytesToHex key) r) : HexKeys t' := by
  intro k v found
  rw [lookup] at found
  by_cases same : k = keybytesToHex key
  · exact ⟨key, same⟩
  · rw [Function.update_of_ne same] at found
    exact hexKeys k v found

/-- Two trees of hex keys that stand for the same map are the same tree. -/
theorem Models.unique {t u : Tree} {m : RefMap} (modelsT : Models t m) (modelsU : Models u m)
    (canonicalT : t.Canonical) (canonicalU : u.Canonical) (hexT : HexKeys t) (hexU : HexKeys u) : t = u := by
  apply PTree.eq_of_lookup_eq canonicalT canonicalU
  funext k
  cases foundT : t.lookup k with
  | some v =>
    obtain ⟨key, rfl⟩ := hexT k v foundT
    rw [← foundT, modelsT key, modelsU key]
  | none =>
    cases foundU : u.lookup k with
    | none => rfl
    | some v =>
      obtain ⟨key, rfl⟩ := hexU k v foundU
      rw [← foundU, modelsU key, ← modelsT key, foundT]

theorem Within.root_not_leaf {t : Tree} (within : Within [] t) : ¬IsLeaf t := by
  cases t with
  | leaf v =>
    -- the value would sit at the empty key, which has no terminator
    obtain ⟨digits, -, split⟩ := (within.valid [] v (by simp [PTree.lookup_leaf])).1
    simp at split
  | _ => exact id

/-! ### Operations on the trie alone -/

section Trie

variable {keccak : Bytes → Indigo.Hash} {done : List Tree} {s : State} {t : Tree} {m : RefMap}

theorem Inv.withTrie (inv : Inv keccak done s t) {tr : Trie} {t' : Tree} (repr : Repr keccak s.db true tr.root t')
    (within : Within [] t') (hexKeys : HexKeys t') : Inv keccak done { s with trie := tr } t' :=
  { inv with repr, within, hexKeys }

/-- `insert` at a byte key's hex form, from the root. -/
theorem Inv.insertKey (inv : Inv keccak done s t) (models : Models t m) (key value : Bytes)
    (nonempty : value ≠ []) (keyBound : key.length < 2 ^ 61) (valueBound : value.length < 2 ^ 62) :
    ∃ dirty n, s.trie.insert s.db (keyFuel key) s.trie.root [] (keybytesToHex key) (.value value) =
        some (.ok (dirty, n)) ∧
      Inv keccak done { s with trie := { s.trie with root := n } } (t.insert (keybytesToHex key) value) ∧
      Models (t.insert (keybytesToHex key) value) (Function.update m key (some value)) := by
  have valid : ValidKey ([] ++ keybytesToHex key) := by simpa using validKey_keybytesToHex key
  obtain ⟨dirty, n, insert, repr, -⟩ :=
    insert_spec keccak s.db s.trie value (keyFuel key) inv.repr inv.within valid (walkFuel_le _ _)
  have lookup := PTree.lookup_insert inv.within.canonical (inv.within.separated valid) value
  have hexBound : (keybytesToHex key).length < 2 ^ 62 := by
    rw [length_keybytesToHex]
    omega
  exact ⟨dirty, n, insert,
    inv.withTrie repr (inv.within.insert valid nonempty hexBound valueBound) (inv.hexKeys.update lookup),
    models.update lookup⟩

/-- `delete` at a byte key's hex form, from the root. -/
theorem Inv.deleteKey (inv : Inv keccak done s t) (models : Models t m) (key : Bytes) :
    ∃ dirty n, s.trie.delete s.db (keyFuel key) s.trie.root [] (keybytesToHex key) = some (.ok (dirty, n)) ∧
      Inv keccak done { s with trie := { s.trie with root := n } } (t.delete (keybytesToHex key)) ∧
      Models (t.delete (keybytesToHex key)) (Function.update m key none) := by
  have valid : ValidKey ([] ++ keybytesToHex key) := by simpa using validKey_keybytesToHex key
  obtain ⟨dirty, n, delete, repr, -⟩ :=
    delete_spec keccak s.db s.trie (keyFuel key) inv.repr inv.within valid (walkFuel_le _ _)
  have lookup := PTree.lookup_delete inv.within.canonical (inv.within.separated valid)
  exact ⟨dirty, n, delete, inv.withTrie repr (inv.within.delete valid) (inv.hexKeys.update lookup),
    models.update lookup⟩

theorem Inv.update (inv : Inv keccak done s t) (models : Models t m) {key value : Bytes}
    (small : (Op.update key value).Small) :
    ∃ s', s.step keccak (.update key value) = some (.ok ([], s')) ∧
      Inv keccak done s' ((Op.update key value).treeStep t) ∧
      Models ((Op.update key value).treeStep t) ((Op.update key value).refStep m).2 := by
  by_cases nonzero : value.length ≠ 0
  · obtain ⟨dirty, n, insert, inv', models'⟩ :=
      inv.insertKey models key value (by simpa using nonzero) small.1 small.2
    refine ⟨_, ?_, by simpa [Op.treeStep, nonzero] using inv', by simpa [Op.treeStep, Op.refStep, nonzero] using models'⟩
    simp [State.step, Trie.TryUpdate, nonzero, insert, Except.map]
  · -- an empty value deletes the key
    obtain ⟨dirty, n, delete, inv', models'⟩ := inv.deleteKey models key
    refine ⟨_, ?_, by simpa [Op.treeStep, nonzero] using inv', by simpa [Op.treeStep, Op.refStep, nonzero] using models'⟩
    simp [State.step, Trie.TryUpdate, nonzero, delete, Except.map]

theorem Inv.delete (inv : Inv keccak done s t) (models : Models t m) (key : Bytes) :
    ∃ s', s.step keccak (.delete key) = some (.ok ([], s')) ∧
      Inv keccak done s' ((Op.delete key).treeStep t) ∧
      Models ((Op.delete key).treeStep t) ((Op.delete key).refStep m).2 := by
  obtain ⟨dirty, n, delete, inv', models'⟩ := inv.deleteKey models key
  exact ⟨_, by simp [State.step, Trie.TryDelete, delete, Except.map], inv', models'⟩

/-- `TryGet` returns the map's value, and the trie, with what it resolved, still stands for
the same tree. -/
theorem Inv.get (inv : Inv keccak done s t) (models : Models t m) (key : Bytes) :
    ∃ s', s.step keccak (.get key) = some (.ok ([m key], s')) ∧ Inv keccak done s' t := by
  have within : Within ((keybytesToHex key).take 0) t := by simpa using inv.within
  obtain ⟨n, resolved, get, repr⟩ := tryGet_spec keccak s.db s.trie (validKey_keybytesToHex key) (keyFuel key)
    inv.repr within (Nat.zero_le _) (walkFuel_le _ _)
  rw [List.drop_zero, models key] at get
  refine ⟨{ s with trie := if resolved then { s.trie with root := n } else s.trie },
    by simp [State.step, Trie.TryGet, get, Except.map], ?_⟩
  cases resolved
  · exact inv.withTrie inv.repr inv.within inv.hexKeys
  · exact inv.withTrie repr inv.within inv.hexKeys

theorem Inv.hash (inv : Inv keccak done s t) :
    ∃ s', s.step keccak .hash = some (.ok ([], s')) ∧ Inv keccak done s' t := by
  obtain ⟨root, hash, repr⟩ :=
    s.trie.hash_spec keccak s.db inv.repr inv.within.shaped inv.within.root_not_leaf
  exact ⟨{ s with trie := { s.trie with root := root } }, by simp [State.step, hash],
    inv.withTrie repr inv.within inv.hexKeys⟩

end Trie

/-! ### Committing -/

section Commit

variable {keccak : Bytes → Indigo.Hash} {done : List Tree} {s : State} {t : Tree}

theorem Committed.mono {ts ts' : List Tree} (sub : ∀ t ∈ ts, t ∈ ts') {u : Tree} (committed : Committed ts u) :
    Committed ts' u := by
  obtain ⟨t, member, below, node⟩ := committed
  exact ⟨t, sub t member, below, node⟩

theorem Committed.of_subtree {ts : List Tree} {t u : Tree} (member : t ∈ ts) (below : u.Subtree t) (node : IsNode u) :
    Committed ts u := ⟨t, member, below, node⟩

/-- After a commit, the database reads back every encoding the hasher inserted: the entry
cached under its hash holds the encoding of a committed node with that hash, which is the
same encoding. -/
theorem written_of_commit {all : List Tree} (noCollision : NoCollision keccak (Committed all))
    (inv : Inv keccak done s t) (sub : ∀ u, Committed (done ++ [t]) u → Committed all u)
    {ws : List Write} (inserts : InsertsOf keccak t ws) {db' : Database}
    (adds : s.db.AddsOnly db' (fun h b => .insert h b ∈ ws))
    (cached : ∀ h b, .insert h b ∈ ws → (db'.nodes h).isSome) : db'.Written ws := by
  intro h b member
  obtain ⟨u, below, node, rfl, rfl⟩ := inserts h b member
  have committed : Committed all u := sub u (.of_subtree (by simp) below node)
  obtain ⟨c, found⟩ := Option.isSome_iff_exists.mp (cached _ _ member)
  obtain ⟨u', committed', same, blob⟩ :
      ∃ u', Committed all u' ∧ hashOf keccak u = hashOf keccak u' ∧ c.blob = encOf keccak u' := by
    rcases adds _ c found with ⟨c₀, found₀, kept⟩ | fresh
    · -- cached before the commit
      rcases inv.consistent _ c₀ found₀ with zero | ⟨u', committed', same, blob⟩
      · exact absurd zero (noCollision.notZero u committed)
      · exact ⟨u', sub u' (committed'.mono fun t member => by simp [member]), same, kept ▸ blob⟩
    · -- inserted by this commit
      obtain ⟨u', below', node', same, blob⟩ := inserts _ _ fresh
      exact ⟨u', sub u' (.of_subtree (by simp) below' node'), same, blob⟩
  simp [Database.Node, found, blob, noCollision.injective u u' committed committed' same]

/-- `Commit`: the trie keeps standing for its tree, now in the database the writes lead to,
which holds the tree's nodes. -/
theorem Inv.commit {all : List Tree} (noCollision : NoCollision keccak (Committed all))
    (inv : Inv keccak done s t) (sub : ∀ u, Committed (done ++ [t]) u → Committed all u) :
    ∃ tr db', s.trie.Commit keccak s.db = some (rootHash keccak t, tr, db') ∧
      Inv keccak (done ++ [t]) ⟨tr, db'⟩ t ∧ (t = .empty ∨ Stored keccak db' t) := by
  obtain ⟨root, ws, db', commit, -, inserts, keeps, newest, adds, cached, finish⟩ :=
    s.trie.commit_spec keccak s.db inv.newest inv.repr inv.within.shaped inv.within.root_not_leaf
  obtain ⟨repr, stored⟩ :=
    finish (keeps.extends inv.noDisk) (written_of_commit noCollision inv sub inserts adds cached)
  refine ⟨_, db', commit, ⟨repr, inv.within, inv.hexKeys, fun h => ?_, newest, fun h c found => ?_⟩, stored⟩
  · rw [keeps.1]
    exact inv.noDisk h
  · rcases adds h c found with ⟨c₀, found₀, kept⟩ | fresh
    · rcases inv.consistent h c₀ found₀ with zero | ⟨u, committed, same, blob⟩
      · exact .inl zero
      · exact .inr ⟨u, committed.mono fun t member => by simp [member], same, kept ▸ blob⟩
    · obtain ⟨u, below, node, same, blob⟩ := inserts h c.blob fresh
      exact .inr ⟨u, .of_subtree (by simp) below node, same, blob⟩

/-- A commit and `New` on the root: the new trie loads the root from the database, or is
empty for `emptyRoot`. -/
theorem Inv.reset {all : List Tree} (noCollision : NoCollision keccak (Committed all))
    (inv : Inv keccak done s t) (sub : ∀ u, Committed (done ++ [t]) u → Committed all u) :
    ∃ s', s.step keccak .reset = some (.ok ([], s')) ∧ Inv keccak (done ++ [t]) s' t := by
  obtain ⟨tr, db', commit, inv', stored⟩ := inv.commit noCollision sub
  have unchanged := fun root (repr : Repr keccak db' true root t) =>
    (⟨repr, inv'.within, inv'.hexKeys, inv'.noDisk, inv'.newest, inv'.consistent⟩ :
      Inv keccak (done ++ [t]) ⟨{ root := root, originalRoot := rootHash keccak t, cachegen := 0, cachelimit := 0 },
        db'⟩ t)
  by_cases empty : t = .empty
  · -- the empty trie: `New` on `emptyRoot` loads nothing
    subst empty
    refine ⟨_, ?_, unchanged .nil (.nil true)⟩
    simp [State.step, commit, rootHash, New, Except.map]
  · have stored := stored.resolve_left empty
    have node := isNode_of empty inv.within.root_not_leaf
    have committed : Committed all t := sub t (.of_subtree (by simp) (.refl t) node)
    obtain ⟨n, resolve, repr, -⟩ := resolveHash_spec keccak db'
      { root := .nil, originalRoot := hashOf keccak t, cachegen := 0, cachelimit := 0 } inv'.within node stored
      (.inl rfl) []
    refine ⟨_, ?_, unchanged n repr⟩
    simp [State.step, commit, rootHash_of_node keccak node, New, noCollision.notZero t committed,
      noCollision.notEmptyRoot t committed, resolve, Except.map]

end Commit

/-! ### Runs -/

section Run

variable {keccak : Bytes → Indigo.Hash}

theorem inv_initial : Inv keccak [] initial .empty where
  repr := .nil true
  within := Within.of_wellFormed wellFormed_empty
  hexKeys _ _ found := by simp at found
  noDisk _ := rfl
  newest := .inl rfl
  consistent h c found := by
    by_cases zero : h = Hash.zero
    · exact .inl zero
    · simp [initial, Database.NewDatabase, zero] at found

theorem models_initial : Models .empty fun _ => none := fun _ => rfl

/-- One operation keeps the invariant, returns what the map expects, and the tree keeps
standing for the map. -/
theorem State.step_spec {all : List Tree} (noCollision : NoCollision keccak (Committed all))
    {done : List Tree} {s : State} {t : Tree} {m : RefMap} {op : Op} (small : op.Small)
    (inv : Inv keccak done s t) (models : Models t m)
    (sub : ∀ u, Committed (done ++ op.commitsAt t) u → Committed all u) :
    ∃ s', s.step keccak op = some (.ok ((op.refStep m).1, s')) ∧
      Inv keccak (done ++ op.commitsAt t) s' (op.treeStep t) ∧ Models (op.treeStep t) (op.refStep m).2 := by
  cases op with
  | update key value => simpa [Op.commitsAt, Op.refStep] using inv.update models small
  | delete key => simpa [Op.commitsAt, Op.refStep] using inv.delete models key
  | get key =>
    obtain ⟨s', step, inv'⟩ := inv.get models key
    exact ⟨s', step, by simpa [Op.commitsAt, Op.treeStep] using inv', models⟩
  | hash =>
    obtain ⟨s', step, inv'⟩ := inv.hash
    exact ⟨s', step, by simpa [Op.commitsAt, Op.treeStep] using inv', models⟩
  | commit =>
    obtain ⟨tr, db', commit, inv', -⟩ := inv.commit noCollision sub
    exact ⟨⟨tr, db'⟩, by simp [State.step, commit, Op.refStep], inv', models⟩
  | reset =>
    obtain ⟨s', step, inv'⟩ := inv.reset noCollision sub
    exact ⟨s', step, inv', models⟩

/-- A run from a state of the invariant goes through, every lookup returns what the map
expects, and the invariant holds at its end. -/
theorem State.run_spec {all : List Tree} (noCollision : NoCollision keccak (Committed all)) :
    ∀ (ops : List Op) {done : List Tree} {s : State} {t : Tree} {m : RefMap}, (∀ op ∈ ops, op.Small) →
      Inv keccak done s t → Models t m → (∀ u, Committed (done ++ commits t ops) u → Committed all u) →
      ∃ s', s.run keccak ops = some (.ok ((refRun m ops).1, s')) ∧
        Inv keccak (done ++ commits t ops) s' (treeRun t ops) ∧ Models (treeRun t ops) (refRun m ops).2
  | [], _, s, _, _, _, inv, models, _ => ⟨s, rfl, by simpa [commits, treeRun] using inv, models⟩
  | op :: ops, done, s, t, m, small, inv, models, sub => by
    -- the committed trees of the first step are a part of those of the run
    have sub₁ : ∀ u, Committed (done ++ op.commitsAt t) u → Committed all u := fun u committed =>
      sub u (committed.mono fun t member => by simp only [commits, List.mem_append] at member ⊢; tauto)
    obtain ⟨s₁, step, inv₁, models₁⟩ := State.step_spec noCollision (small op (by simp)) inv models sub₁
    obtain ⟨s₂, run, inv₂, models₂⟩ := State.run_spec noCollision ops
      (fun op member => small op (List.mem_cons_of_mem _ member)) inv₁ models₁
      (by simpa [commits, List.append_assoc] using sub)
    refine ⟨s₂, ?_, by simpa [commits, treeRun, List.append_assoc] using inv₂, models₂⟩
    simp [State.run, step, run, refRun, Except.map]

/-- A run that commits nothing assumes nothing of Keccak256. -/
theorem NoCollision.nil : NoCollision keccak (Committed []) where
  injective _ _ committed := by simp [Committed] at committed
  notZero _ committed := by simp [Committed] at committed
  notEmptyRoot _ committed := by simp [Committed] at committed

/-- The only node of the database that a tree of one key stores is the tree itself. -/
theorem Committed.single {p : List Nibble} {v : Bytes} {n : Nat} {u : Tree}
    (committed : Committed (List.replicate n (.ext p (.leaf v))) u) : u = .ext p (.leaf v) := by
  obtain ⟨t, member, below, node⟩ := committed
  obtain rfl := List.eq_of_mem_replicate member
  cases below with
  | refl => rfl
  | ext _ below =>
    cases below
    exact absurd node id

/-- Commits of a tree of one key: any hash function that misses the zero hash and
`emptyRoot` does not collide on them. -/
theorem NoCollision.single (c : Indigo.Hash) (notZero : c ≠ Hash.zero) (notEmptyRoot : c ≠ emptyRoot)
    {p : List Nibble} {v : Bytes} {n : Nat} :
    NoCollision (fun _ => c) (Committed (List.replicate n (.ext p (.leaf v)))) where
  injective _ _ committed committed' _ := by rw [committed.single, committed'.single]
  notZero _ _ := notZero
  notEmptyRoot _ _ := notEmptyRoot

end Run

/-! ### The trie test -/

section Test

/-- From the empty trie, every run goes through and every lookup returns the value of the
reference map. -/
theorem run_gets_reference (keccak : Bytes → Indigo.Hash) (ops : List Op) (small : ∀ op ∈ ops, op.Small)
    (noCollision : NoCollision keccak (Committed (commits .empty ops))) :
    ∃ s, initial.run keccak ops = some (.ok ((refRun (fun _ => none) ops).1, s)) := by
  obtain ⟨s, run, -⟩ := State.run_spec noCollision ops small inv_initial models_initial
    fun u committed => by simpa using committed
  exact ⟨s, run⟩

/-- A constant digest, for runs that commit a single node. -/
def oneHash : Indigo.Hash := ⟨List.replicate 32 1, by simp [HashLength]⟩

/-- An update, a commit, a reopening on the committed root and a lookup. -/
def commitReset : List Op := [.update [1] [2], .commit, .reset, .get [1]]

theorem small_commitReset : ∀ op ∈ commitReset, op.Small := by
  simp [commitReset, Op.Small]

theorem noCollision_commitReset : NoCollision (fun _ => oneHash) (Committed (commits .empty commitReset)) := by
  have committed : commits .empty commitReset = List.replicate 2 (.ext (keybytesToHex [1]) (.leaf [2])) := by
    simp [commitReset, commits, Op.commitsAt, Op.treeStep, keybytesToHex, byteNibbles, PTree.insert]
  rw [committed]
  exact NoCollision.single oneHash (by decide) (by decide)

theorem run_gets_reference_commitReset :
    (∀ op ∈ commitReset, op.Small) ∧ NoCollision (fun _ => oneHash) (Committed (commits .empty commitReset)) ∧
      ∃ s, initial.run (fun _ => oneHash) commitReset =
        some (.ok ((refRun (fun _ => none) commitReset).1, s)) :=
  ⟨small_commitReset, noCollision_commitReset,
    run_gets_reference _ commitReset small_commitReset noCollision_commitReset⟩

/-- From the empty trie, after every run the root stands for a tree of the shape `trie.go`
relies on: a short node has a nonempty key and leads to a value exactly when its key ends
with the terminator, and else to a full node; a full node has two children at least, no
value among its first sixteen, and nothing or a nonempty value at index 16. Hash nodes stand
for the trees of the nodes the database holds for them. -/
theorem run_shaped (keccak : Bytes → Indigo.Hash) (ops : List Op) (small : ∀ op ∈ ops, op.Small)
    (noCollision : NoCollision keccak (Committed (commits .empty ops))) :
    ∃ gets s t, initial.run keccak ops = some (.ok (gets, s)) ∧ Repr keccak s.db true s.trie.root t ∧ Shaped t := by
  obtain ⟨s, run, inv, -⟩ := State.run_spec noCollision ops small inv_initial models_initial
    fun u committed => by simpa using committed
  exact ⟨_, s, _, run, inv.repr, inv.within.shaped⟩

theorem run_shaped_commitReset :
    (∀ op ∈ commitReset, op.Small) ∧ NoCollision (fun _ => oneHash) (Committed (commits .empty commitReset)) ∧
      ∃ gets s t, initial.run (fun _ => oneHash) commitReset = some (.ok (gets, s)) ∧
        Repr (fun _ => oneHash) s.db true s.trie.root t ∧ Shaped t :=
  ⟨small_commitReset, noCollision_commitReset,
    run_shaped _ commitReset small_commitReset noCollision_commitReset⟩

/-- Two runs from the empty trie that end with the same reference map end with tries of
the same root hash. -/
theorem run_hash_history_independent (keccak : Bytes → Indigo.Hash) (ops ops' : List Op)
    (small : ∀ op ∈ ops, op.Small) (small' : ∀ op ∈ ops', op.Small)
    (noCollision : NoCollision keccak (Committed (commits .empty ops)))
    (noCollision' : NoCollision keccak (Committed (commits .empty ops')))
    (same : (refRun (fun _ => none) ops).2 = (refRun (fun _ => none) ops').2) :
    ∃ gets s gets' s' root tr tr', initial.run keccak ops = some (.ok (gets, s)) ∧
      initial.run keccak ops' = some (.ok (gets', s')) ∧
      s.trie.Hash keccak = some (root, tr) ∧ s'.trie.Hash keccak = some (root, tr') := by
  obtain ⟨s, run, inv, models⟩ := State.run_spec noCollision ops small inv_initial models_initial
    fun u committed => by simpa using committed
  obtain ⟨s', run', inv', models'⟩ := State.run_spec noCollision' ops' small' inv_initial models_initial
    fun u committed => by simpa using committed
  -- both trees stand for the same map, and canonical trees are determined by their map
  have sameTree : treeRun .empty ops = treeRun .empty ops' := by
    rw [same] at models
    exact models.unique models' inv.within.canonical inv'.within.canonical inv.hexKeys inv'.hexKeys
  obtain ⟨root, hash, -⟩ := s.trie.hash_spec keccak s.db inv.repr inv.within.shaped inv.within.root_not_leaf
  obtain ⟨root', hash', -⟩ :=
    s'.trie.hash_spec keccak s'.db inv'.repr inv'.within.shaped inv'.within.root_not_leaf
  rw [← sameTree] at hash'
  exact ⟨_, s, _, s', _, _, _, run, run', hash, hash'⟩

/-- Two keys set in either order. -/
theorem run_hash_history_independent_swap :
    let ops := [Op.update [1] [2], .update [3] [4]]
    let ops' := [Op.update [3] [4], .hash, .update [1] [2]]
    (∀ op ∈ ops, op.Small) ∧ (∀ op ∈ ops', op.Small) ∧
      NoCollision (fun _ => oneHash) (Committed (commits .empty ops)) ∧
      NoCollision (fun _ => oneHash) (Committed (commits .empty ops')) ∧
      (refRun (fun _ => none) ops).2 = (refRun (fun _ => none) ops').2 ∧
      ∃ gets s gets' s' root tr tr', initial.run (fun _ => oneHash) ops = some (.ok (gets, s)) ∧
        initial.run (fun _ => oneHash) ops' = some (.ok (gets', s')) ∧
        s.trie.Hash (fun _ => oneHash) = some (root, tr) ∧ s'.trie.Hash (fun _ => oneHash) = some (root, tr') := by
  intro ops ops'
  have small : ∀ op ∈ ops, op.Small := by simp [ops, Op.Small]
  have small' : ∀ op ∈ ops', op.Small := by simp [ops', Op.Small]
  have noCommits : commits .empty ops = [] := by simp [ops, commits, Op.commitsAt]
  have noCommits' : commits .empty ops' = [] := by simp [ops', commits, Op.commitsAt]
  have noCollision : NoCollision (fun _ => oneHash) (Committed (commits .empty ops)) :=
    noCommits ▸ NoCollision.nil
  have noCollision' : NoCollision (fun _ => oneHash) (Committed (commits .empty ops')) :=
    noCommits' ▸ NoCollision.nil
  have same : (refRun (fun _ => none) ops).2 = (refRun (fun _ => none) ops').2 := by
    simp only [ops, ops', refRun, Op.refStep]
    exact Function.update_comm (by decide) _ _ _
  exact ⟨small, small', noCollision, noCollision', same,
    run_hash_history_independent _ ops ops' small small' noCollision noCollision' same⟩

end Test

end Indigo.Trie
