import Indigo.Trie.Hasher

/-!
# What committing writes to the database

The writes of a commit come in blocks: a node inserted under its hash, then the references
from it to its hashed children. Every such list of writes goes through: an insert only
needs the newest entry of the flush-list to be cached, and a reference only needs its
parent, which the block has just inserted. Writes never drop an entry of the cache, nor
change the encoding it holds.

## Main results

- `Database.insert_spec`, `Database.reference_spec`: one write.
- `Database.writeAll_spec`: a list of blocks of writes goes through, keeps every cached
  encoding, and adds only the encodings it inserts.
- `Database.Keeps.extends`: over an empty disk, what is kept can still be read.
-/

namespace Indigo.Trie

namespace Database

/-- Every entry of the cache of `db` is in the cache of `db'` with the same encoding, and
the disk is the same. -/
def Keeps (db db' : Database) : Prop :=
  db'.diskdb = db.diskdb ∧ ∀ h c, db.nodes h = some c → ∃ c', db'.nodes h = some c' ∧ c'.blob = c.blob

theorem Keeps.refl (db : Database) : Keeps db db := ⟨rfl, fun _ c found => ⟨c, found, rfl⟩⟩

theorem Keeps.trans {db db' db'' : Database} (first : Keeps db db') (second : Keeps db' db'') :
    Keeps db db'' := by
  refine ⟨second.1.trans first.1, fun h c found => ?_⟩
  obtain ⟨c', found', same⟩ := first.2 h c found
  obtain ⟨c'', found'', same'⟩ := second.2 h c' found'
  exact ⟨c'', found'', same'.trans same⟩

/-- A kept cache entry has the same encoding. -/
theorem Keeps.node {db db' : Database} (keeps : Keeps db db') {h : Hash} {c : CachedNode}
    (found : db.nodes h = some c) : db'.Node h = some c.blob := by
  obtain ⟨c', found', same⟩ := keeps.2 h c found
  simp [Database.Node, found', same]

/-- Whenever the flush-list is not empty, its newest entry is cached: what `insert` needs. -/
def NewestCached (db : Database) : Prop := db.oldest = Hash.zero ∨ (db.nodes db.newest).isSome

/-- The entries of the cache of `db'` are those of `db`, with their encodings, and new ones
that `added` allows. -/
def AddsOnly (db db' : Database) (added : Hash → Bytes → Prop) : Prop :=
  ∀ h c', db'.nodes h = some c' → (∃ c, db.nodes h = some c ∧ c.blob = c'.blob) ∨ added h c'.blob

theorem AddsOnly.trans {db db' db'' : Database} {added : Hash → Bytes → Prop} (first : AddsOnly db db' added)
    (second : AddsOnly db' db'' added) : AddsOnly db db'' added := by
  intro h c'' found
  rcases second h c'' found with ⟨c', found', same⟩ | fresh
  · rcases first h c' found' with ⟨c, found, same'⟩ | fresh
    · exact .inl ⟨c, found, same'.trans same⟩
    · exact .inr (same ▸ fresh)
  · exact .inr fresh

theorem AddsOnly.mono {db db' : Database} {added more : Hash → Bytes → Prop} (adds : AddsOnly db db' added)
    (wider : ∀ h b, added h b → more h b) : AddsOnly db db' more := fun h c found =>
  (adds h c found).imp_right (wider h c.blob)

@[simp] theorem setNode_nodes (db : Database) (h : Hash) (n : Option CachedNode) :
    (db.setNode h n).nodes = Function.update db.nodes h n := rfl

@[simp] theorem setNode_diskdb (db : Database) (h : Hash) (n : Option CachedNode) :
    (db.setNode h n).diskdb = db.diskdb := rfl

@[simp] theorem setNode_oldest (db : Database) (h : Hash) (n : Option CachedNode) :
    (db.setNode h n).oldest = db.oldest := rfl

@[simp] theorem setNode_newest (db : Database) (h : Hash) (n : Option CachedNode) :
    (db.setNode h n).newest = db.newest := rfl

theorem modifyNode_eq {db : Database} {h : Hash} {c : CachedNode} (found : db.nodes h = some c)
    (f : CachedNode → CachedNode) : db.modifyNode h f = some (db.setNode h (some (f c))) := by
  simp [modifyNode, found]

/-- Replacing a cached entry by one with the same encoding keeps the cache. -/
theorem keeps_setNode {db : Database} {h : Hash} {c c' : CachedNode} (found : db.nodes h = some c)
    (same : c'.blob = c.blob) : Keeps db (db.setNode h (some c')) := by
  refine ⟨rfl, fun h' d found' => ?_⟩
  by_cases same : h' = h
  · subst same
    rw [found] at found'
    cases found'
    exact ⟨c', by simp, same⟩
  · exact ⟨d, by simp [Function.update_of_ne same, found'], rfl⟩

/-- Replacing a cached entry by one with the same encoding adds nothing. -/
theorem addsOnly_setNode {db : Database} {h : Hash} {c c' : CachedNode} (found : db.nodes h = some c)
    (same : c'.blob = c.blob) (added : Hash → Bytes → Prop) : AddsOnly db (db.setNode h (some c')) added := by
  intro h' d found'
  by_cases at' : h' = h
  · subst at'
    simp only [setNode_nodes, Function.update_self, Option.some.injEq] at found'
    exact .inl ⟨c, found, by rw [← found', same]⟩
  · exact .inl ⟨d, by simpa [Function.update_of_ne at'] using found', rfl⟩

/-! ### One write -/

/-- `insert`: the node is cached afterwards, with its old encoding if it was cached. -/
theorem insert_spec {db : Database} (newest : NewestCached db) (hash : Hash) (blob : Bytes) :
    ∃ db', db.insert hash blob = some db' ∧ Keeps db db' ∧ NewestCached db' ∧
      AddsOnly db db' (fun h b => h = hash ∧ b = blob) ∧ (db'.nodes hash).isSome := by
  by_cases cached : (db.nodes hash).isSome
  · exact ⟨db, by simp [Database.insert, cached], Keeps.refl db, newest,
      fun h c found => .inl ⟨c, found, rfl⟩, cached⟩
  simp only [Bool.not_eq_true, Option.isSome_eq_false_iff, Option.isNone_iff_eq_none] at cached
  -- the new entry, at the end of the flush-list
  set db₁ := db.setNode hash (some ⟨blob, 0, [], db.newest, Hash.zero⟩)
  have keeps₁ : Keeps db db₁ := by
    refine ⟨rfl, fun h c found => ?_⟩
    have other : h ≠ hash := fun same => by simp [same, cached] at found
    exact ⟨c, by simp [db₁, Function.update_of_ne other, found], rfl⟩
  have adds₁ : AddsOnly db db₁ (fun h b => h = hash ∧ b = blob) := by
    intro h c found
    by_cases same : h = hash
    · subst same
      simp only [db₁, setNode_nodes, Function.update_self, Option.some.injEq] at found
      exact .inr ⟨rfl, by rw [← found]⟩
    · exact .inl ⟨c, by simpa [db₁, Function.update_of_ne same] using found, rfl⟩
  by_cases first : db.oldest = Hash.zero
  · refine ⟨{ db₁ with nodesSize := db₁.nodesSize + HashLength + blob.length, oldest := hash, newest := hash },
      by simp [Database.insert, cached, first, db₁], keeps₁, .inr (by simp [db₁]), adds₁, by simp [db₁]⟩
  · -- link the old newest entry to the new one
    obtain ⟨c, found⟩ := Option.isSome_iff_exists.mp (newest.resolve_left first)
    have notNew : db.newest ≠ hash := fun same => by simp [← same, found] at cached
    have found₁ : db₁.nodes db.newest = some c := by simp [db₁, Function.update_of_ne notNew, found]
    set db₂ := db₁.setNode db.newest (some { c with flushNext := hash })
    have keeps₂ : Keeps db₁ db₂ := keeps_setNode found₁ rfl
    have adds₂ : AddsOnly db₁ db₂ (fun h b => h = hash ∧ b = blob) := addsOnly_setNode found₁ (by rfl) _
    refine ⟨{ db₂ with nodesSize := db₁.nodesSize + HashLength + blob.length, newest := hash }, ?_,
      keeps₁.trans keeps₂, .inr ?_, adds₁.trans adds₂, ?_⟩
    · simp only [Database.insert, cached, Option.isSome_none, Bool.false_eq_true, if_false, setNode_oldest,
        first]
      rw [modifyNode_eq (by exact found₁)]
      rfl
    · simp [db₂, db₁, Function.update_of_ne (Ne.symm notNew)]
    · simp [db₂, db₁, Function.update_of_ne (Ne.symm notNew)]

/-- `reference`: with its parent cached, a reference goes through and only changes counts. -/
theorem reference_spec {db : Database} (child : Hash) {parent : Hash} (present : (db.nodes parent).isSome) :
    ∃ db', db.reference child parent = some db' ∧ Keeps db db' ∧ db'.oldest = db.oldest ∧
      db'.newest = db.newest ∧ AddsOnly db db' (fun _ _ => False) := by
  obtain ⟨p, foundP⟩ := Option.isSome_iff_exists.mp present
  cases foundC : db.nodes child with
  | none =>
    -- a node pulled from disk: skipped
    exact ⟨db, by simp [Database.reference, foundC], Keeps.refl db, rfl, rfl,
      fun h c found => .inl ⟨c, found, rfl⟩⟩
  | some node =>
    by_cases counted : p.children.contains child = true ∧ parent ≠ Hash.zero
    · exact ⟨db, by simp [Database.reference, foundC, foundP, counted], Keeps.refl db, rfl, rfl,
        fun h c found => .inl ⟨c, found, rfl⟩⟩
    set db₁ := db.setNode child (some { node with parents := node.parents + 1 })
    obtain ⟨p₁, found₁⟩ : ∃ p₁, db₁.nodes parent = some p₁ := by
      by_cases same : parent = child
      · exact ⟨{ node with parents := node.parents + 1 }, by simp [db₁, same]⟩
      · exact ⟨p, by simp [db₁, Function.update_of_ne same, foundP]⟩
    refine ⟨db₁.setNode parent (some { p₁ with children := p₁.children.set child (p₁.children.get child + 1) }),
      ?_, (keeps_setNode foundC (by rfl)).trans (keeps_setNode found₁ (by rfl)), rfl, rfl,
      (addsOnly_setNode foundC (by rfl) _).trans (addsOnly_setNode found₁ (by rfl) _)⟩
    simp only [Database.reference, foundC, foundP, if_neg counted]
    exact modifyNode_eq found₁ _

/-! ### Blocks of writes -/

theorem Keeps.isSome {db db' : Database} (keeps : Keeps db db') {h : Hash} (present : (db.nodes h).isSome) :
    (db'.nodes h).isSome := by
  obtain ⟨c, found⟩ := Option.isSome_iff_exists.mp present
  obtain ⟨c', found', -⟩ := keeps.2 h c found
  simp [found']

/-- References from one parent, cached: they go through and only change counts. -/
theorem references_spec {parent : Hash} :
    ∀ {refs : List Write}, (∀ w ∈ refs, ∃ child, w = .reference child parent) →
      ∀ {db : Database}, (db.nodes parent).isSome →
        ∃ db', refs.foldlM write db = some db' ∧ Keeps db db' ∧ db'.oldest = db.oldest ∧
          db'.newest = db.newest ∧ AddsOnly db db' (fun _ _ => False)
  | [], _, db, _ => ⟨db, rfl, Keeps.refl db, rfl, rfl, fun h c found => .inl ⟨c, found, rfl⟩⟩
  | w :: refs, fromParent, db, present => by
    obtain ⟨child, rfl⟩ := fromParent w (by simp)
    obtain ⟨db₁, ref₁, keeps₁, oldest₁, newest₁, adds₁⟩ := reference_spec child present
    obtain ⟨db₂, refs₂, keeps₂, oldest₂, newest₂, adds₂⟩ :=
      references_spec (show ∀ w ∈ refs, ∃ child, w = .reference child parent from
        fun w member => fromParent w (List.mem_cons_of_mem _ member)) (keeps₁.isSome present)
    refine ⟨db₂, ?_, keeps₁.trans keeps₂, oldest₂.trans oldest₁, newest₂.trans newest₁, adds₁.trans adds₂⟩
    simp [write, ref₁, refs₂]

end Database

/-- Writes made of blocks: a node inserted under its hash, then the references from it. -/
inductive Blocks : List Write → Prop
  | nil : Blocks []
  | block {hash : Hash} {blob : Bytes} {refs rest : List Write}
      (fromNode : ∀ w ∈ refs, ∃ child, w = .reference child hash) :
      Blocks rest → Blocks (.insert hash blob :: refs ++ rest)

theorem Blocks.append {ws ws' : List Write} (first : Blocks ws) (second : Blocks ws') : Blocks (ws ++ ws') := by
  induction first with
  | nil => simpa using second
  | block fromNode _ ih => simpa [List.append_assoc] using Blocks.block fromNode ih

namespace Database

/-- Blocks of writes go through from any database whose flush-list tail is cached; they keep
every cached encoding, add only the encodings they insert, and leave every inserted hash
cached. -/
theorem writeAll_spec {ws : List Write} (blocks : Blocks ws) :
    ∀ {db : Database}, NewestCached db →
      ∃ db', db.writeAll ws = some db' ∧ Keeps db db' ∧ NewestCached db' ∧
        AddsOnly db db' (fun h b => .insert h b ∈ ws) ∧ ∀ h b, .insert h b ∈ ws → (db'.nodes h).isSome := by
  induction blocks with
  | nil =>
    intro db newest
    exact ⟨db, rfl, Keeps.refl db, newest, fun h c found => .inl ⟨c, found, rfl⟩, by simp⟩
  | @block hash blob refs rest fromNode _ ih =>
    intro db newest
    obtain ⟨db₁, insert₁, keeps₁, newest₁, adds₁, cached₁⟩ := insert_spec newest hash blob
    obtain ⟨db₂, refs₂, keeps₂, oldest₂, newest₂, adds₂⟩ := references_spec fromNode cached₁
    -- the references leave both ends of the flush-list as they were, and cached
    have newestCached₂ : NewestCached db₂ := by
      rcases newest₁ with first | cached
      · exact .inl (oldest₂.trans first)
      · exact .inr (newest₂ ▸ keeps₂.isSome cached)
    obtain ⟨db₃, rest₃, keeps₃, newest₃, adds₃, cached₃⟩ := ih newestCached₂
    refine ⟨db₃, ?_, keeps₁.trans (keeps₂.trans keeps₃), newest₃, ?_, ?_⟩
    · simp only [writeAll] at rest₃ ⊢
      simp [write, insert₁, List.foldlM_append, refs₂, rest₃]
    · refine (adds₁.mono ?_).trans ((adds₂.mono ?_).trans (adds₃.mono ?_))
      · rintro h b ⟨rfl, rfl⟩
        simp
      · intro h b impossible
        exact impossible.elim
      · intro h b member
        simp [member]
    · intro h b member
      simp only [List.cons_append, List.mem_cons, Write.insert.injEq, List.mem_append] at member
      rcases member with ⟨rfl, rfl⟩ | inRefs | inRest
      · exact keeps₃.isSome (keeps₂.isSome cached₁)
      · obtain ⟨child, impossible⟩ := fromNode _ inRefs
        cases impossible
      · exact cached₃ h b inRest

/-- The database can read back every blob of `db` (from its cache or its disk). -/
def Extends (db db' : Database) : Prop := ∀ h b, db.Node h = some b → db'.Node h = some b

theorem Extends.refl (db : Database) : Extends db db := fun _ _ found => found

theorem Extends.trans {db db' db'' : Database} (first : Extends db db') (second : Extends db' db'') :
    Extends db db'' := fun h b found => second h b (first h b found)

/-- Over an empty disk, every blob lives in the cache, which writes keep. -/
theorem Keeps.extends {db db' : Database} (keeps : Keeps db db') (noDisk : ∀ h, db.diskdb h = none) :
    Extends db db' := by
  intro h b found
  cases cached : db.nodes h with
  | none => simp [Database.Node, cached, noDisk] at found
  | some c =>
    simp only [Database.Node, cached, Option.some.injEq] at found
    subst found
    exact keeps.node cached

/-- Every inserted blob can be read under its hash. -/
def Written (db : Database) (ws : List Write) : Prop := ∀ h b, .insert h b ∈ ws → db.Node h = some b

theorem Written.left {db : Database} {ws ws' : List Write} (written : Written db (ws ++ ws')) :
    Written db ws := fun h b member => written h b (List.mem_append_left ws' member)

theorem Written.right {db : Database} {ws ws' : List Write} (written : Written db (ws ++ ws')) :
    Written db ws' := fun h b member => written h b (List.mem_append_right ws member)

end Database

end Indigo.Trie
