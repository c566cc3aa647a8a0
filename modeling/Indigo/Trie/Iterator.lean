import Indigo.Trie.Hasher

/-!
# Iterating over the nodes of a trie

`trie/iterator.go`: `nodeIterator` walks a trie in pre-order. It keeps a stack of the nodes
it is inside, each with the index of the child it went to last. `peek` finds the next node:
it pops the nodes whose children are all done and resolves the next child from the database.
When the database cannot give that child, `Next` reports the error and leaves the iterator
where `peek` stopped; `Next` called again once the node can be read goes on as if nothing
had failed. A `seek` that fails when the iterator is created is retried by the first `Next`.

Go's stack has its top at the end; here it is a list with its top first. Go's `seek` loops
until it finds the key or fails; the model bounds it by `fuel` and returns `none` when it runs
out, as it does when Go panics.

## Main definitions

- `Cursor.peek`, `Cursor.push`, `Cursor.seek`: what moves the iterator.
- `NodeIterator.Next`, `newNodeIterator`.
- `Visits`: the paths `Next(true)` visits from an iterator until it returns false.

## Main results

- `peekLoop_resume`: after a failed resolve, `peek` from where it stopped does what it did.
- `peekLoop_lacks`: with fewer nodes in the database, `peek` does the same or fails to
  resolve.
- `seekLoop_resume`: a seek that failed picks up where it stopped, since it only ever went
  down along the key.
- `Visits.deterministic`: an iterator has one run.
- `iterator_resumes_after_missing_nodes`: a run that failed on a node missing from the
  database, followed by the run of the same iterator once the node is back, visits what the
  iterator made on the whole database visits, also when the seek at its creation failed.

## Proof strategy

Everything rests on `peek` being resumable: a failed `peek` only popped nodes that were done
and moved the index of the node on top to just before the child it could not resolve, which
is where the same `peek` would stand when it resolves that child. The seek adds that the path
at which `peek` stops is on the key, so the retried seek goes down where the failed one did
(`OnKey`). `Resumes` packages what the first call of `Next` on the two databases must agree
on; the run theorem is an induction on the failed run.
-/

namespace Indigo.Trie

open Indigo.Lib

/-- `nodeIteratorState`: the iteration state at one node of the trie. -/
structure IteratorState where
  /-- The hash of the node, zero if it is not stored on its own. -/
  hash : Hash
  node : Node
  /-- The hash of the first stored ancestor. -/
  parent : Hash
  /-- The child processed last, `-1` before the first. -/
  index : Int
  /-- The length of the path to this node's parent. -/
  pathlen : Nat

/-- What `nodeIterator.err` holds: `iteratorEnd`, a failure of the seek done when the
iterator was created, or an error of the trie. -/
inductive IteratorError where
  | iteratorEnd
  | seekError (key : Bytes) (err : IteratorError)
  | trie (err : TrieError)

/-- The fields of `nodeIterator` that `peek`, `push` and `seek` move. The trie is `nil` in an
iterator made by `new(nodeIterator)`. -/
structure Cursor where
  trie : Option Trie
  /-- The stack, its top first. -/
  stack : List IteratorState
  path : List Nibble

/-- `nodeIterator`. -/
structure NodeIterator extends Cursor where
  err : Option IteratorError

/-- Whether a node is Go's `nil`. -/
def Node.isNil : Node → Bool
  | .nil => true
  | _ => false

/-- `resolve`: load the node of a state from the database if it is a hash node. -/
def IteratorState.resolve (st : IteratorState) (tr : Option Trie) (db : Database)
    (path : List Nibble) : Result IteratorState :=
  match st.node with
  | .hash h =>
    match tr with
    -- `tr.resolveHash` on a `nil` trie
    | none => none
    | some tr => (tr.resolveHash db h path).map fun r => r.map fun resolved =>
      { st with node := resolved, hash := h }
  | _ => some (.ok st)

/-- The hash of the first stored ancestor of the children of `parent`: its own, or else its
parent's. -/
def IteratorState.ancestor (parent : IteratorState) : Hash :=
  if parent.hash = Hash.zero then parent.parent else parent.hash

/-- The state of a child `n` of the node at `path`, below the stored ancestor `ancestor`. -/
def childState (path : List Nibble) (ancestor : Hash) (n : Node) : IteratorState :=
  { hash := n.cache.1.getD Hash.zero, node := n, parent := ancestor, index := -1,
    pathlen := path.length }

/-- `nextChild`: the state of the next child of `parent`, the child's path, and `parent` with
its index moved to just before that child; `some none` when it has no more. A short node's
`nil` child panics in `cache` (`none`). -/
def nextChild (path : List Nibble) (parent : IteratorState) (ancestor : Hash) :
    Option (Option (IteratorState × List Nibble × IteratorState)) :=
  match parent.node with
  | .full children _ =>
    -- move to the first non-nil child
    match (List.finRange 17).find? (fun i => decide (parent.index < i.val) && !(children i).isNil) with
    | some i =>
      some (some (childState path ancestor (children i), path ++ [i],
        { parent with index := i.val - 1 }))
    | none => some none
  | .short key val _ =>
    -- short node, return the pointer singleton child
    if parent.index < 0 then
      if val.isNil then none else some (some (childState path ancestor val, path ++ key, parent))
    else some none
  | _ => some none

/-- What `peek` hands to `push`: the next state, whether it has a parent whose index `push`
advances (Go's `parentIndex`, `nil` for the root), and its path. -/
structure Peeked where
  state : IteratorState
  parentIndex : Bool
  path : List Nibble

/-- The state `peek` starts the root at: the root node, with the root hash unless the trie is
empty. -/
def rootState (root : Hash) (tr : Trie) : IteratorState :=
  { hash := if root ≠ emptyRoot then root else Hash.zero, node := tr.root, parent := Hash.zero,
    index := -1, pathlen := 0 }

/-- The loop of `peek` over the stack: the next child of the node on top, or else pop it and
go on with its parent. -/
def peekLoop (tr : Option Trie) (db : Database) :
    List IteratorState → List Nibble → Option (List IteratorState × List Nibble × Except IteratorError Peeked)
  | [], path => some ([], path, .error .iteratorEnd)
  | parent :: rest, path =>
    match nextChild path parent parent.ancestor with
    | none => none
    | some (some (state, childPath, parent)) =>
      match state.resolve tr db childPath with
      | none => none
      | some (.error err) => some (parent :: rest, path, .error (.trie err))
      | some (.ok state) => some (parent :: rest, path, .ok ⟨state, true, childPath⟩)
    | some none =>
      -- no more child nodes, move back up
      peekLoop tr db rest (path.take parent.pathlen)

/-! ### A database that lacks nodes -/

/-- `db'` is `db` with some nodes taken out: each node it can give, it gives as `db` does. -/
def Database.Lacks (db' db : Database) : Prop := ∀ h, db'.Node h = none ∨ db'.Node h = db.Node h

theorem Database.Lacks.refl (db : Database) : db.Lacks db := fun _ => .inr rfl

section Lacks

variable {db' db : Database} (lacks : db'.Lacks db)
include lacks

theorem resolveHash_lacks (tr : Trie) (h : Hash) (path : List Nibble) :
    tr.resolveHash db' h path = tr.resolveHash db h path ∨
      tr.resolveHash db' h path = some (.error (.missingNode h path)) := by
  rcases lacks h with missing | same
  · exact .inr (by simp [Trie.resolveHash, missing])
  · exact .inl (by simp only [Trie.resolveHash, same])

theorem resolve_lacks (st : IteratorState) (tr : Option Trie) (path : List Nibble) :
    st.resolve tr db' path = st.resolve tr db path ∨ ∃ err, st.resolve tr db' path = some (.error err) := by
  unfold IteratorState.resolve
  split
  next h _ =>
    rcases tr with _ | tr
    · exact .inl rfl
    · rcases resolveHash_lacks lacks tr h path with same | missing
      · exact .inl (by simp only [same])
      · exact .inr ⟨.missingNode h path, by simp [missing, Except.map]⟩
  · exact .inl rfl

end Lacks

theorem resolve_error {st : IteratorState} {tr : Option Trie} {db : Database} {path : List Nibble}
    {err : TrieError} (failed : st.resolve tr db path = some (.error err)) : ∃ h, st.node = .hash h := by
  unfold IteratorState.resolve at failed
  split at failed
  next h stored => exact ⟨h, stored⟩
  · cases failed

/-! ### `nextChild` -/

/-- In ascending indices, the first one past `index` that `p` takes is also the first one
past its own predecessor. -/
theorem find?_finRange_again {n : Nat} {p : Fin n → Bool} {index : Int} {i : Fin n}
    (found : (List.finRange n).find? (fun j => decide (index < j.val) && p j) = some i) :
    (List.finRange n).find? (fun j => decide ((i.val : Int) - 1 < j.val) && p j) = some i := by
  rw [List.find?_eq_some_iff_append] at found ⊢
  obtain ⟨hit, before, after, split, _⟩ := found
  simp only [Bool.and_eq_true, decide_eq_true_eq] at hit
  refine ⟨by simp [hit.2], before, after, split, fun j earlier => ?_⟩
  -- the indices before `i` are below it
  have sorted := List.pairwise_lt_finRange n
  rw [split, List.pairwise_append] at sorted
  have below : j < i := sorted.2.2 j earlier i List.mem_cons_self
  have : ¬ ((i.val : Int) - 1 < j.val) := by
    have := Fin.lt_def.mp below
    omega
  simp [this]

section NextChild

variable {path : List Nibble} {parent parent' state : IteratorState} {ancestor : Hash}
  {childPath : List Nibble}

/-- The child `nextChild` found is found again from the parent it returned. -/
theorem nextChild_again (found : nextChild path parent ancestor = some (some (state, childPath, parent'))) :
    nextChild path parent' ancestor = some (some (state, childPath, parent')) := by
  unfold nextChild at found ⊢
  split at found
  next children flags stored =>
    split at found
    next i first =>
      simp only [Option.some.injEq, Prod.mk.injEq] at found
      obtain ⟨rfl, rfl, rfl⟩ := found
      simp only [stored, find?_finRange_again first]
    · cases found
  next key val flags stored =>
    split_ifs at found with fresh nil
    · simp only [Option.some.injEq, Prod.mk.injEq] at found
      obtain ⟨rfl, rfl, rfl⟩ := found
      simp [stored, fresh, nil]
    · cases found
  · cases found

/-- `nextChild` only moves the index of the parent. -/
theorem nextChild_parent (found : nextChild path parent ancestor = some (some (state, childPath, parent'))) :
    parent'.hash = parent.hash ∧ parent'.parent = parent.parent ∧ parent'.pathlen = parent.pathlen := by
  unfold nextChild at found
  split at found
  · split at found
    · simp only [Option.some.injEq, Prod.mk.injEq] at found
      obtain ⟨-, -, rfl⟩ := found
      exact ⟨rfl, rfl, rfl⟩
    · cases found
  · split_ifs at found
    · simp only [Option.some.injEq, Prod.mk.injEq] at found
      obtain ⟨-, -, rfl⟩ := found
      exact ⟨rfl, rfl, rfl⟩
    · cases found
  · cases found

/-- The child sits below the parent's path. -/
theorem nextChild_child (found : nextChild path parent ancestor = some (some (state, childPath, parent'))) :
    state.pathlen = path.length ∧ path <+: childPath := by
  unfold nextChild at found
  split at found
  · split at found
    · simp only [Option.some.injEq, Prod.mk.injEq] at found
      obtain ⟨rfl, rfl, -⟩ := found
      exact ⟨rfl, List.prefix_append _ _⟩
    · cases found
  · split_ifs at found
    · simp only [Option.some.injEq, Prod.mk.injEq] at found
      obtain ⟨rfl, rfl, -⟩ := found
      exact ⟨rfl, List.prefix_append _ _⟩
    · cases found
  · cases found

end NextChild

/-! ### `peek` resumes -/

section Resume

-- the lemmas of this section compute `peekLoop` by `simp`
attribute [local simp] peekLoop

theorem ancestor_congr {parent parent' : IteratorState} (hash : parent'.hash = parent.hash)
    (up : parent'.parent = parent.parent) : parent'.ancestor = parent.ancestor := by
  rw [IteratorState.ancestor, IteratorState.ancestor, hash, up]

/-- After `peekLoop` failed to resolve a child, the loop from where it stopped finds that
child again, whatever database it then reads. -/
theorem peekLoop_resume {tr : Option Trie} {db : Database} :
    ∀ {stack stack' : List IteratorState} {path path' : List Nibble} {err : TrieError},
      peekLoop tr db stack path = some (stack', path', .error (.trie err)) →
      stack' ≠ [] ∧ ∀ db', peekLoop tr db' stack' path' = peekLoop tr db' stack path
  | [], _, _, _, _, failed => by simp at failed
  | parent :: rest, stack', path, path', err, failed => by
    rcases found : nextChild path parent parent.ancestor with _ | _ | ⟨state, childPath, parent'⟩
    · simp [found] at failed
    · -- the parent is done: the failure is further down the stack
      simp only [peekLoop, found] at failed
      obtain ⟨nonempty, resumed⟩ := peekLoop_resume failed
      refine ⟨nonempty, fun db' => ?_⟩
      rw [resumed db', peekLoop, found]
    · rcases resolved : state.resolve tr db childPath with _ | _ | _ <;>
        simp only [peekLoop, found, resolved, Option.some.injEq, Prod.mk.injEq, reduceCtorEq,
          and_false] at failed
      obtain ⟨rfl, rfl, -⟩ := failed
      -- the loop from the stopped stack finds the same child in the same parent
      obtain ⟨hash, up, -⟩ := nextChild_parent found
      refine ⟨List.cons_ne_nil _ _, fun db' => ?_⟩
      rw [peekLoop, peekLoop, ancestor_congr hash up, nextChild_again found, found]

/-- With fewer nodes in the database, `peekLoop` does the same, or fails to resolve. -/
theorem peekLoop_lacks {tr : Option Trie} {db' db : Database} (lacks : db'.Lacks db) :
    ∀ {stack stack' : List IteratorState} {path path' : List Nibble} {r : Except IteratorError Peeked},
      peekLoop tr db' stack path = some (stack', path', r) →
      peekLoop tr db stack path = some (stack', path', r) ∨ ∃ err, r = .error (.trie err)
  | [], _, _, _, _, looped => .inl looped
  | parent :: rest, stack', path, path', r, looped => by
    rcases found : nextChild path parent parent.ancestor with _ | _ | ⟨state, childPath, parent'⟩
    · simp [found] at looped
    · simp only [peekLoop, found] at looped ⊢
      exact peekLoop_lacks lacks looped
    · simp only [peekLoop, found] at looped ⊢
      rcases resolve_lacks lacks state tr childPath with same | ⟨err, failed⟩
      · exact .inl (by rw [← same]; exact looped)
      · rw [failed] at looped
        simp only [Option.some.injEq, Prod.mk.injEq] at looped
        exact .inr ⟨err, looped.2.2.symm⟩

end Resume

/-! ### `Hash` of a trie whose root is a hash node -/

section RootHash

variable (keccak : Bytes → Hash)

/-- When only hashing, a node whose hash is cached is kept as it is. -/
theorem Hasher.cached_hashing {h : Hasher} {n hashed c : Node} (cached : h.cached n false = some (hashed, c)) :
    c = n := by
  unfold Hasher.cached at cached
  split at cached
  · simp only [Bool.not_false, ite_true, Option.some.injEq, Prod.mk.injEq] at cached
    exact cached.2.symm
  · cases cached

theorem Hasher.withHash_eq_hash {c : Node} {hashed : Option Hash} {commit : Bool} {x : Hash}
    (eq : Hasher.withHash c hashed commit = .hash x) : c = .hash x := by
  cases c <;> simp_all [Hasher.withHash]

/-- Only a hash node comes out of `hashChildren` as a hash node. -/
theorem Hasher.hashChildren_hash {h : Hasher} {n collapsed : Node} {commit : Bool} {x : Hash}
    {ws : List Write} (walked : h.hashChildren keccak n commit = some (collapsed, .hash x, ws)) :
    n = .hash x := by
  cases n with
  | short key val flags =>
    unfold Hasher.hashChildren at walked
    split at walked <;> simp [Option.bind_eq_some_iff] at walked
  | full children flags => simp [Hasher.hashChildren, Option.bind_eq_some_iff] at walked
  | hash y =>
    simp only [Hasher.hashChildren, Option.some.injEq, Prod.mk.injEq] at walked
    exact walked.2.1
  | value v | nil =>
    simp only [Hasher.hashChildren, Option.some.injEq, Prod.mk.injEq] at walked
    cases walked.2.1

/-- When only hashing, only a hash node is cached as a hash node. -/
theorem Hasher.hash_hash {h : Hasher} {n : Node} {force : Bool} {out : Node × Node × List Write}
    {x : Hash} (hashed : h.hash keccak n false force = some out) (isHash : out.2.1 = .hash x) :
    n = .hash x := by
  unfold Hasher.hash at hashed
  split at hashed
  · cases hashed
  · split at hashed
    next cached =>
      -- a cached hash: the node is kept
      simp only [Option.some.injEq] at hashed
      rw [← hashed] at isHash
      exact (Hasher.cached_hashing cached).symm.trans isHash
    next =>
      -- walked: the cached copy comes from `hashChildren`
      rcases walked : h.hashChildren keccak n false with _ | ⟨collapsed, cachedN, ws⟩
      · simp [walked] at hashed
      · simp only [walked, Option.pure_def, Option.bind_eq_bind, Option.bind_some,
          Option.some.injEq] at hashed
        rw [← hashed] at isHash
        have cachedHash : cachedN = .hash x := Hasher.withHash_eq_hash isHash
        exact Hasher.hashChildren_hash keccak (by rw [walked, cachedHash])

theorem hash_of_root_hash (tr : Trie) {x : Indigo.Hash} (root : tr.root = .hash x) :
    tr.Hash keccak = some (x, tr) := by
  obtain ⟨_, _, _, _⟩ := tr
  simp_all [Trie.Hash, Trie.hashRoot, Hasher.hash, Hasher.cached, Node.cache, Hasher.hashChildren,
    Hasher.store, Hasher.withHash, Node.hashOf?]

/-- A root whose hash is cached hashes to it and stays as it is. -/
theorem hash_of_cached (tr : Trie) {r : Indigo.Hash} (cached : tr.root.cache.1 = some r) :
    tr.Hash keccak = some (r, tr) := by
  obtain ⟨root, _, _, _⟩ := tr
  cases root <;> simp_all [Node.cache, Trie.Hash, Trie.hashRoot, Hasher.hash, Hasher.cached, Node.hashOf?]

/-- `Hash` leaves the root a hash node only if it was one. -/
theorem hash_root_hash {tr tr' : Trie} {root x : Indigo.Hash} (hashed : tr.Hash keccak = some (root, tr'))
    (isHash : tr'.root = .hash x) : tr.root = .hash x := by
  rcases rooted : tr.hashRoot keccak false with _ | ⟨collapsed, cachedN, ws⟩
  · simp [Trie.Hash, rooted] at hashed
  · rcases hv : collapsed.hashOf? with _ | hv
    · simp [Trie.Hash, rooted, hv] at hashed
    · simp only [Trie.Hash, rooted, hv, Option.pure_def, Option.bind_eq_bind, Option.bind_some,
        Option.some.injEq, Prod.mk.injEq] at hashed
      rw [← hashed.2] at isHash
      unfold Trie.hashRoot at rooted
      split at rooted
      · -- the empty trie stays empty
        simp only [Option.some.injEq, Prod.mk.injEq] at rooted
        rw [← rooted.2.1] at isHash
        cases isHash
      · exact Hasher.hash_hash keccak rooted isHash

/-- `Hash` again on what `Hash` left with a hash node at its root changes nothing. -/
theorem hash_again {tr tr' : Trie} {root x : Indigo.Hash} (hashed : tr.Hash keccak = some (root, tr'))
    (isHash : tr'.root = .hash x) : tr'.Hash keccak = some (root, tr') := by
  have wasHash := hash_root_hash keccak hashed isHash
  rw [hash_of_root_hash keccak tr wasHash, Option.some.injEq, Prod.mk.injEq] at hashed
  obtain ⟨rfl, rfl⟩ := hashed
  exact hash_of_root_hash keccak tr wasHash

end RootHash

namespace Cursor

variable (keccak : Bytes → Hash) (db : Database)

/-- `peek`: the next state of the iterator. An empty stack starts at the root, which `Hash`
caches in the trie first. -/
def peek (c : Cursor) (descend : Bool) : Option (Cursor × Except IteratorError Peeked) :=
  match c.stack with
  | [] =>
    match c.trie with
    -- `Hash` on a `nil` trie
    | none => none
    | some tr =>
      match tr.Hash keccak with
      | none => none
      | some (root, tr) =>
        let c := { c with trie := some tr }
        match (rootState root tr).resolve (some tr) db [] with
        | none => none
        | some (.error err) => some (c, .error (.trie err))
        | some (.ok state) => some (c, .ok ⟨state, false, []⟩)
  | top :: rest =>
    -- if we're skipping children, pop the current node first
    let stack := if descend then top :: rest else rest
    let path := if descend then c.path else c.path.take top.pathlen
    (peekLoop c.trie db stack path).map fun (stack, path, r) => ({ c with stack, path }, r)

/-- `push`: enter the state `peek` found, advancing its parent's index. -/
def push (c : Cursor) (p : Peeked) : Cursor :=
  { c with
    path := p.path
    stack := p.state :: if p.parentIndex then c.stack.modifyHead fun s => { s with index := s.index + 1 }
      else c.stack }

/-- The loop of `seek`: move forward until just before the closest match to `key`. The error
is the one `seek` returns. -/
def seekLoop (pre : Bytes) (key : List Nibble) : Nat → Cursor → Option (Cursor × Option IteratorError)
  | 0, _ => none
  | fuel + 1, c =>
    match c.peek keccak db (c.path.isPrefixOf key) with
    | none => none
    | some (c, .error .iteratorEnd) => some (c, some .iteratorEnd)
    | some (c, .error err) => some (c, some (.seekError pre err))
    | some (c, .ok p) =>
      if ¬ p.path < key then some (c, none) else seekLoop pre key fuel (c.push p)

/-- The path `seek` looks for: the hex key without its terminator. -/
def seekKey (pre : Bytes) : List Nibble := (keybytesToHex pre).dropLast

/-- `seek`. -/
def seek (fuel : Nat) (pre : Bytes) (c : Cursor) : Option (Cursor × Option IteratorError) :=
  seekLoop keccak db pre (seekKey pre) fuel c

end Cursor

namespace NodeIterator

variable (keccak : Bytes → Hash) (db : Database)

/-- The part of `Next` that steps forward with `peek` and reports its errors. -/
def step (it : NodeIterator) (descend : Bool) : Option (Bool × NodeIterator) :=
  (it.peek keccak db descend).map fun
    | (c, .error err) => (false, { c with err := some err })
    | (c, .ok p) => (true, { c.push p with err := none })

/-- `Next`: move to the next node, retrying a failed seek first; whether there is one. -/
def Next (fuel : Nat) (it : NodeIterator) (descend : Bool) : Option (Bool × NodeIterator) :=
  match it.err with
  | some .iteratorEnd => some (false, it)
  | some (.seekError key _) =>
    match it.seek keccak db fuel key with
    | none => none
    | some (c, some err) => some (false, { c with err := some err })
    | some (c, none) => step keccak db { c with err := none } descend
  | _ => step keccak db it descend

/-- `Error`: the error of the iterator, none at the end of the iteration. -/
def Error (it : NodeIterator) : Option IteratorError :=
  match it.err with
  | some .iteratorEnd => none
  | some (.seekError _ err) => some err
  | err => err

end NodeIterator

/-- `newNodeIterator`: an iterator positioned just before `start`. `emptyState` is the hash of
empty input. -/
def newNodeIterator (keccak : Bytes → Hash) (db : Database) (fuel : Nat) (tr : Trie)
    (start : Bytes) : Option NodeIterator :=
  match tr.Hash keccak with
  | none => none
  | some (root, tr) =>
    if root = keccak [] then some ⟨⟨none, [], []⟩, none⟩
    else
      (Cursor.seek keccak db fuel start ⟨some tr, [], []⟩).map fun (c, err) => { c with err }

/-! ### The seek goes down along its key -/

/-- The nodes of a stack lie along the path: the path to each one's parent is within it, and a
node higher on the stack has the longer one. -/
structure Stacked (stack : List IteratorState) (path : List Nibble) : Prop where
  sorted : stack.Pairwise fun above below => below.pathlen ≤ above.pathlen
  within : ∀ st ∈ stack, st.pathlen ≤ path.length

/-- A stack along the path in which the path to the parent of every node is a prefix of `key`:
the seek went down only along the key. -/
structure OnKey (key : List Nibble) (stack : List IteratorState) (path : List Nibble) : Prop
    extends Stacked stack path where
  prefixed : ∀ st ∈ stack, path.take st.pathlen <+: key

namespace OnKey

variable {key path : List Nibble}

theorem nil (key path : List Nibble) : OnKey key [] path :=
  ⟨⟨List.Pairwise.nil, fun _ member => absurd member List.not_mem_nil⟩,
    fun _ member => absurd member List.not_mem_nil⟩

/-- Only the lengths of the parent paths matter. -/
theorem congr {stack stack' : List IteratorState} (onKey : OnKey key stack path)
    (same : stack'.map (·.pathlen) = stack.map (·.pathlen)) : OnKey key stack' path := by
  have member : ∀ st ∈ stack', ∃ st₀ ∈ stack, st₀.pathlen = st.pathlen := fun st listed =>
    List.mem_map.mp (same ▸ List.mem_map_of_mem listed)
  refine ⟨⟨?_, fun st listed => ?_⟩, fun st listed => ?_⟩
  · have sorted := onKey.sorted
    rw [← List.pairwise_map (R := fun a b => b ≤ a), ← same, List.pairwise_map] at sorted
    · exact sorted
  · obtain ⟨st₀, listed₀, len⟩ := member st listed
    exact len ▸ onKey.within st₀ listed₀
  · obtain ⟨st₀, listed₀, len⟩ := member st listed
    exact len ▸ onKey.prefixed st₀ listed₀

/-- Popping the top leaves the path at its parent's, on the key. -/
theorem pop {top : IteratorState} {rest : List IteratorState} (onKey : OnKey key (top :: rest) path) :
    OnKey key rest (path.take top.pathlen) ∧ path.take top.pathlen <+: key := by
  have below : ∀ st ∈ rest, st.pathlen ≤ top.pathlen := (List.pairwise_cons.mp onKey.sorted).1
  have topWithin := onKey.within top List.mem_cons_self
  refine ⟨⟨⟨(List.pairwise_cons.mp onKey.sorted).2, fun st listed => ?_⟩, fun st listed => ?_⟩,
    onKey.prefixed top List.mem_cons_self⟩
  · have := below st listed
    simp only [List.length_take]
    omega
  · rw [List.take_take, Nat.min_eq_left (below st listed)]
    exact onKey.prefixed st (List.mem_cons_of_mem _ listed)

/-- Entering a child of the node at a path on the key. -/
theorem push {stack : List IteratorState} {state : IteratorState} {childPath : List Nibble}
    (onKey : OnKey key stack path) (onPath : path <+: key) (len : state.pathlen = path.length)
    (below : path <+: childPath) : OnKey key (state :: stack) childPath := by
  have longer := below.length_le
  have cut : ∀ k ≤ path.length, childPath.take k = path.take k := fun k short => by
    rw [List.prefix_iff_eq_take.mp below, List.take_take, Nat.min_eq_left short]
  refine ⟨⟨List.pairwise_cons.mpr ⟨fun st listed => ?_, onKey.sorted⟩, fun st listed => ?_⟩,
    fun st listed => ?_⟩
  · rw [len]
    exact onKey.within st listed
  · rcases List.mem_cons.mp listed with rfl | listed
    · omega
    · exact Nat.le_trans (onKey.within st listed) longer
  · rcases List.mem_cons.mp listed with rfl | listed
    · rw [len, cut _ (Nat.le_refl _), List.take_length]
      exact onPath
    · rw [cut _ (onKey.within st listed)]
      exact onKey.prefixed st listed

end OnKey

theorem resolve_pathlen {st st' : IteratorState} {tr : Option Trie} {db : Database} {path : List Nibble}
    (resolved : st.resolve tr db path = some (.ok st')) : st'.pathlen = st.pathlen := by
  unfold IteratorState.resolve at resolved
  split at resolved
  · split at resolved
    · cases resolved
    · simp only [Option.map_eq_some_iff] at resolved
      obtain ⟨r, -, mapped⟩ := resolved
      cases r <;> simp only [Except.map, reduceCtorEq, Except.ok.injEq] at mapped
      rw [← mapped]
  · simp only [Option.some.injEq, Except.ok.injEq] at resolved
    rw [resolved]

/-- `peekLoop` from a path on the key stops on the key, and enters a child below that path. -/
theorem peekLoop_onKey {tr : Option Trie} {db : Database} {key : List Nibble} :
    ∀ {stack stack' : List IteratorState} {path path' : List Nibble} {r : Except IteratorError Peeked},
      OnKey key stack path → path <+: key → peekLoop tr db stack path = some (stack', path', r) →
      OnKey key stack' path' ∧ path' <+: key ∧
        ∀ p, r = .ok p → p.parentIndex = true ∧ p.state.pathlen = path'.length ∧ path' <+: p.path
  | [], stack', path, path', r, _, onPath, looped => by
    simp only [peekLoop, Option.some.injEq, Prod.mk.injEq] at looped
    obtain ⟨rfl, rfl, rfl⟩ := looped
    exact ⟨OnKey.nil key _, onPath, fun _ failed => by cases failed⟩
  | parent :: rest, stack', path, path', r, onKey, onPath, looped => by
    rcases found : nextChild path parent parent.ancestor with _ | _ | ⟨state, childPath, parent'⟩
    · simp [peekLoop, found] at looped
    · simp only [peekLoop, found] at looped
      obtain ⟨onKey', onPath'⟩ := onKey.pop
      exact peekLoop_onKey onKey' onPath' looped
    · obtain ⟨-, -, len⟩ := nextChild_parent found
      obtain ⟨childLen, below⟩ := nextChild_child found
      have onKey' : OnKey key (parent' :: rest) path := onKey.congr (by simp [len])
      rcases resolved : state.resolve tr db childPath with _ | _ | state'
      · simp [peekLoop, found, resolved] at looped
      · simp only [peekLoop, found, resolved, Option.some.injEq, Prod.mk.injEq] at looped
        obtain ⟨rfl, rfl, rfl⟩ := looped
        exact ⟨onKey', onPath, fun _ failed => by cases failed⟩
      · simp only [peekLoop, found, resolved, Option.some.injEq, Prod.mk.injEq] at looped
        obtain ⟨rfl, rfl, rfl⟩ := looped
        refine ⟨onKey', onPath, fun p entered => ?_⟩
        simp only [Except.ok.injEq] at entered
        subst entered
        exact ⟨rfl, (resolve_pathlen resolved).trans childLen, below⟩

/-! ### `peek` -/

namespace Cursor

variable {keccak : Bytes → Hash}

-- the lemmas of this part compute `peek` by `simp`
attribute [local simp] Cursor.peek

/-- `peek` at the root: `Hash`, then the root's state resolved. -/
theorem peek_root {c : Cursor} {tr tr' : Trie} {root : Hash} (empty : c.stack = [])
    (trie : c.trie = some tr) (hashed : tr.Hash keccak = some (root, tr')) (db : Database) (d : Bool) :
    c.peek keccak db d = ((rootState root tr').resolve (some tr') db []).bind fun
      | .ok st => some ({ c with trie := some tr' }, .ok ⟨st, false, []⟩)
      | .error e => some ({ c with trie := some tr' }, .error (.trie e)) := by
  rcases resolved : (rootState root tr').resolve (some tr') db [] with _ | _ | _ <;>
    simp [empty, trie, hashed, resolved]

/-- `peek` below the root: the loop, from the top, or from its parent when not descending. -/
theorem peek_cons {c : Cursor} {top : IteratorState} {rest : List IteratorState}
    (stacked : c.stack = top :: rest) (db : Database) (d : Bool) :
    c.peek keccak db d = (peekLoop c.trie db (if d then top :: rest else rest)
      (if d then c.path else c.path.take top.pathlen)).map fun x => ({ c with stack := x.1, path := x.2.1 }, x.2.2) := by
  unfold peek
  rw [stacked]

/-- A `peek` through the loop, taken apart. -/
theorem peek_cons_some {c c' : Cursor} {top : IteratorState} {rest : List IteratorState}
    (stacked : c.stack = top :: rest) {db : Database} {d : Bool} {r : Except IteratorError Peeked}
    (peeked : c.peek keccak db d = some (c', r)) :
    ∃ stack' path', peekLoop c.trie db (if d then top :: rest else rest)
        (if d then c.path else c.path.take top.pathlen) = some (stack', path', r) ∧
      c' = { c with stack := stack', path := path' } := by
  rw [peek_cons stacked, Option.map_eq_some_iff] at peeked
  obtain ⟨⟨stack', path', r'⟩, looped, found⟩ := peeked
  simp only [Prod.mk.injEq] at found
  obtain ⟨rfl, rfl⟩ := found
  exact ⟨stack', path', looped, rfl⟩

theorem peekLoop_error {tr : Option Trie} {db : Database} :
    ∀ {stack stack' : List IteratorState} {path path' : List Nibble} {err : IteratorError},
      peekLoop tr db stack path = some (stack', path', .error err) → err = .iteratorEnd ∨ ∃ e, err = .trie e
  | [], _, _, _, _, looped => by
    simp only [peekLoop, Option.some.injEq, Prod.mk.injEq, Except.error.injEq] at looped
    exact .inl looped.2.2.symm
  | parent :: rest, stack', path, path', err, looped => by
    rcases found : nextChild path parent parent.ancestor with _ | _ | ⟨state, childPath, parent'⟩
    · simp [peekLoop, found] at looped
    · simp only [peekLoop, found] at looped
      exact peekLoop_error looped
    · rcases resolved : state.resolve tr db childPath with _ | _ | _ <;>
        simp [peekLoop, found, resolved] at looped
      exact .inr ⟨_, looped.2.2.symm⟩

/-- `peek` fails only at the end of the iteration or on a node it cannot resolve. -/
theorem peek_error {c c' : Cursor} {db : Database} {d : Bool} {err : IteratorError}
    (peeked : c.peek keccak db d = some (c', .error err)) : err = .iteratorEnd ∨ ∃ e, err = .trie e := by
  rcases stacked : c.stack with _ | ⟨top, rest⟩
  · rcases trie : c.trie with _ | tr
    · simp [stacked, trie] at peeked
    rcases hashed : tr.Hash keccak with _ | ⟨root, tr'⟩
    · simp [stacked, trie, hashed] at peeked
    rw [peek_root stacked trie hashed] at peeked
    rcases resolved : (rootState root tr').resolve (some tr') db [] with _ | _ | _ <;>
      simp [resolved] at peeked
    exact .inr ⟨_, peeked.2.symm⟩
  · obtain ⟨stack', path', looped, -⟩ := peek_cons_some stacked peeked
    exact peekLoop_error looped

/-- With fewer nodes in the database, `peek` does the same, or fails to resolve. -/
theorem peek_lacks {db' db : Database} (lacks : db'.Lacks db) {c c' : Cursor} {d : Bool}
    {r : Except IteratorError Peeked} (peeked : c.peek keccak db' d = some (c', r)) :
    c.peek keccak db d = some (c', r) ∨ ∃ e, r = .error (.trie e) := by
  rcases stacked : c.stack with _ | ⟨top, rest⟩
  · rcases trie : c.trie with _ | tr
    · simp [stacked, trie] at peeked
    rcases hashed : tr.Hash keccak with _ | ⟨root, tr'⟩
    · simp [stacked, trie, hashed] at peeked
    rw [peek_root stacked trie hashed] at peeked ⊢
    rcases resolve_lacks lacks (rootState root tr') (some tr') [] with same | ⟨e, failed⟩
    · exact .inl (by rw [← same]; exact peeked)
    · rw [failed] at peeked
      simp only [Option.bind_some, Option.some.injEq, Prod.mk.injEq] at peeked
      exact .inr ⟨e, peeked.2.symm⟩
  · obtain ⟨stack', path', looped, rfl⟩ := peek_cons_some stacked peeked
    rcases peekLoop_lacks lacks looped with same | ⟨e, rfl⟩
    · exact .inl (by rw [peek_cons stacked, same]; rfl)
    · exact .inr ⟨e, rfl⟩

/-- After a `peek` that failed to resolve, `peek` from where it stopped does what it did, from
any database, provided it descends where the first one may have popped. -/
theorem peek_resume {db : Database} {c c' : Cursor} {d d' : Bool} {e : TrieError}
    (failed : c.peek keccak db d = some (c', .error (.trie e))) (descends : c.stack ≠ [] → d' = true)
    (db' : Database) : c'.peek keccak db' d' = c.peek keccak db' d := by
  rcases stacked : c.stack with _ | ⟨top, rest⟩
  · rcases trie : c.trie with _ | tr
    · simp [stacked, trie] at failed
    rcases hashed : tr.Hash keccak with _ | ⟨root, tr'⟩
    · simp [stacked, trie, hashed] at failed
    rw [peek_root stacked trie hashed] at failed
    rcases resolved : (rootState root tr').resolve (some tr') db [] with _ | _ | _ <;>
      simp only [resolved, Option.bind_none, Option.bind_some, reduceCtorEq, Option.some.injEq,
        Prod.mk.injEq, and_false] at failed
    obtain ⟨rfl, -⟩ := failed
    -- the root failed to resolve, so it is a hash node, which `Hash` leaves as it is
    obtain ⟨x, isHash⟩ := resolve_error resolved
    have again := hash_again keccak hashed isHash
    rw [peek_root stacked trie hashed, peek_root (c := { c with trie := some tr' }) stacked rfl again]
  · obtain ⟨stack', path', looped, rfl⟩ := peek_cons_some stacked failed
    obtain ⟨nonempty, resumed⟩ := peekLoop_resume looped
    obtain ⟨top', rest', rfl⟩ := List.exists_cons_of_ne_nil nonempty
    rw [peek_cons stacked, peek_cons (c := { c with stack := top' :: rest', path := path' }) rfl,
      descends (by simp [stacked]), if_pos rfl, if_pos rfl]
    simp only [resumed db']

/-- A `peek` of the seek, from a stack on the key, stops on the key (unless at the root), and
what it enters is on the key too. -/
theorem peek_onKey {db : Database} {key : List Nibble} {c c' : Cursor} {r : Except IteratorError Peeked}
    (onKey : OnKey key c.stack c.path) (peeked : c.peek keccak db (c.path.isPrefixOf key) = some (c', r)) :
    (c.stack ≠ [] → c'.path.isPrefixOf key = true) ∧ OnKey key c'.stack c'.path ∧
      ∀ p, r = .ok p → OnKey key (c'.push p).stack (c'.push p).path := by
  rcases stacked : c.stack with _ | ⟨top, rest⟩
  · rcases trie : c.trie with _ | tr
    · simp [stacked, trie] at peeked
    rcases hashed : tr.Hash keccak with _ | ⟨root, tr'⟩
    · simp [stacked, trie, hashed] at peeked
    rw [peek_root stacked trie hashed] at peeked
    -- the root is entered at the empty path
    refine ⟨fun nonempty => absurd rfl nonempty, ?_, fun p entered => ?_⟩
    · rcases resolved : (rootState root tr').resolve (some tr') db [] with _ | _ | _ <;>
        simp only [resolved, Option.bind_none, Option.bind_some, Option.some.injEq, Prod.mk.injEq,
          reduceCtorEq] at peeked
      all_goals
        obtain ⟨rfl, -⟩ := peeked
        exact stacked ▸ OnKey.nil key c.path
    · rcases resolved : (rootState root tr').resolve (some tr') db [] with _ | _ | st <;>
        simp only [resolved, Option.bind_none, Option.bind_some, Option.some.injEq, Prod.mk.injEq,
          reduceCtorEq] at peeked
      · simp [entered] at peeked
      · obtain ⟨rfl, rfl⟩ := peeked
        simp only [Except.ok.injEq] at entered
        subst entered
        simp only [push, stacked]
        exact (OnKey.nil key []).push (List.nil_prefix) ((resolve_pathlen resolved).trans rfl)
          (List.nil_prefix)
  · obtain ⟨stack', path', looped, rfl⟩ := peek_cons_some stacked peeked
    -- the loop starts on the key: at the top's path if it is on the key, else at its parent's
    have start : OnKey key (if c.path.isPrefixOf key then top :: rest else rest)
        (if c.path.isPrefixOf key then c.path else c.path.take top.pathlen) ∧
        (if c.path.isPrefixOf key then c.path else c.path.take top.pathlen) <+: key := by
      have onKey' : OnKey key (top :: rest) c.path := stacked ▸ onKey
      split
      next onPath => exact ⟨onKey', List.isPrefixOf_iff_prefix.mp onPath⟩
      next => exact onKey'.pop
    obtain ⟨onKey', onPath, entered⟩ := peekLoop_onKey start.1 start.2 looped
    refine ⟨fun _ => List.isPrefixOf_iff_prefix.mpr onPath, onKey', fun p found => ?_⟩
    obtain ⟨parentIndex, len, below⟩ := entered p found
    simp only [push, parentIndex, ite_true]
    exact (onKey'.congr (by cases stack' <;> rfl)).push onPath len below

end Cursor

/-! ### `seek` -/

namespace Cursor

variable {keccak : Bytes → Hash} {pre : Bytes} {key : List Nibble}

-- the lemmas of this part compute `seekLoop` by `simp`
attribute [local simp] Cursor.seekLoop

/-- More fuel changes nothing once the seek ended. -/
theorem seekLoop_mono {db : Database} :
    ∀ {n : Nat} {c : Cursor} {res : Cursor × Option IteratorError},
      c.seekLoop keccak db pre key n = some res → ∀ m, n ≤ m → c.seekLoop keccak db pre key m = some res
  | 0, _, _, ended, _, _ => by simp at ended
  | n + 1, c, res, ended, m + 1, more => by
    rcases peeked : c.peek keccak db (c.path.isPrefixOf key) with _ | ⟨c', err | p⟩
    · simp [peeked] at ended
    · cases err <;> simpa [peeked] using ended
    · simp only [seekLoop, peeked] at ended ⊢
      split
      · simpa [*] using ended
      · rw [if_neg ‹_›] at ended
        exact seekLoop_mono ended m (by omega)

/-- A seek ends at the end of the iteration, just before the key, or with a `seekError`. -/
theorem seekLoop_result {db : Database} :
    ∀ {n : Nat} {c c2 : Cursor} {r : Option IteratorError},
      c.seekLoop keccak db pre key n = some (c2, r) →
      r = none ∨ r = some .iteratorEnd ∨ ∃ e, r = some (.seekError pre e)
  | 0, _, _, _, ended => by simp at ended
  | n + 1, c, c2, r, ended => by
    rcases peeked : c.peek keccak db (c.path.isPrefixOf key) with _ | ⟨c', err | p⟩
    · simp [peeked] at ended
    · cases err <;> simp [peeked] at ended <;> simp [← ended.2]
    · simp only [seekLoop, peeked] at ended
      split at ended
      · simp only [Option.some.injEq, Prod.mk.injEq] at ended
        exact .inl ended.2.symm
      · exact seekLoop_result ended

section Lacks

variable {db' db : Database} (lacks : db'.Lacks db)
include lacks

/-- With fewer nodes in the database, a seek that does not fail ends as it does with all of
them. -/
theorem seekLoop_lacks :
    ∀ {n : Nat} {c c2 : Cursor} {r : Option IteratorError},
      c.seekLoop keccak db' pre key n = some (c2, r) → (∀ k e, r ≠ some (.seekError k e)) →
      c.seekLoop keccak db pre key n = some (c2, r)
  | 0, _, _, _, ended, _ => by simp at ended
  | n + 1, c, c2, r, ended, noFailure => by
    rcases peeked : c.peek keccak db' (c.path.isPrefixOf key) with _ | ⟨c', err | p⟩
    · simp [peeked] at ended
    · rcases peek_lacks lacks peeked with same | ⟨e, failed⟩
      · cases err <;> simpa [peeked, same] using ended
      · -- a node the database lacks: the seek fails
        simp only [Except.error.injEq] at failed
        subst failed
        simp only [seekLoop, peeked, Option.some.injEq, Prod.mk.injEq] at ended
        exact absurd ended.2.symm (noFailure _ _)
    · rcases peek_lacks lacks peeked with same | ⟨e, failed⟩
      · simp only [seekLoop, peeked, same] at ended ⊢
        split
        · simpa [*] using ended
        · rw [if_neg ‹_›] at ended
          exact seekLoop_lacks ended noFailure
      · cases failed

/-- A seek that failed on a node the database lacks stops on its key, and the seek from where
it stopped ends where the seek from the start ends. -/
theorem seekLoop_resume :
    ∀ {n : Nat} {c c2 : Cursor} {e : IteratorError},
      OnKey key c.stack c.path → c.seekLoop keccak db' pre key n = some (c2, some (.seekError pre e)) →
      OnKey key c2.stack c2.path ∧
        ∀ m res, c.seekLoop keccak db pre key m = some res → c2.seekLoop keccak db pre key m = some res
  | 0, _, _, _, _, failed => by simp at failed
  | n + 1, c, c2, e, onKey, failed => by
    rcases peeked : c.peek keccak db' (c.path.isPrefixOf key) with _ | ⟨c', err | p⟩
    · simp [peeked] at failed
    · obtain ⟨descends, onKey', -⟩ := peek_onKey onKey peeked
      rcases peek_error peeked with rfl | ⟨t, rfl⟩
      · simp [peeked] at failed
      · -- the seek failed right here: the retry redoes this very `peek`
        simp only [seekLoop, peeked, Option.some.injEq, Prod.mk.injEq] at failed
        obtain ⟨rfl, -⟩ := failed
        refine ⟨onKey', fun m res ended => ?_⟩
        cases m with
        | zero => simp at ended
        | succ m =>
          simp only [seekLoop] at ended ⊢
          rw [peek_resume peeked descends db]
          exact ended
    · obtain ⟨-, -, entered⟩ := peek_onKey onKey peeked
      simp only [seekLoop, peeked] at failed
      split at failed
      · cases failed
      next before =>
        obtain ⟨onKey2, resumed⟩ := seekLoop_resume (entered p rfl) failed
        refine ⟨onKey2, fun m res ended => ?_⟩
        -- with all the nodes, the seek takes the same step
        have same : c.peek keccak db (c.path.isPrefixOf key) = some (c', .ok p) := by
          rcases peek_lacks lacks peeked with same | ⟨_, failed⟩
          · exact same
          · cases failed
        cases m with
        | zero => simp at ended
        | succ m =>
          simp only [seekLoop, same, if_neg before] at ended
          exact seekLoop_mono (resumed m res ended) (m + 1) (Nat.le_succ m)

end Lacks

end Cursor

/-! ### `Next` -/

namespace NodeIterator

variable {keccak : Bytes → Hash} {fuel : Nat}

-- the lemmas of this part compute `Next` and `step` by `simp`
attribute [local simp] NodeIterator.Next NodeIterator.step

/-- A step that goes through clears the error. -/
theorem step_true {db : Database} {it y : NodeIterator} {d : Bool}
    (stepped : it.step keccak db d = some (true, y)) : y.err = none := by
  simp only [step, Option.map_eq_some_iff] at stepped
  obtain ⟨⟨c, err | p⟩, -, found⟩ := stepped
  · cases found
  · simp only [Prod.mk.injEq] at found
    rw [← found.2]

theorem Next_true {db : Database} {it y : NodeIterator} {d : Bool}
    (advanced : it.Next keccak db fuel d = some (true, y)) : y.err = none := by
  unfold Next at advanced
  split at advanced
  · cases advanced
  · split at advanced
    · cases advanced
    · cases advanced
    · exact step_true advanced
  · exact step_true advanced

/-- `Next` on an iterator with no seek to retry is a step. -/
theorem Next_of_clean {db : Database} {it : NodeIterator} {d : Bool} {err : Option IteratorError}
    (clean : it.err = err) (noSeek : ∀ k e, err ≠ some (.seekError k e)) (notEnd : err ≠ some .iteratorEnd) :
    it.Next keccak db fuel d = it.step keccak db d := by
  subst clean
  unfold Next
  split
  · exact absurd ‹_› notEnd
  · exact absurd ‹_› (noSeek _ _)
  · rfl

/-- Retrying a failed seek that ends where another iterator's seek ended, with the error `Next`
would set, leads where that iterator goes. -/
theorem Next_retried_seek {db : Database} {it : NodeIterator} {k : Bytes} {e : IteratorError}
    (failedSeek : it.err = some (.seekError k e)) {c : Cursor} {r : Option IteratorError}
    (sought : it.seek keccak db fuel k = some (c, r))
    (shape : r = none ∨ r = some .iteratorEnd ∨ ∃ e', r = some (.seekError k e'))
    (settled : ∀ e', r = some (.seekError k e') → c.seek keccak db fuel k = some (c, r)) (d : Bool) :
    it.Next keccak db fuel d = ({ c with err := r } : NodeIterator).Next keccak db fuel d := by
  rcases shape with rfl | rfl | ⟨e', rfl⟩
  · simp only [Next, failedSeek, sought]
  · simp only [Next, failedSeek, sought]
  · simp only [Next, failedSeek, sought, settled e' rfl]

/-- `Resumes it' it`: the iterator `it'` on the database `db'`, which lacks nodes of `db`, goes
on as `it` does on `db`: a step it takes is one `it` takes, and after it fails, the retry on
`db` does what `it` does. -/
structure Resumes (keccak : Bytes → Hash) (db' db : Database) (fuel : Nat) (it' it : NodeIterator) : Prop where
  advance : ∀ y, it'.Next keccak db' fuel true = some (true, y) → it.Next keccak db fuel true = some (true, y)
  retry : ∀ e r, it'.Next keccak db' fuel true = some (false, e) → e.Next keccak db fuel true = some r →
    it.Next keccak db fuel true = some r

section Lacks

variable {db' db : Database} (lacks : db'.Lacks db)
include lacks

/-- A step that goes through with fewer nodes goes through with all of them. -/
theorem step_advance {it y : NodeIterator} {d : Bool} (stepped : it.step keccak db' d = some (true, y)) :
    it.step keccak db d = some (true, y) := by
  simp only [step, Option.map_eq_some_iff] at stepped ⊢
  obtain ⟨⟨c, err | p⟩, peeked, found⟩ := stepped
  · cases found
  · rcases Cursor.peek_lacks lacks peeked with same | ⟨_, failed⟩
    · exact ⟨_, same, found⟩
    · cases failed

/-- After a step that failed with fewer nodes, `Next` with all of them does what the step
with all of them does. -/
theorem step_retry {it e : NodeIterator} {r : Bool × NodeIterator}
    (failed : it.step keccak db' true = some (false, e)) (retried : e.Next keccak db fuel true = some r) :
    it.step keccak db true = some r := by
  simp only [step, Option.map_eq_some_iff] at failed
  obtain ⟨⟨c, err | p⟩, peeked, found⟩ := failed
  · simp only [Prod.mk.injEq, true_and] at found
    subst found
    rcases Cursor.peek_error peeked with rfl | ⟨t, rfl⟩
    · -- the end of the iteration: nothing was missing
      rcases Cursor.peek_lacks lacks peeked with same | ⟨_, failed⟩
      · simp only [Next, Option.some.injEq] at retried
        rw [← retried]
        simp [same]
      · cases failed
    · -- a missing node: the retry redoes the failed `peek`
      rw [Next_of_clean rfl (by simp) (by simp), step, Cursor.peek_resume peeked (fun _ => rfl) db] at retried
      exact retried
  · cases found

omit lacks in
/-- The end of the iteration stays the end. -/
theorem Resumes.of_end {it : NodeIterator} (ended : it.err = some .iteratorEnd) :
    Resumes keccak db' db fuel it it := by
  have next : ∀ base, it.Next keccak base fuel true = some (false, it) := fun _ => by simp [ended]
  refine ⟨fun y advanced => ?_, fun e r failed retried => ?_⟩
  · rw [next] at advanced
    simp at advanced
  · rw [next] at failed
    obtain rfl : it = e := (Prod.mk.inj (Option.some.inj failed)).2
    exact retried

/-- An iterator with no seek to retry resumes as itself. -/
theorem Resumes.of_noSeek {it : NodeIterator} (noSeek : ∀ k e, it.err ≠ some (.seekError k e)) :
    Resumes keccak db' db fuel it it := by
  by_cases ended : it.err = some .iteratorEnd
  · exact Resumes.of_end ended
  · have stepped : ∀ base, it.Next keccak base fuel true = it.step keccak base true :=
      fun _ => Next_of_clean rfl noSeek ended
    exact ⟨fun y advanced => by rw [stepped] at advanced ⊢; exact step_advance lacks advanced,
      fun e r failed retried => by rw [stepped] at failed ⊢; exact step_retry lacks failed retried⟩

/-- Iterators made on a database that lacks nodes and on the whole one: the first resumes as
the second, also when its seek failed. -/
theorem newNodeIterator_resumes {tr : Trie} {start : Bytes} {it' it : NodeIterator}
    (created' : newNodeIterator keccak db' fuel tr start = some it')
    (created : newNodeIterator keccak db fuel tr start = some it) : Resumes keccak db' db fuel it' it := by
  unfold newNodeIterator at created' created
  rcases hashed : tr.Hash keccak with _ | ⟨root, tr1⟩
  · simp [hashed] at created
  simp only [hashed] at created' created
  by_cases emptyState : root = keccak []
  · -- the bare iterator of `new(nodeIterator)`, on both sides
    simp only [if_pos emptyState, Option.some.injEq] at created' created
    subst created' created
    exact Resumes.of_noSeek lacks (by simp)
  simp only [if_neg emptyState, Option.map_eq_some_iff] at created' created
  obtain ⟨⟨c1, r1⟩, sought, rfl⟩ := created
  obtain ⟨⟨c1', r1'⟩, sought', rfl⟩ := created'
  unfold Cursor.seek at sought sought'
  rcases Cursor.seekLoop_result sought' with rfl | rfl | ⟨e', rfl⟩
  -- the seek went through without the missing nodes: the same iterator
  · rw [Cursor.seekLoop_lacks lacks sought' (by simp), Option.some.injEq, Prod.mk.injEq] at sought
    obtain ⟨rfl, rfl⟩ := sought
    exact Resumes.of_noSeek lacks (by simp)
  · rw [Cursor.seekLoop_lacks lacks sought' (by simp), Option.some.injEq, Prod.mk.injEq] at sought
    obtain ⟨rfl, rfl⟩ := sought
    exact Resumes.of_noSeek lacks (by simp)
  -- the seek failed: a retry that ends where the seek with all nodes ended goes on as `it`
  obtain ⟨onKey', fromStop⟩ := Cursor.seekLoop_resume lacks (OnKey.nil _ _) sought'
  have settled : ∀ e1, r1 = some (.seekError start e1) → c1.seek keccak db fuel start = some (c1, r1) :=
    fun _ failedAgain => (Cursor.seekLoop_resume (Database.Lacks.refl db) (OnKey.nil _ _)
      (failedAgain ▸ sought)).2 fuel _ sought
  have toIt : ∀ (e : NodeIterator) e2, e.err = some (.seekError start e2) →
      e.seek keccak db fuel start = some (c1, r1) → e.Next keccak db fuel true =
        ({ c1 with err := r1 } : NodeIterator).Next keccak db fuel true :=
    fun e _ failedSeek resought => Next_retried_seek failedSeek resought (Cursor.seekLoop_result sought)
      settled true
  -- what the retry on the database that lacks nodes does
  rcases again : c1'.seek keccak db' fuel start with _ | ⟨c2, _ | err2⟩
  · exact ⟨fun y advanced => by simp [again] at advanced,
      fun e r failed _ => by simp [again] at failed⟩
  · -- the retried seek went through: so did the seek with all nodes, to the same place
    have same := fromStop fuel _ sought
    rw [Cursor.seek] at again
    rw [Cursor.seekLoop_lacks lacks again (by simp), Option.some.injEq, Prod.mk.injEq] at same
    obtain ⟨rfl, rfl⟩ := same
    have stepped : ({ c2 with err := none } : NodeIterator).Next keccak db fuel true =
        ({ c2 with err := none } : NodeIterator).step keccak db true := Next_of_clean rfl (by simp) (by simp)
    refine ⟨fun y advanced => ?_, fun e r failed retried => ?_⟩
    · simp only [Next, Cursor.seek, again] at advanced
      rw [stepped]
      exact step_advance lacks advanced
    · simp only [Next, Cursor.seek, again] at failed
      rw [stepped]
      exact step_retry lacks failed retried
  · -- the retried seek failed again: it stopped on the key, and a retry from there ends as well
    refine ⟨fun y advanced => by simp [again] at advanced, fun e r failed retried => ?_⟩
    simp only [Next, again, Option.some.injEq, Prod.mk.injEq, true_and] at failed
    subst failed
    rw [Cursor.seek] at again
    rcases Cursor.seekLoop_result again with stopped | ended | ⟨e2, failedAgain⟩
    · cases stopped
    · -- the end of the iteration, with or without the missing nodes
      cases ended
      have same := fromStop fuel _ sought
      rw [Cursor.seekLoop_lacks lacks again (by simp), Option.some.injEq, Prod.mk.injEq] at same
      obtain ⟨rfl, rfl⟩ := same
      exact retried
    · cases failedAgain
      obtain ⟨-, fromStop2⟩ := Cursor.seekLoop_resume lacks onKey' again
      rw [← toIt { c2 with err := some (.seekError start e2) } e2 rfl (fromStop2 fuel _ (fromStop fuel _ sought))]
      exact retried

end Lacks

end NodeIterator

/-! ### Runs -/

/-- `Visits keccak db fuel it paths last`: calling `Next(true)` from `it` until it returns
false visits the nodes at `paths`, in order, and leaves the iterator at `last`. -/
inductive Visits (keccak : Bytes → Hash) (db : Database) (fuel : Nat) :
    NodeIterator → List (List Nibble) → NodeIterator → Prop
  | stop {it last : NodeIterator} : it.Next keccak db fuel true = some (false, last) →
      Visits keccak db fuel it [] last
  | step {it next last : NodeIterator} {paths : List (List Nibble)} :
      it.Next keccak db fuel true = some (true, next) → Visits keccak db fuel next paths last →
      Visits keccak db fuel it (next.path :: paths) last

namespace Visits

variable {keccak : Bytes → Hash} {db : Database} {fuel : Nat}

/-- A run depends only on what the first `Next` does. -/
theorem of_next {it e last : NodeIterator} {paths : List (List Nibble)}
    (same : ∀ r, e.Next keccak db fuel true = some r → it.Next keccak db fuel true = some r)
    (visits : Visits keccak db fuel e paths last) : Visits keccak db fuel it paths last := by
  cases visits with
  | stop stopped => exact .stop (same _ stopped)
  | step advanced rest => exact .step (same _ advanced) rest

/-- An iterator has one run: `Next` is a function. -/
theorem deterministic {it last last' : NodeIterator} {paths paths' : List (List Nibble)}
    (visits : Visits keccak db fuel it paths last) (visits' : Visits keccak db fuel it paths' last') :
    paths = paths' ∧ last = last' := by
  induction visits generalizing paths' with
  | stop stopped =>
    cases visits' with
    | stop stopped' => exact ⟨rfl, (Prod.mk.inj (Option.some.inj (stopped.symm.trans stopped'))).2⟩
    | step advanced _ => cases stopped.symm.trans advanced
  | step advanced _ ih =>
    cases visits' with
    | stop stopped => cases advanced.symm.trans stopped
    | step advanced' rest =>
      obtain rfl := (Prod.mk.inj (Option.some.inj (advanced.symm.trans advanced'))).2
      obtain ⟨rfl, rfl⟩ := ih rest
      exact ⟨rfl, rfl⟩

end Visits

namespace NodeIterator

/-- A run on a database that lacks nodes, from an iterator that resumes as `it`, followed by the
run of where it stopped on the whole database, is the run of `it`. -/
theorem Resumes.visits {keccak : Bytes → Hash} {db' db : Database} (lacks : db'.Lacks db) {fuel : Nat}
    {it' it stopped last : NodeIterator} {pre post : List (List Nibble)}
    (resumes : Resumes keccak db' db fuel it' it)
    (failing : Visits keccak db' fuel it' pre stopped) (restored : Visits keccak db fuel stopped post last) :
    Visits keccak db fuel it (pre ++ post) last := by
  induction failing generalizing it with
  | stop stopped' =>
    -- the failed run ends here: the restored run is the run of `it`
    exact restored.of_next fun r retried => resumes.retry _ r stopped' retried
  | step advanced _ ih =>
    -- a step taken without the missing nodes is one `it` takes, to an iterator with no error
    refine .step (resumes.advance _ advanced) (ih (Resumes.of_noSeek lacks ?_) restored)
    simp [Next_true advanced]

end NodeIterator

/-- An iterator made on a database missing some nodes visits nodes until `Next` fails; once the
nodes are back, `Next` goes on, and the two runs together visit exactly what an iterator made on
the whole database visits, no node repeated or skipped. This holds also when the seek done at
the creation of the iterator failed. -/
theorem iterator_resumes_after_missing_nodes (keccak : Bytes → Hash) {db' db : Database}
    (lacks : db'.Lacks db) {fuel : Nat} {tr : Trie} {start : Bytes} {it' it stopped last : NodeIterator}
    {pre post : List (List Nibble)}
    (created' : newNodeIterator keccak db' fuel tr start = some it')
    (created : newNodeIterator keccak db fuel tr start = some it)
    (failing : Visits keccak db' fuel it' pre stopped) (restored : Visits keccak db fuel stopped post last) :
    Visits keccak db fuel it (pre ++ post) last :=
  (NodeIterator.newNodeIterator_resumes lacks created' created).visits lacks failing restored

/-! ### A run with its leaf missing -/

/-- The hash under which the leaf of `leafTrie` is stored. -/
def leafHash : Hash := ⟨List.replicate 32 7, rfl⟩

/-- The root hash of `leafTrie`, cached in its root. -/
def leafTrieRoot : Hash := ⟨List.replicate 32 9, rfl⟩

/-- A trie whose root, loaded, is a short node `[1]` to a leaf stored on its own. -/
def leafTrie : Trie :=
  ⟨.short [1] (.hash leafHash) ⟨some leafTrieRoot, 0, false⟩, leafTrieRoot, 0, 0⟩

/-- The database holding the leaf `[2, 16] ↦ [7]`. -/
def leafDb : Database :=
  Database.NewDatabase fun h => if h = leafHash then some [0xc2, 0x32, 0x07] else none

/-- The same database with the leaf taken out. -/
def leafLessDb : Database := Database.NewDatabase fun _ => none

theorem decodeNode_leaf : decodeNode (some leafHash) [0xc2, 0x32, 0x07] 0 =
    some (.ok (.short [2, 16] (.value [7]) ⟨some leafHash, 0, false⟩)) := by
  have listed : Rlp.SplitList [0xc2, 0x32, 0x07] = .ok ([0x32, 0x07], []) := by decide
  have counted : Rlp.CountValues [0x32, 0x07] = .ok 2 := by decide
  have short : Rlp.SplitString [0x32, 0x07] = .ok ([0x32], [0x07]) := by decide
  rw [decodeNode, if_neg (by decide)]
  split
  · rename_i split
    rw [listed] at split
    cases split
  · rename_i elems rest split
    rw [listed] at split
    cases split
    simp only [counted, if_pos]
    rw [decodeShort]
    split
    · rename_i split
      rw [short] at split
      cases split
    · rename_i kbuf rest split
      rw [short] at split
      cases split
      simp [show compactToHex [0x32] = some [2, 16] by decide, hasTerm, terminator,
        show Rlp.SplitString [0x07] = .ok ([0x07], []) by decide, Except.mapError]

/-- The state of the root of `leafTrie` on the stack. -/
def leafRootState : IteratorState := rootState leafTrieRoot leafTrie

/-- The state of the loaded leaf. -/
def leafState : IteratorState :=
  ⟨leafHash, .short [2, 16] (.value [7]) ⟨some leafHash, 0, false⟩, leafTrieRoot, -1, 0⟩

theorem newNodeIterator_leafTrie (db : Database) :
    newNodeIterator (fun _ => Hash.zero) db 1 leafTrie [] = some ⟨⟨some leafTrie, [], []⟩, none⟩ := by
  have hashed : leafTrie.Hash (fun _ => Hash.zero) = some (leafTrieRoot, leafTrie) := hash_of_cached _ leafTrie rfl
  simp only [newNodeIterator, hashed, Cursor.seek, Cursor.seekLoop, Cursor.peek]
  simp [rootState, IteratorState.resolve,
    show leafTrie.root = .short [1] (.hash leafHash) ⟨some leafTrieRoot, 0, false⟩ from rfl,
    leafTrieRoot, Cursor.seekKey, keybytesToHex]
  decide

/-- Without its leaf, the iterator of `leafTrie` visits the root and fails on the leaf; with
the leaf back it visits the leaf's short node and its value, as the iterator that never failed
visits all three. -/
theorem iterator_resumes_after_missing_leaf :
    Visits (fun _ => Hash.zero) leafDb 1 ⟨⟨some leafTrie, [], []⟩, none⟩ [[], [1], [1, 2, 16]]
      ⟨⟨some leafTrie, [], []⟩, some .iteratorEnd⟩ := by
  have lacks : leafLessDb.Lacks leafDb := fun h => by
    by_cases metaRoot : h = Hash.zero
    · exact .inr (by simp [Database.Node, leafLessDb, leafDb, Database.NewDatabase, metaRoot])
    · exact .inl (by simp [Database.Node, leafLessDb, Database.NewDatabase, metaRoot])
  have hashed : leafTrie.Hash (fun _ => Hash.zero) = some (leafTrieRoot, leafTrie) := hash_of_cached _ leafTrie rfl
  -- without the leaf: the root, then the leaf fails to load
  have failing : Visits (fun _ => Hash.zero) leafLessDb 1 ⟨⟨some leafTrie, [], []⟩, none⟩ [[]]
      ⟨⟨some leafTrie, [leafRootState], []⟩, some (.trie (.missingNode leafHash [1]))⟩ := by
    refine @Visits.step _ _ _ _ ⟨⟨some leafTrie, [leafRootState], []⟩, none⟩ _ _ ?_ (.stop rfl)
    simp only [NodeIterator.Next, NodeIterator.step, Cursor.peek, hashed]
    rfl
  -- with the leaf back: the retried `peek` loads it, then its value is visited
  have resolved : (childState [] leafTrieRoot (.hash leafHash)).resolve (some leafTrie) leafDb [1] =
      some (.ok leafState) := by
    simp [IteratorState.resolve, childState, Trie.resolveHash, leafDb, Database.NewDatabase, Database.Node,
      show (leafHash = Hash.zero) = False by decide, show leafTrie.cachegen = 0 from rfl, decodeNode_leaf,
      leafState, Node.cache, Except.map]
  have found : nextChild [] leafRootState leafRootState.ancestor =
      some (some (childState [] leafTrieRoot (.hash leafHash), [1], leafRootState)) := rfl
  have restored : Visits (fun _ => Hash.zero) leafDb 1
      ⟨⟨some leafTrie, [leafRootState], []⟩, some (.trie (.missingNode leafHash [1]))⟩ [[1], [1, 2, 16]]
      ⟨⟨some leafTrie, [], []⟩, some .iteratorEnd⟩ := by
    refine @Visits.step _ _ _ _ ⟨⟨some leafTrie, [leafState, { leafRootState with index := 0 }], [1]⟩, none⟩ _ _
      ?_ (@Visits.step _ _ _ _ ⟨⟨some leafTrie, [⟨Hash.zero, .value [7], leafHash, -1, 1⟩,
        { leafState with index := 0 }, { leafRootState with index := 0 }], [1, 2, 16]⟩, none⟩ _ _ rfl (.stop rfl))
    rw [NodeIterator.Next_of_clean rfl (by simp) (by simp), NodeIterator.step,
      Cursor.peek_cons (show _ = leafRootState :: [] from rfl), if_pos rfl, if_pos rfl]
    simp only [peekLoop, found, resolved]
    rfl
  exact iterator_resumes_after_missing_nodes _ lacks (newNodeIterator_leafTrie leafLessDb)
    (newNodeIterator_leafTrie leafDb) failing restored

end Indigo.Trie
