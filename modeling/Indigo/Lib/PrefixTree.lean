import Mathlib

/-!
# Compressed prefix trees

Tries over an alphabet `α` with values `β`, whose unary chains are compressed into
extension nodes, read as partial maps from keys to values. `under p m` moves the map
`m` below the path `p`, and `route es` reads the key `a :: k` from `es a`; the meaning
of every tree is assembled from these two combinators.

## Main result

`PTree.eq_of_lookup_eq`: two canonical trees with the same meaning are equal.
-/

namespace Indigo.Lib

variable {α β : Type} [DecidableEq α]

/-- Remove `p` from the front of `key`, or report that it is not a prefix. -/
def stripPrefix : List α → List α → Option (List α)
  | [], key => some key
  | _ :: _, [] => none
  | a :: p, b :: key => if a = b then stripPrefix p key else none

theorem stripPrefix_eq_some_iff (p key rest : List α) :
    stripPrefix p key = some rest ↔ key = p ++ rest := by
  induction p generalizing key with
  | nil => simp [stripPrefix, eq_comm]
  | cons a p ih =>
    cases key with
    | nil => simp [stripPrefix]
    | cons b key =>
      by_cases same : a = b
      · subst b
        simp [stripPrefix, ih]
      · simp [stripPrefix, same, Ne.symm same]

@[simp] theorem stripPrefix_append (p rest : List α) : stripPrefix p (p ++ rest) = some rest :=
  (stripPrefix_eq_some_iff p _ rest).mpr rfl

theorem stripPrefix_eq_none_iff (p key : List α) : stripPrefix p key = none ↔ ¬p <+: key := by
  constructor
  · rintro absent ⟨rest, rfl⟩
    simp at absent
  · intro notPrefix
    cases h : stripPrefix p key with
    | none => rfl
    | some rest =>
      exact absurd ⟨rest, ((stripPrefix_eq_some_iff p key rest).mp h).symm⟩ notPrefix

/-- Partial maps from keys to values. -/
abbrev KeyMap (α β : Type) := List α → Option β

/-- The map `m` placed below the path `p`. -/
def under (p : List α) (m : KeyMap α β) : KeyMap α β :=
  fun key => (stripPrefix p key).bind m

/-- The map whose key `a :: k` is read from the map of `a`; the empty key is absent. -/
def route (edges : α → KeyMap α β) : KeyMap α β
  | [] => none
  | a :: key => edges a key

section Under

-- the lemmas of this section compute `under` by `simp`
attribute [local simp] under

@[simp] theorem under_append (p key : List α) (m : KeyMap α β) :
    under p m (p ++ key) = m key := by
  simp

theorem under_eq_some_iff (p key : List α) (m : KeyMap α β) (v : β) :
    under p m key = some v ↔ ∃ rest, key = p ++ rest ∧ m rest = some v := by
  unfold under
  cases h : stripPrefix p key with
  | none =>
    simp only [Option.bind_none, reduceCtorEq, false_iff, not_exists, not_and]
    rintro rest rfl
    simp at h
  | some rest =>
    have split := (stripPrefix_eq_some_iff p key rest).mp h
    subst split
    simp

theorem under_of_not_prefix (p key : List α) (m : KeyMap α β) (notPrefix : ¬p <+: key) :
    under p m key = none := by
  simp [(stripPrefix_eq_none_iff p key).mpr notPrefix]

@[simp] theorem under_nil (m : KeyMap α β) : under [] m = m := by
  funext key
  simp [stripPrefix]

theorem under_under (p q : List α) (m : KeyMap α β) : under p (under q m) = under (p ++ q) m := by
  funext key
  cases h : under (p ++ q) m key with
  | none =>
    cases h' : under p (under q m) key with
    | none => rfl
    | some v =>
      obtain ⟨rest, rfl, inner⟩ := (under_eq_some_iff _ _ _ _).mp h'
      obtain ⟨rest', rfl, found⟩ := (under_eq_some_iff _ _ _ _).mp inner
      rw [← List.append_assoc, under_append] at h
      rw [h] at found
      cases found
  | some v =>
    obtain ⟨rest, rfl, found⟩ := (under_eq_some_iff _ _ _ _).mp h
    simp [List.append_assoc, found]

theorem under_update (p key : List α) (m : KeyMap α β) (v : Option β) :
    under p (Function.update m key v) = Function.update (under p m) (p ++ key) v := by
  funext query
  cases h : stripPrefix p query with
  | none =>
    have absent : query ≠ p ++ key := by
      rintro rfl
      simp at h
    simp [h, absent]
  | some rest =>
    obtain rfl := (stripPrefix_eq_some_iff p query rest).mp h
    by_cases same : rest = key
    · subst same
      simp
    · have other : p ++ rest ≠ p ++ key := by simpa using same
      simp [same, other]

end Under

omit [DecidableEq α] in
@[simp] theorem route_nil (edges : α → KeyMap α β) : route edges [] = none := rfl

omit [DecidableEq α] in
@[simp] theorem route_cons (edges : α → KeyMap α β) (a : α) (key : List α) :
    route edges (a :: key) = edges a key := rfl

theorem route_update (edges : α → KeyMap α β) (a : α) (key : List α) (v : Option β) :
    route (Function.update edges a (Function.update (edges a) key v)) =
      Function.update (route edges) (a :: key) v := by
  funext query
  cases query with
  | nil => simp
  | cons b rest =>
    by_cases same : b = a
    · subst same
      by_cases tail : rest = key
      · subst tail
        simp
      · simp [tail]
    · simp [same]

/-- A compressed trie: empty, a value at the end of a key, an extension consuming a
path, or a branch on the next symbol. -/
inductive PTree (α β : Type) where
  | empty
  | leaf (value : β)
  | ext (path : List α) (child : PTree α β)
  | branch (children : α → PTree α β)

namespace PTree

/-- The map a tree stands for. -/
def lookup : PTree α β → KeyMap α β
  | .empty => fun _ => none
  | .leaf v => fun key => if key = [] then some v else none
  | .ext p c => under p c.lookup
  | .branch cs => route fun a => (cs a).lookup

@[simp] theorem lookup_empty (key : List α) : (empty : PTree α β).lookup key = none := rfl

theorem lookup_leaf (v : β) : (leaf v : PTree α β).lookup = fun key => if key = [] then some v else none :=
  rfl

theorem lookup_ext (p : List α) (c : PTree α β) : (ext p c).lookup = under p c.lookup := rfl

theorem lookup_branch (cs : α → PTree α β) :
    (branch cs).lookup = route fun a => (cs a).lookup := rfl

/-- `u` is `t` itself or a tree below one of its children. -/
inductive Subtree : PTree α β → PTree α β → Prop
  | refl (t : PTree α β) : Subtree t t
  | ext {u c : PTree α β} (p : List α) : Subtree u c → Subtree u (.ext p c)
  | branch {u : PTree α β} (cs : α → PTree α β) (a : α) : Subtree u (cs a) → Subtree u (.branch cs)

/-- Trees an extension may lead to. -/
def Extensible : PTree α β → Prop
  | .leaf _ => True
  | .branch _ => True
  | _ => False

/-- Canonical trees: no empty path, an extension always leads to a leaf or a branch,
and a branch has at least two occupied children. Branch children may be empty. -/
inductive Canonical : PTree α β → Prop
  | empty : Canonical .empty
  | leaf (v : β) : Canonical (.leaf v)
  | ext (p : List α) (c : PTree α β) (nonempty : p ≠ []) (below : c.Extensible)
      (child : Canonical c) : Canonical (.ext p c)
  | branch (cs : α → PTree α β) (a b : α) (distinct : a ≠ b) (left : cs a ≠ .empty)
      (right : cs b ≠ .empty) (children : ∀ c, Canonical (cs c)) : Canonical (.branch cs)

/-- Every key of a nonempty canonical tree has a value, so no such tree means the empty map. -/
theorem Canonical.exists_lookup {t : PTree α β} (canonical : t.Canonical) (occupied : t ≠ .empty) :
    ∃ key v, t.lookup key = some v := by
  induction canonical with
  | empty => exact absurd rfl occupied
  | leaf v => exact ⟨[], v, rfl⟩
  | ext p c _ below _ ih =>
    have occupied : c ≠ .empty := by
      rintro rfl
      exact below
    obtain ⟨key, v, found⟩ := ih occupied
    exact ⟨p ++ key, v, by simpa [lookup_ext] using found⟩
  | branch cs a _ _ left _ _ ih =>
    obtain ⟨key, v, found⟩ := ih a left
    exact ⟨a :: key, v, by simpa [lookup_branch] using found⟩

/-- A canonical tree meaning the empty map is the empty tree. -/
theorem Canonical.eq_empty {t : PTree α β} (canonical : t.Canonical)
    (nothing : ∀ key, t.lookup key = none) : t = .empty := by
  by_contra occupied
  obtain ⟨key, v, found⟩ := canonical.exists_lookup occupied
  simp [nothing key] at found

/-- `p` is a prefix of every key of the map `m`. -/
def CommonPrefix (m : KeyMap α β) (p : List α) : Prop :=
  ∀ key v, m key = some v → p <+: key

theorem commonPrefix_ext (p : List α) (c : PTree α β) : CommonPrefix (ext p c).lookup p := by
  intro key v found
  obtain ⟨rest, rfl, _⟩ := (under_eq_some_iff _ _ _ _).mp found
  exact List.prefix_append p rest

omit [DecidableEq α] in
/-- Two keys that part right after `p` have no common prefix longer than `p`. -/
theorem prefix_of_diverge {p q x y : List α} {a b : α} (distinct : a ≠ b)
    (left : q <+: p ++ a :: x) (right : q <+: p ++ b :: y) : q <+: p := by
  by_cases short : q.length ≤ p.length
  · exact List.prefix_of_prefix_length_le left (List.prefix_append p (a :: x)) short
  · exfalso
    have la : p ++ [a] <+: q :=
      List.prefix_of_prefix_length_le (by simp) left (by simp; omega)
    have lb : p ++ [b] <+: q :=
      List.prefix_of_prefix_length_le (by simp) right (by simp; omega)
    have same : p ++ [a] = p ++ [b] :=
      (List.prefix_of_prefix_length_le la lb (by simp)).eq_of_length (by simp)
    exact distinct (by simpa using same)

/-- A canonical branch has keys starting with two different symbols. -/
theorem Canonical.branch_diverges {cs : α → PTree α β} (canonical : (PTree.branch cs).Canonical) :
    ∃ a b x y va vb, a ≠ b ∧ (PTree.branch cs).lookup (a :: x) = some va ∧
      (PTree.branch cs).lookup (b :: y) = some vb := by
  cases canonical with
  | branch _ a b distinct left right children =>
    obtain ⟨x, va, foundA⟩ := (children a).exists_lookup left
    obtain ⟨y, vb, foundB⟩ := (children b).exists_lookup right
    exact ⟨a, b, x, y, va, vb, distinct, foundA, foundB⟩

/-- The path of a canonical extension is the longest common prefix of its keys. -/
theorem Canonical.prefix_of_commonPrefix {p : List α} {c : PTree α β}
    (canonical : (PTree.ext p c).Canonical) {q : List α}
    (common : CommonPrefix (PTree.ext p c).lookup q) :
    q <+: p := by
  cases canonical with
  | ext _ _ _ below child =>
    cases c with
    | leaf v =>
      have found : (PTree.ext p (PTree.leaf v)).lookup (p ++ []) = some v := by
        rw [lookup_ext, under_append]
        rfl
      simpa using common (p ++ []) v found
    | branch cs =>
      obtain ⟨a, b, x, y, va, vb, distinct, foundA, foundB⟩ := child.branch_diverges
      apply prefix_of_diverge distinct
      · exact common (p ++ a :: x) va (by simpa [lookup_ext] using foundA)
      · exact common (p ++ b :: y) vb (by simpa [lookup_ext] using foundB)
    | empty => exact absurd below id
    | ext _ _ => exact absurd below id

theorem lookup_ext_nil {p : List α} (nonempty : p ≠ []) (c : PTree α β) :
    (ext p c).lookup [] = none := by
  apply under_of_not_prefix
  simpa using nonempty

@[simp] theorem lookup_branch_nil (cs : α → PTree α β) : (branch cs).lookup [] = none := rfl

/-- Every key below an extension starts with the first symbol of its path. -/
theorem lookup_ext_head {a : α} {p : List α} {c : PTree α β} {b : α} {key : List α} {v : β}
    (found : (ext (a :: p) c).lookup (b :: key) = some v) : a = b := by
  obtain ⟨rest, same, _⟩ := (under_eq_some_iff _ _ _ _).mp found
  simp only [List.cons_append, List.cons.injEq] at same
  exact same.1.symm

/-- A canonical extension and a canonical branch never mean the same map. -/
theorem ext_lookup_ne_branch {p : List α} {c : PTree α β} {cs : α → PTree α β}
    (extCanonical : (ext p c).Canonical) (branchCanonical : (branch cs).Canonical) :
    (ext p c).lookup ≠ (branch cs).lookup := by
  intro same
  obtain ⟨a, b, x, y, va, vb, distinct, foundA, foundB⟩ := branchCanonical.branch_diverges
  cases extCanonical with
  | ext _ _ nonempty _ _ =>
    cases p with
    | nil => exact nonempty rfl
    | cons h p =>
      rw [← same] at foundA foundB
      exact distinct ((lookup_ext_head foundA).symm.trans (lookup_ext_head foundB))

/-- Canonical trees are determined by the map they stand for. -/
theorem eq_of_lookup_eq {t u : PTree α β} (ht : t.Canonical) (hu : u.Canonical)
    (same : t.lookup = u.lookup) : t = u := by
  induction ht generalizing u with
  | empty => exact (hu.eq_empty fun key => by simp [← same]).symm
  | leaf v =>
    have atNil : u.lookup [] = some v := by rw [← same]; rfl
    cases hu with
    | empty => simp at atNil
    | leaf w =>
      simp only [lookup_leaf, ite_true, Option.some.injEq] at atNil
      rw [atNil]
    | ext q d nonempty _ _ => simp [lookup_ext_nil nonempty] at atNil
    | branch => simp at atNil
  | ext p c nonempty below child ih =>
    have canonical : (ext p c).Canonical := .ext p c nonempty below child
    cases hu with
    | empty => exact canonical.eq_empty fun key => by simp [same]
    | leaf w =>
      have atNil : (ext p c).lookup [] = some w := by rw [same]; rfl
      simp [lookup_ext_nil nonempty] at atNil
    | ext q d nonempty' below' child' =>
      have other : (ext q d).Canonical := .ext q d nonempty' below' child'
      have pq : p <+: q := other.prefix_of_commonPrefix (same ▸ commonPrefix_ext p c)
      have qp : q <+: p := canonical.prefix_of_commonPrefix (same ▸ commonPrefix_ext q d)
      obtain rfl := pq.eq_of_length (Nat.le_antisymm pq.length_le qp.length_le)
      have children : c.lookup = d.lookup := by
        funext key
        simpa [lookup_ext] using congrFun same (p ++ key)
      rw [ih child' children]
    | branch cs a b distinct left right children =>
      exact absurd same (ext_lookup_ne_branch canonical (.branch cs a b distinct left right children))
  | branch cs a b distinct left right children ih =>
    have canonical : (branch cs).Canonical := .branch cs a b distinct left right children
    cases hu with
    | empty => exact canonical.eq_empty fun key => by simp [same]
    | leaf w =>
      have atNil : (branch cs).lookup [] = some w := by rw [same]; rfl
      simp at atNil
    | ext q d nonempty' below' child' =>
      exact absurd same.symm (ext_lookup_ne_branch (.ext q d nonempty' below' child') canonical)
    | branch ds _ _ _ _ _ children' =>
      have edges : ∀ e, (cs e).lookup = (ds e).lookup := by
        intro e
        funext key
        simpa [lookup_branch] using congrFun same (e :: key)
      rw [funext fun e => ih e (children' e) (edges e)]

end PTree

end Indigo.Lib
