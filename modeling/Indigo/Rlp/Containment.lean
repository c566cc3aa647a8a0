import Indigo.Rlp.Decode
import Indigo.Lib.StateSpec
import Indigo.Lib.Except

/-!
# Containment of the lists of a stream

`Stream.List` enters a list and pushes its size on a stack; every read then goes through
`willRead`, which counts the bytes in the innermost list and refuses a read larger than what
is left of it; `Stream.ListEnd` leaves a list whose content has all been read, and counts it
in the enclosing list. `Kind` checks a header against the innermost list when it reads it,
and caches it, with its error, until the value is consumed.

Over every sequence of stream operations, from any input, the stack stays consistent: no list
has read past its size, each lies within the list enclosing it, and a header cached without
error fits in the innermost list (`Inv`). No operation takes more bytes from the reader than
what is left of the innermost list, whatever it returns.

## Main results

- `list_containment`: over every run of stream operations (`Kind`, `Bytes`, `Uint`, `Bool`,
  `Raw`, `List`, `ListEnd`, `Decode`), every open list has `pos ≤ size`, each operation reads
  no more than what is left of the innermost list, a read larger than that fails with
  `ErrElemTooLarge` and leaves the stack as it was, and `ListEnd` succeeds exactly at the end
  of the innermost list, counting its size in the enclosing list.

## Proof strategy

`Frame k s s'` says that the list with `k` lists around it is still open at `s'` with its
size, the lists around it untouched, and that every byte the reader gave up from `s` to `s'`
was counted in it or in the lists inside it; with the invariant, those counts stay below its
size. Three classes of stream operation carry it: `Contained` operations keep every open
list, `Opening` ones (`List`) also push one, and `Closing` ones (`ListEnd`) may pop the
innermost. The rules of `Indigo.Lib.Spec` compose them along the `do` blocks of the decoders,
a list decoder being `List`, a contained body, then `ListEnd`; the only operation that takes
bytes from the reader is preceded by `willRead`, which counts them first.
-/

namespace Indigo.Rlp

open Indigo.Lib

/-! ### The invariant of the list stack -/

/-- `inner` lies within `up`, the list enclosing it, from where `up` stood when `inner` was
entered. -/
def Listpos.Inside (inner up : Listpos) : Prop := up.pos + inner.size ≤ up.size

/-- The lists open on a stream nest: none has read past its size, and each lies within the
list enclosing it. The innermost list comes first. -/
def Nested (stack : List Listpos) : Prop :=
  (∀ l ∈ stack, l.pos ≤ l.size) ∧ stack.IsChain Listpos.Inside

/-- The invariant of a stream: its lists nest, and a header that `Kind` cached without error
fits in what is left of the innermost list. -/
structure Inv (s : Stream) : Prop where
  nested : Nested s.stack
  cached : ∀ k tos outer, s.kind = some k → s.kinderr = none → s.stack = tos :: outer →
    tos.pos + s.size ≤ tos.size

/-- The bytes a run of open lists has counted. -/
def used (P : List Listpos) : Nat := (P.map Listpos.pos).sum

section Nested

variable {tos up p : Listpos} {outer P : List Listpos}

@[simp] theorem used_nil : used [] = 0 := rfl

@[simp] theorem used_cons : used (p :: P) = p.pos + used P := by simp [used]

theorem nested_nil : Nested [] := by simp [Nested]

theorem nested_cons : Nested (tos :: outer) ↔
    tos.pos ≤ tos.size ∧ (∀ up ∈ outer.head?, tos.Inside up) ∧ Nested outer := by
  simp only [Nested, List.mem_cons, forall_eq_or_imp, List.isChain_cons]
  tauto

theorem Nested.tail (nested : Nested (tos :: outer)) : Nested outer := (nested_cons.1 nested).2.2

/-- The lists inside `p`, down to `tos`, count no more than `tos` has left after `p`. -/
theorem Nested.size_used_le (nested : Nested (p :: (P ++ tos :: outer))) :
    p.size + used P + tos.pos ≤ tos.size := by
  induction P generalizing p with
  | nil =>
    obtain ⟨-, inside, -⟩ := nested_cons.1 nested
    simpa [Listpos.Inside, Nat.add_comm] using inside tos rfl
  | cons q P ih =>
    obtain ⟨-, inside, rest⟩ := nested_cons.1 nested
    have within : q.pos + p.size ≤ q.size := inside q rfl
    have below := ih rest
    simp only [used_cons]
    omega

/-- What a list and the lists inside it have counted is at most its size. -/
theorem Nested.used_le (nested : Nested (P ++ tos :: outer)) : used P + tos.pos ≤ tos.size := by
  cases P with
  | nil => simpa using (nested_cons.1 nested).1
  | cons p P =>
    have own := (nested_cons.1 nested).1
    have below := Nested.size_used_le nested
    simp only [used_cons]
    omega

/-- Counting `n` more bytes in the innermost list, as long as they fit. -/
theorem Nested.count (nested : Nested (tos :: outer)) {n : Nat} (fits : tos.pos + n ≤ tos.size) :
    Nested ({ tos with pos := tos.pos + n } :: outer) := by
  obtain ⟨-, inside, rest⟩ := nested_cons.1 nested
  exact nested_cons.2 ⟨fits, inside, rest⟩

/-- Entering a list that fits in what is left of the innermost list. -/
theorem Nested.push {stack : List Listpos} (nested : Nested stack) {size : Nat}
    (fits : ∀ tos ∈ stack.head?, tos.pos + size ≤ tos.size) : Nested (⟨0, size⟩ :: stack) :=
  nested_cons.2 ⟨Nat.zero_le _, fits, nested⟩

/-- Leaving a list read to its end, and counting it in the enclosing list. -/
theorem Nested.pop (nested : Nested (tos :: up :: outer)) :
    Nested ({ up with pos := up.pos + tos.size } :: outer) := by
  obtain ⟨-, inside, rest⟩ := nested_cons.1 nested
  obtain ⟨-, above, rest⟩ := nested_cons.1 rest
  exact nested_cons.2 ⟨inside up rfl, above, rest⟩

end Nested

section Inv

variable {s t : Stream}

/-- With no header cached, the invariant is the nesting of the lists. -/
theorem Inv.armed (nested : Nested s.stack) (armed : s.kind = none) : Inv s :=
  ⟨nested, fun k _ _ cached => by simp [armed] at cached⟩

/-- The invariant reads only the stack and the cached header. -/
theorem Inv.same (inv : Inv s) (stack : t.stack = s.stack) (kind : t.kind = s.kind)
    (kinderr : t.kinderr = s.kinderr) (size : t.size = s.size) : Inv t :=
  ⟨stack ▸ inv.nested, fun k tos outer cached clean split => by
    rw [size]
    exact inv.cached k tos outer (kind ▸ cached) (kinderr ▸ clean) (stack ▸ split)⟩

end Inv

/-! ### Keeping the open lists -/

/-- From `s` to `s'`, the list with `k` lists around it stays open with its size, the lists
around it are untouched, and every byte the reader gave up was counted in it or in a list
inside it. -/
def Frame (k : Nat) (s s' : Stream) : Prop :=
  ∀ P tos outer, s.stack = P ++ tos :: outer → outer.length = k →
    ∃ P' tos', s'.stack = P' ++ tos' :: outer ∧ tos'.size = tos.size ∧
      s.r.length + used P + tos.pos ≤ s'.r.length + used P' + tos'.pos

/-- Every list open on `s` is kept on the way to `s'`. -/
def Kept (s s' : Stream) : Prop := ∀ k, Frame k s s'

/-- Every list open on `s` but the innermost is kept on the way to `s'`. -/
def KeptBelow (s s' : Stream) : Prop := ∀ k, k + 1 < s.stack.length → Frame k s s'

section Kept

variable {s s' s₁ s₂ : Stream} {tos tos' : Listpos} {outer : List Listpos}

theorem Kept.refl (s : Stream) : Kept s s :=
  fun _ P tos _ split _ => ⟨P, tos, split, rfl, le_refl _⟩

theorem Frame.trans {k : Nat} (first : Frame k s s₁) (second : Frame k s₁ s₂) : Frame k s s₂ := by
  intro P tos outer split depth
  obtain ⟨P₁, tos₁, split₁, size₁, counted₁⟩ := first P tos outer split depth
  obtain ⟨P₂, tos₂, split₂, size₂, counted₂⟩ := second P₁ tos₁ outer split₁ depth
  exact ⟨P₂, tos₂, split₂, size₂.trans size₁, counted₁.trans counted₂⟩

theorem Kept.trans (first : Kept s s₁) (second : Kept s₁ s₂) : Kept s s₂ :=
  fun k => (first k).trans (second k)

theorem Kept.below (kept : Kept s s') : KeptBelow s s' := fun k _ => kept k

/-- A stream with no open list keeps all of them. -/
theorem Kept.of_nil (empty : s.stack = []) : Kept s s' := by
  intro k P tos outer split
  simp [empty] at split

/-- A step that leaves the stack and the reader alone. -/
theorem Kept.of_eq (stack : s'.stack = s.stack) (reads : s'.r = s.r) : Kept s s' :=
  fun _ P tos _ split _ => ⟨P, tos, stack ▸ split, rfl, by rw [reads]⟩

/-- A step that changes only the innermost list, and counts there every byte it takes. -/
theorem Kept.of_top (stack : s.stack = tos :: outer) (stack' : s'.stack = tos' :: outer)
    (size : tos'.size = tos.size) (counted : s.r.length + tos.pos ≤ s'.r.length + tos'.pos) :
    Kept s s' := by
  intro k P t o split depth
  rw [stack] at split
  cases P with
  | nil =>
    -- the list kept is the innermost
    simp only [List.nil_append, List.cons.injEq] at split
    obtain ⟨rfl, rfl⟩ := split
    exact ⟨[], tos', by simp [stack'], size, by simpa using counted⟩
  | cons p P =>
    -- a list around the innermost: it and the lists between are untouched
    simp only [List.cons_append, List.cons.injEq] at split
    obtain ⟨rfl, rest⟩ := split
    refine ⟨tos' :: P, t, by simp [stack', rest], rfl, ?_⟩
    simp only [used_cons]
    omega

/-- Entering a list: nothing counted yet. -/
theorem Kept.push {size : Nat} (stack' : s'.stack = ⟨0, size⟩ :: s.stack) (reads : s'.r = s.r) :
    Kept s s' :=
  fun _ P tos _ split _ => ⟨⟨0, size⟩ :: P, tos, by simp [stack', split], rfl, by simp [reads]⟩

/-- Leaving the outermost list: no list is around it. -/
theorem KeptBelow.of_single (stack : s.stack = [tos]) : KeptBelow s s' := by
  intro k deep
  simp [stack] at deep

/-- Leaving a list read to its end keeps every list around it: the enclosing list counts it. -/
theorem KeptBelow.pop {up : Listpos} (stack : s.stack = tos :: up :: outer) (done : tos.pos = tos.size)
    (stack' : s'.stack = { up with pos := up.pos + tos.size } :: outer) (reads : s'.r = s.r) :
    KeptBelow s s' := by
  intro k deep P t o split depth
  rw [stack] at split
  cases P with
  | nil =>
    -- the innermost list is not among those kept
    simp only [List.nil_append, List.cons.injEq] at split
    obtain ⟨-, rfl⟩ := split
    simp [stack, depth] at deep
  | cons p P =>
    simp only [List.cons_append, List.cons.injEq] at split
    obtain ⟨rfl, split⟩ := split
    cases P with
    | nil =>
      -- the enclosing list is the one kept: it counts the list left
      simp only [List.nil_append, List.cons.injEq] at split
      obtain ⟨rfl, rfl⟩ := split
      refine ⟨[], { up with pos := up.pos + tos.size }, by simp [stack'], rfl, ?_⟩
      simp only [used_cons, used_nil, reads]
      omega
    | cons q P =>
      simp only [List.cons_append, List.cons.injEq] at split
      obtain ⟨rfl, rest⟩ := split
      refine ⟨{ up with pos := up.pos + tos.size } :: P, t, by simp [stack', rest], rfl, ?_⟩
      simp only [used_cons, reads]
      omega

/-- A run that keeps every open list leaves at least as many open. -/
theorem Kept.length_le (kept : Kept s s') : s.stack.length ≤ s'.stack.length := by
  rcases stack : s.stack with _ | ⟨tos, outer⟩
  · simp
  · obtain ⟨P', tos', split', -, -⟩ := kept outer.length [] tos outer (by simp [stack]) rfl
    simp only [split', List.length_append, List.length_cons]
    omega

theorem Kept.trans_below (first : Kept s s₁) (second : KeptBelow s₁ s₂) : KeptBelow s s₂ :=
  fun k deep => (first k).trans (second k (lt_of_lt_of_le deep first.length_le))

theorem KeptBelow.trans (first : KeptBelow s s₁) (second : Kept s₁ s₂) : KeptBelow s s₂ :=
  fun k deep => (first k deep).trans (second k)

/-- A list entered and then left: every list open before is kept. -/
theorem Kept.enter (first : Kept s s₁) (deeper : s.stack.length < s₁.stack.length)
    (second : KeptBelow s₁ s₂) : Kept s s₂ := by
  intro k P tos outer split depth
  -- the list kept lies in the stack of `s`, so below the one entered
  have within : k + 1 < s₁.stack.length := by
    have := congrArg List.length split
    simp only [List.length_append, List.length_cons] at this
    omega
  exact (first k).trans (second k within) P tos outer split depth

end Kept

/-! ### Three classes of stream operation -/

section Classes

variable {α β : Type}

/-- A stream operation that keeps the invariant and every open list, whatever it returns. -/
def Contained (x : StreamM α) : Prop :=
  ∀ s, Inv s → Spec x s fun _ s' => Inv s' ∧ Kept s s'

/-- An operation that enters a list: contained, and deeper when it returns a value. -/
def Opening (x : StreamM α) : Prop :=
  ∀ s, Inv s → Spec x s fun r s' => Inv s' ∧ Kept s s' ∧
    ∀ a, r = .ok a → s.stack.length < s'.stack.length

/-- An operation that may leave the innermost list: it keeps the invariant and every list
around the innermost. -/
def Closing (x : StreamM α) : Prop :=
  ∀ s, Inv s → Spec x s fun _ s' => Inv s' ∧ KeptBelow s s'

variable {x : StreamM α} {f : α → StreamM β}

theorem Contained.pure (a : α) : Contained (pure a : StreamM α) :=
  fun s inv => Spec.pure a ⟨inv, Kept.refl s⟩

theorem Contained.throw (e : Error) : Contained (throw e : StreamM α) :=
  fun s inv => Spec.throw e ⟨inv, Kept.refl s⟩

theorem Contained.outOfFuel : Contained (StreamM.outOfFuel : StreamM α) :=
  fun _ _ => Spec.none

theorem Contained.result (contained : Contained x) : Contained (StreamM.result x) :=
  fun s inv => Spec.result (contained s inv)

theorem Contained.bind (first : Contained x) (rest : ∀ a, Contained (f a)) :
    Contained (x >>= f) :=
  fun s inv => Spec.bind (first s inv)
    (fun a _ mid => (rest a _ mid.1).mono fun _ _ post => ⟨post.1, mid.2.trans post.2⟩)
    (fun _ _ mid => mid)

theorem Contained.get_bind {f : Stream → StreamM β}
    (rest : ∀ s, Inv s → Spec (f s) s fun _ s' => Inv s' ∧ Kept s s') : Contained (get >>= f) :=
  fun s inv => Spec.get_bind (rest s inv)

theorem Contained.modify {g : Stream → Stream} (keeps : ∀ s, Inv s → Inv (g s) ∧ Kept s (g s)) :
    Contained (modify g) :=
  fun s inv => Spec.modify (keeps s inv)

/-- Go's `if cond { return err }` before a contained rest. -/
theorem Contained.guard {c : Prop} [Decidable c] (e : Error) (rest : Contained x) :
    Contained (if c then (MonadExcept.throw e : StreamM PUnit) >>= (fun _ => x) else x) :=
  fun s inv => Spec.guard (fun _ => ⟨inv, Kept.refl s⟩) (fun _ => rest s inv)

theorem Contained.ite {c : Prop} [Decidable c] {y : StreamM α} (yes : Contained x) (no : Contained y) :
    Contained (if c then x else y) := by
  split
  · exact yes
  · exact no

theorem Opening.contained (opening : Opening x) : Contained x :=
  fun s inv => (opening s inv).mono fun _ _ post => ⟨post.1, post.2.1⟩

theorem Contained.closing (contained : Contained x) : Closing x :=
  fun s inv => (contained s inv).mono fun _ _ post => ⟨post.1, post.2.below⟩

theorem Contained.bind_closing (first : Contained x) (rest : ∀ a, Closing (f a)) :
    Closing (x >>= f) :=
  fun s inv => Spec.bind (first s inv)
    (fun a _ mid => (rest a _ mid.1).mono fun _ _ post => ⟨post.1, mid.2.trans_below post.2⟩)
    (fun _ _ mid => ⟨mid.1, mid.2.below⟩)

theorem Closing.bind_contained (first : Closing x) (rest : ∀ a, Contained (f a)) :
    Closing (x >>= f) :=
  fun s inv => Spec.bind (first s inv)
    (fun a _ mid => (rest a _ mid.1).mono fun _ _ post => ⟨post.1, mid.2.trans post.2⟩)
    (fun _ _ mid => mid)

theorem Closing.ite {c : Prop} [Decidable c] {y : StreamM α} (yes : Closing x) (no : Closing y) :
    Closing (if c then x else y) := by
  split
  · exact yes
  · exact no

theorem Closing.guard {c : Prop} [Decidable c] (e : Error) (rest : Closing x) :
    Closing (if c then (MonadExcept.throw e : StreamM PUnit) >>= (fun _ => x) else x) :=
  fun s inv => Spec.guard (fun _ => ⟨inv, (Kept.refl s).below⟩) (fun _ => rest s inv)

/-- A list entered, and a body that may leave it: every list open before is kept. -/
theorem Opening.bind_closing (first : Opening x) (rest : ∀ a, Closing (f a)) :
    Contained (x >>= f) :=
  fun s inv => Spec.bind (first s inv)
    (fun a _ mid => (rest a _ mid.1).mono fun _ _ post =>
      ⟨post.1, mid.2.1.enter (mid.2.2 a rfl) post.2⟩)
    (fun _ _ mid => ⟨mid.1, mid.2.1⟩)

end Classes

/-! ### Reads: every byte is counted before it is taken -/

namespace Stream

section Reads

variable {s : Stream}

/-- `willRead n` keeps every open list and counts `n` bytes in the innermost, so that, once it
returns, the reader may give up `n` bytes. -/
theorem willRead_counts (inv : Inv s) (n : Nat) :
    Spec (willRead n) s fun r s' => Inv s' ∧ Kept s s' ∧ s'.r = s.r ∧
      (r = .ok () → Kept s { s' with r := s'.r.drop n }) := by
  intro r s' run
  change (willRead n).go s = some (r, s') at run
  simp only [willRead, go_bind, go_modify, go_get] at run
  rcases stack : s.stack with _ | ⟨tos, outer⟩
  · -- at toplevel only the limit is checked, and no list is open
    have top : s'.stack = [] ∧ s'.kind = none ∧ s'.r = s.r := by
      simp only [stack, go_bind, go_get] at run
      split_ifs at run <;> simp at run <;> (obtain ⟨-, rfl⟩ := run; simp)
    exact ⟨Inv.armed (by simp [top.1, nested_nil]) top.2.1, Kept.of_nil stack, top.2.2,
      fun _ => Kept.of_nil stack⟩
  · simp only [stack] at run
    by_cases large : n > tos.size - tos.pos
    · -- the list check fails before anything is counted
      simp only [if_pos large, go_bind, go_throw] at run
      obtain ⟨-, rfl⟩ := run
      exact ⟨Inv.armed (by simpa [stack] using inv.nested) rfl, Kept.of_eq (by simp [stack]) rfl, rfl,
        fun never => nomatch never⟩
    · -- the bytes are counted in the innermost list, whether the limit then holds or not
      have fits : tos.pos + n ≤ tos.size := by
        have := (nested_cons.1 (stack ▸ inv.nested)).1
        omega
      have counted : s'.stack = { tos with pos := tos.pos + n } :: outer ∧ s'.kind = none ∧ s'.r = s.r := by
        simp only [if_neg large, go_bind, go_set, go_get] at run
        split_ifs at run <;> simp at run <;> (obtain ⟨-, rfl⟩ := run; simp)
      obtain ⟨stack', armed, reads⟩ := counted
      refine ⟨Inv.armed (stack' ▸ (stack ▸ inv.nested).count fits) armed,
        Kept.of_top stack stack' rfl (by simp [reads]), reads, fun _ => ?_⟩
      exact Kept.of_top stack stack' rfl (by simp only [reads, List.length_drop]; omega)

theorem contained_readByte : Contained readByte := by
  intro s inv
  refine Spec.bind (willRead_counts inv 1) (fun _ s₁ ⟨inv₁, kept₁, _, credit⟩ => ?_) (fun _ _ mid => ⟨mid.1, mid.2.1⟩)
  refine Spec.get_bind ?_
  rcases reads : s₁.r with _ | ⟨b, rest⟩
  · exact Spec.throw _ ⟨inv₁, kept₁⟩
  · refine Spec.set_bind (Spec.pure b ⟨inv₁.same rfl rfl rfl rfl, ?_⟩)
    simpa [reads] using credit rfl

theorem contained_readFull (n : Nat) : Contained (readFull n) := by
  intro s inv
  refine Spec.bind (willRead_counts inv n) (fun _ s₁ ⟨inv₁, kept₁, _, credit⟩ => ?_) (fun _ _ mid => ⟨mid.1, mid.2.1⟩)
  have taken : Inv { s₁ with r := s₁.r.drop n } ∧ Kept s { s₁ with r := s₁.r.drop n } :=
    ⟨inv₁.same rfl rfl rfl rfl, credit rfl⟩
  refine Spec.get_bind (Spec.set_bind ?_)
  -- running dry after the count is an error, with the bytes already given up
  dsimp only
  split
  · exact Spec.throw_bind taken
  · exact Spec.pure _ taken

/-- A step that only sets fields the invariant does not read. -/
theorem Contained.modify_same {g : Stream → Stream} (stack : ∀ s, (g s).stack = s.stack)
    (reads : ∀ s, (g s).r = s.r) (kind : ∀ s, (g s).kind = s.kind) (kinderr : ∀ s, (g s).kinderr = s.kinderr)
    (size : ∀ s, (g s).size = s.size) : Contained (modify g) :=
  Contained.modify fun s inv => ⟨inv.same (stack s) (kind s) (kinderr s) (size s), Kept.of_eq (stack s) (reads s)⟩

theorem contained_readUint (size : Nat) : Contained (readUint size) := by
  rcases size with _ | _ | size
  · -- rearm Kind
    refine (Contained.modify fun s inv => ?_).bind fun _ => Contained.pure 0
    exact ⟨Inv.armed inv.nested rfl, Kept.of_eq rfl rfl⟩
  · exact contained_readByte.bind fun _ => Contained.pure _
  · refine (contained_readFull _).bind fun buf => ?_
    dsimp only
    exact Contained.ite ((Contained.throw _).bind fun _ => Contained.pure _) (Contained.pure _)

/-- `readKind` reads a header, and the size of a long one, through the reads above. -/
theorem contained_readKind : Contained readKind := by
  have byteval : ∀ b : UInt8, Contained (modify fun s : Stream => { s with byteval := b }) := fun b =>
    Contained.modify_same (fun _ => rfl) (fun _ => rfl) (fun _ => rfl) (fun _ => rfl) (fun _ => rfl)
  -- the size of a long form: whatever `readUint` returns, `readKind` returns it at once
  have size : ∀ tag {f : Except Error Nat → StreamM (Rlp.Kind × Nat × Option Error)},
      (∀ r, Contained (f r)) → Contained (StreamM.result (readUint tag) >>= f) :=
    fun tag _ cont => (contained_readUint tag).result.bind cont
  refine contained_readByte.result.bind fun read => ?_
  cases read with
  | error err => exact Contained.get_bind fun s inv => Spec.pure _ ⟨inv, Kept.refl s⟩
  | ok b =>
    refine (byteval 0).bind fun _ => ?_
    exact Contained.ite ((byteval b).bind fun _ => Contained.pure _) (Contained.ite (Contained.pure _)
      (Contained.ite (size _ fun r => by cases r <;> exact Contained.pure _)
        (Contained.ite (Contained.pure _) (size _ fun r => by cases r <;> exact Contained.pure _))))

/-- `Kind` keeps every open list, and a header it returns is cached without error. -/
theorem kind_spec (inv : Inv s) :
    Spec Kind s fun r s' => Inv s' ∧ Kept s s' ∧
      ∀ k size, r = .ok (k, size) → s'.kind = some k ∧ s'.kinderr = none ∧ s'.size = size := by
  refine Spec.get_bind ?_
  split
  · -- a cached header, or its sticky error
    rename_i k cached
    split
    · exact Spec.throw _ ⟨inv, Kept.refl s, fun _ _ never => nomatch never⟩
    · rename_i clean
      exact Spec.pure _ ⟨inv, Kept.refl s, fun k' size same => by cases same; exact ⟨cached, clean, rfl⟩⟩
  · rename_i armed
    have fresh : Inv { s with kinderr := none } := Inv.armed inv.nested armed
    refine Spec.set_bind ?_
    dsimp only
    split
    on_goal 1 =>
      split
      -- the end of the innermost list
      on_goal 1 => exact Spec.throw_bind ⟨fresh, Kept.of_eq rfl rfl, fun _ _ never => nomatch never⟩
    -- otherwise the header is read, in both branches that reach it, and cached
    all_goals
      refine Spec.bind (contained_readKind _ fresh) (fun header s₂ ⟨inv₂, kept₂⟩ => ?_)
        (fun _ _ mid => ⟨mid.1, (Kept.of_eq rfl rfl).trans mid.2, fun _ _ never => nomatch never⟩)
      obtain ⟨k, size, err⟩ := header
      refine Spec.get_bind (Spec.set_bind ?_)
      have kept : Kept s s₂ := (Kept.of_eq rfl rfl).trans kept₂
      dsimp only
      split
      · -- cached with its error, which `Kind` returns
        rename_i e failed
        refine Spec.throw _ ⟨⟨inv₂.nested, fun _ _ _ _ clean => ?_⟩, kept.trans (Kept.of_eq rfl rfl),
          fun _ _ never => nomatch never⟩
        simp only [failed] at clean
        cases clean
      · -- the header passed the check against the innermost list
        rename_i clean
        have fits : ∀ tos outer, s₂.stack = tos :: outer → tos.pos + size ≤ tos.size := by
          intro tos outer split
          have own := (nested_cons.1 (split ▸ inv₂.nested)).1
          cases err with
          | some e => cases clean
          | none =>
            simp only [split, List.head?_cons] at clean
            split_ifs at clean
            omega
        exact Spec.pure _ ⟨⟨inv₂.nested, fun _ tos outer _ _ split => fits tos outer split⟩,
          kept.trans (Kept.of_eq rfl rfl), fun k' size' same => by cases same; exact ⟨rfl, clean, rfl⟩⟩

theorem contained_Kind : Contained Kind :=
  fun _ inv => (kind_spec inv).mono fun _ _ post => ⟨post.1, post.2.1⟩

/-- Consuming a cached byte: `Kind` is rearmed. -/
theorem spec_rearm (inv : Inv s) {α : Type} (a : α) :
    Spec (set { s with kind := none } >>= fun _ => (pure a : StreamM α)) s fun _ s' => Inv s' ∧ Kept s s' :=
  Spec.set_bind (Spec.pure a ⟨Inv.armed inv.nested rfl, Kept.of_eq rfl rfl⟩)

theorem contained_uint (maxbits : Nat) : Contained (uint maxbits) := by
  refine contained_Kind.bind fun ⟨kind, size⟩ => ?_
  cases kind with
  | Byte => exact Contained.get_bind fun s inv => Spec.guard (fun _ => ⟨inv, Kept.refl s⟩) (fun _ => spec_rearm inv _)
  | String =>
    refine Contained.guard _ ((contained_readUint size).result.bind fun r => ?_)
    -- a non-canonical size is reported as a non-canonical integer
    split
    · exact Contained.throw _
    · exact Contained.throw _
    · exact Contained.ite (Contained.throw _) (Contained.pure _)
  | List => exact Contained.throw _

theorem contained_Bool : Contained Stream.Bool :=
  (contained_uint 8).bind fun num => by
    rcases num with _ | _ | num
    · exact Contained.pure false
    · exact Contained.pure true
    · exact Contained.throw _

theorem contained_Bytes : Contained Stream.Bytes := by
  refine contained_Kind.bind fun ⟨kind, size⟩ => ?_
  cases kind with
  | Byte => exact Contained.get_bind fun s inv => spec_rearm inv _
  | String => exact (contained_readFull size).bind fun _ => Contained.guard _ (Contained.pure _)
  | List => exact Contained.throw _

theorem contained_Raw : Contained Raw := by
  refine contained_Kind.bind fun ⟨kind, size⟩ => ?_
  exact Contained.ite (Contained.get_bind fun s inv => spec_rearm inv _)
    ((contained_readFull size).bind fun _ => Contained.ite (Contained.pure _) (Contained.pure _))

/-- `List` enters the list whose header `Kind` returned, which fits in the innermost list. -/
theorem opening_List : Opening Stream.List := by
  intro s inv
  refine Spec.bind (kind_spec inv) (fun ⟨k, size⟩ s₁ ⟨inv₁, kept₁, cached₁⟩ => ?_)
    (fun _ _ mid => ⟨mid.1, mid.2.1, fun _ never => nomatch never⟩)
  obtain ⟨kind₁, clean₁, size₁⟩ := cached₁ k size rfl
  refine Spec.guard (fun _ => ⟨inv₁, kept₁, fun _ never => nomatch never⟩)
    (fun _ => Spec.modify_bind (Spec.pure size ⟨?_, kept₁.trans (Kept.push rfl rfl), ?_⟩))
  · -- `Kind` checked the header against the innermost list
    refine Inv.armed (Nested.push inv₁.nested fun tos head => ?_) rfl
    rcases split : s₁.stack with _ | ⟨top, outer⟩
    · simp [split] at head
    · simp only [split, List.head?_cons, Option.mem_def, Option.some.injEq] at head
      subst head
      exact size₁ ▸ inv₁.cached k top outer kind₁ clean₁ split
  · intro _ _
    exact Nat.lt_succ_of_le kept₁.length_le

/-- `ListEnd` leaves the innermost list at its end, and keeps every list around it. -/
theorem closing_ListEnd : Closing ListEnd := by
  intro s inv
  refine Spec.get_bind ?_
  split
  · exact Spec.throw _ ⟨inv, (Kept.refl s).below⟩
  · rename_i tos outer stack
    refine Spec.guard (fun _ => ⟨inv, (Kept.refl s).below⟩) (fun done => Spec.set ?_)
    have nested : Nested (tos :: outer) := stack ▸ inv.nested
    cases outer with
    | nil => exact ⟨Inv.armed nested_nil rfl, KeptBelow.of_single stack⟩
    | cons up outer =>
      -- the enclosing list counts the list left
      exact ⟨Inv.armed nested.pop rfl, KeptBelow.pop stack (not_not.1 done) rfl rfl⟩

/-- A read larger than what is left of the innermost list fails before anything is counted:
the stack is as it was, and only `Kind` is rearmed. -/
theorem go_readFull_tooLarge {tos : Listpos} {outer} (stack : s.stack = tos :: outer) {n : Nat}
    (large : tos.size - tos.pos < n) :
    (readFull n).go s = some (.error .ErrElemTooLarge, { s with kind := none }) := by
  simp [readFull, willRead, go_bind, stack, large]

/-- `ListEnd` in one equation. -/
theorem go_ListEnd (s : Stream) : ListEnd.go s = match s.stack with
    | [] => some (.error .errNotInList, s)
    | tos :: outer =>
      if tos.pos ≠ tos.size then some (.error .errNotAtEOL, s)
      else some (.ok (), { s with
        stack := match outer with
          | [] => []
          | up :: rest => { up with pos := up.pos + tos.size } :: rest,
        kind := none, size := 0 }) := by
  simp only [ListEnd, go_bind, go_get]
  rcases s.stack with _ | ⟨tos, outer⟩
  · rfl
  · by_cases done : tos.pos = tos.size
    · cases outer <;> simp [done]
    · simp [done]

end Reads

end Stream

/-! ### The decoders -/

section Decoders

variable {α : Type} {x : StreamM α}

/-- `wrapped` hands the operation's result on, with its error renamed. -/
theorem spec_wrapped {s : Stream} {Q : Except Error α → Stream → Prop}
    (spec : Spec x s fun r s' => Q (r.mapError wrapStreamError) s') : Spec (wrapped x) s Q := by
  have first : Spec (StreamM.result x) s fun r s₁ => match r with
      | .ok r => Q (r.mapError wrapStreamError) s₁
      | .error e => Q (.error e) s₁ := Spec.result spec
  refine Spec.bind first (fun r s₁ mid => ?_) (fun _ _ mid => mid)
  cases r with
  | ok a => exact Spec.pure a mid
  | error e => exact Spec.throw _ mid

theorem Contained.wrapped (contained : Contained x) : Contained (wrapped x) :=
  fun s inv => spec_wrapped (contained s inv)

theorem Opening.wrapped (opening : Opening x) : Opening (wrapped x) :=
  fun s inv => spec_wrapped ((opening s inv).mono fun _ _ post =>
    ⟨post.1, post.2.1, fun a same => post.2.2 a (mapError_eq_ok.1 same)⟩)

theorem Closing.wrapped (closing : Closing x) : Closing (wrapped x) :=
  fun s inv => spec_wrapped (closing s inv)

theorem contained_decodeUint (bits : Nat) : Contained (decodeUint bits) :=
  (Stream.contained_uint bits).wrapped.bind fun _ => Contained.pure _

theorem contained_decodeBool : Contained decodeBool :=
  Stream.contained_Bool.wrapped.bind fun _ => Contained.pure _

theorem contained_decodeString : Contained decodeString :=
  Stream.contained_Bytes.wrapped.bind fun _ => Contained.pure _

theorem contained_decodeBigInt : Contained decodeBigInt :=
  Stream.contained_Bytes.wrapped.bind fun _ => Contained.guard _ (Contained.pure _)

theorem contained_decodeByteSlice : Contained decodeByteSlice :=
  Stream.contained_Bytes.wrapped.bind fun _ => Contained.pure _

theorem contained_decodeByteArray (vlen : Nat) : Contained (decodeByteArray vlen) := by
  refine Stream.contained_Kind.bind fun ⟨kind, size⟩ => ?_
  cases kind with
  | Byte =>
    -- `bv, _ := s.Uint()`: the error of `Uint` is dropped
    dsimp only
    exact Contained.guard _ (Contained.guard _ ((Stream.contained_uint 64).result.bind fun r => by
      cases r <;> exact (Contained.pure _).bind fun _ => Contained.pure _))
  | String =>
    dsimp only
    exact Contained.guard _ (Contained.guard _
      ((Stream.contained_readFull vlen).bind fun _ => Contained.guard _ (Contained.pure _)))
  | List => exact Contained.throw _

/-- The element loop keeps every open list, whatever the element decoder and the end do,
as long as they do. -/
theorem contained_decodeElems {elemdec : StreamM Value} {stop : StreamM (List Value)}
    (elem : Contained elemdec) (stopped : Contained stop) :
    ∀ rounds, Contained (decodeElems elemdec stop rounds)
  | 0 => stopped
  | rounds + 1 => by
    rw [decodeElems]
    refine elem.result.bind fun r => ?_
    split
    · exact Contained.pure _
    · exact Contained.throw _
    · exact (contained_decodeElems elem stopped rounds).bind fun _ => Contained.pure _

/-- Leaving a list, and returning what was decoded in it. -/
theorem leave_closing (v : Value) : Closing (Stream.ListEnd >>= fun _ => (pure v : StreamM Value)) :=
  Stream.closing_ListEnd.bind_contained fun _ => Contained.pure v

/-- A slice: the list entered, its elements until `EOL`, and the list left. -/
theorem contained_decodeListSlice {elemdec : StreamM Value} (elem : Contained elemdec) (fuel : Nat) :
    Contained (decodeListSlice elemdec fuel) := by
  refine Stream.opening_List.wrapped.bind_closing fun size => ?_
  exact Closing.ite (leave_closing _)
    ((contained_decodeElems elem Contained.outOfFuel fuel).bind_closing fun _ => leave_closing _)

/-- An array: the list entered, `vlen` elements, and the list left. -/
theorem contained_decodeListArray {elemdec : StreamM Value} (elem : Contained elemdec) (vlen : Nat) :
    Contained (decodeListArray vlen elemdec) :=
  Stream.opening_List.wrapped.bind_closing fun _ =>
    (contained_decodeElems elem (Contained.pure []) vlen).bind_closing fun _ =>
      Closing.guard _ (Stream.closing_ListEnd.wrapped.bind_contained fun _ => Contained.pure _)

/-- A struct: the list entered, its fields, and the list left. -/
theorem contained_makeStructDecoder {fields : StreamM (List Value)} (each : Contained fields) :
    Contained (makeStructDecoder fields) :=
  Stream.opening_List.wrapped.bind_closing fun _ =>
    each.bind_closing fun _ => Stream.closing_ListEnd.wrapped.bind_contained fun _ => Contained.pure _

/-- An interface value, one nested list for each round of fuel. -/
theorem contained_decodeInterface : ∀ fuel, Contained (decodeInterface fuel)
  | 0 => Contained.outOfFuel
  | fuel + 1 => by
    rw [decodeInterface]
    exact Stream.contained_Kind.bind fun _ => Contained.ite
      ((contained_decodeListSlice (contained_decodeInterface fuel) fuel).bind fun _ => Contained.pure _)
      (Stream.contained_Bytes.bind fun _ => Contained.pure _)

mutual

/-- The decoder of every type keeps every open list. -/
theorem contained_makeDecoder (fuel : Nat) : ∀ t, Contained (makeDecoder fuel t)
  | .uint bits => contained_decodeUint bits
  | .bool => contained_decodeBool
  | .string => contained_decodeString
  | .bigInt => contained_decodeBigInt
  | .slice elem => by
    rw [makeDecoder]
    exact Contained.ite contained_decodeByteSlice
      (contained_decodeListSlice (contained_makeDecoder fuel elem) fuel)
  | .array vlen elem => by
    rw [makeDecoder]
    exact Contained.ite (contained_decodeByteArray vlen)
      (contained_decodeListArray (contained_makeDecoder fuel elem) vlen)
  | .struct fields => contained_makeStructDecoder (contained_decodeFields fuel fields)
  | .iface => contained_decodeInterface fuel

theorem contained_decodeFields (fuel : Nat) : ∀ ts, Contained (decodeFields fuel ts)
  | [] => Contained.pure []
  | t :: rest => by
    rw [decodeFields]
    refine (contained_makeDecoder fuel t).result.bind fun r => ?_
    split
    · exact Contained.throw _
    · exact Contained.throw _
    · exact (contained_decodeFields fuel rest).bind fun _ => Contained.pure _

end

end Decoders

/-! ### Runs of stream operations -/

/-- The operations a caller runs on a `Stream`, in any order. -/
inductive Op where
  | Kind
  | Bytes
  | Uint
  | Bool
  | Raw
  | List
  | ListEnd
  /-- `Stream.Decode` into a value of type `t`, with the fuel of the model's list loops. -/
  | Decode (fuel : Nat) (t : Ty)

/-- One operation, and the state it leaves, whatever it returned: a caller may go on after an
error. -/
def Op.apply : Op → Stream → Option Stream
  | .Kind, s => (Stream.Kind.go s).map Prod.snd
  | .Bytes, s => (Stream.Bytes.go s).map Prod.snd
  | .Uint, s => (Stream.Uint.go s).map Prod.snd
  | .Bool, s => (Stream.Bool.go s).map Prod.snd
  | .Raw, s => (Stream.Raw.go s).map Prod.snd
  | .List, s => (Stream.List.go s).map Prod.snd
  | .ListEnd, s => (Stream.ListEnd.go s).map Prod.snd
  | .Decode fuel t, s => ((makeDecoder fuel t).go s).map Prod.snd

/-- Operations in order; `none` when one of them runs out of fuel. -/
def runOps (ops : List Op) (s : Stream) : Option Stream :=
  ops.foldlM (fun s op => op.apply s) s

section Run

variable {s s' : Stream}

theorem inv_NewStream (b : Bytes) (limit : Nat) : Inv (NewStream b limit) :=
  Inv.armed nested_nil rfl

/-- The state a contained operation leaves. -/
theorem Contained.apply {α : Type} {x : StreamM α} (contained : Contained x) (inv : Inv s)
    (applied : (x.go s).map Prod.snd = some s') : Inv s' ∧ Kept s s' := by
  obtain ⟨⟨r, s''⟩, run, rfl⟩ := Option.map_eq_some_iff.1 applied
  exact contained s inv r s'' run

/-- One operation keeps the invariant, and every open list unless it leaves one; `ListEnd`
takes nothing from the reader. -/
theorem Op.apply_spec {op : Op} (inv : Inv s) (applied : op.apply s = some s') :
    Inv s' ∧ (Kept s s' ∨ s'.r = s.r) := by
  cases op with
  | Kind => exact (Stream.contained_Kind.apply inv applied).imp_right .inl
  | Bytes => exact (Stream.contained_Bytes.apply inv applied).imp_right .inl
  | Uint => exact ((Stream.contained_uint 64).apply inv applied).imp_right .inl
  | Bool => exact (Stream.contained_Bool.apply inv applied).imp_right .inl
  | Raw => exact (Stream.contained_Raw.apply inv applied).imp_right .inl
  | List => exact (Stream.opening_List.contained.apply inv applied).imp_right .inl
  | Decode fuel t => exact ((contained_makeDecoder fuel t).apply inv applied).imp_right .inl
  | ListEnd =>
    obtain ⟨⟨r, s''⟩, run, rfl⟩ := Option.map_eq_some_iff.1 applied
    refine ⟨(Stream.closing_ListEnd s inv r s'' run).1, .inr ?_⟩
    rw [Stream.go_ListEnd] at run
    split at run
    · cases run
      rfl
    · split_ifs at run <;> cases run <;> rfl

/-- The run rule: every state a sequence of operations reaches keeps the invariant. -/
theorem runOps_inv (ops : List Op) (inv : Inv s) (applied : runOps ops s = some s') :
    Inv s' := by
  induction ops generalizing s with
  | nil =>
    cases applied
    exact inv
  | cons op rest ih =>
    simp only [runOps, List.foldlM_cons] at applied ih
    obtain ⟨next, first, rest⟩ := Option.bind_eq_some_iff.mp applied
    exact ih (Op.apply_spec inv first).1 rest

/-- Kept lists bound what the reader gives up: no more than what was left of the innermost. -/
theorem Kept.reads_le (kept : Kept s s') (inv' : Inv s') {tos : Listpos} {outer : List Listpos}
    (stack : s.stack = tos :: outer) : s.r.length ≤ s'.r.length + (tos.size - tos.pos) := by
  obtain ⟨P', tos', stack', size, counted⟩ := kept outer.length [] tos outer (by simp [stack]) rfl
  have within := Nested.used_le (stack' ▸ inv'.nested)
  simp only [used_nil] at counted
  omega

end Run

/-- The lists of a stream stay contained over every run of its operations, from any input:
every open list has `pos ≤ size`; an operation takes from the reader no more than what is
left of the innermost list; a read larger than that fails with `ErrElemTooLarge`, leaving the
stack as it was; and `ListEnd` succeeds exactly at the end of the innermost list, counting its
size in the enclosing list. -/
theorem list_containment (b : Bytes) (limit : Nat) (ops : List Op) {s : Stream}
    (ran : runOps ops (NewStream b limit) = some s) :
    (∀ l ∈ s.stack, l.pos ≤ l.size) ∧
    (∀ (op : Op) s' tos outer, op.apply s = some s' → s.stack = tos :: outer →
      s.r.length - s'.r.length ≤ tos.size - tos.pos) ∧
    (∀ n tos outer, s.stack = tos :: outer → tos.size - tos.pos < n →
      (Stream.readFull n).go s = some (.error .ErrElemTooLarge, { s with kind := none })) ∧
    (∀ s', Stream.ListEnd.go s = some (.ok (), s') ↔ ∃ tos outer, s.stack = tos :: outer ∧
      tos.pos = tos.size ∧ s' = { s with
        stack := match outer with
          | [] => []
          | up :: rest => { up with pos := up.pos + tos.size } :: rest,
        kind := none, size := 0 }) := by
  have inv := runOps_inv ops (inv_NewStream b limit) ran
  refine ⟨inv.nested.1, fun op s' tos outer applied stack => ?_,
    fun n tos outer stack large => Stream.go_readFull_tooLarge stack large, fun s' => ?_⟩
  · obtain ⟨inv', kept | reads⟩ := Op.apply_spec inv applied
    · have := kept.reads_le inv' stack
      omega
    · rw [reads]
      omega
  · rw [Stream.go_ListEnd]
    rcases s.stack with _ | ⟨tos, outer⟩
    · simp
    · by_cases done : tos.pos = tos.size
      · cases outer <;> simp [done, eq_comm]
      · simp [done]

/-- `C1 80` with its list entered: the list is open with its one byte to read. -/
theorem list_containment_entered :
    let s : Stream := ⟨[0x80], 1, true, none, 0, 0, none, [⟨0, 1⟩]⟩
    runOps [.List] (NewStream [0xC1, 0x80] 0) = some s ∧
    (∀ l ∈ s.stack, l.pos ≤ l.size) ∧
    (∀ (op : Op) s' tos outer, op.apply s = some s' → s.stack = tos :: outer →
      s.r.length - s'.r.length ≤ tos.size - tos.pos) ∧
    (∀ n tos outer, s.stack = tos :: outer → tos.size - tos.pos < n →
      (Stream.readFull n).go s = some (.error .ErrElemTooLarge, { s with kind := none })) ∧
    (∀ s', Stream.ListEnd.go s = some (.ok (), s') ↔ ∃ tos outer, s.stack = tos :: outer ∧
      tos.pos = tos.size ∧ s' = { s with
        stack := match outer with
          | [] => []
          | up :: rest => { up with pos := up.pos + tos.size } :: rest,
        kind := none, size := 0 }) := by
  intro s
  have entered : runOps [.List] (NewStream [0xC1, 0x80] 0) = some s := by decide
  exact ⟨entered, list_containment [0xC1, 0x80] 0 [.List] entered⟩

end Indigo.Rlp
