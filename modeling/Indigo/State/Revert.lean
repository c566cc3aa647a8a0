import Indigo.State.StateDB

/-!
# Reverting to a snapshot

Every method of the state database appends journal entries whose undoing, newest first,
gives back the state the method started from, as far as the getters can tell. Undoing
depends on a state only through what the getters see, so this composes: a state reached by
any run of methods, snapshots and reverts to snapshots taken since rolls back to where the
run started (`Extends`), and `RevertToSnapshot` of a snapshot gives back what the getters
returned when it was taken.

## Main results

- `Extends`: the relation between a state and one reached from it by journalled methods and
  reverts to later snapshots; every method keeps it (`Extends.SetBalance` and its siblings,
  `Extends.revert`).
- `Extends.revert_snapshot`: reverting to a snapshot of `s` from a state that extends it
  gives `s` back, with `s`'s journal and revisions.
- `revertToSnapshot_restores`: for any sequence of operations after a snapshot, a revert
  to it that succeeds makes every getter return what it returned when the snapshot was
  taken, and leaves exactly the revisions that were valid before it: the snapshot's own
  revision goes too.

## Proof strategy

`Same` is equality of everything a getter or an `undo` reads; the `touched` flag is not
read by either (only the touch of RIPEMD-160 survives a revert, and nothing sees it). Each
`undo` respects `Same` (`undo_congr`). A method that writes one object is reverted by its
last entry (`Extends.write`); one that creates the object first is the composition of two
such steps (`Extends.trans`), whose rollbacks compose because the later method's entries sit
after the earlier one's in the journal.
-/

namespace Indigo.State

open Indigo

/-! ### What the getters see -/

/-- An object as the getters see it: without the `touched` flag, which nothing reads. -/
def StateObject.forget (so : StateObject) : StateObject := { so with touched := false }

namespace StateDB

/-- Two states that every getter and every `undo` treat alike. -/
structure Same (s t : StateDB) : Prop where
  trie : s.trie = t.trie
  objects : ∀ addr, (s.getStateObject addr).map StateObject.forget =
    (t.getStateObject addr).map StateObject.forget
  refund : s.refund = t.refund
  logs : s.logs = t.logs
  logSize : s.logSize = t.logSize
  preimages : s.preimages = t.preimages

theorem Same.refl (s : StateDB) : Same s s := ⟨rfl, fun _ => rfl, rfl, rfl, rfl, rfl⟩

theorem Same.symm {s t : StateDB} (same : Same s t) : Same t s :=
  ⟨same.trie.symm, fun addr => (same.objects addr).symm, same.refund.symm, same.logs.symm,
    same.logSize.symm, same.preimages.symm⟩

theorem Same.trans {s t u : StateDB} (first : Same s t) (second : Same t u) : Same s u :=
  ⟨first.trie.trans second.trie, fun addr => (first.objects addr).trans (second.objects addr),
    first.refund.trans second.refund, first.logs.trans second.logs,
    first.logSize.trans second.logSize, first.preimages.trans second.preimages⟩

/-! ### How the updates read back -/

@[simp] theorem getStateObject_setStateObject (s : StateDB) (addr addr' : Address)
    (object : StateObject) :
    (s.setStateObject addr object).getStateObject addr' =
      if addr' = addr then some object else s.getStateObject addr' := by
  by_cases same : addr' = addr
  · subst same
    simp [setStateObject, getStateObject]
  · simp [setStateObject, getStateObject, same]

@[simp] theorem getStateObject_record (s : StateDB) (entry : JournalEntry) :
    (s.record entry).getStateObject = s.getStateObject := rfl

@[simp] theorem record_journal (s : StateDB) (entry : JournalEntry) :
    (s.record entry).journal = s.journal ++ [entry] := rfl

@[simp] theorem setStateObject_journal (s : StateDB) (addr : Address) (object : StateObject) :
    (s.setStateObject addr object).journal = s.journal := rfl

@[simp] theorem record_validRevisions (s : StateDB) (entry : JournalEntry) :
    (s.record entry).validRevisions = s.validRevisions := rfl

@[simp] theorem setStateObject_validRevisions (s : StateDB) (addr : Address)
    (object : StateObject) : (s.setStateObject addr object).validRevisions = s.validRevisions :=
  rfl

@[simp] theorem record_trie (s : StateDB) (entry : JournalEntry) : (s.record entry).trie = s.trie :=
  rfl

@[simp] theorem setStateObject_trie (s : StateDB) (addr : Address) (object : StateObject) :
    (s.setStateObject addr object).trie = s.trie := rfl

/-- Writing back what the getters already see changes nothing they see. -/
theorem same_setStateObject {s : StateDB} {addr : Address} {so : StateObject}
    (found : (s.getStateObject addr).map StateObject.forget = some so.forget) :
    Same (s.setStateObject addr so) s := by
  refine ⟨rfl, fun addr' => ?_, rfl, rfl, rfl, rfl⟩
  by_cases same : addr' = addr
  · subst same
    simp [found]
  · simp [same]

theorem Same.setStateObject {s t : StateDB} (same : Same s t) (addr : Address)
    {so so' : StateObject} (forgets : so.forget = so'.forget) :
    Same (s.setStateObject addr so) (t.setStateObject addr so') := by
  refine ⟨same.trie, fun addr' => ?_, same.refund, same.logs, same.logSize, same.preimages⟩
  by_cases hit : addr' = addr
  · simp [hit, forgets]
  · simp [hit, same.objects addr']

theorem Same.record {s t : StateDB} (same : Same s t) (entry : JournalEntry) :
    Same (s.record entry) t :=
  ⟨same.trie, same.objects, same.refund, same.logs, same.logSize, same.preimages⟩

end StateDB

/-! ### Undo respects `Same` -/

namespace StateDB

/-- The changes an `undo` makes to an object only depend on what the getters see of it. -/
def Respects (f : StateObject → StateObject) : Prop :=
  ∀ so so' : StateObject, so.forget = so'.forget → (f so).forget = (f so').forget

theorem Same.updateObject {s t : StateDB} (same : Same s t) (addr : Address)
    {f : StateObject → StateObject} (respects : Respects f) :
    Option.Rel Same (s.updateObject addr f) (t.updateObject addr f) := by
  have objects := same.objects addr
  unfold StateDB.updateObject
  cases found : s.getStateObject addr with
  | none =>
    cases found' : t.getStateObject addr with
    | none => exact .none
    | some so' => simp [found, found'] at objects
  | some so =>
    cases found' : t.getStateObject addr with
    | none => simp [found, found'] at objects
    | some so' =>
      simp only [found, found', Option.map_some, Option.some.injEq] at objects
      exact .some (same.setStateObject addr (respects so so' objects))

theorem StateObject.forget_eq_iff {so so' : StateObject} :
    so.forget = so'.forget ↔ so.nonce = so'.nonce ∧ so.balance = so'.balance ∧
      so.codeHash = so'.codeHash ∧ so.code = so'.code ∧ so.storage = so'.storage ∧
      so.suicided = so'.suicided := by
  cases so
  cases so'
  simp [StateObject.forget]

theorem getStateObject_erase (s : StateDB) (addr addr' : Address) :
    ({ s with stateObjects := Function.update s.stateObjects addr none } : StateDB).getStateObject
      addr' = if addr' = addr then s.trie addr' else s.getStateObject addr' := by
  by_cases same : addr' = addr
  · subst same
    simp [getStateObject]
  · simp [getStateObject, same]

end StateDB

open StateDB in
/-- Undoing an entry treats two states that the getters cannot tell apart alike. -/
theorem JournalEntry.undo_congr (entry : JournalEntry) {s t : StateDB} (same : Same s t) :
    Option.Rel Same (entry.undo s) (entry.undo t) := by
  -- each field an `undo` sets is one of those `forget` keeps, or the `touched` flag
  cases entry with
  | createObjectChange account =>
    refine .some ⟨same.trie, fun addr => ?_, same.refund, same.logs, same.logSize, same.preimages⟩
    simp only [getStateObject_erase]
    split
    · rw [same.trie]
    · exact same.objects addr
  | resetObjectChange account prev => exact .some (same.setStateObject account rfl)
  | suicideChange account prev prevbalance =>
    have objects := same.objects account
    simp only [JournalEntry.undo]
    cases found : s.getStateObject account with
    | none =>
      cases found' : t.getStateObject account with
      | none => exact .some same
      | some so' => simp [found, found'] at objects
    | some so =>
      cases found' : t.getStateObject account with
      | none => simp [found, found'] at objects
      | some so' =>
        simp only [found, found', Option.map_some, Option.some.injEq] at objects
        refine .some (same.setStateObject account ?_)
        rw [StateObject.forget_eq_iff] at objects ⊢
        simp_all
  | touchChange account prev =>
    simp only [JournalEntry.undo]
    split
    · exact same.updateObject account (fun so so' forgets => by
        simp only [StateObject.forget] at forgets ⊢
        exact forgets)
    · exact .some same
  | balanceChange account prev =>
    exact same.updateObject account (fun so so' forgets => by
      rw [StateObject.forget_eq_iff] at forgets ⊢
      simp_all)
  | nonceChange account prev =>
    exact same.updateObject account (fun so so' forgets => by
      rw [StateObject.forget_eq_iff] at forgets ⊢
      simp_all)
  | storageChange account key prevalue =>
    exact same.updateObject account (fun so so' forgets => by
      rw [StateObject.forget_eq_iff] at forgets ⊢
      simp_all)
  | codeChange account prevcode prevhash =>
    exact same.updateObject account (fun so so' forgets => by
      rw [StateObject.forget_eq_iff] at forgets ⊢
      simp_all)
  | refundChange prev =>
    exact .some ⟨same.trie, same.objects, rfl, same.logs, same.logSize, same.preimages⟩
  | addLogChange txhash =>
    simp only [JournalEntry.undo, same.logs]
    split
    · exact .none
    · exact .some ⟨same.trie, same.objects, same.refund, rfl, by rw [same.logSize], same.preimages⟩
  | addPreimageChange hash =>
    exact .some ⟨same.trie, same.objects, same.refund, same.logs, same.logSize, by rw [same.preimages]⟩

section Undo

-- the lemmas of this section compute `undoAll` by `simp`
attribute [local simp] undoAll

open StateDB in
theorem undoAll_congr (entries : List JournalEntry) {s t : StateDB} (same : Same s t) :
    Option.Rel Same (undoAll entries s) (undoAll entries t) := by
  induction entries generalizing s t with
  | nil => exact .some same
  | cons entry rest ih =>
    simp only [undoAll, List.foldlM_cons] at ih ⊢
    have related := entry.undo_congr same
    generalize entry.undo s = first at related ⊢
    generalize entry.undo t = second at related ⊢
    cases related with
    | none => exact .none
    | some same' => exact ih same'

theorem undoAll_append (first second : List JournalEntry) (s : StateDB) :
    undoAll (first ++ second) s = (undoAll first s).bind (undoAll second) := by
  simp [List.foldlM_append]
  rfl

end Undo

/-! ### Reaching a state by journalled methods -/

namespace StateDB

/-- `t` is reached from `s` by journalled methods and reverts to snapshots taken since:
`s`'s journal and revisions are still there, the revisions taken since are from journal
lengths past `s`'s, and rolling `t` back to `s`'s journal length gives what the getters saw
in `s`. -/
structure Extends (s t : StateDB) : Prop where
  journal : s.journal <+: t.journal
  revisions : s.validRevisions <+: t.validRevisions
  later : ∀ r ∈ t.validRevisions.drop s.validRevisions.length, s.journal.length ≤ r.journalIndex
  rollback : ∃ r, t.rollback s.journal.length = some r ∧ Same r s

section Rollback

-- the lemmas of this section compute `rollback` and `undoAll` by `simp`
attribute [local simp] rollback undoAll

theorem Extends.refl (s : StateDB) : Extends s s := by
  refine ⟨List.prefix_refl _, List.prefix_refl _, fun r member => ?_, s, ?_, Same.refl s⟩
  · simp at member
  · simp

/-- A state with `s`'s journal and revisions that reads as `s` extends it: there is nothing
to roll back. -/
theorem Extends.of_same {s t : StateDB} (same : Same t s) (journal : t.journal = s.journal)
    (revisions : t.validRevisions = s.validRevisions) : Extends s t := by
  refine ⟨journal ▸ List.prefix_refl _, revisions ▸ List.prefix_refl _, fun r member => ?_, t,
    ?_, same⟩
  · simp [revisions] at member
  · simp [journal]

theorem Extends.trans {s u t : StateDB} (first : Extends s u) (second : Extends u t) :
    Extends s t := by
  obtain ⟨added, hu⟩ := first.journal
  obtain ⟨added', ht⟩ := second.journal
  obtain ⟨revs, hru⟩ := first.revisions
  obtain ⟨revs', hrt⟩ := second.revisions
  refine ⟨first.journal.trans second.journal, first.revisions.trans second.revisions,
    fun r member => ?_, ?_⟩
  · -- a revision taken since `s` was taken before `u` or since
    rw [← hrt, ← hru, List.append_assoc, List.drop_left, List.mem_append] at member
    rcases member with before | since
    · apply first.later r
      rw [← hru, List.drop_left]
      exact before
    · have bound := second.later r (by rw [← hrt, List.drop_left]; exact since)
      have grows : s.journal.length ≤ u.journal.length := by rw [← hu]; simp
      omega
  · -- roll back to `u`, then from there to `s`
    obtain ⟨r₁, back₁, same₁⟩ := second.rollback
    obtain ⟨r₂, back₂, same₂⟩ := first.rollback
    simp only [StateDB.rollback, ← ht, List.drop_left] at back₁
    simp only [StateDB.rollback, ← hu, List.drop_left] at back₂
    simp only [StateDB.rollback, ← ht, ← hu, List.append_assoc, List.drop_left,
      List.reverse_append, undoAll_append]
    rw [back₁, Option.bind_some]
    have related := undoAll_congr added.reverse same₁.symm
    rw [back₂] at related
    generalize undoAll added.reverse r₁ = third at related ⊢
    cases related with
    | some same₃ => exact ⟨_, rfl, same₃.symm.trans same₂⟩

/-- A method that journals one entry and keeps the revisions is reverted by undoing it. -/
theorem Extends.single {s t : StateDB} {entry : JournalEntry}
    (journal : t.journal = s.journal ++ [entry]) (revisions : t.validRevisions = s.validRevisions)
    (undone : ∃ u, entry.undo t = some u ∧ Same u s) : Extends s t := by
  refine ⟨⟨[entry], journal.symm⟩, ⟨[], by simp [revisions]⟩, fun r member => ?_, ?_⟩
  · simp [revisions] at member
  · obtain ⟨u, undo, same⟩ := undone
    exact ⟨u, by simp [journal, undo], same⟩

end Rollback

/-- A method that changes the object at `addr` from `so` to `so'` and journals one entry is
reverted by undoing that entry. -/
theorem Extends.write {s : StateDB} {addr : Address} {so so' : StateObject} {entry : JournalEntry}
    (found : s.getStateObject addr = some so)
    (reverts : ∀ u : StateDB, u.getStateObject addr = some so' →
      ∃ u', entry.undo u = some u' ∧ Same u' (u.setStateObject addr so)) :
    Extends s ((s.record entry).setStateObject addr so') := by
  refine @Extends.single _ _ entry (by simp) (by simp) ?_
  obtain ⟨u', undone, same⟩ := reverts ((s.record entry).setStateObject addr so') (by simp)
  refine ⟨u', undone, same.trans ⟨rfl, fun addr' => ?_, rfl, rfl, rfl, rfl⟩⟩
  by_cases hit : addr' = addr
  · simp [hit, found]
  · simp [hit]

/-- Creating an object where the getters see none is reverted by deleting it again. -/
theorem Extends.create {s : StateDB} {addr : Address} (so' : StateObject)
    (absent : s.getStateObject addr = none) :
    Extends s ((s.record (.createObjectChange addr)).setStateObject addr so') := by
  have untouched : s.stateObjects addr = none ∧ s.trie addr = none := by
    unfold getStateObject at absent
    split at absent
    · cases absent
    · exact ⟨by assumption, absent⟩
  refine @Extends.single _ _ (.createObjectChange addr) (by simp) (by simp) ?_
  set t := (s.record (.createObjectChange addr)).setStateObject addr so' with ht
  refine ⟨{ t with stateObjects := Function.update t.stateObjects addr none }, rfl,
    ⟨rfl, fun addr' => ?_, rfl, rfl, rfl, rfl⟩⟩
  rw [getStateObject_erase]
  by_cases hit : addr' = addr
  · subst hit
    simp [ht, untouched.2, absent]
  · simp [ht, hit]

/-- The undo of a field set on an object puts the object back. -/
theorem updateObject_reverts {u : StateDB} {addr : Address} {so so' : StateObject}
    {f : StateObject → StateObject} (found : u.getStateObject addr = some so') (back : f so' = so) :
    ∃ u', u.updateObject addr f = some u' ∧ Same u' (u.setStateObject addr so) :=
  ⟨_, by simp [updateObject, found, back], Same.refl _⟩

theorem setStateObject_setStateObject (s : StateDB) (addr : Address) (so so' : StateObject) :
    (s.setStateObject addr so).setStateObject addr so' = s.setStateObject addr so' := by
  simp [setStateObject]

section Methods

variable (keccak : Bytes → Hash)

/-- `GetOrNewStateObject` gives the object now at `addr`, in a state reached by at most
its creation. -/
theorem GetOrNewStateObject_spec (s : StateDB) (addr : Address) :
    ∃ so s', s.GetOrNewStateObject keccak addr = (so, s') ∧ s'.getStateObject addr = some so ∧
      Extends s s' := by
  unfold GetOrNewStateObject
  split
  · next so found => exact ⟨so, s, rfl, found, Extends.refl s⟩
  · next absent =>
    have created := Extends.create (StateObject.new keccak) absent
    exact ⟨_, _, rfl, by simp, by simpa [absent] using created⟩

theorem Extends.SetBalance (s : StateDB) (addr : Address) (amount : Int) :
    Extends s (s.SetBalance keccak addr amount) := by
  obtain ⟨so, s', got, found, first⟩ := GetOrNewStateObject_spec keccak s addr
  simp only [StateDB.SetBalance, got, setBalanceOf]
  exact first.trans (Extends.write found fun _ found' => updateObject_reverts found' rfl)

theorem Extends.SetNonce (s : StateDB) (addr : Address) (nonce : Nat) :
    Extends s (s.SetNonce keccak addr nonce) := by
  obtain ⟨so, s', got, found, first⟩ := GetOrNewStateObject_spec keccak s addr
  simp only [StateDB.SetNonce, got]
  exact first.trans (Extends.write found fun _ found' => updateObject_reverts found' rfl)

theorem Extends.SetCode (s : StateDB) (addr : Address) (code : Bytes) :
    Extends s (s.SetCode keccak addr code) := by
  obtain ⟨so, s', got, found, first⟩ := GetOrNewStateObject_spec keccak s addr
  simp only [StateDB.SetCode, got]
  exact first.trans (Extends.write found fun _ found' => updateObject_reverts found' rfl)

theorem Extends.SetState (s : StateDB) (addr : Address) (key value : Nat) :
    Extends s (s.SetState keccak addr key value) := by
  obtain ⟨so, s', got, found, first⟩ := GetOrNewStateObject_spec keccak s addr
  simp only [StateDB.SetState, got]
  exact first.trans (Extends.write found fun _ found' => updateObject_reverts found' (by simp))

/-- A touch is undone unless it touched RIPEMD-160, and then only the flag stays. -/
theorem touch_reverts (addr : Address) (so : StateObject) (u : StateDB)
    (found : u.getStateObject addr = some { so with touched := true }) :
    ∃ u', (JournalEntry.touchChange addr so.touched).undo u = some u' ∧
      Same u' (u.setStateObject addr so) := by
  simp only [JournalEntry.undo]
  split
  · exact updateObject_reverts found rfl
  · refine ⟨u, rfl, (same_setStateObject ?_).symm⟩
    simp [found, StateObject.forget]

theorem Extends.AddBalance (s : StateDB) (addr : Address) (amount : Int) :
    Extends s (s.AddBalance keccak addr amount) := by
  obtain ⟨so, s', got, found, first⟩ := GetOrNewStateObject_spec keccak s addr
  simp only [StateDB.AddBalance, got, addBalanceOf]
  refine first.trans ?_
  split
  · split
    · exact Extends.write found (touch_reverts addr so)
    · exact Extends.refl s'
  · exact Extends.write found fun _ found' => updateObject_reverts found' rfl

theorem Extends.SubBalance (s : StateDB) (addr : Address) (amount : Int) :
    Extends s (s.SubBalance keccak addr amount) := by
  obtain ⟨so, s', got, found, first⟩ := GetOrNewStateObject_spec keccak s addr
  simp only [StateDB.SubBalance, got, subBalanceOf]
  refine first.trans ?_
  split
  · exact Extends.refl s'
  · exact Extends.write found fun _ found' => updateObject_reverts found' rfl

theorem Extends.Suicide (s : StateDB) (addr : Address) : Extends s (s.Suicide addr).2 := by
  unfold StateDB.Suicide
  split
  · exact Extends.refl s
  · next so found =>
    refine Extends.write found fun u found' => ⟨_, ?_, Same.refl _⟩
    simp [JournalEntry.undo, found']

theorem Extends.CreateAccount (s : StateDB) (addr : Address) :
    Extends s (s.CreateAccount keccak addr) := by
  unfold StateDB.CreateAccount createObject
  cases found : s.getStateObject addr with
  | none => exact Extends.create _ found
  | some prev =>
    -- the reset entry puts the whole previous object back, balance and all
    simp only [setStateObject_setStateObject]
    exact Extends.write found fun u _ => ⟨_, rfl, Same.refl _⟩

end Methods

theorem Extends.AddRefund (s : StateDB) (gas : Nat) : Extends s (s.AddRefund gas) :=
  @Extends.single _ _ (.refundChange s.refund) rfl rfl ⟨_, rfl, ⟨rfl, fun _ => rfl, rfl, rfl, rfl, rfl⟩⟩

/-- The undo of `AddLog` finds the log just appended and drops it. -/
theorem undo_AddLog (s : StateDB) (log : Log) :
    (JournalEntry.addLogChange s.thash).undo (s.AddLog log) =
      some { s.AddLog log with logs := s.logs, logSize := s.logSize } := by
  simp only [JournalEntry.undo, StateDB.AddLog, Function.update_self]
  cases old : s.logs s.thash with
  | nil =>
    simp only [List.nil_append, List.dropLast_singleton, Nat.add_sub_cancel]
    simp [← old]
  | cons first rest =>
    simp only [List.cons_append, Option.some.injEq]
    rw [← List.cons_append, List.dropLast_concat, ← old]
    simp

theorem Extends.AddLog (s : StateDB) (log : Log) : Extends s (s.AddLog log) :=
  @Extends.single _ _ (.addLogChange s.thash) rfl rfl
    ⟨_, undo_AddLog s log, ⟨rfl, fun _ => rfl, rfl, rfl, rfl, rfl⟩⟩

theorem Extends.AddPreimage (s : StateDB) (hash : Hash) (preimage : Bytes) :
    Extends s (s.AddPreimage hash preimage) := by
  unfold StateDB.AddPreimage
  split
  · exact Extends.refl s
  · next absent =>
    refine @Extends.single _ _ (.addPreimageChange hash) rfl rfl
      ⟨_, rfl, ⟨rfl, fun _ => rfl, rfl, rfl, rfl, ?_⟩⟩
    simp [← absent]

theorem Extends.Snapshot (s : StateDB) : Extends s s.Snapshot.2 := by
  refine ⟨List.prefix_refl _, ⟨_, rfl⟩, fun r member => ?_, s.Snapshot.2, ?_, ?_⟩
  · simp [StateDB.Snapshot] at member
    simp [member]
  · simp [StateDB.rollback, StateDB.Snapshot, undoAll]
  · exact ⟨rfl, fun _ => rfl, rfl, rfl, rfl, rfl⟩

/-! ### Reverting -/

/-- The revision `RevertToSnapshot` looks for is past every revision that no element of a
prefix matches. -/
theorem findIdx_after {p : Revision → Bool} {before after : List Revision}
    (missed : ∀ r ∈ before, p r = false) :
    (before ++ after).findIdx p = after.findIdx p + before.length := by
  have whole : before.findIdx p = before.length := List.findIdx_eq_length.mpr missed
  rw [List.findIdx_append, whole]
  simp

/-- Rolling back past a later journal length and then to an earlier one is one rollback. -/
theorem rollback_take {t r : StateDB} {k m : Nat} (le : m ≤ k) (fits : m ≤ t.journal.length)
    (back : t.rollback k = some r) :
    undoAll ((t.journal.take k).drop m).reverse r = t.rollback m := by
  have split : (t.journal.take k).drop m ++ t.journal.drop k = t.journal.drop m := by
    conv => rhs; rw [← List.take_append_drop k t.journal]
    rw [List.drop_append_of_le_length (by simp; omega)]
  rw [StateDB.rollback, ← split, List.reverse_append, undoAll_append]
  rw [StateDB.rollback] at back
  rw [back, Option.bind_some]

/-- A revert to a snapshot taken since `s` keeps `t` an extension of `s`: it only undoes
entries journalled since `s`. -/
theorem Extends.revert {s t t' : StateDB} {revid : Nat} (extends_ : Extends s t)
    (newer : ∀ r ∈ s.validRevisions, r.id < revid) (revert : t.RevertToSnapshot revid = some t') :
    Extends s t' := by
  obtain ⟨added, hj⟩ := extends_.journal
  obtain ⟨revs, hr⟩ := extends_.revisions
  have index : t.validRevisions.findIdx (fun r => decide (revid ≤ r.id)) =
      revs.findIdx (fun r => decide (revid ≤ r.id)) + s.validRevisions.length := by
    rw [← hr]
    exact findIdx_after fun r member => by simpa using newer r member
  simp only [RevertToSnapshot, index] at revert
  split at revert
  · cases revert
  · next rev found =>
    split at revert
    · obtain ⟨r', back, rfl⟩ := Option.map_eq_some_iff.mp revert
      -- the revision was taken since `s`, at a journal length past `s`'s
      have since : rev ∈ t.validRevisions.drop s.validRevisions.length := by
        rw [← hr, List.drop_left]
        rw [← hr, List.getElem?_append_right (by omega)] at found
        simpa using List.mem_of_getElem? (by simpa using found)
      have past := extends_.later rev since
      have fits : s.journal.length ≤ t.journal.length := by rw [← hj]; simp
      refine ⟨List.prefix_take_iff.mpr ⟨extends_.journal, past⟩,
        List.prefix_take_iff.mpr ⟨extends_.revisions, by omega⟩, fun r member => ?_, ?_⟩
      · rw [List.drop_take] at member
        exact extends_.later r (List.mem_of_mem_take member)
      · obtain ⟨r₀, back₀, same₀⟩ := extends_.rollback
        have related := undoAll_congr ((t.journal.take rev.journalIndex).drop
          s.journal.length).reverse
          (⟨rfl, fun _ => rfl, rfl, rfl, rfl, rfl⟩ : Same r' { r' with
            journal := t.journal.take rev.journalIndex,
            validRevisions := t.validRevisions.take
              (revs.findIdx (fun r => decide (revid ≤ r.id)) + s.validRevisions.length) })
        rw [rollback_take past fits back, back₀] at related
        simp only [StateDB.rollback]
        generalize undoAll _ _ = rolled at related
        cases related with
        | some same => exact ⟨_, rfl, same.symm.trans same₀⟩
    · cases revert

theorem same_Snapshot (s : StateDB) : Same s.Snapshot.2 s := ⟨rfl, fun _ => rfl, rfl, rfl, rfl, rfl⟩

/-- The journal and the revisions are not what the getters see. -/
theorem same_restack (r : StateDB) (journal : List JournalEntry) (revisions : List Revision) :
    Same { r with journal := journal, validRevisions := revisions } r :=
  ⟨rfl, fun _ => rfl, rfl, rfl, rfl, rfl⟩

/-- Reverting to the snapshot taken in `s`, from any state that extends the snapshot's,
gives back what `s` showed, with `s`'s journal and revisions. -/
theorem Extends.revert_snapshot {s t : StateDB}
    (below : ∀ r ∈ s.validRevisions, r.id < s.nextRevisionId) (extends_ : Extends s.Snapshot.2 t) :
    ∃ t', t.RevertToSnapshot s.Snapshot.1 = some t' ∧ Same t' s ∧ t'.journal = s.journal ∧
      t'.validRevisions = s.validRevisions := by
  obtain ⟨revs, hr⟩ := extends_.revisions
  have layout : t.validRevisions =
      s.validRevisions ++ (⟨s.nextRevisionId, s.journal.length⟩ :: revs) := by
    rw [← hr]
    simp [StateDB.Snapshot]
  -- the revisions of `s` all come before the snapshot's, which is found first
  have index : t.validRevisions.findIdx (fun r => decide (s.nextRevisionId ≤ r.id)) =
      s.validRevisions.length := by
    rw [layout, findIdx_after fun r member => by simpa using below r member]
    simp [List.findIdx_cons]
  have found : t.validRevisions[s.validRevisions.length]? =
      some ⟨s.nextRevisionId, s.journal.length⟩ := by
    rw [layout, List.getElem?_append_right (by omega)]
    simp
  obtain ⟨r, back, same⟩ := extends_.rollback
  have kept : t.journal.take s.journal.length = s.journal :=
    List.prefix_iff_eq_take.mp extends_.journal |>.symm
  refine ⟨{ r with
      journal := t.journal.take s.journal.length
      validRevisions := t.validRevisions.take s.validRevisions.length }, ?_,
    (same_restack r _ _).trans (same.trans (same_Snapshot s)), kept, ?_⟩
  · show t.RevertToSnapshot s.nextRevisionId = _
    simp only [StateDB.Snapshot] at back
    simp [RevertToSnapshot, index, found, back]
  · rw [layout]
    simp

/-- An `undo` leaves the revision ids alone. -/
theorem undo_nextRevisionId {entry : JournalEntry} {s s' : StateDB}
    (undone : entry.undo s = some s') : s'.nextRevisionId = s.nextRevisionId := by
  cases entry with
  | suicideChange account prev prevbalance =>
    simp only [JournalEntry.undo] at undone
    split at undone <;> cases undone <;> rfl
  | touchChange account prev =>
    simp only [JournalEntry.undo, StateDB.updateObject] at undone
    split at undone
    · obtain ⟨so, _, rfl⟩ := Option.map_eq_some_iff.mp undone
      rfl
    · cases undone
      rfl
  | addLogChange txhash =>
    simp only [JournalEntry.undo] at undone
    split at undone
    · cases undone
    · cases undone
      rfl
  | _ =>
    simp only [JournalEntry.undo, StateDB.updateObject] at undone
    first
      | (cases undone; rfl)
      | (obtain ⟨so, _, rfl⟩ := Option.map_eq_some_iff.mp undone; rfl)

theorem undoAll_nextRevisionId {entries : List JournalEntry} {s s' : StateDB}
    (undone : undoAll entries s = some s') : s'.nextRevisionId = s.nextRevisionId := by
  induction entries generalizing s with
  | nil =>
    cases undone
    rfl
  | cons entry rest ih =>
    simp only [undoAll, List.foldlM_cons] at undone ih
    obtain ⟨u, first, rest⟩ := Option.bind_eq_some_iff.mp undone
    exact (ih rest).trans (undo_nextRevisionId first)

/-- What a successful `RevertToSnapshot` did to the revision stack: it found the revision
`revid` at index `idx`, kept the revisions before it and left the next id alone. -/
theorem RevertToSnapshot_spec {s s' : StateDB} {revid : Nat} (revert : s.RevertToSnapshot revid = some s') :
    ∃ rev, s.validRevisions[s.validRevisions.findIdx fun r => decide (revid ≤ r.id)]? = some rev ∧
      rev.id = revid ∧
      s'.validRevisions = s.validRevisions.take (s.validRevisions.findIdx fun r => decide (revid ≤ r.id)) ∧
      s'.nextRevisionId = s.nextRevisionId := by
  simp only [RevertToSnapshot] at revert
  split at revert
  · cases revert
  · next rev found =>
    split at revert
    · next same_id =>
      obtain ⟨r', back, rfl⟩ := Option.map_eq_some_iff.mp revert
      have kept : r'.nextRevisionId = s.nextRevisionId := undoAll_nextRevisionId back
      exact ⟨rev, found, same_id, rfl, kept⟩
    · cases revert

/-! ### Well-formed revision stacks -/

/-- The revision stack as `Snapshot` builds it: ids increasing, all below the next id. -/
structure Wf (s : StateDB) : Prop where
  increasing : (s.validRevisions.map Revision.id).Pairwise (· < ·)
  below : ∀ r ∈ s.validRevisions, r.id < s.nextRevisionId

theorem wf_New (trie : Address → Option StateObject) (thash bhash : Hash) (txIndex : Nat) :
    (New trie thash bhash txIndex).Wf :=
  ⟨List.Pairwise.nil, fun r member => by simp [New] at member⟩

theorem Wf.Snapshot {s : StateDB} (wf : s.Wf) : s.Snapshot.2.Wf := by
  refine ⟨?_, fun r member => ?_⟩
  · simp only [StateDB.Snapshot, List.map_append, List.map_cons, List.map_nil]
    refine List.pairwise_append.mpr ⟨wf.increasing, List.pairwise_singleton _ _, ?_⟩
    intro id member' id' last
    simp only [List.mem_singleton] at last
    obtain ⟨r, member_r, rfl⟩ := List.mem_map.mp member'
    rw [last]
    exact wf.below r member_r
  · simp only [StateDB.Snapshot, List.mem_append, List.mem_singleton] at member
    rcases member with old | rfl
    · exact Nat.lt_succ_of_lt (wf.below r old)
    · exact Nat.lt_succ_self _

theorem Wf.take {s s' : StateDB} (wf : s.Wf) (idx : Nat)
    (revisions : s'.validRevisions = s.validRevisions.take idx)
    (next : s'.nextRevisionId = s.nextRevisionId) : s'.Wf := by
  refine ⟨?_, fun r member => ?_⟩
  · rw [revisions, List.map_take]
    exact wf.increasing.sublist (List.take_sublist _ _)
  · rw [revisions] at member
    rw [next]
    exact wf.below r (List.mem_of_mem_take member)

end StateDB

/-! ### Runs of operations -/

/-- The operations of `snapshotTest` in `statedb_test.go`: the journalled methods, `Snapshot`
and `RevertToSnapshot`. -/
inductive Op where
  | SetBalance (addr : Address) (amount : Int)
  | AddBalance (addr : Address) (amount : Int)
  | SubBalance (addr : Address) (amount : Int)
  | SetNonce (addr : Address) (nonce : Nat)
  | SetCode (addr : Address) (code : Bytes)
  | SetState (addr : Address) (key value : Nat)
  | CreateAccount (addr : Address)
  | Suicide (addr : Address)
  | AddRefund (gas : Nat)
  | AddLog (log : Log)
  | AddPreimage (hash : Hash) (preimage : Bytes)
  | Snapshot
  | RevertToSnapshot (revid : Nat)

section Ops

variable (keccak : Bytes → Hash)

/-- One operation; a revert to an invalid revision panics. -/
def Op.apply : Op → StateDB → Option StateDB
  | .SetBalance addr amount, s => some (s.SetBalance keccak addr amount)
  | .AddBalance addr amount, s => some (s.AddBalance keccak addr amount)
  | .SubBalance addr amount, s => some (s.SubBalance keccak addr amount)
  | .SetNonce addr nonce, s => some (s.SetNonce keccak addr nonce)
  | .SetCode addr code, s => some (s.SetCode keccak addr code)
  | .SetState addr key value, s => some (s.SetState keccak addr key value)
  | .CreateAccount addr, s => some (s.CreateAccount keccak addr)
  | .Suicide addr, s => some (s.Suicide addr).2
  | .AddRefund gas, s => some (s.AddRefund gas)
  | .AddLog log, s => some (s.AddLog log)
  | .AddPreimage hash preimage, s => some (s.AddPreimage hash preimage)
  | .Snapshot, s => some s.Snapshot.2
  | .RevertToSnapshot revid, s => s.RevertToSnapshot revid

/-- Operations in order. -/
def Op.applyAll (ops : List Op) (s : StateDB) : Option StateDB :=
  ops.foldlM (fun s op => op.apply keccak s) s

/-- The revision stack of `s`, untouched: what the methods other than `Snapshot` and
`RevertToSnapshot` do to it. -/
def StateDB.SameRevisions (s t : StateDB) : Prop :=
  t.validRevisions = s.validRevisions ∧ t.nextRevisionId = s.nextRevisionId

theorem GetOrNewStateObject_revisions (s : StateDB) (addr : Address) :
    s.SameRevisions (s.GetOrNewStateObject keccak addr).2 := by
  unfold StateDB.GetOrNewStateObject
  split <;> exact ⟨rfl, rfl⟩

/-- The methods leave the revision stack alone; `Snapshot` and `RevertToSnapshot` are the
operations that are not methods. -/
theorem Op.apply_sameRevisions {op : Op} {s s' : StateDB} (method : ∀ revid, op ≠ .RevertToSnapshot revid)
    (notSnapshot : op ≠ .Snapshot) (applied : op.apply keccak s = some s') : s.SameRevisions s' := by
  have frame := GetOrNewStateObject_revisions keccak s
  cases op with
  | SetBalance addr amount | SetNonce addr amount | SetCode addr amount =>
    cases applied
    exact frame addr
  | SetState addr key value =>
    cases applied
    exact frame addr
  | AddBalance addr amount =>
    cases applied
    simp only [StateDB.AddBalance, StateDB.addBalanceOf]
    split
    · split
      · exact frame addr
      · exact frame addr
    · exact frame addr
  | SubBalance addr amount =>
    cases applied
    simp only [StateDB.SubBalance, StateDB.subBalanceOf]
    split
    · exact frame addr
    · exact frame addr
  | CreateAccount addr =>
    cases applied
    simp only [StateDB.CreateAccount, StateDB.createObject]
    split <;> exact ⟨rfl, rfl⟩
  | Suicide addr =>
    cases applied
    simp only [StateDB.Suicide]
    split <;> exact ⟨rfl, rfl⟩
  | AddRefund gas | AddLog log =>
    cases applied
    exact ⟨rfl, rfl⟩
  | AddPreimage hash preimage =>
    cases applied
    simp only [StateDB.AddPreimage]
    split <;> exact ⟨rfl, rfl⟩
  | Snapshot => exact absurd rfl notSnapshot
  | RevertToSnapshot revid => exact absurd rfl (method revid)

theorem Op.apply_extends {op : Op} {s s' : StateDB} (method : ∀ revid, op ≠ .RevertToSnapshot revid)
    (applied : op.apply keccak s = some s') : s.Extends s' := by
  cases op with
  | SetBalance addr amount => cases applied; exact StateDB.Extends.SetBalance keccak s addr amount
  | AddBalance addr amount => cases applied; exact StateDB.Extends.AddBalance keccak s addr amount
  | SubBalance addr amount => cases applied; exact StateDB.Extends.SubBalance keccak s addr amount
  | SetNonce addr nonce => cases applied; exact StateDB.Extends.SetNonce keccak s addr nonce
  | SetCode addr code => cases applied; exact StateDB.Extends.SetCode keccak s addr code
  | SetState addr key value => cases applied; exact StateDB.Extends.SetState keccak s addr key value
  | CreateAccount addr => cases applied; exact StateDB.Extends.CreateAccount keccak s addr
  | Suicide addr => cases applied; exact StateDB.Extends.Suicide s addr
  | AddRefund gas => cases applied; exact StateDB.Extends.AddRefund s gas
  | AddLog log => cases applied; exact StateDB.Extends.AddLog s log
  | AddPreimage hash preimage => cases applied; exact StateDB.Extends.AddPreimage s hash preimage
  | Snapshot => cases applied; exact StateDB.Extends.Snapshot s
  | RevertToSnapshot revid => exact absurd rfl (method revid)

/-- What a run of operations after the snapshot `s.Snapshot` keeps: a well-formed revision
stack, ids past the snapshot's, and either a state that extends the snapshot's or a stack
that the snapshot's revision has left for good. -/
structure Tracked (s cur : StateDB) : Prop where
  wf : cur.Wf
  fresh : s.nextRevisionId < cur.nextRevisionId
  extendsOrGone : s.Snapshot.2.Extends cur ∨ s.nextRevisionId ∉ cur.validRevisions.map Revision.id

/-- A revert to a revision at or before the snapshot's removes the snapshot's revision. -/
theorem gone_of_revert {s cur cur' : StateDB} {revid : Nat} (wf : s.Wf)
    (extends_ : s.Snapshot.2.Extends cur)
    (older : ∃ r ∈ s.Snapshot.2.validRevisions, revid ≤ r.id)
    (revert : cur.RevertToSnapshot revid = some cur') :
    s.nextRevisionId ∉ cur'.validRevisions.map Revision.id := by
  obtain ⟨rev, -, -, revisions, -⟩ := StateDB.RevertToSnapshot_spec revert
  obtain ⟨revs, hr⟩ := extends_.revisions
  -- the revision found lies in the snapshot's stack, so the kept ones lie in `s`'s
  have within : (s.Snapshot.2.validRevisions).findIdx (fun r => decide (revid ≤ r.id)) <
      s.Snapshot.2.validRevisions.length :=
    List.findIdx_lt_length_of_exists (by simpa using older)
  have index : cur.validRevisions.findIdx (fun r => decide (revid ≤ r.id)) ≤
      s.validRevisions.length := by
    rw [← hr, List.findIdx_append, if_pos within]
    simpa [StateDB.Snapshot] using within
  generalize cur.validRevisions.findIdx (fun r => decide (revid ≤ r.id)) = idx at index revisions
  have kept : cur'.validRevisions = s.validRevisions.take idx := by
    rw [revisions, ← hr]
    simp only [StateDB.Snapshot, List.append_assoc]
    exact List.take_append_of_le_length index
  intro member
  rw [kept] at member
  obtain ⟨r, member_r, same_id⟩ := List.mem_map.mp member
  have below := wf.below r (List.mem_of_mem_take member_r)
  omega

theorem StateDB.Wf.of_sameRevisions {s t : StateDB} (wf : s.Wf) (same : s.SameRevisions t) : t.Wf := by
  obtain ⟨revisions, next⟩ := same
  exact ⟨revisions ▸ wf.increasing, fun r member => next ▸ wf.below r (revisions ▸ member)⟩

theorem Tracked.start {s : StateDB} (wf : s.Wf) : Tracked s s.Snapshot.2 :=
  ⟨wf.Snapshot, Nat.lt_succ_self _, .inl (StateDB.Extends.refl _)⟩

theorem Tracked.step {s cur cur' : StateDB} {op : Op} (wf : s.Wf) (tracked : Tracked s cur)
    (applied : op.apply keccak cur = some cur') : Tracked s cur' := by
  by_cases isRevert : ∃ revid, op = .RevertToSnapshot revid
  · obtain ⟨revid, rfl⟩ := isRevert
    obtain ⟨rev, -, -, revisions, next⟩ := StateDB.RevertToSnapshot_spec applied
    refine ⟨tracked.wf.take _ revisions next, next ▸ tracked.fresh, ?_⟩
    rcases tracked.extendsOrGone with extends_ | gone
    · -- a revert past the snapshot keeps the extension, one to it or before removes it
      by_cases newer : ∀ r ∈ s.Snapshot.2.validRevisions, r.id < revid
      · exact .inl (extends_.revert newer applied)
      · push Not at newer
        exact .inr (gone_of_revert wf extends_ newer applied)
    · refine .inr fun member => gone ?_
      rw [revisions, List.map_take] at member
      exact List.mem_of_mem_take member
  · push Not at isRevert
    by_cases isSnapshot : op = .Snapshot
    · subst isSnapshot
      cases applied
      refine ⟨tracked.wf.Snapshot, Nat.lt_succ_of_lt tracked.fresh, ?_⟩
      rcases tracked.extendsOrGone with extends_ | gone
      · exact .inl (extends_.trans (StateDB.Extends.Snapshot cur))
      · refine .inr fun member => ?_
        simp only [StateDB.Snapshot, List.map_append, List.map_cons, List.map_nil, List.mem_append,
          List.mem_singleton] at member
        rcases member with old | fresh
        · exact gone old
        · have := tracked.fresh
          omega
    · have same := Op.apply_sameRevisions keccak isRevert isSnapshot applied
      refine ⟨tracked.wf.of_sameRevisions same, same.2 ▸ tracked.fresh, ?_⟩
      rcases tracked.extendsOrGone with extends_ | gone
      · exact .inl (extends_.trans (Op.apply_extends keccak isRevert applied))
      · exact .inr (same.1 ▸ gone)

theorem Tracked.run {s : StateDB} (wf : s.Wf) (ops : List Op) {cur cur' : StateDB}
    (tracked : Tracked s cur) (applied : Op.applyAll keccak ops cur = some cur') :
    Tracked s cur' := by
  induction ops generalizing cur with
  | nil =>
    cases applied
    exact tracked
  | cons op rest ih =>
    simp only [Op.applyAll, List.foldlM_cons] at applied ih
    obtain ⟨next, first, rest⟩ := Option.bind_eq_some_iff.mp applied
    exact ih (tracked.step keccak wf first) rest

end Ops

/-! ### The getters -/

namespace StateDB

variable {s t : StateDB}

theorem Same.map_getStateObject (same : Same s t) (addr : Address) {α : Type}
    (g : StateObject → α) (forgets : ∀ so, g so.forget = g so) :
    (s.getStateObject addr).map g = (t.getStateObject addr).map g := by
  have seen := congrArg (Option.map g) (same.objects addr)
  simpa [Option.map_map, Function.comp_def, forgets] using seen

/-- Every getter of `StateDB` reads the same in two states that are `Same`. -/
theorem Same.getters (keccak : Bytes → Hash) (same : Same s t) :
    (∀ addr, s.Exist addr = t.Exist addr ∧ s.Empty keccak addr = t.Empty keccak addr ∧
      s.HasSuicided addr = t.HasSuicided addr ∧ s.GetBalance addr = t.GetBalance addr ∧
      s.GetNonce addr = t.GetNonce addr ∧ s.GetCode addr = t.GetCode addr ∧
      s.GetCodeHash addr = t.GetCodeHash addr ∧ s.GetCodeSize addr = t.GetCodeSize addr ∧
      ∀ key, s.GetState addr key = t.GetState addr key) ∧
    s.GetRefund = t.GetRefund ∧ (∀ hash, s.GetLogs hash = t.GetLogs hash) ∧
    s.Preimages = t.Preimages := by
  have empty : ∀ u : StateDB, ∀ addr, u.Empty keccak addr =
      ((u.getStateObject addr).map (·.empty keccak)).getD true := by
    intro u addr
    unfold Empty
    split <;> simp_all
  refine ⟨fun addr => ⟨?_, ?_, ?_, ?_, ?_, ?_, ?_, ?_, fun key => ?_⟩, same.refund,
    fun hash => congrFun same.logs hash, same.preimages⟩
  · have seen := congrArg Option.isSome (same.objects addr)
    simpa [Exist] using seen
  · rw [empty, empty, same.map_getStateObject addr _ fun _ => rfl]
  all_goals simp only [HasSuicided, GetBalance, GetNonce, GetCodeSize, GetCode, GetCodeHash,
    GetState]
  all_goals rw [same.map_getStateObject addr _ fun _ => rfl]

end StateDB

/-! ### Reverting to a snapshot -/

section Snapshots

variable (keccak : Bytes → Hash)

/-- After a snapshot of a well-formed state and any run of operations, a revert to the
snapshot that succeeds makes every getter return what it returned when the snapshot was
taken, and leaves exactly the revisions that were valid before it: the snapshot's own
revision is invalidated together with every later one. -/
theorem revertToSnapshot_restores (s : StateDB) (wf : s.Wf) (ops : List Op) {s₂ s₃ : StateDB}
    (run : Op.applyAll keccak ops s.Snapshot.2 = some s₂)
    (revert : s₂.RevertToSnapshot s.Snapshot.1 = some s₃) :
    (∀ addr, s₃.Exist addr = s.Exist addr ∧ s₃.Empty keccak addr = s.Empty keccak addr ∧
      s₃.HasSuicided addr = s.HasSuicided addr ∧ s₃.GetBalance addr = s.GetBalance addr ∧
      s₃.GetNonce addr = s.GetNonce addr ∧ s₃.GetCode addr = s.GetCode addr ∧
      s₃.GetCodeHash addr = s.GetCodeHash addr ∧ s₃.GetCodeSize addr = s.GetCodeSize addr ∧
      ∀ key, s₃.GetState addr key = s.GetState addr key) ∧
    s₃.GetRefund = s.GetRefund ∧ (∀ hash, s₃.GetLogs hash = s.GetLogs hash) ∧
    s₃.Preimages = s.Preimages ∧ s₃.validRevisions = s.validRevisions := by
  have tracked := Tracked.run keccak wf ops (Tracked.start wf) run
  -- the revert found the snapshot's revision, so the run never reverted past it
  have present : s.nextRevisionId ∈ s₂.validRevisions.map Revision.id := by
    obtain ⟨rev, found, same_id, -⟩ := StateDB.RevertToSnapshot_spec revert
    exact List.mem_map.mpr ⟨rev, List.mem_of_getElem? found, same_id⟩
  have extends_ : s.Snapshot.2.Extends s₂ := by
    rcases tracked.extendsOrGone with extends_ | gone
    · exact extends_
    · exact absurd present gone
  obtain ⟨t', revert', same, -, revisions⟩ := extends_.revert_snapshot wf.below
  rw [revert] at revert'
  cases revert'
  exact ⟨(same.getters keccak).1, (same.getters keccak).2.1, (same.getters keccak).2.2.1,
    (same.getters keccak).2.2.2, revisions⟩

/-- A balance set after a snapshot of a fresh state is gone after the revert. -/
theorem revertToSnapshot_restores_balance :
    ∃ s₃, ((StateDB.New (fun _ => none) Hash.zero Hash.zero 0).Snapshot.2.SetBalance
        (fun _ => Hash.zero) 1 5).RevertToSnapshot 0 = some s₃ ∧ s₃.GetBalance 1 = 0 := by
  refine ⟨_, rfl, ?_⟩
  have restored := revertToSnapshot_restores (fun _ => Hash.zero)
    (StateDB.New (fun _ => none) Hash.zero Hash.zero 0) (StateDB.wf_New _ _ _ _)
    [.SetBalance 1 5] rfl rfl
  exact (restored.1 1).2.2.2.1

/-- The revert drops the revision it reverts to as well: on a fresh state, a snapshot can be
reverted to once, and a second revert to it panics. -/
theorem revertToSnapshot_twice_panics :
    ((StateDB.New (fun _ => none) Hash.zero Hash.zero 0).Snapshot.2.RevertToSnapshot 0).isSome ∧
      (((StateDB.New (fun _ => none) Hash.zero Hash.zero 0).Snapshot.2.RevertToSnapshot 0).bind
        fun s => s.RevertToSnapshot 0) = none :=
  ⟨rfl, rfl⟩

end Snapshots

end Indigo.State
