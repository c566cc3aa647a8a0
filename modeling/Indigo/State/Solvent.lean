import Indigo.State.Revert

/-!
# Solvent states

A balance is a `*big.Int`, and nothing in the state database keeps it from going negative:
`SubBalance` subtracts whatever it is given, and its callers check first (`CanTransfer`
before a transfer). A state is solvent when every balance it holds or its journal remembers
is non-negative. Every method keeps a state solvent when it adds a non-negative amount and
subtracts no more than the balance, and so does a revert to a snapshot, which only puts back
balances the journal remembers.

## Main results

- `StateDB.Solvent`: the accounts under the state root, the live objects and the balances
  the journal remembers hold no negative balance.
- `Solvent.AddBalance`, `Solvent.SubBalance`, `Solvent.Suicide`, `Solvent.CreateAccount` and
  the methods that write no balance: each keeps a state solvent.
- `Solvent.RevertToSnapshot`: a revert keeps a state solvent.
- `Solvent.GetBalance`: a solvent state reports no negative balance.
-/

namespace Indigo.State

open Indigo

/-- An entry whose `undo` puts back no negative balance. -/
def JournalEntry.Solvent : JournalEntry → Prop
  | .resetObjectChange _ prev => 0 ≤ prev.balance
  | .suicideChange _ _ prevbalance => 0 ≤ prevbalance
  | .balanceChange _ prev => 0 ≤ prev
  | _ => True

namespace StateDB

/-- No balance of the state, and none its journal would put back, is negative. -/
structure Solvent (s : StateDB) : Prop where
  trie : ∀ addr so, s.trie addr = some so → 0 ≤ so.balance
  objects : ∀ addr so, s.stateObjects addr = some so → 0 ≤ so.balance
  journal : ∀ entry ∈ s.journal, entry.Solvent

theorem solvent_New {trie : Address → Option StateObject}
    (funded : ∀ addr so, trie addr = some so → 0 ≤ so.balance) (thash bhash : Hash)
    (txIndex : Nat) : (New trie thash bhash txIndex).Solvent :=
  ⟨funded, (fun _ _ absent => by simp [StateDB.New] at absent),
    fun _ member => absurd member List.not_mem_nil⟩

variable {s t : StateDB} {addr : Address} {so : StateObject}

/-! ### Reading a solvent state -/

theorem Solvent.getStateObject (solvent : s.Solvent) (found : s.getStateObject addr = some so) :
    0 ≤ so.balance := by
  unfold StateDB.getStateObject at found
  split at found
  · next live =>
    cases found
    exact solvent.objects addr _ live
  · exact solvent.trie addr so found

theorem Solvent.GetBalance (solvent : s.Solvent) (addr : Address) : 0 ≤ s.GetBalance addr := by
  unfold StateDB.GetBalance
  cases found : s.getStateObject addr with
  | none => exact le_refl 0
  | some so => exact solvent.getStateObject found

/-! ### Writing one object -/

theorem Solvent.setStateObject (solvent : s.Solvent) (nonneg : 0 ≤ so.balance) :
    (s.setStateObject addr so).Solvent := by
  refine ⟨solvent.trie, fun addr' so' found => ?_, solvent.journal⟩
  by_cases same : addr' = addr
  · subst same
    simp only [StateDB.setStateObject, Function.update_self, Option.some.injEq] at found
    exact found ▸ nonneg
  · simp only [StateDB.setStateObject, Function.update_of_ne same] at found
    exact solvent.objects addr' so' found

theorem Solvent.record (solvent : s.Solvent) {entry : JournalEntry} (remembers : entry.Solvent) :
    (s.record entry).Solvent := by
  refine ⟨solvent.trie, solvent.objects, fun entry' member => ?_⟩
  rcases List.mem_append.mp member with old | new
  · exact solvent.journal entry' old
  · rw [List.mem_singleton.mp new]
    exact remembers

/-- A change of an object that leaves its balance non-negative, made the way an `undo`
makes it. -/
theorem Solvent.updateObject (solvent : s.Solvent) {f : StateObject → StateObject}
    (updated : s.updateObject addr f = some t)
    (keeps : ∀ so, 0 ≤ so.balance → 0 ≤ (f so).balance) :
    t.Solvent := by
  unfold StateDB.updateObject at updated
  cases found : s.getStateObject addr with
  | none => simp [found] at updated
  | some so =>
    simp only [found, Option.map_some, Option.some.injEq] at updated
    exact updated ▸ solvent.setStateObject (keeps so (solvent.getStateObject found))

section Methods

variable (keccak : Bytes → Hash)

theorem Solvent.createObject (solvent : s.Solvent) (addr : Address) :
    (s.createObject keccak addr).2.2.Solvent := by
  unfold StateDB.createObject
  dsimp only
  apply Solvent.setStateObject _ (le_refl 0)
  -- the entry of a reset remembers the object it replaces
  cases found : s.getStateObject addr with
  | none => exact solvent.record (by trivial)
  | some prev => exact solvent.record (solvent.getStateObject found)

/-- The object `GetOrNewStateObject` returns holds the balance the state reports. -/
theorem GetOrNewStateObject_balance (s : StateDB) (addr : Address) :
    (s.GetOrNewStateObject keccak addr).1.balance = s.GetBalance addr := by
  unfold StateDB.GetOrNewStateObject StateDB.GetBalance
  split
  · next so found => simp [found]
  · next absent => simp [absent, StateDB.createObject, StateObject.new]

theorem Solvent.GetOrNewStateObject (solvent : s.Solvent) :
    (s.GetOrNewStateObject keccak addr).2.Solvent := by
  unfold StateDB.GetOrNewStateObject
  split
  · exact solvent
  · exact solvent.createObject keccak addr

/-- What the methods below start from: the object at `addr`, with the state's balance, in a
solvent state. -/
theorem Solvent.object (solvent : s.Solvent) (addr : Address) :
    0 ≤ (s.GetOrNewStateObject keccak addr).1.balance ∧
      (s.GetOrNewStateObject keccak addr).2.Solvent := by
  rw [GetOrNewStateObject_balance]
  exact ⟨solvent.GetBalance addr, solvent.GetOrNewStateObject keccak⟩

theorem Solvent.setBalanceOf (solvent : s.Solvent) (nonneg : 0 ≤ so.balance) {amount : Int}
    (funded : 0 ≤ amount) : (s.setBalanceOf addr so amount).Solvent :=
  (solvent.record (show (JournalEntry.balanceChange addr so.balance).Solvent from nonneg))
    |>.setStateObject funded

theorem Solvent.AddBalance (solvent : s.Solvent) {amount : Int} (nonneg : 0 ≤ amount) :
    (s.AddBalance keccak addr amount).Solvent := by
  obtain ⟨held, solvent'⟩ := solvent.object keccak addr
  unfold StateDB.AddBalance StateDB.addBalanceOf
  dsimp only
  split
  · split
    · exact (solvent'.record (show (JournalEntry.touchChange _ _).Solvent from trivial))
        |>.setStateObject held
    · exact solvent'
  · exact solvent'.setBalanceOf held (by omega)

/-- Subtracting no more than the balance, as a transfer does after `CanTransfer`. -/
theorem Solvent.SubBalance (solvent : s.Solvent) {amount : Int}
    (covered : amount ≤ s.GetBalance addr) : (s.SubBalance keccak addr amount).Solvent := by
  obtain ⟨held, solvent'⟩ := solvent.object keccak addr
  have balance := GetOrNewStateObject_balance keccak s addr
  unfold StateDB.SubBalance StateDB.subBalanceOf
  dsimp only
  split
  · exact solvent'
  · exact solvent'.setBalanceOf held (by omega)

theorem Solvent.SetNonce (solvent : s.Solvent) (nonce : Nat) :
    (s.SetNonce keccak addr nonce).Solvent := by
  obtain ⟨held, solvent'⟩ := solvent.object keccak addr
  exact (solvent'.record (by trivial)).setStateObject held

theorem Solvent.SetCode (solvent : s.Solvent) (code : Bytes) :
    (s.SetCode keccak addr code).Solvent := by
  obtain ⟨held, solvent'⟩ := solvent.object keccak addr
  exact (solvent'.record (by trivial)).setStateObject held

theorem Solvent.SetState (solvent : s.Solvent) (key value : Nat) :
    (s.SetState keccak addr key value).Solvent := by
  obtain ⟨held, solvent'⟩ := solvent.object keccak addr
  exact (solvent'.record (by trivial)).setStateObject held

/-- A suicide clears the balance and remembers it. -/
theorem Solvent.Suicide (solvent : s.Solvent) : (s.Suicide addr).2.Solvent := by
  unfold StateDB.Suicide
  split
  · exact solvent
  · next so found =>
    have remembers : (JournalEntry.suicideChange addr so.suicided so.balance).Solvent :=
      solvent.getStateObject found
    exact (solvent.record remembers).setStateObject (le_refl 0)

/-- A new account keeps the balance of the one it replaces. -/
theorem Solvent.CreateAccount (solvent : s.Solvent) : (s.CreateAccount keccak addr).Solvent := by
  unfold StateDB.CreateAccount StateDB.createObject
  cases found : s.getStateObject addr with
  | none => exact (solvent.record (by trivial)).setStateObject (le_refl 0)
  | some prev =>
    dsimp only
    rw [setStateObject_setStateObject]
    have held := solvent.getStateObject found
    exact (solvent.record (show (JournalEntry.resetObjectChange addr prev).Solvent from held))
      |>.setStateObject held

end Methods

theorem Solvent.AddRefund (solvent : s.Solvent) (gas : Nat) : (s.AddRefund gas).Solvent :=
  have recorded := solvent.record (show (JournalEntry.refundChange s.refund).Solvent from trivial)
  ⟨recorded.trie, recorded.objects, recorded.journal⟩

theorem Solvent.AddLog (solvent : s.Solvent) (log : Log) : (s.AddLog log).Solvent :=
  have recorded := solvent.record (show (JournalEntry.addLogChange s.thash).Solvent from trivial)
  ⟨recorded.trie, recorded.objects, recorded.journal⟩

theorem Solvent.AddPreimage (solvent : s.Solvent) (hash : Hash) (preimage : Bytes) :
    (s.AddPreimage hash preimage).Solvent := by
  unfold StateDB.AddPreimage
  split
  · exact solvent
  · have recorded :=
      solvent.record (show (JournalEntry.addPreimageChange hash).Solvent from trivial)
    exact ⟨recorded.trie, recorded.objects, recorded.journal⟩

theorem Solvent.Snapshot (solvent : s.Solvent) : s.Snapshot.2.Solvent :=
  ⟨solvent.trie, solvent.objects, solvent.journal⟩

/-! ### Balances the calls check before a transfer -/

@[simp] theorem GetBalance_Snapshot (s : StateDB) : s.Snapshot.2.GetBalance = s.GetBalance := rfl

/-- Writing back an object with the balance the state reports leaves every balance as it
was. -/
theorem GetBalance_setStateObject_self (s : StateDB) (addr a : Address) (so : StateObject)
    (same : so.balance = s.GetBalance addr) :
    (s.setStateObject addr so).GetBalance a = s.GetBalance a := by
  unfold StateDB.GetBalance
  rw [getStateObject_setStateObject]
  split
  · next hit =>
    subst hit
    exact same
  · rfl

section Methods

variable (keccak : Bytes → Hash)

theorem getStateObject_GetOrNewStateObject (s : StateDB) {addr a : Address} (other : a ≠ addr) :
    (s.GetOrNewStateObject keccak addr).2.getStateObject a = s.getStateObject a := by
  unfold StateDB.GetOrNewStateObject
  split
  · rfl
  · simp [StateDB.createObject, other]

/-- `GetOrNewStateObject` changes no balance: a new object has none, as a missing one. -/
theorem GetBalance_GetOrNewStateObject (s : StateDB) (addr a : Address) :
    (s.GetOrNewStateObject keccak addr).2.GetBalance a = s.GetBalance a := by
  by_cases hit : a = addr
  · subst hit
    obtain ⟨so, s', got, found, _⟩ := GetOrNewStateObject_spec keccak s a
    have balance := GetOrNewStateObject_balance keccak s a
    rw [got] at balance ⊢
    simp only [StateDB.GetBalance, found, Option.map_some, Option.getD_some]
    exact balance
  · simp only [StateDB.GetBalance, getStateObject_GetOrNewStateObject keccak s hit]

/-- A method that writes no balance leaves every balance as it was. -/
theorem GetBalance_SetNonce (s : StateDB) (addr a : Address) (nonce : Nat) :
    (s.SetNonce keccak addr nonce).GetBalance a = s.GetBalance a := by
  have balance := GetOrNewStateObject_balance keccak s addr
  have kept := GetBalance_GetOrNewStateObject keccak s addr
  unfold StateDB.SetNonce
  generalize s.GetOrNewStateObject keccak addr = got at balance kept ⊢
  obtain ⟨so, s'⟩ := got
  dsimp only at balance kept ⊢
  rw [GetBalance_setStateObject_self (s'.record (.nonceChange addr so.nonce)) addr a
    { so with nonce := nonce } (balance.trans (kept addr).symm)]
  exact kept a

/-- A new account keeps the balance of the one it replaces, and a missing one had none. -/
theorem GetBalance_CreateAccount (s : StateDB) (addr a : Address) :
    (s.CreateAccount keccak addr).GetBalance a = s.GetBalance a := by
  unfold StateDB.CreateAccount StateDB.createObject
  cases found : s.getStateObject addr with
  | none =>
    exact GetBalance_setStateObject_self _ addr a _
      (by simp [StateDB.GetBalance, found, StateObject.new])
  | some prev =>
    dsimp only
    rw [setStateObject_setStateObject]
    exact GetBalance_setStateObject_self _ addr a _ (by simp [StateDB.GetBalance, found])

end Methods

/-! ### Undoing the journal -/

/-- An entry the journal remembers puts back no negative balance. -/
theorem Solvent.undo (solvent : s.Solvent) {entry : JournalEntry} (remembers : entry.Solvent)
    (undone : entry.undo s = some t) : t.Solvent := by
  cases entry with
  | createObjectChange account =>
    cases undone
    refine ⟨solvent.trie, fun addr' so' found => ?_, solvent.journal⟩
    by_cases same : addr' = account
    · subst same
      simp at found
    · simp only [Function.update_of_ne same] at found
      exact solvent.objects addr' so' found
  | resetObjectChange account prev =>
    cases undone
    exact solvent.setStateObject remembers
  | suicideChange account prev prevbalance =>
    simp only [JournalEntry.undo] at undone
    split at undone
    · cases undone
      exact solvent.setStateObject remembers
    · cases undone
      exact solvent
  | touchChange account prev =>
    simp only [JournalEntry.undo] at undone
    split at undone
    · exact solvent.updateObject undone fun _ held => held
    · cases undone
      exact solvent
  | balanceChange account prev =>
    exact solvent.updateObject undone fun _ _ => remembers
  | nonceChange account prev => exact solvent.updateObject undone fun _ held => held
  | codeChange account prevcode prevhash => exact solvent.updateObject undone fun _ held => held
  | storageChange account key prevalue => exact solvent.updateObject undone fun _ held => held
  | refundChange prev =>
    cases undone
    exact ⟨solvent.trie, solvent.objects, solvent.journal⟩
  | addLogChange txhash =>
    simp only [JournalEntry.undo] at undone
    split at undone
    · cases undone
    · cases undone
      exact ⟨solvent.trie, solvent.objects, solvent.journal⟩
  | addPreimageChange hash =>
    cases undone
    exact ⟨solvent.trie, solvent.objects, solvent.journal⟩

/-- Undoing entries one after the other, each of which the journal remembers. -/
theorem Solvent.undoAll {entries : List JournalEntry} (remembered : ∀ e ∈ entries, e.Solvent) :
    ∀ {s t : StateDB}, s.Solvent → undoAll entries s = some t → t.Solvent := by
  induction entries with
  | nil =>
    intro s t solvent undone
    cases undone
    exact solvent
  | cons entry rest ih =>
    intro s t solvent undone
    -- the name of this theorem hides the definition's inside its proof
    simp only [Indigo.State.undoAll, List.foldlM_cons] at undone
    cases first : entry.undo s with
    | none => simp [first] at undone
    | some u =>
      rw [first] at undone
      exact ih (fun e member => remembered e (List.mem_cons_of_mem _ member))
        (solvent.undo (remembered entry List.mem_cons_self) first) undone

/-- A revert undoes entries of the journal and keeps a part of it. -/
theorem Solvent.RevertToSnapshot (solvent : s.Solvent) {revid : Nat}
    (reverted : s.RevertToSnapshot revid = some t) : t.Solvent := by
  unfold StateDB.RevertToSnapshot at reverted
  dsimp only at reverted
  split at reverted
  · cases reverted
  · next rev _ =>
    split at reverted
    · obtain ⟨rolled, back, rfl⟩ := Option.map_eq_some_iff.mp reverted
      have dropped : ∀ e ∈ (s.journal.drop rev.journalIndex).reverse, e.Solvent :=
        fun e member => solvent.journal e (List.mem_of_mem_drop (List.mem_reverse.mp member))
      have solvent' := Solvent.undoAll dropped solvent back
      exact ⟨solvent'.trie, solvent'.objects,
        fun e member => solvent.journal e (List.mem_of_mem_take member)⟩
    · cases reverted

end StateDB

end Indigo.State
