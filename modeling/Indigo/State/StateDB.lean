import Indigo.Common.Types

/-!
# The state database

`core/state/statedb.go`, `state_object.go` and `journal.go`: the accounts that a block's
transactions read and write, kept as live state objects over the accounts of the state
root. Every change is recorded in a journal whose entries each know how to take their
change back. `Snapshot` remembers the journal's length under a fresh revision id and
`RevertToSnapshot` undoes the entries recorded since, newest first.

The state root's accounts are a function `trie` that nothing here changes. Loading an
account into the live set is a cache in the source and is not modelled: `getStateObject`
reads the live object and falls back to the trie. Values are values: the source shares
`*big.Int`s and state objects between owners, but nothing mutates a shared one, so the
sharing plays no part. A nil object that the source dereferences is `none`, a panic.
-/

namespace Indigo.State

open Indigo

/-- `types.Log`, with the fields that `AddLog` fills in. -/
structure Log where
  address : Address
  topics : List Nat
  data : Bytes
  blockNumber : Nat
  txHash : Hash
  txIndex : Nat
  blockHash : Hash
  index : Nat

/-- A `stateObject`: the account's `data` with its code and storage (a storage key and
value are 32-byte hashes, read as numbers; a missing value is zero), and the `suicided` and
`touched` flags. -/
structure StateObject where
  nonce : Nat
  balance : Int
  codeHash : Hash
  code : Bytes
  storage : Nat → Nat
  suicided : Bool
  touched : Bool

/-- The entries of the journal, one per kind of change, each holding what its `undo`
puts back. -/
inductive JournalEntry where
  | createObjectChange (account : Address)
  | resetObjectChange (account : Address) (prev : StateObject)
  | suicideChange (account : Address) (prev : Bool) (prevbalance : Int)
  | balanceChange (account : Address) (prev : Int)
  | nonceChange (account : Address) (prev : Nat)
  | storageChange (account : Address) (key prevalue : Nat)
  | codeChange (account : Address) (prevcode : Bytes) (prevhash : Hash)
  | refundChange (prev : Nat)
  | addLogChange (txhash : Hash)
  | addPreimageChange (hash : Hash)
  | touchChange (account : Address) (prev : Bool)

/-- A `revision`: a snapshot's id and the journal length it was taken at. -/
structure Revision where
  id : Nat
  journalIndex : Nat
deriving DecidableEq, Repr

/-- A `StateDB`, without the database handle, the dirty set and the transaction it is
prepared for beyond the hashes and index that logs record. -/
structure StateDB where
  /-- The accounts under the state root. -/
  trie : Address → Option StateObject
  stateObjects : Address → Option StateObject
  refund : Nat
  thash : Hash
  bhash : Hash
  txIndex : Nat
  logs : Hash → List Log
  logSize : Nat
  preimages : Hash → Option Bytes
  journal : List JournalEntry
  validRevisions : List Revision
  nextRevisionId : Nat

/-- The address of the RIPEMD-160 precompile, whose touch the journal never undoes. -/
def ripemd : Address := 3

section Objects

variable (keccak : Bytes → Hash)

/-- `emptyCodeHash`: the hash of no code. -/
def emptyCodeHash : Hash := keccak []

/-- `newObject` of an empty `Account`: nonce and balance zero, no code and no storage. -/
def StateObject.new : StateObject where
  nonce := 0
  balance := 0
  codeHash := emptyCodeHash keccak
  code := []
  storage := fun _ => 0
  suicided := false
  touched := false

/-- `stateObject.empty`: the empty account of EIP-161. -/
def StateObject.empty (so : StateObject) : Bool :=
  so.nonce == 0 && so.balance == 0 && so.codeHash == emptyCodeHash keccak

end Objects

namespace StateDB

/-- `New`: a state database over the accounts of a state root. -/
def New (trie : Address → Option StateObject) (thash bhash : Hash) (txIndex : Nat) : StateDB where
  trie := trie
  stateObjects := fun _ => none
  refund := 0
  thash := thash
  bhash := bhash
  txIndex := txIndex
  logs := fun _ => []
  logSize := 0
  preimages := fun _ => none
  journal := []
  validRevisions := []
  nextRevisionId := 0

/-- `getStateObject`: the live object, or the account under the state root. -/
def getStateObject (s : StateDB) (addr : Address) : Option StateObject :=
  match s.stateObjects addr with
  | some obj => some obj
  | none => s.trie addr

/-- `setStateObject`. -/
def setStateObject (s : StateDB) (addr : Address) (object : StateObject) : StateDB :=
  { s with stateObjects := Function.update s.stateObjects addr (some object) }

/-- Change the object at `addr` the way an `undo` does: the source dereferences the object
it looks up, so a missing one is a panic. -/
def updateObject (s : StateDB) (addr : Address) (f : StateObject → StateObject) :
    Option StateDB :=
  (s.getStateObject addr).map fun so => s.setStateObject addr (f so)

/-- Record an entry in the journal. -/
def record (s : StateDB) (entry : JournalEntry) : StateDB :=
  { s with journal := s.journal ++ [entry] }

end StateDB

/-! ### Undoing journal entries -/

/-- `journalEntry.undo`. -/
def JournalEntry.undo : JournalEntry → StateDB → Option StateDB
  | .createObjectChange account, s =>
    some { s with stateObjects := Function.update s.stateObjects account none }
  | .resetObjectChange account prev, s => some (s.setStateObject account prev)
  | .suicideChange account prev prevbalance, s =>
    match s.getStateObject account with
    | some obj => some (s.setStateObject account { obj with suicided := prev, balance := prevbalance })
    | none => some s
  -- the touch of the RIPEMD-160 precompile stays, as consensus requires
  | .touchChange account prev, s =>
    if !prev && account != ripemd then s.updateObject account fun so => { so with touched := prev }
    else some s
  | .balanceChange account prev, s => s.updateObject account fun so => { so with balance := prev }
  | .nonceChange account prev, s => s.updateObject account fun so => { so with nonce := prev }
  | .codeChange account prevcode prevhash, s =>
    s.updateObject account fun so => { so with code := prevcode, codeHash := prevhash }
  | .storageChange account key prevalue, s =>
    s.updateObject account fun so => { so with storage := Function.update so.storage key prevalue }
  | .refundChange prev, s => some { s with refund := prev }
  -- `logs[:len(logs)-1]` panics on an empty slice
  | .addLogChange txhash, s =>
    match s.logs txhash with
    | [] => none
    | logs => some { s with logs := Function.update s.logs txhash logs.dropLast, logSize := s.logSize - 1 }
  | .addPreimageChange hash, s => some { s with preimages := Function.update s.preimages hash none }

/-- Undo entries in the order given. -/
def undoAll (entries : List JournalEntry) (s : StateDB) : Option StateDB :=
  entries.foldlM (fun s entry => entry.undo s) s

namespace StateDB

/-- Undo the journal down to length `k`, newest entry first, as `RevertToSnapshot` does. -/
def rollback (s : StateDB) (k : Nat) : Option StateDB :=
  undoAll (s.journal.drop k).reverse s

/-! ### Methods -/

section Methods

variable (keccak : Bytes → Hash)

/-- `createObject`: a fresh object at `addr`, journalled as a creation or, over an existing
object, as a reset that remembers it; the previous object is returned too. -/
def createObject (s : StateDB) (addr : Address) : StateObject × Option StateObject × StateDB :=
  let prev := s.getStateObject addr
  let newobj := StateObject.new keccak
  let entry := match prev with
    | none => JournalEntry.createObjectChange addr
    | some prev => .resetObjectChange addr prev
  (newobj, prev, (s.record entry).setStateObject addr newobj)

/-- `GetOrNewStateObject`. -/
def GetOrNewStateObject (s : StateDB) (addr : Address) : StateObject × StateDB :=
  match s.getStateObject addr with
  | some so => (so, s)
  | none =>
    let (so, _, s) := s.createObject keccak addr
    (so, s)

/-- `stateObject.SetBalance`: journal the old balance, then set the new one. -/
def setBalanceOf (s : StateDB) (addr : Address) (so : StateObject) (amount : Int) : StateDB :=
  (s.record (.balanceChange addr so.balance)).setStateObject addr { so with balance := amount }

/-- `stateObject.touch`. -/
def touchOf (s : StateDB) (addr : Address) (so : StateObject) : StateDB :=
  (s.record (.touchChange addr so.touched)).setStateObject addr { so with touched := true }

/-- `stateObject.AddBalance`: adding zero only touches an empty account. -/
def addBalanceOf (s : StateDB) (addr : Address) (so : StateObject) (amount : Int) : StateDB :=
  if amount = 0 then
    if so.empty keccak then s.touchOf addr so else s
  else s.setBalanceOf addr so (so.balance + amount)

/-- `stateObject.SubBalance`. -/
def subBalanceOf (s : StateDB) (addr : Address) (so : StateObject) (amount : Int) : StateDB :=
  if amount = 0 then s else s.setBalanceOf addr so (so.balance - amount)

def AddBalance (s : StateDB) (addr : Address) (amount : Int) : StateDB :=
  let (so, s) := s.GetOrNewStateObject keccak addr
  s.addBalanceOf keccak addr so amount

def SubBalance (s : StateDB) (addr : Address) (amount : Int) : StateDB :=
  let (so, s) := s.GetOrNewStateObject keccak addr
  s.subBalanceOf addr so amount

def SetBalance (s : StateDB) (addr : Address) (amount : Int) : StateDB :=
  let (so, s) := s.GetOrNewStateObject keccak addr
  s.setBalanceOf addr so amount

def SetNonce (s : StateDB) (addr : Address) (nonce : Nat) : StateDB :=
  let (so, s) := s.GetOrNewStateObject keccak addr
  (s.record (.nonceChange addr so.nonce)).setStateObject addr { so with nonce := nonce }

/-- `SetCode`: the code hash is the code's Keccak256 hash. -/
def SetCode (s : StateDB) (addr : Address) (code : Bytes) : StateDB :=
  let (so, s) := s.GetOrNewStateObject keccak addr
  (s.record (.codeChange addr so.code so.codeHash)).setStateObject addr
    { so with code := code, codeHash := keccak code }

def SetState (s : StateDB) (addr : Address) (key value : Nat) : StateDB :=
  let (so, s) := s.GetOrNewStateObject keccak addr
  (s.record (.storageChange addr key (so.storage key))).setStateObject addr
    { so with storage := Function.update so.storage key value }

/-- `Suicide`: mark the account and clear its balance; false for a missing account. -/
def Suicide (s : StateDB) (addr : Address) : Bool × StateDB :=
  match s.getStateObject addr with
  | none => (false, s)
  | some so =>
    (true, (s.record (.suicideChange addr so.suicided so.balance)).setStateObject addr
      { so with suicided := true, balance := 0 })

/-- `CreateAccount`: a fresh object that keeps the balance of the one it replaces. -/
def CreateAccount (s : StateDB) (addr : Address) : StateDB :=
  let (newobj, prev, s) := s.createObject keccak addr
  match prev with
  | some prev => s.setStateObject addr { newobj with balance := prev.balance }
  | none => s

end Methods

/-- `AddRefund`: the counter is a `uint64`. -/
def AddRefund (s : StateDB) (gas : Nat) : StateDB :=
  { s.record (.refundChange s.refund) with refund := (s.refund + gas) % 2 ^ 64 }

/-- `AddLog`: the log gets the transaction's hashes and index and its position. -/
def AddLog (s : StateDB) (log : Log) : StateDB :=
  let entry : Log :=
    { log with txHash := s.thash, blockHash := s.bhash, txIndex := s.txIndex, index := s.logSize }
  { s.record (.addLogChange s.thash) with
    logs := Function.update s.logs s.thash (s.logs s.thash ++ [entry]),
    logSize := s.logSize + 1 }

/-- `AddPreimage`: only a new preimage is recorded. -/
def AddPreimage (s : StateDB) (hash : Hash) (preimage : Bytes) : StateDB :=
  match s.preimages hash with
  | some _ => s
  | none => { s.record (.addPreimageChange hash) with
      preimages := Function.update s.preimages hash (some preimage) }

/-! ### Snapshots -/

/-- `Snapshot`: a fresh id for the journal's current length. -/
def Snapshot (s : StateDB) : Nat × StateDB :=
  (s.nextRevisionId,
    { s with nextRevisionId := s.nextRevisionId + 1,
             validRevisions := s.validRevisions ++ [⟨s.nextRevisionId, s.journal.length⟩] })

/-- `RevertToSnapshot`: find the revision with `sort.Search` (the first revision whose id is
at least `revid`), panic unless it is `revid`, undo the journal down to its length and drop
it and every later revision. -/
def RevertToSnapshot (s : StateDB) (revid : Nat) : Option StateDB :=
  let idx := s.validRevisions.findIdx fun r => decide (revid ≤ r.id)
  match s.validRevisions[idx]? with
  | none => none
  | some rev =>
    if rev.id = revid then
      (s.rollback rev.journalIndex).map fun s' =>
        { s' with journal := s.journal.take rev.journalIndex,
                  validRevisions := s.validRevisions.take idx }
    else none

/-! ### Getters -/

section Getters

variable (keccak : Bytes → Hash)

/-- `Exist`: also true of a suicided account. -/
def Exist (s : StateDB) (addr : Address) : Bool := (s.getStateObject addr).isSome

def Empty (s : StateDB) (addr : Address) : Bool :=
  match s.getStateObject addr with
  | none => true
  | some so => so.empty keccak

def GetBalance (s : StateDB) (addr : Address) : Int :=
  ((s.getStateObject addr).map (·.balance)).getD 0

def GetNonce (s : StateDB) (addr : Address) : Nat :=
  ((s.getStateObject addr).map (·.nonce)).getD 0

def GetCode (s : StateDB) (addr : Address) : Bytes :=
  ((s.getStateObject addr).map (·.code)).getD []

def GetCodeSize (s : StateDB) (addr : Address) : Nat := (s.GetCode addr).length

/-- `GetCodeHash`: the zero hash for a missing account. -/
def GetCodeHash (s : StateDB) (addr : Address) : Hash :=
  ((s.getStateObject addr).map (·.codeHash)).getD Hash.zero

def GetState (s : StateDB) (addr : Address) (key : Nat) : Nat :=
  ((s.getStateObject addr).map (·.storage key)).getD 0

def HasSuicided (s : StateDB) (addr : Address) : Bool :=
  ((s.getStateObject addr).map (·.suicided)).getD false

def GetRefund (s : StateDB) : Nat := s.refund

def GetLogs (s : StateDB) (hash : Hash) : List Log := s.logs hash

def Preimages (s : StateDB) : Hash → Option Bytes := s.preimages

end Getters

end StateDB

end Indigo.State
