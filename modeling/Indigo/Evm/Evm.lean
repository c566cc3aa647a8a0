import Indigo.Evm.Contract
import Indigo.State.StateDB
import Indigo.Rlp.Item

/-!
# The EVM and its calls

`core/vm/evm.go`. What an EVM is created with and never changes (the block context, the
chain rules, the configuration, the hash function and the precompiled contracts) is an
`Env`; what its calls change (the state, the call depth, `callGasTemp`, and the
interpreter's `readOnly` flag and return data, which every call shares) is an `EVM`,
threaded through every function.

`EVM.Call`, `CallCode`, `DelegateCall`, `StaticCall` and `Create` start a frame through the
package function `run`, which runs a precompiled contract or the interpreter; the
interpreter's own instructions call back into them, so they take `run` as an argument
and the interpreter ties the two together.

`StructLog`s are what `Tracer.CaptureState` receives for each instruction the interpreter
is about to execute; the model keeps them as if a `StructLogger` were attached, and nothing
reads them.
-/

namespace Indigo.Evm

open Indigo.State Indigo.Lib Indigo.Rlp

/-! ### Parameters and configuration -/

/-- `params.CallCreateDepth`. -/
def CallCreateDepth : Nat := 1024

/-- `params.CallStipend`. -/
def CallStipend : Nat := 2300

/-- `params.CreateDataGas`. -/
def CreateDataGas : Nat := 200

/-- `params.MaxCodeSize`. -/
def MaxCodeSize : Nat := 24576

/-- `params.Rules`, the forks in force at the block. -/
structure Rules where
  IsHomestead : Bool
  IsEIP150 : Bool
  IsEIP158 : Bool
  IsByzantium : Bool
deriving DecidableEq, Repr

/-- The interpreter options of `Config` that change what it computes. -/
structure Config where
  NoRecursion : Bool
  DisableGasMetering : Bool
  EnablePreimageRecording : Bool
deriving DecidableEq, Repr

/-- `Context`, with `core.CanTransfer` and `core.Transfer` for its two functions. -/
structure Context where
  GetHash : Nat → Hash
  Origin : Address
  GasPrice : Int
  Coinbase : Address
  GasLimit : Nat
  BlockNumber : Int
  Time : Int
  Difficulty : Int

/-- `PrecompiledContract`: its price and its result or the text of its error. -/
structure PrecompiledContract where
  RequiredGas : Bytes → Nat
  Run : Bytes → Except String Bytes

/-- What an EVM is created with. `precompiled` gives the contract of `contracts.go` at each
address from 1 to 8; which of them exist depends on the fork. -/
structure Env where
  Context : Context
  chainRules : Rules
  vmConfig : Config
  keccak : Bytes → Hash
  precompiled : Address → PrecompiledContract

/-- `PrecompiledContractsHomestead`: addresses 1 to 4. -/
def PrecompiledContractsHomestead (env : Env) (addr : Address) : Option PrecompiledContract :=
  if 1 ≤ addr ∧ addr ≤ 4 then some (env.precompiled addr) else none

/-- `PrecompiledContractsByzantium`: addresses 1 to 8. -/
def PrecompiledContractsByzantium (env : Env) (addr : Address) : Option PrecompiledContract :=
  if 1 ≤ addr ∧ addr ≤ 8 then some (env.precompiled addr) else none

/-- The precompiled contracts of the fork. -/
def Env.precompiles (env : Env) : Address → Option PrecompiledContract :=
  if env.chainRules.IsByzantium then PrecompiledContractsByzantium env
  else PrecompiledContractsHomestead env

/-! ### The state of an execution -/

/-- `StructLog`: an instruction about to execute, with the gas before it is charged, its
cost, the memory size after it is grown, the stack and the depth. -/
structure StructLog where
  Pc : Nat
  Op : OpCode
  Gas : Nat
  GasCost : Nat
  MemorySize : Nat
  Stack : Stack
  Depth : Nat

/-- The part of an `EVM` and of its `Interpreter` that executions change. -/
structure EVM where
  StateDB : StateDB
  depth : Nat
  callGasTemp : Nat
  readOnly : Bool
  returnData : Bytes
  abort : Bool
  structLogs : List StructLog

/-- What `run` and `Interpreter.Run` return: the output and the error, and the contract,
whose `Gas` is what is left. -/
structure Ran where
  ret : Bytes
  err : Option VmError
  contract : Contract
  evm : EVM

/-- The package function `run`, as the calls use it. -/
abbrev RunFn := Contract → Bytes → EVM → Except Failure Ran

/-- What `Call`, `CallCode`, `DelegateCall` and `StaticCall` return. -/
structure Called where
  ret : Bytes
  leftOverGas : Nat
  err : Option VmError
  evm : EVM

/-- What `Create` returns. -/
structure Created where
  ret : Bytes
  contractAddr : Address
  leftOverGas : Nat
  err : Option VmError
  evm : EVM

/-- `EVM.Cancel`. -/
def EVM.Cancel (evm : EVM) : EVM := { evm with abort := true }

/-- `core.CanTransfer`. -/
def CanTransfer (db : StateDB) (addr : Address) (amount : Int) : Bool :=
  db.GetBalance addr ≥ amount

/-- `core.Transfer`. -/
def Transfer (keccak : Bytes → Hash) (db : StateDB) (sender recipient : Address) (amount : Int) :
    StateDB :=
  (db.SubBalance keccak sender amount).AddBalance keccak recipient amount

/-- `crypto.CreateAddress`: the last 20 bytes of the hash of the RLP list of the creator and
its nonce. -/
def CreateAddress (keccak : Bytes → Hash) (b : Address) (nonce : Nat) : Address :=
  let data := Item.encode (.list [.str (Address.Bytes b), .str (beBytes nonce)])
  BytesToAddress ((keccak data).bytes.drop 12)

/-- `RunPrecompiledContract`: charge the price, then run. -/
def RunPrecompiledContract (p : PrecompiledContract) (input : Bytes) (contract : Contract) :
    Bytes × Option VmError × Contract :=
  match contract.UseGas (p.RequiredGas input) with
  | some contract =>
    match p.Run input with
    | .ok ret => (ret, none, contract)
    | .error reason => ([], some (.precompile reason), contract)
  | none => ([], some .ErrOutOfGas, contract)

/-- `run`: the precompiled contract at the code address, or the interpreter. -/
def run (env : Env) (interpreterRun : RunFn) : RunFn := fun contract input evm =>
  match contract.CodeAddr.bind env.precompiles with
  | some p =>
    let (ret, err, contract) := RunPrecompiledContract p input contract
    pure ⟨ret, err, contract, evm⟩
  | none => interpreterRun contract input evm

/-! ### The calls -/

section Calls

variable (env : Env) (run : RunFn)

/-- The end every call shares: on an error, revert to the snapshot and, unless the frame
reverted, use up its gas. -/
def EVM.endCall (snapshot : Nat) (r : Ran) : Except Failure Called :=
  match r.err with
  | none => pure ⟨r.ret, r.contract.Gas, none, r.evm⟩
  | some err =>
    match r.evm.StateDB.RevertToSnapshot snapshot with
    | none => throw (.panic .state)
    | some db =>
      let gas := if err = .errExecutionReverted then r.contract.Gas else 0
      pure ⟨r.ret, gas, some err, { r.evm with StateDB := db }⟩

/-- `EVM.Call`: transfer `value` to `addr`, creating the account if needed, and run its code. -/
def EVM.Call (evm : EVM) (caller : ContractRef) (addr : Address) (input : Bytes) (gas : Nat)
    (value : Int) : Except Failure Called :=
  if env.vmConfig.NoRecursion ∧ evm.depth > 0 then pure ⟨[], gas, none, evm⟩
  else if evm.depth > CallCreateDepth then pure ⟨[], gas, some .ErrDepth, evm⟩
  else if !CanTransfer evm.StateDB caller.Address value then
    pure ⟨[], gas, some .ErrInsufficientBalance, evm⟩
  else
    let (snapshot, db) := evm.StateDB.Snapshot
    -- calling a missing account that is no precompile, with no value, does nothing after EIP158
    if !db.Exist addr ∧ (env.precompiles addr).isNone ∧ env.chainRules.IsEIP158 ∧ value = 0 then
      pure ⟨[], gas, none, { evm with StateDB := db }⟩
    else
      let db := if db.Exist addr then db else db.CreateAccount env.keccak addr
      let db := Transfer env.keccak db caller.Address addr value
      let contract :=
        (NewContract caller addr value gas).SetCallCode addr (db.GetCodeHash addr) (db.GetCode addr)
      do
        let r ← run contract input { evm with StateDB := db }
        EVM.endCall snapshot r

/-- `EVM.CallCode`: run the code of `addr` as the caller itself. -/
def EVM.CallCode (evm : EVM) (caller : ContractRef) (addr : Address) (input : Bytes) (gas : Nat)
    (value : Int) : Except Failure Called :=
  if env.vmConfig.NoRecursion ∧ evm.depth > 0 then pure ⟨[], gas, none, evm⟩
  else if evm.depth > CallCreateDepth then pure ⟨[], gas, some .ErrDepth, evm⟩
  else if !CanTransfer evm.StateDB caller.Address value then
    pure ⟨[], gas, some .ErrInsufficientBalance, evm⟩
  else
    let (snapshot, db) := evm.StateDB.Snapshot
    let contract := (NewContract caller caller.Address value gas).SetCallCode addr
      (db.GetCodeHash addr) (db.GetCode addr)
    do
      let r ← run contract input { evm with StateDB := db }
      EVM.endCall snapshot r

/-- `EVM.DelegateCall`: run the code of `addr` as the caller, with the caller's caller and
value. -/
def EVM.DelegateCall (evm : EVM) (caller : ContractRef) (addr : Address) (input : Bytes)
    (gas : Nat) : Except Failure Called :=
  if env.vmConfig.NoRecursion ∧ evm.depth > 0 then pure ⟨[], gas, none, evm⟩
  else if evm.depth > CallCreateDepth then pure ⟨[], gas, some .ErrDepth, evm⟩
  else
    let (snapshot, db) := evm.StateDB.Snapshot
    do
      let contract ← (NewContract caller caller.Address 0 gas).AsDelegate caller
      let contract := contract.SetCallCode addr (db.GetCodeHash addr) (db.GetCode addr)
      let r ← run contract input { evm with StateDB := db }
      EVM.endCall snapshot r

/-- `EVM.StaticCall`: run the code of `addr` in read-only mode. Only the call that turns the
mode on turns it off again, when it returns. -/
def EVM.StaticCall (evm : EVM) (caller : ContractRef) (addr : Address) (input : Bytes)
    (gas : Nat) : Except Failure Called :=
  if env.vmConfig.NoRecursion ∧ evm.depth > 0 then pure ⟨[], gas, none, evm⟩
  else if evm.depth > CallCreateDepth then pure ⟨[], gas, some .ErrDepth, evm⟩
  else
    let setsReadOnly := !evm.readOnly
    let evm := if setsReadOnly then { evm with readOnly := true } else evm
    let (snapshot, db) := evm.StateDB.Snapshot
    let contract :=
      (NewContract caller addr 0 gas).SetCallCode addr (db.GetCodeHash addr) (db.GetCode addr)
    do
      let r ← run contract input { evm with StateDB := db }
      let called ← EVM.endCall snapshot r
      pure (if setsReadOnly then { called with evm := { called.evm with readOnly := false } }
        else called)

/-- The end of `Create`: store the code if it is small enough and paid for, and on an error
revert to the snapshot, except for running out of gas for the code before Homestead. -/
def EVM.endCreate (snapshot : Nat) (contractAddr : Address) (r : Ran) : Except Failure Created :=
  let maxCodeSizeExceeded := env.chainRules.IsEIP158 ∧ r.ret.length > MaxCodeSize
  let (err, contract, db) : Option VmError × Contract × State.StateDB :=
    if r.err = none ∧ ¬maxCodeSizeExceeded then
      match r.contract.UseGas (r.ret.length * CreateDataGas % 2 ^ 64) with
      | some contract => (none, contract, r.evm.StateDB.SetCode env.keccak contractAddr r.ret)
      | none => (some .ErrCodeStoreOutOfGas, r.contract, r.evm.StateDB)
    else (r.err, r.contract, r.evm.StateDB)
  let reverts := maxCodeSizeExceeded ∨
    (err.isSome ∧ (env.chainRules.IsHomestead ∨ err ≠ some .ErrCodeStoreOutOfGas))
  let err := if maxCodeSizeExceeded ∧ err = none then some .errMaxCodeSizeExceeded else err
  if reverts then
    match db.RevertToSnapshot snapshot with
    | none => throw (.panic .state)
    | some db =>
      let gas := if err ≠ some .errExecutionReverted then 0 else contract.Gas
      pure ⟨r.ret, contractAddr, gas, err, { r.evm with StateDB := db }⟩
  else pure ⟨r.ret, contractAddr, contract.Gas, err, { r.evm with StateDB := db }⟩

/-- `EVM.Create`: bump the creator's nonce, derive the address, refuse an address in use,
then create the account, transfer `value` and run the init code. -/
def EVM.Create (evm : EVM) (caller : ContractRef) (code : Bytes) (gas : Nat) (value : Int) :
    Except Failure Created :=
  if evm.depth > CallCreateDepth then pure ⟨[], 0, gas, some .ErrDepth, evm⟩
  else if !CanTransfer evm.StateDB caller.Address value then
    pure ⟨[], 0, gas, some .ErrInsufficientBalance, evm⟩
  else
    let nonce := evm.StateDB.GetNonce caller.Address
    let db := evm.StateDB.SetNonce env.keccak caller.Address ((nonce + 1) % 2 ^ 64)
    let contractAddr := CreateAddress env.keccak caller.Address nonce
    let contractHash := db.GetCodeHash contractAddr
    if db.GetNonce contractAddr ≠ 0 ∨
        (contractHash ≠ Hash.zero ∧ contractHash ≠ emptyCodeHash env.keccak) then
      pure ⟨[], 0, 0, some .ErrContractAddressCollision, { evm with StateDB := db }⟩
    else
      let (snapshot, db) := db.Snapshot
      let db := db.CreateAccount env.keccak contractAddr
      let db := if env.chainRules.IsEIP158 then db.SetNonce env.keccak contractAddr 1 else db
      let db := Transfer env.keccak db caller.Address contractAddr value
      let contract := (NewContract caller contractAddr value gas).SetCallCode contractAddr
        (env.keccak code) code
      if env.vmConfig.NoRecursion ∧ evm.depth > 0 then
        pure ⟨[], contractAddr, gas, none, { evm with StateDB := db }⟩
      else do
        let r ← run contract [] { evm with StateDB := db }
        EVM.endCreate env snapshot contractAddr r

end Calls

end Indigo.Evm
