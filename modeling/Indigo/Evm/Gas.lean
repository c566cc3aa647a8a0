import Indigo.Evm.Evm

/-!
# Gas

`core/vm/gas.go` and `gas_table.go`: the price of each instruction, computed before it runs
from the stack, the memory it grows to and the state. The arithmetic is `uint64`, checked
with `math.SafeAdd` and `math.SafeMul`; an overflow is `errGasUintOverflow`. Three gas
functions also change what they read: the memory's `lastGasCost` (every price with a
memory part), `callGasTemp` (the four calls, which leave there the gas the call will
forward) and the refund counter (`SSTORE` clearing a slot, `SELFDESTRUCT`).

Stack items are read where Go reads them, so that a short stack panics at the same point.
The jump table names its gas functions; `gasFunc.apply` gives each its arguments and
returns the price or the error, the machine and the memory.
-/

namespace Indigo.Evm

open Indigo.State

/-! ### Prices -/

def GasQuickStep : Nat := 2
def GasFastestStep : Nat := 3
def GasFastStep : Nat := 5
def GasMidStep : Nat := 8
def GasSlowStep : Nat := 10
def GasExtStep : Nat := 20

def CallValueTransferGas : Nat := 9000
def CallNewAccountGas : Nat := 25000
def SstoreSetGas : Nat := 20000
def SstoreResetGas : Nat := 5000
def SstoreClearGas : Nat := 5000
def SstoreRefundGas : Nat := 15000
def JumpdestGas : Nat := 1
def LogGas : Nat := 375
def LogTopicGas : Nat := 375
def LogDataGas : Nat := 8
def Sha3Gas : Nat := 30
def Sha3WordGas : Nat := 6
def CopyGas : Nat := 3
def CreateGas : Nat := 32000
def SuicideRefundGas : Nat := 24000

/-- `params.GasTable`: the prices that changed with the forks. -/
structure GasTable where
  ExtcodeSize : Nat
  ExtcodeCopy : Nat
  Balance : Nat
  SLoad : Nat
  Calls : Nat
  Suicide : Nat
  ExpByte : Nat
  CreateBySuicide : Nat
deriving DecidableEq, Repr

def GasTableHomestead : GasTable := ⟨20, 20, 20, 50, 40, 0, 10, 0⟩

def GasTableEIP150 : GasTable := ⟨700, 700, 400, 200, 700, 5000, 10, 25000⟩

def GasTableEIP158 : GasTable := ⟨700, 700, 400, 200, 700, 5000, 50, 25000⟩

/-- The interpreter's `gasTable`, `ChainConfig.GasTable` at the block. -/
def Env.gasTable (env : Env) : GasTable :=
  if env.chainRules.IsEIP158 then GasTableEIP158
  else if env.chainRules.IsEIP150 then GasTableEIP150
  else GasTableHomestead

/-! ### Checked arithmetic -/

/-- `math.SafeAdd`, returning `errGasUintOverflow` on overflow. -/
def addGas (x y : Nat) : Except VmError Nat :=
  match SafeAdd x y with
  | (r, false) => pure r
  | (_, true) => throw .errGasUintOverflow

/-- `math.SafeMul`, returning `errGasUintOverflow` on overflow. -/
def mulGas (x y : Nat) : Except VmError Nat :=
  match SafeMul x y with
  | (r, false) => pure r
  | (_, true) => throw .errGasUintOverflow

/-- `bigUint64`, returning `errGasUintOverflow` on overflow. -/
def uint64Gas (v : Int) : Except VmError Nat :=
  match bigUint64 v with
  | (r, false) => pure r
  | (_, true) => throw .errGasUintOverflow

/-- `callGas`: after EIP150 (`CreateBySuicide > 0`) a call forwards at most all but one
64th of the gas left once the call's own price is paid. The subtraction is `uint64`. -/
def callGas (gasTable : GasTable) (availableGas base : Nat) (callCost : Int) : Except VmError Nat :=
  let capped : Option Nat :=
    if gasTable.CreateBySuicide > 0 then
      let availableGas := (availableGas + 2 ^ 64 - base) % 2 ^ 64
      let gas := availableGas - availableGas / 64
      if BitLen callCost > 64 ∨ gas < Uint64 callCost then some gas else none
    else none
  match capped with
  | some gas => pure gas
  | none => if BitLen callCost > 64 then throw .errGasUintOverflow else pure (Uint64 callCost)

/-! ### The gas functions -/

section GasFunctions

variable (env : Env)

/-- The memory fee, a base price and a price per word of the stack item `lengthSlot`:
`gasCallDataCopy`, `gasReturnDataCopy`, `gasCodeCopy`, `gasExtCodeCopy` and `gasSha3`. -/
def wordGas (base perWord lengthSlot : Nat) (stack : Stack) (mem : Memory) (memorySize : Nat) :
    Except Failure (Except VmError Nat × Memory) :=
  match memoryGasCost mem memorySize with
  | .error err => pure (.error err, mem)
  | .ok (gas, mem) =>
    match addGas gas base with
    | .error err => pure (.error err, mem)
    | .ok gas => do
      let length ← stack.Back lengthSlot
      pure ((do
        let words ← uint64Gas length
        let words ← mulGas (toWordSize words) perWord
        addGas gas words), mem)

def gasCallDataCopy := wordGas GasFastestStep CopyGas 2

def gasReturnDataCopy := wordGas GasFastestStep CopyGas 2

def gasCodeCopy := wordGas GasFastestStep CopyGas 2

def gasExtCodeCopy (gt : GasTable) := wordGas gt.ExtcodeCopy CopyGas 3

def gasSha3 := wordGas Sha3Gas Sha3WordGas 1

/-- `gasSStore`: setting a zero slot, clearing one (with a refund) or resetting one. -/
def gasSStore (evm : EVM) (contract : Contract) (stack : Stack) : Except Failure (Nat × EVM) := do
  let y ← stack.Back 1
  let x ← stack.Back 0
  let val := evm.StateDB.GetState contract.self (BigToHash x)
  if val = 0 ∧ BigToHash y ≠ 0 then pure (SstoreSetGas, evm)
  else if val ≠ 0 ∧ BigToHash y = 0 then
    pure (SstoreClearGas, { evm with StateDB := evm.StateDB.AddRefund SstoreRefundGas })
  else pure (SstoreResetGas, evm)

/-- `makeGasLog(n)`: the memory fee, `LogGas`, `n` topics and `LogDataGas` per byte. -/
def makeGasLog (n : Nat) (stack : Stack) (mem : Memory) (memorySize : Nat) :
    Except Failure (Except VmError Nat × Memory) := do
  let size ← stack.Back 1
  pure <| match uint64Gas size with
  | .error err => (.error err, mem)
  | .ok requestedSize =>
    match memoryGasCost mem memorySize with
    | .error err => (.error err, mem)
    | .ok (gas, mem) =>
      ((do
        let gas ← addGas gas LogGas
        let gas ← addGas gas (n * LogTopicGas % 2 ^ 64)
        let memorySizeGas ← mulGas requestedSize LogDataGas
        addGas gas memorySizeGas), mem)

/-- The memory fee and a fixed price, any error of the memory fee reported as
`errGasUintOverflow`: `gasMLoad`, `gasMStore8` and `gasMStore`. -/
def memoryGasPlus (base : Nat) (mem : Memory) (memorySize : Nat) : Except VmError Nat × Memory :=
  match memoryGasCost mem memorySize with
  | .error _ => (.error .errGasUintOverflow, mem)
  | .ok (gas, mem) => (addGas gas base, mem)

def gasMLoad := memoryGasPlus GasFastestStep

def gasMStore8 := memoryGasPlus GasFastestStep

def gasMStore := memoryGasPlus GasFastestStep

def gasCreate (mem : Memory) (memorySize : Nat) : Except VmError Nat × Memory :=
  match memoryGasCost mem memorySize with
  | .error err => (.error err, mem)
  | .ok (gas, mem) => (addGas gas CreateGas, mem)

/-- `gasExp`: `ExpByte` per byte of the exponent. -/
def gasExp (gt : GasTable) (stack : Stack) : Except Failure (Except VmError Nat) := do
  let exponent ← stack.Back 1
  let expByteLen := (BitLen exponent + 7) / 8
  pure (addGas (expByteLen * gt.ExpByte % 2 ^ 64) GasSlowStep)

/-- The part the four calls share once their own price `gas` is known: the memory fee, then
`callGasTemp` from `callGas`, then the total. -/
def callGasAndTemp (gt : GasTable) (evm : EVM) (contract : Contract) (stack : Stack)
    (mem : Memory) (memorySize gas : Nat) : Except Failure (Except VmError Nat × EVM × Memory) :=
  match memoryGasCost mem memorySize with
  | .error err => pure (.error err, evm, mem)
  | .ok (memoryGas, mem) =>
    match addGas gas memoryGas with
    | .error err => pure (.error err, evm, mem)
    | .ok gas => do
      let callCost ← stack.Back 0
      pure <| match callGas gt contract.Gas gas callCost with
      | .error err => (.error err, { evm with callGasTemp := 0 }, mem)
      | .ok callGasTemp =>
        (addGas gas callGasTemp, { evm with callGasTemp := callGasTemp }, mem)

/-- `gasCall`: `Calls`, a new account when value goes to an empty (after EIP158) or missing
account, and the value transfer. -/
def gasCall (gt : GasTable) (evm : EVM) (contract : Contract) (stack : Stack) (mem : Memory)
    (memorySize : Nat) : Except Failure (Except VmError Nat × EVM × Memory) := do
  let transfersValue := (← stack.Back 2) ≠ 0
  let address := BigToAddress (← stack.Back 1)
  let eip158 := env.chainRules.IsEIP158
  let gas :=
    if eip158 then
      if transfersValue ∧ evm.StateDB.Empty env.keccak address then gt.Calls + CallNewAccountGas
      else gt.Calls
    else if !evm.StateDB.Exist address then gt.Calls + CallNewAccountGas
    else gt.Calls
  let gas := if transfersValue then gas + CallValueTransferGas else gas
  callGasAndTemp gt evm contract stack mem memorySize gas

/-- `gasCallCode`: `Calls` and the value transfer. -/
def gasCallCode (gt : GasTable) (evm : EVM) (contract : Contract) (stack : Stack) (mem : Memory)
    (memorySize : Nat) : Except Failure (Except VmError Nat × EVM × Memory) := do
  let gas := if (← stack.Back 2) ≠ 0 then gt.Calls + CallValueTransferGas else gt.Calls
  callGasAndTemp gt evm contract stack mem memorySize gas

/-- `gasDelegateCall` and `gasStaticCall`: the memory fee comes first, then `Calls`. -/
def gasDelegateCall (gt : GasTable) (evm : EVM) (contract : Contract) (stack : Stack)
    (mem : Memory) (memorySize : Nat) : Except Failure (Except VmError Nat × EVM × Memory) :=
  callGasAndTemp gt evm contract stack mem memorySize gt.Calls

def gasStaticCall := gasDelegateCall

def gasReturn (mem : Memory) (memorySize : Nat) : Except VmError Nat × Memory :=
  match memoryGasCost mem memorySize with
  | .error err => (.error err, mem)
  | .ok (gas, mem) => (.ok gas, mem)

def gasRevert := gasReturn

/-- `gasSuicide`: priced from EIP150, with a new account when the balance goes to an empty
(after EIP158) or missing account; the first self-destruct of an account is refunded. -/
def gasSuicide (gt : GasTable) (evm : EVM) (contract : Contract) (stack : Stack) :
    Except Failure (Nat × EVM) := do
  let gas ←
    if env.chainRules.IsEIP150 then do
      let address := BigToAddress (← stack.Back 0)
      let eip158 := env.chainRules.IsEIP158
      if eip158 then
        if evm.StateDB.Empty env.keccak address ∧ evm.StateDB.GetBalance contract.self ≠ 0 then
          pure (gt.Suicide + gt.CreateBySuicide)
        else pure gt.Suicide
      else if !evm.StateDB.Exist address then pure (gt.Suicide + gt.CreateBySuicide)
      else pure gt.Suicide
    else pure 0
  let evm :=
    if !evm.StateDB.HasSuicided contract.self then
      { evm with StateDB := evm.StateDB.AddRefund SuicideRefundGas }
    else evm
  pure (gas, evm)

end GasFunctions

/-- The gas functions of the jump table, by name. -/
inductive gasFunc where
  | constGasFunc (gas : Nat)
  | gasCallDataCopy | gasReturnDataCopy | gasSStore | makeGasLog (n : Nat) | gasSha3
  | gasCodeCopy | gasExtCodeCopy | gasMLoad | gasMStore8 | gasMStore | gasCreate | gasBalance
  | gasExtCodeSize | gasSLoad | gasExp | gasCall | gasCallCode | gasReturn | gasRevert
  | gasSuicide | gasDelegateCall | gasStaticCall | gasPush | gasSwap | gasDup
deriving DecidableEq, Repr

/-- The function each name stands for, with the interpreter's arguments: the price or the
error, the machine and the memory after it. -/
def gasFunc.apply (env : Env) (gt : GasTable) (evm : EVM) (contract : Contract) (stack : Stack)
    (mem : Memory) (memorySize : Nat) : gasFunc → Except Failure (Except VmError Nat × EVM × Memory)
  | .constGasFunc gas => pure (.ok gas, evm, mem)
  | .gasCallDataCopy => withEvm (Evm.gasCallDataCopy stack mem memorySize)
  | .gasReturnDataCopy => withEvm (Evm.gasReturnDataCopy stack mem memorySize)
  | .gasSStore => do
    let (gas, evm) ← Evm.gasSStore evm contract stack
    pure (.ok gas, evm, mem)
  | .makeGasLog n => withEvm (Evm.makeGasLog n stack mem memorySize)
  | .gasSha3 => withEvm (Evm.gasSha3 stack mem memorySize)
  | .gasCodeCopy => withEvm (Evm.gasCodeCopy stack mem memorySize)
  | .gasExtCodeCopy => withEvm (Evm.gasExtCodeCopy gt stack mem memorySize)
  | .gasMLoad => withEvm (pure (Evm.gasMLoad mem memorySize))
  | .gasMStore8 => withEvm (pure (Evm.gasMStore8 mem memorySize))
  | .gasMStore => withEvm (pure (Evm.gasMStore mem memorySize))
  | .gasCreate => withEvm (pure (Evm.gasCreate mem memorySize))
  | .gasBalance => pure (.ok gt.Balance, evm, mem)
  | .gasExtCodeSize => pure (.ok gt.ExtcodeSize, evm, mem)
  | .gasSLoad => pure (.ok gt.SLoad, evm, mem)
  | .gasExp => do
    let gas ← Evm.gasExp gt stack
    pure (gas, evm, mem)
  | .gasCall => Evm.gasCall env gt evm contract stack mem memorySize
  | .gasCallCode => Evm.gasCallCode gt evm contract stack mem memorySize
  | .gasReturn => withEvm (pure (Evm.gasReturn mem memorySize))
  | .gasRevert => withEvm (pure (Evm.gasRevert mem memorySize))
  | .gasSuicide => do
    let (gas, evm) ← Evm.gasSuicide env gt evm contract stack
    pure (.ok gas, evm, mem)
  | .gasDelegateCall => Evm.gasDelegateCall gt evm contract stack mem memorySize
  | .gasStaticCall => Evm.gasStaticCall gt evm contract stack mem memorySize
  | .gasPush => pure (.ok GasFastestStep, evm, mem)
  | .gasSwap => pure (.ok GasFastestStep, evm, mem)
  | .gasDup => pure (.ok GasFastestStep, evm, mem)
where
  /-- A gas function that leaves the machine alone. -/
  withEvm (r : Except Failure (Except VmError Nat × Memory)) :
      Except Failure (Except VmError Nat × EVM × Memory) := do
    let (gas, mem) ← r
    pure (gas, evm, mem)

end Indigo.Evm
