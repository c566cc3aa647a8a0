import Indigo.Evm.Gas
import Indigo.Evm.Arith

/-!
# The instructions

`core/vm/instructions.go`: what each instruction does once its stack has been checked, its
gas charged and the memory grown. An instruction works on the frame (`pc`, contract, memory
and stack, the locals of `Interpreter.Run`) and on the machine, and returns its output and
error. The arithmetic ones are those of `Arith`. The closures `makeLog`, `makePush`,
`makeDup` and `makeSwap` are one definition each, of their parameters.

The calls go through `EVM.Call` and its siblings with the `run` they are given.
`callGasTemp` is the gas the call's gas function left there, and the gas the callee hands
back is added to the caller's in `uint64`.
-/

namespace Indigo.Evm

open Indigo.State Indigo.Lib

/-- The locals of `Interpreter.Run` an instruction works on. -/
structure Frame where
  pc : Nat
  contract : Contract
  memory : Memory
  stack : Stack

/-- What `execute` returns: its output and error, and the frame and machine after it. -/
structure Executed where
  ret : Bytes
  err : Option VmError
  frame : Frame
  evm : EVM

/-- An instruction's `return nil, nil`. -/
def Frame.done (frame : Frame) (evm : EVM) : Executed := ⟨[], none, frame, evm⟩

/-- The frame with another stack. -/
def Frame.withStack (frame : Frame) (stack : Stack) : Frame := { frame with stack := stack }

section Instructions

variable (env : Env) (run : RunFn) (frame : Frame) (evm : EVM)

/-- The instructions of `Arith`, which only replace their operands by their result. -/
def opArith (op : ArithOp) : Except Failure Executed :=
  match op.execute frame.stack with
  | some stack => pure ((frame.withStack stack).done evm)
  | none => throw (.panic .stack)

def opSha3 : Except Failure Executed :=
  match frame.stack with
  | offset :: size :: rest => do
    let data ← frame.memory.Get (Int64 offset) (Int64 size)
    let hash := env.keccak data
    let evm :=
      if env.vmConfig.EnablePreimageRecording then
        { evm with StateDB := evm.StateDB.AddPreimage hash data }
      else evm
    pure ((frame.withStack (Hash.Big hash :: rest)).done evm)
  | _ => throw (.panic .stack)

/-- An instruction that pushes one value and touches nothing else. -/
def pushValue (x : Int) : Except Failure Executed :=
  pure ((frame.withStack (x :: frame.stack)).done evm)

/-- An instruction that replaces the top item by a value computed from it. -/
def replaceTop (f : Int → Int) : Except Failure Executed :=
  match frame.stack with
  | x :: rest => pure ((frame.withStack (f x :: rest)).done evm)
  | [] => throw (.panic .stack)

def opAddress := pushValue frame evm frame.contract.self

def opBalance := replaceTop frame evm fun a => evm.StateDB.GetBalance (BigToAddress a)

def opOrigin := pushValue frame evm env.Context.Origin

def opCaller := pushValue frame evm frame.contract.CallerAddress

def opCallValue := pushValue frame evm frame.contract.value

def opCallDataLoad :=
  replaceTop frame evm fun x => beValue (getDataBig frame.contract.Input x 32)

def opCallDataSize := pushValue frame evm frame.contract.Input.length

/-- The copying instructions: pop the memory offset, the source offset and the length, and
copy what `source` gives for them. -/
def copyToMemory (source : Int → Int → Bytes) : Except Failure Executed :=
  match frame.stack with
  | memOffset :: dataOffset :: length :: rest => do
    let memory ← frame.memory.Set (Uint64 memOffset) (Uint64 length) (source dataOffset length)
    pure ({ frame with memory := memory, stack := rest }.done evm)
  | _ => throw (.panic .stack)

def opCallDataCopy := copyToMemory frame evm (getDataBig frame.contract.Input)

def opReturnDataSize := pushValue frame evm evm.returnData.length

/-- `opReturnDataCopy`: the region of the return data must exist. -/
def opReturnDataCopy : Except Failure Executed :=
  match frame.stack with
  | memOffset :: dataOffset :: length :: rest =>
    let frame := frame.withStack rest
    let stop := dataOffset + length
    if BitLen stop > 64 ∨ evm.returnData.length < Uint64 stop then
      pure ⟨[], some .errReturnDataOutOfBounds, frame, evm⟩
    else if Uint64 dataOffset ≤ Uint64 stop then do
      let data := (evm.returnData.drop (Uint64 dataOffset)).take (Uint64 stop - Uint64 dataOffset)
      let memory ← frame.memory.Set (Uint64 memOffset) (Uint64 length) data
      pure ({ frame with memory := memory }.done evm)
    else throw (.panic .slice)
  | _ => throw (.panic .stack)

def opExtCodeSize :=
  replaceTop frame evm fun a => evm.StateDB.GetCodeSize (BigToAddress a)

def opCodeSize := pushValue frame evm frame.contract.Code.length

def opCodeCopy := copyToMemory frame evm (getDataBig frame.contract.Code)

def opExtCodeCopy : Except Failure Executed :=
  match frame.stack with
  | addr :: rest =>
    copyToMemory (frame.withStack rest) evm (getDataBig (evm.StateDB.GetCode (BigToAddress addr)))
  | [] => throw (.panic .stack)

def opGasprice := pushValue frame evm env.Context.GasPrice

/-- `opBlockhash`: the hash of one of the 256 blocks before this one, and zero otherwise. -/
def opBlockhash :=
  replaceTop frame evm fun num =>
    let n := env.Context.BlockNumber - 257
    if num > n ∧ num < env.Context.BlockNumber then Hash.Big (env.Context.GetHash (Uint64 num)) else 0

def opCoinbase := pushValue frame evm env.Context.Coinbase

def opTimestamp := pushValue frame evm (U256 env.Context.Time)

def opNumber := pushValue frame evm (U256 env.Context.BlockNumber)

def opDifficulty := pushValue frame evm (U256 env.Context.Difficulty)

def opGasLimit := pushValue frame evm (U256 env.Context.GasLimit)

def opPop : Except Failure Executed :=
  match frame.stack with
  | _ :: rest => pure ((frame.withStack rest).done evm)
  | [] => throw (.panic .stack)

def opMload : Except Failure Executed :=
  match frame.stack with
  | offset :: rest => do
    let val := beValue (← frame.memory.Get (Int64 offset) 32)
    pure ((frame.withStack (val :: rest)).done evm)
  | [] => throw (.panic .stack)

def opMstore : Except Failure Executed :=
  match frame.stack with
  | mStart :: val :: rest => do
    let memory ← frame.memory.Set (Uint64 mStart) 32 (PaddedBigBytes val 32)
    pure ({ frame with memory := memory, stack := rest }.done evm)
  | _ => throw (.panic .stack)

/-- `opMstore8`: the low byte of the value, stored at the `int64` offset. -/
def opMstore8 : Except Failure Executed :=
  match frame.stack with
  | off :: val :: rest => do
    let memory ← frame.memory.storeAt (Int64 off) (Int64 val % 256).toNat.toUInt8
    pure ({ frame with memory := memory, stack := rest }.done evm)
  | _ => throw (.panic .stack)

def opSload :=
  replaceTop frame evm fun loc => evm.StateDB.GetState frame.contract.self (BigToHash loc)

def opSstore : Except Failure Executed :=
  match frame.stack with
  | loc :: val :: rest =>
    let db := evm.StateDB.SetState env.keccak frame.contract.self (BigToHash loc) (BigToHash val)
    pure ((frame.withStack rest).done { evm with StateDB := db })
  | _ => throw (.panic .stack)

/-- The error of a jump to a position that is not a `JUMPDEST` of the code. -/
def invalidJump (pos : Int) : VmError := .invalidJump (frame.contract.GetOp (Uint64 pos)) pos

def opJump : Except Failure Executed :=
  match frame.stack with
  | pos :: rest =>
    let frame := frame.withStack rest
    if !has frame.contract.Code pos then pure ⟨[], some (invalidJump frame pos), frame, evm⟩
    else pure ({ frame with pc := Uint64 pos }.done evm)
  | [] => throw (.panic .stack)

def opJumpi : Except Failure Executed :=
  match frame.stack with
  | pos :: cond :: rest =>
    let frame := frame.withStack rest
    if cond ≠ 0 then
      if !has frame.contract.Code pos then pure ⟨[], some (invalidJump frame pos), frame, evm⟩
      else pure ({ frame with pc := Uint64 pos }.done evm)
    else pure ({ frame with pc := frame.pc + 1 }.done evm)
  | _ => throw (.panic .stack)

def opJumpdest : Except Failure Executed := pure (frame.done evm)

def opPc := pushValue frame evm frame.pc

def opMsize := pushValue frame evm frame.memory.Len

def opGas := pushValue frame evm frame.contract.Gas

/-- `opCreate`: all the gas left, but one 64th after EIP150, goes to the new contract; what it
hands back returns to this one. -/
def opCreate : Except Failure Executed :=
  match frame.stack with
  | value :: offset :: size :: rest => do
    let input ← frame.memory.Get (Int64 offset) (Int64 size)
    let gas := frame.contract.Gas
    let gas := if env.chainRules.IsEIP150 then gas - gas / 64 else gas
    let contract := (frame.contract.UseGas gas).getD frame.contract
    let created ← EVM.Create env run evm (.contract contract) input gas value
    let pushed : Int :=
      if env.chainRules.IsHomestead ∧ created.err = some .ErrCodeStoreOutOfGas then 0
      else if created.err.isSome ∧ created.err ≠ some .ErrCodeStoreOutOfGas then 0
      else created.contractAddr
    let contract := { contract with Gas := (contract.Gas + created.leftOverGas) % 2 ^ 64 }
    let frame := { frame with contract := contract, stack := pushed :: rest }
    let ret := if created.err = some .errExecutionReverted then created.ret else []
    pure ⟨ret, none, frame, created.evm⟩
  | _ => throw (.panic .stack)

/-- The end the four calls share: push whether the call succeeded, copy its output unless it
failed without reverting, and take back the gas it did not use. -/
def callReturn (retOffset retSize : Int) (rest : Stack) (called : Called) :
    Except Failure Executed := do
  let stack := (if called.err.isSome then 0 else 1) :: rest
  let memory ←
    if called.err = none ∨ called.err = some .errExecutionReverted then
      frame.memory.Set (Uint64 retOffset) (Uint64 retSize) called.ret
    else pure frame.memory
  let contract := { frame.contract with Gas := (frame.contract.Gas + called.leftOverGas) % 2 ^ 64 }
  pure ⟨called.ret, none, { frame with contract := contract, memory := memory, stack := stack },
    called.evm⟩

/-- The gas a call forwards: `callGasTemp`, and the stipend with a value. -/
def callGasWithStipend (value : Int) : Nat :=
  if value ≠ 0 then (evm.callGasTemp + CallStipend) % 2 ^ 64 else evm.callGasTemp

def opCall : Except Failure Executed :=
  match frame.stack with
  | _ :: addr :: value :: inOffset :: inSize :: retOffset :: retSize :: rest => do
    let value := U256 value
    let args ← frame.memory.Get (Int64 inOffset) (Int64 inSize)
    let called ← EVM.Call env run evm (.contract frame.contract) (BigToAddress addr) args
      (callGasWithStipend evm value) value
    callReturn frame retOffset retSize rest called
  | _ => throw (.panic .stack)

def opCallCode : Except Failure Executed :=
  match frame.stack with
  | _ :: addr :: value :: inOffset :: inSize :: retOffset :: retSize :: rest => do
    let value := U256 value
    let args ← frame.memory.Get (Int64 inOffset) (Int64 inSize)
    let called ← EVM.CallCode env run evm (.contract frame.contract) (BigToAddress addr) args
      (callGasWithStipend evm value) value
    callReturn frame retOffset retSize rest called
  | _ => throw (.panic .stack)

def opDelegateCall : Except Failure Executed :=
  match frame.stack with
  | _ :: addr :: inOffset :: inSize :: retOffset :: retSize :: rest => do
    let args ← frame.memory.Get (Int64 inOffset) (Int64 inSize)
    let called ← EVM.DelegateCall env run evm (.contract frame.contract) (BigToAddress addr) args
      evm.callGasTemp
    callReturn frame retOffset retSize rest called
  | _ => throw (.panic .stack)

def opStaticCall : Except Failure Executed :=
  match frame.stack with
  | _ :: addr :: inOffset :: inSize :: retOffset :: retSize :: rest => do
    let args ← frame.memory.Get (Int64 inOffset) (Int64 inSize)
    let called ← EVM.StaticCall env run evm (.contract frame.contract) (BigToAddress addr) args
      evm.callGasTemp
    callReturn frame retOffset retSize rest called
  | _ => throw (.panic .stack)

/-- `opReturn` and `opRevert`: the region of memory the frame returns. -/
def opReturn : Except Failure Executed :=
  match frame.stack with
  | offset :: size :: rest => do
    let ret ← frame.memory.GetPtr (Int64 offset) (Int64 size)
    pure ⟨ret, none, frame.withStack rest, evm⟩
  | _ => throw (.panic .stack)

def opRevert := opReturn

def opStop : Except Failure Executed := pure (frame.done evm)

/-- `opSuicide`: the balance goes to the beneficiary and the account is marked. -/
def opSuicide : Except Failure Executed :=
  match frame.stack with
  | beneficiary :: rest =>
    let self := frame.contract.self
    let balance := evm.StateDB.GetBalance self
    let db := evm.StateDB.AddBalance env.keccak (BigToAddress beneficiary) balance
    let (_, db) := db.Suicide self
    pure ((frame.withStack rest).done { evm with StateDB := db })
  | [] => throw (.panic .stack)

/-- `makeLog(size)`: a log of the memory region with `size` topics. -/
def makeLog (size : Nat) : Except Failure Executed :=
  match frame.stack with
  | mStart :: mSize :: rest =>
    if size ≤ rest.length then do
      let topics := (rest.take size).map BigToHash
      let d ← frame.memory.Get (Int64 mStart) (Int64 mSize)
      let log : Log :=
        { address := frame.contract.self, topics := topics, data := d,
          blockNumber := Uint64 env.Context.BlockNumber,
          txHash := Hash.zero, txIndex := 0, blockHash := Hash.zero, index := 0 }
      pure ((frame.withStack (rest.drop size)).done { evm with StateDB := evm.StateDB.AddLog log })
    else throw (.panic .stack)
  | _ => throw (.panic .stack)

/-- `makePush(size, pushByteSize)`: the bytes after the instruction, read as zeros past the
end of the code; `pc` moves over them. -/
def makePush (size pushByteSize : Nat) : Except Failure Executed :=
  let code := frame.contract.Code
  let startMin := min code.length (frame.pc + 1)
  let endMin := min code.length (startMin + pushByteSize)
  let integer := beValue (RightPadBytes ((code.drop startMin).take (endMin - startMin)) pushByteSize)
  pure ({ frame with stack := integer :: frame.stack, pc := frame.pc + size }.done evm)

def makeDup (size : Nat) : Except Failure Executed := do
  let stack ← frame.stack.dup size
  pure ((frame.withStack stack).done evm)

/-- `makeSwap(size)`: `SWAPn` exchanges the top with the item `n + 1` from the top. -/
def makeSwap (size : Nat) : Except Failure Executed := do
  let stack ← frame.stack.swap (size + 1)
  pure ((frame.withStack stack).done evm)

end Instructions

/-- The `execute` functions of the jump table, by name. -/
inductive executionFunc where
  | arith (op : ArithOp)
  | opSha3 | opAddress | opBalance | opOrigin | opCaller | opCallValue | opCallDataLoad
  | opCallDataSize | opCallDataCopy | opReturnDataSize | opReturnDataCopy | opExtCodeSize
  | opCodeSize | opCodeCopy | opExtCodeCopy | opGasprice | opBlockhash | opCoinbase
  | opTimestamp | opNumber | opDifficulty | opGasLimit | opPop | opMload | opMstore
  | opMstore8 | opSload | opSstore | opJump | opJumpi | opJumpdest | opPc | opMsize | opGas
  | opCreate | opCall | opCallCode | opDelegateCall | opStaticCall | opReturn | opRevert
  | opStop | opSuicide
  | makeLog (size : Nat)
  | makePush (size pushByteSize : Nat)
  | makeDup (size : Nat)
  | makeSwap (size : Nat)
deriving DecidableEq, Repr

/-- The function each name stands for. -/
def executionFunc.apply (env : Env) (run : RunFn) (frame : Frame) (evm : EVM) :
    executionFunc → Except Failure Executed
  | .arith op => Evm.opArith frame evm op
  | .opSha3 => Evm.opSha3 env frame evm
  | .opAddress => Evm.opAddress frame evm
  | .opBalance => Evm.opBalance frame evm
  | .opOrigin => Evm.opOrigin env frame evm
  | .opCaller => Evm.opCaller frame evm
  | .opCallValue => Evm.opCallValue frame evm
  | .opCallDataLoad => Evm.opCallDataLoad frame evm
  | .opCallDataSize => Evm.opCallDataSize frame evm
  | .opCallDataCopy => Evm.opCallDataCopy frame evm
  | .opReturnDataSize => Evm.opReturnDataSize frame evm
  | .opReturnDataCopy => Evm.opReturnDataCopy frame evm
  | .opExtCodeSize => Evm.opExtCodeSize frame evm
  | .opCodeSize => Evm.opCodeSize frame evm
  | .opCodeCopy => Evm.opCodeCopy frame evm
  | .opExtCodeCopy => Evm.opExtCodeCopy frame evm
  | .opGasprice => Evm.opGasprice env frame evm
  | .opBlockhash => Evm.opBlockhash env frame evm
  | .opCoinbase => Evm.opCoinbase env frame evm
  | .opTimestamp => Evm.opTimestamp env frame evm
  | .opNumber => Evm.opNumber env frame evm
  | .opDifficulty => Evm.opDifficulty env frame evm
  | .opGasLimit => Evm.opGasLimit env frame evm
  | .opPop => Evm.opPop frame evm
  | .opMload => Evm.opMload frame evm
  | .opMstore => Evm.opMstore frame evm
  | .opMstore8 => Evm.opMstore8 frame evm
  | .opSload => Evm.opSload frame evm
  | .opSstore => Evm.opSstore env frame evm
  | .opJump => Evm.opJump frame evm
  | .opJumpi => Evm.opJumpi frame evm
  | .opJumpdest => Evm.opJumpdest frame evm
  | .opPc => Evm.opPc frame evm
  | .opMsize => Evm.opMsize frame evm
  | .opGas => Evm.opGas frame evm
  | .opCreate => Evm.opCreate env run frame evm
  | .opCall => Evm.opCall env run frame evm
  | .opCallCode => Evm.opCallCode env run frame evm
  | .opDelegateCall => Evm.opDelegateCall env run frame evm
  | .opStaticCall => Evm.opStaticCall env run frame evm
  | .opReturn => Evm.opReturn frame evm
  | .opRevert => Evm.opRevert frame evm
  | .opStop => Evm.opStop frame evm
  | .opSuicide => Evm.opSuicide env frame evm
  | .makeLog size => Evm.makeLog env frame evm size
  | .makePush size pushByteSize => Evm.makePush frame evm size pushByteSize
  | .makeDup size => Evm.makeDup frame evm size
  | .makeSwap size => Evm.makeSwap frame evm size

end Indigo.Evm
