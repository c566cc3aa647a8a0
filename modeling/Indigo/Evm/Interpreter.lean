import Indigo.Evm.JumpTable

/-!
# The interpreter

`core/vm/interpreter.go`: `Interpreter.Run` runs a contract's code in a fresh frame, one
instruction per round of its loop until the code halts, reverts or fails, or the EVM is
cancelled. A round looks the opcode up in the jump table, checks the stack and the
read-only restrictions, computes the memory the instruction needs, charges its gas unless
metering is disabled, grows the memory, records the `StructLog`, executes the instruction
and decides from its flags whether to stop, jump or move on.

A round is split as Go's loop body is: `Interpreter.prepare` up to the memory size,
`Interpreter.charge` for the gas, the instruction, and `Interpreter.conclude`.

The model gives the loop a number of rounds, `fuel`, after which it stops with
`Failure.outOfFuel`; an instruction that starts a frame gives it the rounds its own loop
has left. `runner env fuel` is the package function `run` that the calls of `Evm` use,
with this interpreter behind it.
-/

namespace Indigo.Evm

section Interpreter

variable (env : Env)

/-- `enforceRestrictions`: after Byzantium, in read-only mode, no operation that writes and
no `CALL` with a value (its third stack item). -/
def enforceRestrictions (op : OpCode) (operation : operation) (stack : Stack) (evm : EVM) :
    Except Failure (Option VmError) :=
  if env.chainRules.IsByzantium ∧ evm.readOnly then
    if operation.writes then pure (some .errWriteProtection)
    else if op = CALL then do
      let value ← stack.Back 2
      pure (if BitLen value > 0 then some .errWriteProtection else none)
    else pure none
  else pure none

/-- The memory an operation needs, in whole words: it must fit a `uint64` before and after
the rounding. -/
def memorySizeOf (operation : operation) (stack : Stack) : Except Failure (Except VmError Nat) :=
  match operation.memorySize with
  | none => pure (.ok 0)
  | some f => do
    let size ← f.apply stack
    pure <| match bigUint64 size with
    | (_, true) => .error .errGasUintOverflow
    | (memSize, false) =>
      match SafeMul (toWordSize memSize) 32 with
      | (_, true) => .error .errGasUintOverflow
      | (memorySize, false) => .ok memorySize

/-- A round up to the gas: the operation of the opcode, valid, with the stack it needs,
allowed, and the memory size it needs. -/
def Interpreter.prepare (op : OpCode) (stack : Stack) (evm : EVM) :
    Except Failure (Except VmError (operation × Nat)) :=
  match env.jumpTable.get op with
  | none => pure (.error (.invalidOpcode op))
  | some operation =>
    match operation.validateStack.validate stack with
    | some err => pure (.error err)
    | none => do
      match ← enforceRestrictions env op operation stack evm with
      | some err => pure (.error err)
      | none => do
        let size ← memorySizeOf operation stack
        pure (size.map fun memorySize => (operation, memorySize))

/-- Charging an operation: unless metering is disabled, its gas function runs and the
contract pays the price; `none` when the function fails or the contract cannot pay. The
frame and machine are those the gas function leaves. -/
def Interpreter.charge (operation : operation) (frame : Frame) (evm : EVM) (memorySize : Nat) :
    Except Failure (Option Nat × Frame × EVM) :=
  if env.vmConfig.DisableGasMetering then pure (some 0, frame, evm)
  else do
    let (cost, evm, mem) ← operation.gasCost.apply env env.gasTable evm frame.contract
      frame.stack frame.memory memorySize
    let frame := { frame with memory := mem }
    pure <| match cost with
    | .error _ => (none, frame, evm)
    | .ok cost =>
      match frame.contract.UseGas cost with
      | none => (none, frame, evm)
      | some contract => (some cost, { frame with contract := contract }, evm)

/-- How a round ends. -/
inductive Step where
  | next (frame : Frame) (evm : EVM)
  | done (r : Ran)

/-- The end of a round: keep the output as the return data if the operation returns, then
stop on an error, a revert or a halt, and otherwise move to the next instruction unless the
operation jumped. -/
def Interpreter.conclude (operation : operation) (r : Executed) : Step :=
  let evm := if operation.returns then { r.evm with returnData := r.ret } else r.evm
  match r.err with
  | some err => .done ⟨[], some err, r.frame.contract, evm⟩
  | none =>
    if operation.reverts then .done ⟨r.ret, some .errExecutionReverted, r.frame.contract, evm⟩
    else if operation.halts then .done ⟨r.ret, none, r.frame.contract, evm⟩
    else if operation.jumps then .next r.frame evm
    else .next { r.frame with pc := r.frame.pc + 1 } evm

/-- One round of the loop of `Interpreter.Run`, with `run` for the frames it starts. -/
def Interpreter.step (run : RunFn) (frame : Frame) (evm : EVM) : Except Failure Step := do
  let op := frame.contract.GetOp frame.pc
  match ← Interpreter.prepare env op frame.stack evm with
  | .error err => pure (.done ⟨[], some err, frame.contract, evm⟩)
  | .ok (operation, memorySize) =>
    let gasCopy := frame.contract.Gas
    match ← Interpreter.charge env operation frame evm memorySize with
    | (none, frame, evm) => pure (.done ⟨[], some .ErrOutOfGas, frame.contract, evm⟩)
    | (some cost, frame, evm) =>
      let frame :=
        if memorySize > 0 then { frame with memory := frame.memory.Resize memorySize } else frame
      let log : StructLog := ⟨frame.pc, op, gasCopy, cost, frame.memory.Len, frame.stack, evm.depth⟩
      let evm := { evm with structLogs := evm.structLogs ++ [log] }
      let r ← operation.execute.apply env run frame evm
      pure (Interpreter.conclude operation r)

/-- `Interpreter.Run` around a loop: one more level of depth, no return data, and nothing
to do for a contract without code; the loop starts at `pc` 0 with an empty memory and
stack. -/
def Interpreter.Run (loop : Frame → EVM → Except Failure Ran) : RunFn := fun contract input evm =>
  let evm := { evm with depth := evm.depth + 1, returnData := [] }
  if contract.Code.isEmpty then pure ⟨[], none, contract, { evm with depth := evm.depth - 1 }⟩
  else do
    let r ← loop ⟨0, { contract with Input := input }, Memory.NewMemory, []⟩ evm
    pure { r with evm := { r.evm with depth := r.evm.depth - 1 } }

/-- The loop of `Interpreter.Run`, for at most `fuel` rounds; the frames a round starts run
with the rounds left. -/
def Interpreter.loop : Nat → Frame → EVM → Except Failure Ran
  | 0, _, _ => throw .outOfFuel
  | fuel + 1, frame, evm =>
    if evm.abort then pure ⟨[], none, frame.contract, evm⟩
    else do
      match ← Interpreter.step env (run env (Interpreter.Run (Interpreter.loop fuel))) frame evm with
      | .next frame evm => Interpreter.loop fuel frame evm
      | .done r => pure r

/-- The package function `run` with the interpreter behind it, for `fuel` rounds. -/
def runner (fuel : Nat) : RunFn := run env (Interpreter.Run (Interpreter.loop env fuel))

end Interpreter

end Indigo.Evm
