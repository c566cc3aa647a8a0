import Indigo.Evm.Run

/-!
# What the instructions do

`instructions.go` takes the operands of an instruction off the stack without checking that
they are there: `Interpreter.Run` has checked the counts that `stack_table.go` gives the
operation. This module says once what every `execute` function does with enough operands:
which items it takes off the stack and which it puts on, and, for the instructions that
start no frame, that the contract is the frame's and the machine is as it was but for
journalled changes of the state. The results about whole runs are built on it.

## Main results

- `execute_effect`: an `execute` function with the counts `stackArgs` reads off its body
  replaces that many items by that many, leaves the rest of the machine alone unless it
  starts a frame, and fails on the stack only through a frame it starts.
- `execute_starts`: an instruction that starts a frame keeps of the machine whatever the
  five ways into a frame promise of the machine they return (`Starts`).
- `execute_within`: every instruction keeps what journalled changes of the state and the
  five calls keep.

## Proof strategy

One lemma per shape of instruction (`pushValue`, `replaceTop`, `copyToMemory`, the calls
through `callReturn`) and one for each instruction of its own shape; `execute_effect` is one
case per `execute` function.
-/

namespace Indigo.Evm

open Indigo.Lib Indigo.State

/-! ### The counts of the instructions -/

/-- The items an instruction takes off the stack and puts on, read off its body. `DUP0`
is not an instruction: `dup` panics on it. -/
def executionFunc.stackArgs : executionFunc → Option (Nat × Nat)
  | .arith op => some (op.arity, 1)
  | .opSha3 => some (2, 1)
  | .opAddress | .opOrigin | .opCaller | .opCallValue | .opCallDataSize | .opReturnDataSize
  | .opCodeSize | .opGasprice | .opCoinbase | .opTimestamp | .opNumber | .opDifficulty
  | .opGasLimit | .opPc | .opMsize | .opGas => some (0, 1)
  | .opBalance | .opCallDataLoad | .opExtCodeSize | .opBlockhash | .opMload | .opSload =>
    some (1, 1)
  | .opCallDataCopy | .opReturnDataCopy | .opCodeCopy => some (3, 0)
  | .opExtCodeCopy => some (4, 0)
  | .opPop | .opJump | .opSuicide => some (1, 0)
  | .opMstore | .opMstore8 | .opSstore | .opJumpi | .opReturn | .opRevert => some (2, 0)
  | .opJumpdest | .opStop => some (0, 0)
  | .opCreate => some (3, 1)
  | .opCall | .opCallCode => some (7, 1)
  | .opDelegateCall | .opStaticCall => some (6, 1)
  | .makeLog size => some (size + 2, 0)
  | .makePush _ _ => some (0, 1)
  | .makeDup 0 => none
  | .makeDup (size + 1) => some (size + 1, size + 2)
  | .makeSwap size => some (size + 1, size + 1)

/-- Whether an instruction starts a frame: the creation and the four calls. -/
def executionFunc.startsFrame : executionFunc → Bool
  | .opCreate | .opCall | .opCallCode | .opDelegateCall | .opStaticCall => true
  | _ => false

/-- What an instruction did to the stack: it took `pop` items off and put `push` on. -/
def StackEffect (stack : Stack) (pop push : Nat) (r : Executed) : Prop :=
  ∃ pushed : Stack, pushed.length = push ∧ r.frame.stack = pushed ++ stack.drop pop

/-- What an instruction that starts no frame does besides its stack, memory and `pc`: the
contract is the frame's, and the machine is as it was but for journalled changes of the
state. -/
def Local (keccak : Bytes → Hash) (frame : Frame) (evm : EVM) (r : Executed) : Prop :=
  r.frame.contract = frame.contract ∧
    ∃ db, Journalled keccak evm.StateDB db ∧ r.evm = { evm with StateDB := db }

/-- The effect of an instruction that starts no frame, on the stack and on the rest. -/
def LocalEffect (keccak : Bytes → Hash) (frame : Frame) (evm : EVM) (pop push : Nat)
    (r : Executed) : Prop :=
  StackEffect frame.stack pop push r ∧ Local keccak frame evm r

theorem Local.unchanged {keccak : Bytes → Hash} {frame : Frame} {evm : EVM} {r : Executed}
    (contract : r.frame.contract = frame.contract) (same : r.evm = evm) :
    Local keccak frame evm r :=
  ⟨contract, evm.StateDB, .refl _, same⟩

theorem memory_ne_stack : Failure.panic .memory ≠ .panic .stack := by decide

theorem ne_stack_of_memory {f : Failure} (memory : f = .panic .memory) : f ≠ .panic .stack := by
  rw [memory]
  exact memory_ne_stack

/-- A failure of an instruction itself, not of a frame it starts: a panic, and not one of
the stack, whose operands the round has checked. -/
def Failure.Local : Failure → Prop
  | .panic p => p ≠ .stack
  | .outOfFuel => False

theorem local_of_memory {f : Failure} (memory : f = .panic .memory) : f.Local := by
  rw [memory]
  exact (by decide : Panic.memory ≠ .stack)

theorem Failure.Local.ne_stack {f : Failure} (failure : f.Local) : f ≠ .panic .stack := by
  cases f with
  | panic p =>
    intro same
    cases same
    exact failure rfl
  | outOfFuel => exact failure.elim

theorem Failure.Local.ne_outOfFuel {f : Failure} (failure : f.Local) : f ≠ .outOfFuel := by
  cases f with
  | panic p => exact nofun
  | outOfFuel => exact failure.elim

/-! ### The arithmetic -/

/-- An arithmetic instruction replaces its operands by one value; `SIGNEXTEND` with a byte
index of 31 or more leaves its second operand where it was, which is the same. -/
theorem ArithOp.execute_shape (op : ArithOp) {stack : Stack} (enough : op.arity ≤ stack.length) :
    ∃ x, op.execute stack = some (x :: stack.drop op.arity) := by
  cases op with
  | ISZERO | NOT =>
    have one : 1 ≤ stack.length := enough
    match stack, one with
    | a :: rest, _ => exact ⟨_, rfl⟩
  | ADDMOD | MULMOD =>
    have three : 3 ≤ stack.length := enough
    match stack, three with
    | a :: b :: c :: rest, _ => exact ⟨_, rfl⟩
  | SIGNEXTEND =>
    have two : 2 ≤ stack.length := enough
    match stack, two with
    | b :: x :: rest, _ =>
      by_cases small : b < 31
      · exact ⟨_, if_pos small⟩
      · exact ⟨x, if_neg small⟩
  | ADD | MUL | SUB | DIV | SDIV | MOD | SMOD | EXP | LT | GT | SLT | SGT | EQ | AND | OR | XOR
  | BYTE =>
    have two : 2 ≤ stack.length := enough
    match stack, two with
    | a :: b :: rest, _ => exact ⟨_, rfl⟩

/-! ### The shapes of the instructions -/

section Shapes

variable (keccak : Bytes → Hash) (frame : Frame) (evm : EVM)

theorem opArith_effect (op : ArithOp) (enough : op.arity ≤ frame.stack.length) :
    Meets (LocalEffect keccak frame evm op.arity 1) Failure.Local (opArith frame evm op) := by
  obtain ⟨x, executed⟩ := op.execute_shape enough
  unfold opArith
  rw [executed]
  exact ⟨⟨[x], rfl, rfl⟩, .unchanged rfl rfl⟩

theorem pushValue_effect (x : Int) :
    Meets (LocalEffect keccak frame evm 0 1) Failure.Local (pushValue frame evm x) :=
  ⟨⟨[x], rfl, rfl⟩, .unchanged rfl rfl⟩

theorem replaceTop_effect (f : Int → Int) (enough : 1 ≤ frame.stack.length) :
    Meets (LocalEffect keccak frame evm 1 1) Failure.Local (replaceTop frame evm f) := by
  obtain ⟨pc, contract, memory, stack⟩ := frame
  match stack, enough with
  | x :: rest, _ => exact ⟨⟨[f x], rfl, rfl⟩, .unchanged rfl rfl⟩

theorem copyToMemory_effect (source : Int → Int → Bytes) (enough : 3 ≤ frame.stack.length) :
    Meets (LocalEffect keccak frame evm 3 0) Failure.Local
      (copyToMemory frame evm source) := by
  obtain ⟨pc, contract, memory, stack⟩ := frame
  match stack, enough with
  | memOffset :: dataOffset :: length :: rest, _ =>
    apply Meets.bind_ok fun _ fails => local_of_memory (Memory.Set_error fails)
    intro memory' _
    exact ⟨⟨[], rfl, rfl⟩, .unchanged rfl rfl⟩

/-- The end of the four calls pushes one item on the stack left under the operands. -/
theorem callReturn_stack (retOffset retSize : Int) (rest : Stack) (called : Called) :
    Meets (fun r => ∃ x, r.frame.stack = x :: rest) (· ≠ .panic .stack)
      (callReturn frame retOffset retSize rest called) := by
  unfold callReturn
  dsimp only
  split
  · apply Meets.bind_ok fun _ fails => ne_stack_of_memory (Memory.Set_error fails)
    intro memory' _
    exact ⟨_, rfl⟩
  · exact ⟨_, rfl⟩

/-- The end of the four calls keeps the machine the call returned. -/
theorem callReturn_evm (retOffset retSize : Int) (rest : Stack) (called : Called) :
    Meets (fun r => r.evm = called.evm) (fun _ => True)
      (callReturn frame retOffset retSize rest called) := by
  unfold callReturn
  dsimp only
  split
  · apply Meets.bind_ok fun _ _ => trivial
    intro memory' _
    rfl
  · rfl

end Shapes

/-! ### The instructions of their own shape -/

section Instructions

variable (keccak : Bytes → Hash) (env : Env) (run : RunFn) (frame : Frame) (evm : EVM)

/-- `SHA3` records the preimage when asked to. -/
theorem opSha3_effect (enough : 2 ≤ frame.stack.length) :
    Meets (LocalEffect env.keccak frame evm 2 1) Failure.Local (opSha3 env frame evm) := by
  obtain ⟨pc, contract, memory, stack⟩ := frame
  match stack, enough with
  | offset :: size :: rest, _ =>
    apply Meets.bind_ok fun _ fails => local_of_memory (Memory.Get_error fails)
    intro data _
    refine ⟨⟨[_], rfl, rfl⟩, rfl, ?_⟩
    split
    · exact ⟨_, .single (.AddPreimage _ data) (fun _ => nofun) nofun rfl, rfl⟩
    · exact ⟨_, .refl _, rfl⟩

theorem opReturnDataCopy_effect (enough : 3 ≤ frame.stack.length) :
    Meets (LocalEffect keccak frame evm 3 0) Failure.Local (opReturnDataCopy frame evm) := by
  obtain ⟨pc, contract, memory, stack⟩ := frame
  match stack, enough with
  | memOffset :: dataOffset :: length :: rest, _ =>
    unfold opReturnDataCopy
    dsimp only
    split
    · exact ⟨⟨[], rfl, rfl⟩, .unchanged rfl rfl⟩
    · split
      · apply Meets.bind_ok fun _ fails => local_of_memory (Memory.Set_error fails)
        intro memory' _
        exact ⟨⟨[], rfl, rfl⟩, .unchanged rfl rfl⟩
      · exact (by decide : Panic.slice ≠ .stack)

theorem opExtCodeCopy_effect (enough : 4 ≤ frame.stack.length) :
    Meets (LocalEffect keccak frame evm 4 0) Failure.Local (opExtCodeCopy frame evm) := by
  obtain ⟨pc, contract, memory, stack⟩ := frame
  match stack, enough with
  | addr :: rest, enough =>
    exact copyToMemory_effect keccak ⟨pc, contract, memory, rest⟩ evm _ (by simp at enough; omega)

theorem opPop_effect (enough : 1 ≤ frame.stack.length) :
    Meets (LocalEffect keccak frame evm 1 0) Failure.Local (opPop frame evm) := by
  obtain ⟨pc, contract, memory, stack⟩ := frame
  match stack, enough with
  | x :: rest, _ => exact ⟨⟨[], rfl, rfl⟩, .unchanged rfl rfl⟩

theorem opMload_effect (enough : 1 ≤ frame.stack.length) :
    Meets (LocalEffect keccak frame evm 1 1) Failure.Local (opMload frame evm) := by
  obtain ⟨pc, contract, memory, stack⟩ := frame
  match stack, enough with
  | offset :: rest, _ =>
    apply Meets.bind_ok fun _ fails => local_of_memory (Memory.Get_error fails)
    intro data _
    exact ⟨⟨[_], rfl, rfl⟩, .unchanged rfl rfl⟩

theorem opMstore_effect (enough : 2 ≤ frame.stack.length) :
    Meets (LocalEffect keccak frame evm 2 0) Failure.Local (opMstore frame evm) := by
  obtain ⟨pc, contract, memory, stack⟩ := frame
  match stack, enough with
  | mStart :: val :: rest, _ =>
    apply Meets.bind_ok fun _ fails => local_of_memory (Memory.Set_error fails)
    intro memory' _
    exact ⟨⟨[], rfl, rfl⟩, .unchanged rfl rfl⟩

theorem opMstore8_effect (enough : 2 ≤ frame.stack.length) :
    Meets (LocalEffect keccak frame evm 2 0) Failure.Local (opMstore8 frame evm) := by
  obtain ⟨pc, contract, memory, stack⟩ := frame
  match stack, enough with
  | off :: val :: rest, _ =>
    apply Meets.bind_ok fun _ fails => local_of_memory (Memory.storeAt_error fails)
    intro memory' _
    exact ⟨⟨[], rfl, rfl⟩, .unchanged rfl rfl⟩

/-- `SSTORE` writes the slot of the running account. -/
theorem opSstore_effect (enough : 2 ≤ frame.stack.length) :
    Meets (LocalEffect env.keccak frame evm 2 0) Failure.Local (opSstore env frame evm) := by
  obtain ⟨pc, contract, memory, stack⟩ := frame
  match stack, enough with
  | loc :: val :: rest, _ =>
    exact ⟨⟨[], rfl, rfl⟩, rfl, _,
      .single (.SetState contract.self (BigToHash loc) (BigToHash val)) (fun _ => nofun)
        nofun rfl, rfl⟩

theorem opJump_effect (enough : 1 ≤ frame.stack.length) :
    Meets (LocalEffect keccak frame evm 1 0) Failure.Local (opJump frame evm) := by
  obtain ⟨pc, contract, memory, stack⟩ := frame
  match stack, enough with
  | pos :: rest, _ =>
    unfold opJump
    dsimp only
    split
    · exact ⟨⟨[], rfl, rfl⟩, .unchanged rfl rfl⟩
    · exact ⟨⟨[], rfl, rfl⟩, .unchanged rfl rfl⟩

theorem opJumpi_effect (enough : 2 ≤ frame.stack.length) :
    Meets (LocalEffect keccak frame evm 2 0) Failure.Local (opJumpi frame evm) := by
  obtain ⟨pc, contract, memory, stack⟩ := frame
  match stack, enough with
  | pos :: cond :: rest, _ =>
    unfold opJumpi
    dsimp only
    split
    · split
      · exact ⟨⟨[], rfl, rfl⟩, .unchanged rfl rfl⟩
      · exact ⟨⟨[], rfl, rfl⟩, .unchanged rfl rfl⟩
    · exact ⟨⟨[], rfl, rfl⟩, .unchanged rfl rfl⟩

theorem opReturn_effect (enough : 2 ≤ frame.stack.length) :
    Meets (LocalEffect keccak frame evm 2 0) Failure.Local (opReturn frame evm) := by
  obtain ⟨pc, contract, memory, stack⟩ := frame
  match stack, enough with
  | offset :: size :: rest, _ =>
    apply Meets.bind_ok fun _ fails => local_of_memory (Memory.GetPtr_error fails)
    intro ret _
    exact ⟨⟨[], rfl, rfl⟩, .unchanged rfl rfl⟩

/-- `SELFDESTRUCT` credits the beneficiary, then marks the account. -/
theorem opSuicide_effect (enough : 1 ≤ frame.stack.length) :
    Meets (LocalEffect env.keccak frame evm 1 0) Failure.Local (opSuicide env frame evm) := by
  obtain ⟨pc, contract, memory, stack⟩ := frame
  match stack, enough with
  | beneficiary :: rest, _ =>
    unfold opSuicide
    dsimp only
    have credited : Journalled env.keccak evm.StateDB (evm.StateDB.AddBalance env.keccak
        (BigToAddress beneficiary) (evm.StateDB.GetBalance contract.self)) :=
      .single (.AddBalance _ _) (fun _ => nofun) nofun rfl
    rcases marked : (evm.StateDB.AddBalance env.keccak (BigToAddress beneficiary)
      (evm.StateDB.GetBalance contract.self)).Suicide contract.self with ⟨killed, db⟩
    refine ⟨⟨[], rfl, rfl⟩, rfl, db, credited.trans ?_, rfl⟩
    exact .single (.Suicide contract.self) (fun _ => nofun) nofun (by simp [Op.apply, marked])

/-- `LOGn` appends one log to the state. -/
theorem makeLog_effect (size : Nat) (enough : size + 2 ≤ frame.stack.length) :
    Meets (LocalEffect env.keccak frame evm (size + 2) 0) Failure.Local
      (makeLog env frame evm size) := by
  obtain ⟨pc, contract, memory, stack⟩ := frame
  match stack, enough with
  | mStart :: mSize :: rest, enough =>
    have topics : size ≤ rest.length := by simp at enough; omega
    unfold makeLog
    dsimp only
    rw [if_pos topics]
    apply Meets.bind_ok fun _ fails => local_of_memory (Memory.Get_error fails)
    intro data _
    exact ⟨⟨[], rfl, rfl⟩, rfl, _, .single (.AddLog _) (fun _ => nofun) nofun rfl, rfl⟩

theorem makeDup_effect (size : Nat) (enough : size + 1 ≤ frame.stack.length) :
    Meets (LocalEffect keccak frame evm (size + 1) (size + 2)) Failure.Local
      (makeDup frame evm (size + 1)) := by
  unfold makeDup
  rw [Stack.dup_ok (Nat.succ_pos size) (by omega)]
  refine ⟨⟨frame.stack[size] :: frame.stack.take (size + 1), ?_, ?_⟩, .unchanged rfl rfl⟩
  · simp only [List.length_cons, List.length_take]
    omega
  · show frame.stack[size] :: frame.stack = _
    rw [List.cons_append, List.take_append_drop]

theorem makeSwap_effect (size : Nat) (enough : size + 1 ≤ frame.stack.length) :
    Meets (LocalEffect keccak frame evm (size + 1) (size + 1)) Failure.Local
      (makeSwap frame evm size) := by
  obtain ⟨swapped, swap⟩ := Stack.swap_ok (Nat.succ_pos size) enough
  unfold makeSwap
  rw [swap]
  refine ⟨⟨swapped.take (size + 1), ?_, ?_⟩, .unchanged rfl rfl⟩
  · simp only [List.length_take, Stack.length_swap swap]
    omega
  · show swapped = _
    rw [← Stack.swap_drop swap, List.take_append_drop]

section Calls

variable (nested : ∀ c i e, Meets (fun _ => True) (· ≠ .panic .stack) (run c i e))
include nested

theorem opCreate_stack (enough : 3 ≤ frame.stack.length) :
    Meets (StackEffect frame.stack 3 1) (· ≠ .panic .stack) (opCreate env run frame evm) := by
  obtain ⟨pc, contract, memory, stack⟩ := frame
  match stack, enough with
  | value :: offset :: size :: rest, _ =>
    apply Meets.bind_ok fun _ fails => ne_stack_of_memory (Memory.Get_error fails)
    intro input _
    apply Meets.bind (Create_fails env run (by decide) nested)
    intro created _
    exact ⟨[_], rfl, rfl⟩

theorem opCall_stack (enough : 7 ≤ frame.stack.length) :
    Meets (StackEffect frame.stack 7 1) (· ≠ .panic .stack) (opCall env run frame evm) := by
  obtain ⟨pc, contract, memory, stack⟩ := frame
  match stack, enough with
  | _ :: addr :: value :: inOffset :: inSize :: retOffset :: retSize :: rest, _ =>
    apply Meets.bind_ok fun _ fails => ne_stack_of_memory (Memory.Get_error fails)
    intro args _
    apply Meets.bind (Call_fails env run (by decide) nested)
    intro called _
    exact (callReturn_stack _ _ _ _ _).mono (fun r ⟨x, pushed⟩ => ⟨[x], rfl, pushed⟩)
      fun _ failed => failed

theorem opCallCode_stack (enough : 7 ≤ frame.stack.length) :
    Meets (StackEffect frame.stack 7 1) (· ≠ .panic .stack) (opCallCode env run frame evm) := by
  obtain ⟨pc, contract, memory, stack⟩ := frame
  match stack, enough with
  | _ :: addr :: value :: inOffset :: inSize :: retOffset :: retSize :: rest, _ =>
    apply Meets.bind_ok fun _ fails => ne_stack_of_memory (Memory.Get_error fails)
    intro args _
    apply Meets.bind (CallCode_fails env run (by decide) nested)
    intro called _
    exact (callReturn_stack _ _ _ _ _).mono (fun r ⟨x, pushed⟩ => ⟨[x], rfl, pushed⟩)
      fun _ failed => failed

theorem opDelegateCall_stack (enough : 6 ≤ frame.stack.length) :
    Meets (StackEffect frame.stack 6 1) (· ≠ .panic .stack) (opDelegateCall env run frame evm) := by
  obtain ⟨pc, contract, memory, stack⟩ := frame
  match stack, enough with
  | _ :: addr :: inOffset :: inSize :: retOffset :: retSize :: rest, _ =>
    apply Meets.bind_ok fun _ fails => ne_stack_of_memory (Memory.Get_error fails)
    intro args _
    apply Meets.bind (DelegateCall_fails env run (by decide) (by decide) nested)
    intro called _
    exact (callReturn_stack _ _ _ _ _).mono (fun r ⟨x, pushed⟩ => ⟨[x], rfl, pushed⟩)
      fun _ failed => failed

theorem opStaticCall_stack (enough : 6 ≤ frame.stack.length) :
    Meets (StackEffect frame.stack 6 1) (· ≠ .panic .stack) (opStaticCall env run frame evm) := by
  obtain ⟨pc, contract, memory, stack⟩ := frame
  match stack, enough with
  | _ :: addr :: inOffset :: inSize :: retOffset :: retSize :: rest, _ =>
    apply Meets.bind_ok fun _ fails => ne_stack_of_memory (Memory.Get_error fails)
    intro args _
    apply Meets.bind (StaticCall_fails env run (by decide) nested)
    intro called _
    exact (callReturn_stack _ _ _ _ _).mono (fun r ⟨x, pushed⟩ => ⟨[x], rfl, pushed⟩)
      fun _ failed => failed

end Calls

end Instructions

/-! ### Every instruction -/

section Dispatch

variable {keccak : Bytes → Hash} {frame : Frame} {evm : EVM} {pop push : Nat}
  {x : Except Failure Executed}

theorem local_effect (effect : Meets (LocalEffect keccak frame evm pop push) Failure.Local x) :
    Meets (fun r => StackEffect frame.stack pop push r ∧ (false = false → Local keccak frame evm r))
      (fun f => f ≠ .panic .stack ∧ (false = false → f.Local)) x :=
  effect.mono (fun _ both => ⟨both.1, fun _ => both.2⟩) fun _ failed => ⟨failed.ne_stack, fun _ => failed⟩

theorem frame_effect (effect : Meets (StackEffect frame.stack pop push) (· ≠ .panic .stack) x) :
    Meets (fun r => StackEffect frame.stack pop push r ∧ (true = false → Local keccak frame evm r))
      (fun f => f ≠ .panic .stack ∧ (true = false → f.Local)) x :=
  effect.mono (fun _ stack => ⟨stack, nofun⟩) fun _ failed => ⟨failed, nofun⟩

end Dispatch

/-- With the operands its counts ask for, every `execute` function takes them off the stack
and puts its results on; one that starts no frame leaves the rest of the machine alone but
for journalled changes of the state and fails only with a panic of its own, and none fails
on the stack unless a frame it starts does. -/
theorem execute_effect (f : executionFunc) {pop push : Nat} (args : f.stackArgs = some (pop, push))
    (env : Env) (run : RunFn) (frame : Frame) (evm : EVM) (enough : pop ≤ frame.stack.length)
    (nested : ∀ c i e, Meets (fun _ => True) (· ≠ .panic .stack) (run c i e)) :
    Meets (fun r => StackEffect frame.stack pop push r ∧
        (f.startsFrame = false → Local env.keccak frame evm r))
      (fun failure => failure ≠ .panic .stack ∧ (f.startsFrame = false → failure.Local))
      (f.apply env run frame evm) := by
  cases f with
  | arith op =>
    cases args
    exact local_effect (opArith_effect env.keccak frame evm op enough)
  | opAddress | opOrigin | opCaller | opCallValue | opCallDataSize | opReturnDataSize
  | opCodeSize | opGasprice | opCoinbase | opTimestamp | opNumber | opDifficulty | opGasLimit
  | opPc | opMsize | opGas =>
    cases args
    exact local_effect (pushValue_effect env.keccak frame evm _)
  | opBalance | opCallDataLoad | opExtCodeSize | opBlockhash | opSload =>
    cases args
    exact local_effect (replaceTop_effect env.keccak frame evm _ enough)
  | opCallDataCopy | opCodeCopy =>
    cases args
    exact local_effect (copyToMemory_effect env.keccak frame evm _ enough)
  | opSha3 =>
    cases args
    exact local_effect (opSha3_effect env frame evm enough)
  | opReturnDataCopy =>
    cases args
    exact local_effect (opReturnDataCopy_effect env.keccak frame evm enough)
  | opExtCodeCopy =>
    cases args
    exact local_effect (opExtCodeCopy_effect env.keccak frame evm enough)
  | opPop =>
    cases args
    exact local_effect (opPop_effect env.keccak frame evm enough)
  | opMload =>
    cases args
    exact local_effect (opMload_effect env.keccak frame evm enough)
  | opMstore =>
    cases args
    exact local_effect (opMstore_effect env.keccak frame evm enough)
  | opMstore8 =>
    cases args
    exact local_effect (opMstore8_effect env.keccak frame evm enough)
  | opSstore =>
    cases args
    exact local_effect (opSstore_effect env frame evm enough)
  | opJump =>
    cases args
    exact local_effect (opJump_effect env.keccak frame evm enough)
  | opJumpi =>
    cases args
    exact local_effect (opJumpi_effect env.keccak frame evm enough)
  | opJumpdest | opStop =>
    cases args
    exact local_effect ⟨⟨[], rfl, rfl⟩, .unchanged rfl rfl⟩
  | opReturn | opRevert =>
    cases args
    exact local_effect (opReturn_effect env.keccak frame evm enough)
  | opSuicide =>
    cases args
    exact local_effect (opSuicide_effect env frame evm enough)
  | makeLog size =>
    cases args
    exact local_effect (makeLog_effect env frame evm size enough)
  | makePush size pushByteSize =>
    cases args
    exact local_effect ⟨⟨[_], rfl, rfl⟩, .unchanged rfl rfl⟩
  | makeDup size =>
    cases size with
    | zero => cases args
    | succ size =>
      cases args
      exact local_effect (makeDup_effect env.keccak frame evm size enough)
  | makeSwap size =>
    cases args
    exact local_effect (makeSwap_effect env.keccak frame evm size enough)
  | opCreate =>
    cases args
    exact frame_effect (opCreate_stack env run frame evm nested enough)
  | opCall =>
    cases args
    exact frame_effect (opCall_stack env run frame evm nested enough)
  | opCallCode =>
    cases args
    exact frame_effect (opCallCode_stack env run frame evm nested enough)
  | opDelegateCall =>
    cases args
    exact frame_effect (opDelegateCall_stack env run frame evm nested enough)
  | opStaticCall =>
    cases args
    exact frame_effect (opStaticCall_stack env run frame evm nested enough)

/-! ### What the instructions log -/

theorem Local.logged {keccak : Bytes → Hash} {frame : Frame} {evm : EVM} {r : Executed}
    {Q : StructLog → Prop} (kept : Local keccak frame evm r) : Logged Q evm r.evm := by
  obtain ⟨_, db, _, same⟩ := kept
  exact .of_eq (by rw [same])

section Frames

variable (env : Env) (run : RunFn) (frame : Frame) (evm : EVM) {R : EVM → Prop}

/-- What the frames that instructions may start from `evm` promise of the machine they
return, one field for each way into a frame. -/
structure Starts (R : EVM → Prop) (env : Env) (run : RunFn) (evm : EVM) : Prop where
  create : ∀ caller code gas value, Meets (fun created : Created => R created.evm)
    (fun _ => True) (EVM.Create env run evm caller code gas value)
  call : ∀ caller addr input gas value, Meets (fun called : Called => R called.evm)
    (fun _ => True) (EVM.Call env run evm caller addr input gas value)
  callCode : ∀ caller addr input gas value, Meets (fun called : Called => R called.evm)
    (fun _ => True) (EVM.CallCode env run evm caller addr input gas value)
  delegateCall : ∀ caller addr input gas, Meets (fun called : Called => R called.evm)
    (fun _ => True) (EVM.DelegateCall env run evm caller addr input gas)
  staticCall : ∀ caller addr input gas, Meets (fun called : Called => R called.evm)
    (fun _ => True) (EVM.StaticCall env run evm caller addr input gas)

theorem callReturn_starts {retOffset retSize : Int} {rest : Stack} {called : Called}
    (holds : R called.evm) :
    Meets (fun r => R r.evm) (fun _ => True) (callReturn frame retOffset retSize rest called) :=
  (callReturn_evm frame retOffset retSize rest called).mono (fun _ same => same ▸ holds)
    fun _ _ => trivial

variable (starts : Starts R env run evm)
include starts

theorem opCreate_starts :
    Meets (fun r => R r.evm) (fun _ => True) (opCreate env run frame evm) := by
  unfold opCreate
  split
  · apply Meets.bind_ok fun _ _ => trivial
    intro input _
    exact Meets.bind (starts.create _ _ _ _) fun _ holds => holds
  · trivial

theorem opCall_starts :
    Meets (fun r => R r.evm) (fun _ => True) (opCall env run frame evm) := by
  unfold opCall
  split
  · apply Meets.bind_ok fun _ _ => trivial
    intro args _
    exact Meets.bind (starts.call _ _ _ _ _) fun _ holds => callReturn_starts frame holds
  · trivial

theorem opCallCode_starts :
    Meets (fun r => R r.evm) (fun _ => True) (opCallCode env run frame evm) := by
  unfold opCallCode
  split
  · apply Meets.bind_ok fun _ _ => trivial
    intro args _
    exact Meets.bind (starts.callCode _ _ _ _ _) fun _ holds => callReturn_starts frame holds
  · trivial

theorem opDelegateCall_starts :
    Meets (fun r => R r.evm) (fun _ => True) (opDelegateCall env run frame evm) := by
  unfold opDelegateCall
  split
  · apply Meets.bind_ok fun _ _ => trivial
    intro args _
    exact Meets.bind (starts.delegateCall _ _ _ _) fun _ holds => callReturn_starts frame holds
  · trivial

theorem opStaticCall_starts :
    Meets (fun r => R r.evm) (fun _ => True) (opStaticCall env run frame evm) := by
  unfold opStaticCall
  split
  · apply Meets.bind_ok fun _ _ => trivial
    intro args _
    exact Meets.bind (starts.staticCall _ _ _ _) fun _ holds => callReturn_starts frame holds
  · trivial

/-- An instruction that starts a frame leaves the machine that the frame's call returned, so
it keeps what the calls promise of it. -/
theorem execute_starts (f : executionFunc) (starting : f.startsFrame = true) :
    Meets (fun r => R r.evm) (fun _ => True) (f.apply env run frame evm) := by
  cases f with
  | opCreate => exact opCreate_starts env run frame evm starts
  | opCall => exact opCall_starts env run frame evm starts
  | opCallCode => exact opCallCode_starts env run frame evm starts
  | opDelegateCall => exact opDelegateCall_starts env run frame evm starts
  | opStaticCall => exact opStaticCall_starts env run frame evm starts
  | _ => cases starting

/-- Every instruction, with the operands it takes, keeps what journalled changes of the state
keep and the five calls keep: the machine an instruction leaves is the one it was given with
another state, or the one a call it made returned. -/
theorem execute_within {f : executionFunc} {pop push : Nat} (args : f.stackArgs = some (pop, push))
    (safe : ∀ c i e, Meets (fun _ => True) (· ≠ .panic .stack) (run c i e))
    (enough : pop ≤ frame.stack.length)
    (journalled : ∀ db, Journalled env.keccak evm.StateDB db → R { evm with StateDB := db }) :
    Meets (fun r => R r.evm) (fun _ => True) (f.apply env run frame evm) := by
  cases starting : f.startsFrame with
  | false =>
    refine (execute_effect f args env run frame evm enough safe).mono ?_ fun _ _ => trivial
    intro r ⟨_, isLocal⟩
    obtain ⟨_, db, changed, same⟩ := isLocal starting
    rw [same]
    exact journalled db changed
  | true => exact execute_starts env run frame evm starts f starting

end Frames

/-- An instruction that starts a frame logs only what the frame logs. -/
theorem execute_logged (env : Env) (run : RunFn) (frame : Frame) (evm : EVM)
    {Q : StructLog → Prop}
    (nested : ∀ c i e, Meets (fun r => Logged Q e r.evm) (fun _ => True) (run c i e))
    (f : executionFunc) (starts : f.startsFrame = true) :
    Meets (fun r => Logged Q evm r.evm) (fun _ => True) (f.apply env run frame evm) :=
  execute_starts env run frame evm
    ⟨fun _ _ _ _ => Create_logged env run nested, fun _ _ _ _ _ => Call_logged env run nested,
      fun _ _ _ _ _ => CallCode_logged env run nested,
      fun _ _ _ _ => DelegateCall_logged env run nested,
      fun _ _ _ _ => StaticCall_logged env run nested⟩ f starts

end Indigo.Evm
