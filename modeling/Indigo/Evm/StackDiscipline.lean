import Indigo.Evm.Effects

/-!
# Stack discipline

`Interpreter.Run` checks an operation's stack with the counts `stack_table.go` builds from
its jump-table entry, and then reads the stack three more times without a check: in
`enforceRestrictions` (the value of a `CALL`), in the memory-size function and in the gas
function, before `execute` takes its operands. A count that does not match its body is an
index panic, or a stack that grows past `StackLimit`, for that opcode alone.

## Main results

- `consistent_tables`: every entry of the Frontier, Homestead and Byzantium tables is
  `Consistent`: its `execute` takes and gives the counts of its stack check, and its gas
  and memory functions read no deeper.
- `stack_discipline`: every valid operation's `execute` replaces `pop` items by `push`;
  and no run of the interpreter reads below the bottom of the stack, nor logs a stack of
  more than `StackLimit` items.

## Proof strategy

The table facts are decided entry by entry. From them, `prepare` and `charge` cannot fail
(`prepare_total`, `charge_total`), and `execute_effect` gives the stack after the
instruction; `step_stack` is one round, and `runner_stack` follows by strong induction on
the fuel through `loop_rule`, the frames a round starts being runs with less fuel.
-/

namespace Indigo.Evm

open Indigo.Lib Indigo.State

/-! ### How deep the functions of an entry read -/

/-- How deep into the stack a gas function reads. -/
def gasFunc.reads : gasFunc → Nat
  | .gasCallDataCopy | .gasReturnDataCopy | .gasCodeCopy | .gasCall | .gasCallCode => 3
  | .gasExtCodeCopy => 4
  | .gasSStore | .makeGasLog _ | .gasSha3 | .gasExp => 2
  | .gasSuicide | .gasDelegateCall | .gasStaticCall => 1
  | _ => 0

/-- How deep into the stack a memory-size function reads. -/
def memorySizeFunc.reads : memorySizeFunc → Nat
  | .memoryMLoad | .memoryMStore8 | .memoryMStore => 1
  | .memorySha3 | .memoryReturn | .memoryRevert | .memoryLog => 2
  | .memoryCallDataCopy | .memoryReturnDataCopy | .memoryCodeCopy | .memoryCreate => 3
  | .memoryExtCodeCopy => 4
  | .memoryDelegateCall | .memoryStaticCall => 6
  | .memoryCall => 7

/-- What the interpreter relies on of a table entry: its `execute` takes and gives the
counts of its stack check, its gas and memory functions read no deeper, and `CALL` has the
value that `enforceRestrictions` reads. -/
def Consistent (entry : OpCode × operation) : Prop :=
  entry.2.execute.stackArgs = some (entry.2.validateStack.pop, entry.2.validateStack.push) ∧
  entry.2.gasCost.reads ≤ entry.2.validateStack.pop ∧
  entry.2.memorySize.elim 0 memorySizeFunc.reads ≤ entry.2.validateStack.pop ∧
  (entry.1 = CALL → 3 ≤ entry.2.validateStack.pop)

instance : DecidablePred Consistent := fun _ => inferInstanceAs (Decidable (_ ∧ _ ∧ _ ∧ _))

/-- The three instruction sets. -/
def instructionSets : List JumpTable :=
  [NewFrontierInstructionSet, NewHomesteadInstructionSet, NewByzantiumInstructionSet]

theorem Env.jumpTable_mem (env : Env) : env.jumpTable ∈ instructionSets := by
  unfold Env.jumpTable instructionSets
  split
  · simp
  · split <;> simp

theorem consistent_frontier : ∀ entry ∈ NewFrontierInstructionSet, Consistent entry := by
  unfold NewFrontierInstructionSet
  simp only [List.forall_mem_append]
  refine ⟨⟨⟨⟨⟨⟨by decide, by decide⟩, by decide⟩, by decide⟩, by decide⟩, by decide⟩, by decide⟩

theorem consistent_tables : ∀ table ∈ instructionSets, ∀ entry ∈ table, Consistent entry := by
  simp only [instructionSets, List.mem_cons, List.not_mem_nil, or_false, forall_eq_or_imp,
    forall_eq]
  refine ⟨consistent_frontier, ?_, ?_⟩
  · unfold NewHomesteadInstructionSet
    exact List.forall_mem_cons.mpr ⟨by decide, consistent_frontier⟩
  · unfold NewByzantiumInstructionSet NewHomesteadInstructionSet
    simp only [List.forall_mem_append, List.forall_mem_cons]
    exact ⟨⟨by decide, by decide, by decide, by decide, fun _ no => absurd no List.not_mem_nil⟩,
      by decide, consistent_frontier⟩

theorem consistent_of_get {env : Env} {op : OpCode} {operation : operation}
    (found : env.jumpTable.get op = some operation) : Consistent (op, operation) :=
  consistent_tables _ env.jumpTable_mem _ (JumpTable.mem_of_get found)

/-! ### The reads before `execute` cannot fail -/

section Reads

variable (env : Env) {stack : Stack}

theorem memorySizeFunc.apply_total (f : memorySizeFunc) (enough : f.reads ≤ stack.length) :
    Meets (fun _ => True) (fun _ => False) (f.apply stack) := by
  cases f with
  | memoryMLoad | memoryMStore8 | memoryMStore =>
    exact Meets.bind (Stack.Back_meets enough) fun _ _ => trivial
  | memorySha3 | memoryReturn | memoryRevert | memoryLog | memoryCallDataCopy
  | memoryReturnDataCopy | memoryCodeCopy | memoryCreate | memoryExtCodeCopy =>
    simp only [memorySizeFunc.reads] at enough
    exact Meets.bind (Stack.Back_meets (by omega)) fun _ _ =>
      Meets.bind (Stack.Back_meets (by omega)) fun _ _ => trivial
  | memoryCall | memoryDelegateCall | memoryStaticCall =>
    simp only [memorySizeFunc.reads] at enough
    exact Meets.bind (Stack.Back_meets (by omega)) fun _ _ =>
      Meets.bind (Stack.Back_meets (by omega)) fun _ _ =>
      Meets.bind (Stack.Back_meets (by omega)) fun _ _ =>
      Meets.bind (Stack.Back_meets (by omega)) fun _ _ => trivial

theorem wordGas_total {base perWord lengthSlot : Nat} {mem : Memory} {memorySize : Nat}
    (enough : lengthSlot < stack.length) :
    Meets (fun _ => True) (fun _ => False) (wordGas base perWord lengthSlot stack mem memorySize) := by
  unfold wordGas
  split
  · trivial
  · split
    · trivial
    · exact Meets.bind (Stack.Back_meets enough) fun _ _ => trivial

theorem callGasAndTemp_total {gt : GasTable} {evm : EVM} {contract : Contract} {mem : Memory}
    {memorySize gas : Nat} (enough : 1 ≤ stack.length) :
    Meets (fun _ => True) (fun _ => False)
      (callGasAndTemp gt evm contract stack mem memorySize gas) := by
  unfold callGasAndTemp
  split
  · trivial
  · split
    · trivial
    · exact Meets.bind (Stack.Back_meets enough) fun _ _ => trivial

theorem gasFunc.apply_total (g : gasFunc) {gt : GasTable} {evm : EVM} {contract : Contract}
    {mem : Memory} {memorySize : Nat} (enough : g.reads ≤ stack.length) :
    Meets (fun _ => True) (fun _ => False) (g.apply env gt evm contract stack mem memorySize) := by
  cases g with
  | constGasFunc | gasBalance | gasExtCodeSize | gasSLoad | gasPush | gasSwap | gasDup
  | gasMLoad | gasMStore8 | gasMStore | gasCreate | gasReturn | gasRevert => trivial
  | gasCallDataCopy | gasReturnDataCopy | gasCodeCopy | gasExtCodeCopy | gasSha3 =>
    simp only [gasFunc.reads] at enough
    exact Meets.bind (wordGas_total (by omega)) fun _ _ => trivial
  | makeGasLog n =>
    apply Meets.bind_true
    · exact Meets.bind (Stack.Back_meets enough) fun _ _ => trivial
    · intro _
      trivial
  | gasExp =>
    apply Meets.bind_true
    · exact Meets.bind (Stack.Back_meets enough) fun _ _ => trivial
    · intro _
      trivial
  | gasSStore =>
    simp only [gasFunc.reads] at enough
    apply Meets.bind_true
    · apply Meets.bind (Stack.Back_meets (by omega))
      intro _ _
      apply Meets.bind (Stack.Back_meets (by omega))
      intro _ _
      dsimp only
      split_ifs <;> trivial
    · intro _
      trivial
  | gasCall =>
    simp only [gasFunc.reads] at enough
    exact Meets.bind (Stack.Back_meets (by omega)) fun _ _ =>
      Meets.bind (Stack.Back_meets (by omega)) fun _ _ => callGasAndTemp_total (by omega)
  | gasCallCode =>
    simp only [gasFunc.reads] at enough
    exact Meets.bind (Stack.Back_meets (by omega)) fun _ _ => callGasAndTemp_total (by omega)
  | gasDelegateCall | gasStaticCall => exact callGasAndTemp_total enough
  | gasSuicide =>
    simp only [gasFunc.reads] at enough
    apply Meets.bind_true
    · unfold Evm.gasSuicide
      dsimp only
      split
      · apply Meets.bind (Stack.Back_meets (by omega))
        intro _ _
        split_ifs <;> trivial
      · trivial
    · intro _
      trivial

theorem enforceRestrictions_total {op : OpCode} {operation : operation} {evm : EVM}
    (call : op = CALL → 3 ≤ stack.length) :
    Meets (fun _ => True) (fun _ => False) (enforceRestrictions env op operation stack evm) := by
  unfold enforceRestrictions
  split
  · split
    · trivial
    · split
      · next isCall =>
        have deep := call isCall
        exact Meets.bind (Stack.Back_meets (by omega)) fun _ _ => trivial
      · trivial
  · trivial

theorem memorySizeOf_total {operation : operation}
    (enough : operation.memorySize.elim 0 memorySizeFunc.reads ≤ stack.length) :
    Meets (fun _ => True) (fun _ => False) (memorySizeOf operation stack) := by
  unfold memorySizeOf
  split
  · trivial
  · next f found =>
    rw [found] at enough
    exact Meets.bind (f.apply_total enough) fun _ _ => trivial

/-- Nothing before the gas can fail: the stack check comes first, and what follows reads no
deeper than it checked. -/
theorem prepare_total (op : OpCode) (evm : EVM) :
    Meets (fun _ => True) (fun _ => False) (Interpreter.prepare env op stack evm) := by
  unfold Interpreter.prepare
  split
  · trivial
  · next operation found =>
    have consistent := consistent_of_get found
    obtain ⟨_, _, sized, call⟩ := consistent
    dsimp only at sized call
    split
    · trivial
    · next valid =>
      have enough := ((validate_eq_none_iff _ _).mp valid).1
      apply Meets.bind_true (enforceRestrictions_total env fun isCall => by
        have deep := call isCall
        omega)
      intro allowed
      split
      · trivial
      · exact Meets.bind_true (memorySizeOf_total (by omega)) fun _ => trivial

theorem charge_total {operation : operation} {frame : Frame} {evm : EVM} {memorySize : Nat}
    (enough : operation.gasCost.reads ≤ frame.stack.length) :
    Meets (fun _ => True) (fun _ => False) (Interpreter.charge env operation frame evm memorySize) := by
  unfold Interpreter.charge
  split
  · trivial
  · exact Meets.bind_true (operation.gasCost.apply_total env enough) fun _ => trivial

/-- So the charge of an operation that `prepare` let through cannot fail. -/
theorem charge_prepared {op : OpCode} {operation : operation} {frame : Frame} {evm : EVM}
    {memorySize : Nat}
    (found : Interpreter.prepare env op frame.stack evm = .ok (.ok (operation, memorySize))) :
    Meets (fun _ => True) (fun _ => False)
      (Interpreter.charge env operation frame evm memorySize) := by
  obtain ⟨found, valid, _, _⟩ := prepare_ok env found
  obtain ⟨_, reads, _, _⟩ := consistent_of_get found
  have enough := ((validate_eq_none_iff _ _).mp valid).1
  exact charge_total env (by dsimp only at reads; omega)

end Reads

/-! ### Runs -/

section Run

variable (env : Env)

/-- The return data an operation may keep is not a log. -/
theorem returned_structLogs {operation : operation} {r : Executed} :
    (if operation.returns then { r.evm with returnData := r.ret } else r.evm).structLogs =
      r.evm.structLogs := by
  split <;> rfl

/-- Nor is it a change of the state. -/
theorem returned_StateDB {operation : operation} {r : Executed} :
    (if operation.returns then { r.evm with returnData := r.ret } else r.evm).StateDB =
      r.evm.StateDB := by
  split <;> rfl

/-- A round that executes its instruction runs it on the stack it started with, which the
instruction's check has passed; the counts of the instruction are its check's. -/
theorem executes_stack {op : OpCode} {frame charged grown : Frame} {evm evm' : EVM}
    {operation : operation} {memorySize cost : Nat}
    (found : Interpreter.prepare env op frame.stack evm = .ok (.ok (operation, memorySize)))
    (ok : Interpreter.charge env operation frame evm memorySize = .ok (some cost, charged, evm'))
    (grownEq : grown = if memorySize > 0 then
      { charged with memory := charged.memory.Resize memorySize } else charged) :
    operation.execute.stackArgs =
        some (operation.validateStack.pop, operation.validateStack.push) ∧
      grown.stack = frame.stack ∧ operation.validateStack.validate frame.stack = none := by
  obtain ⟨found, valid, _, _⟩ := prepare_ok env found
  obtain ⟨args, _, _, _⟩ := consistent_of_get found
  obtain ⟨mem, contract, db, temp, rfl, -⟩ := charge_shape env ok
  refine ⟨args, ?_, valid⟩
  rw [grownEq]
  split <;> rfl

/-- The instruction of a round, with the operands it needs, from a machine whose log is
within the limit: its stack effect, and a log still within the limit. -/
theorem execute_stack {run : RunFn} {e : EVM} {f : executionFunc} {pop push : Nat}
    {frame : Frame} {evm : EVM} (args : f.stackArgs = some (pop, push))
    (nested : ∀ c i e', Meets (fun r => Logged (fun l => l.Stack.length ≤ StackLimit) e' r.evm)
      (· ≠ .panic .stack) (run c i e'))
    (enough : pop ≤ frame.stack.length)
    (logged : Logged (fun l => l.Stack.length ≤ StackLimit) e evm) :
    Meets (fun r => StackEffect frame.stack pop push r ∧
        Logged (fun l => l.Stack.length ≤ StackLimit) e r.evm)
      (· ≠ .panic .stack) (f.apply env run frame evm) := by
  have effect := execute_effect f args env run frame evm enough
    (fun c i e' => (nested c i e').mono (fun _ _ => trivial) fun _ ne => ne)
  have traced : Meets (fun r => Logged (fun l => l.Stack.length ≤ StackLimit) e r.evm)
      (fun _ => True) (f.apply env run frame evm) := by
    cases starts : f.startsFrame with
    | false =>
      exact effect.mono (fun _ after => logged.trans (after.2 starts).logged) fun _ _ => trivial
    | true =>
      exact (execute_logged env run frame evm
        (fun c i e' => (nested c i e').mono (fun _ l => l) fun _ _ => trivial) f starts).mono
        (fun _ l => logged.trans l) fun _ _ => trivial
  exact (effect.and_post traced).mono (fun _ both => ⟨both.1.1, both.2⟩) fun _ ne => ne.1

/-- One round keeps the stack within the limit and logs only stacks within it, and reads
nothing below the bottom of the stack, given frames it starts that do the same. -/
theorem step_stack {run : RunFn} {e : EVM} {frame : Frame} {evm : EVM}
    (nested : ∀ c i e', Meets (fun r => Logged (fun l => l.Stack.length ≤ StackLimit) e' r.evm)
      (· ≠ .panic .stack) (run c i e'))
    (bounded : frame.stack.length ≤ StackLimit)
    (logged : Logged (fun l => l.Stack.length ≤ StackLimit) e evm) :
    Meets (Step.Holds
        (fun frame' evm' => frame'.stack.length ≤ StackLimit ∧
          Logged (fun l => l.Stack.length ≤ StackLimit) e evm')
        (fun r => Logged (fun l => l.Stack.length ≤ StackLimit) e r.evm))
      (· ≠ .panic .stack) (Interpreter.step env run frame evm) := by
  apply step_rule env
  case prepareFails =>
    intro f fails
    exact ((prepare_total env _ evm).of_error fails).elim
  case invalid =>
    intro err _
    exact logged
  case chargeFails =>
    intro operation memorySize f found fails
    exact ((charge_prepared env found).of_error fails).elim
  case outOfGas =>
    intro operation memorySize charged evm' _ ok
    obtain ⟨_, _, db, temp, _, rfl⟩ := charge_shape env ok
    exact logged.congr_right rfl
  case executes =>
    intro operation memorySize cost charged evm' found ok grown grownEq
    obtain ⟨args, sameStack, valid⟩ := executes_stack env found ok grownEq
    obtain ⟨enough, room⟩ := (validate_eq_none_iff _ _).mp valid
    obtain ⟨mem, contract, db, temp, rfl, rfl⟩ := charge_shape env ok
    -- the log records the stack the instruction starts from
    refine (execute_stack env args nested (by rw [sameStack]; exact enough)
      (logged.trans (.snoc ?_ rfl))).mono ?_ fun _ ne => ne
    · show grown.stack.length ≤ StackLimit
      rw [sameStack]
      exact bounded
    · rintro r ⟨⟨pushed, pushedLength, stackAfter⟩, loggedAfter⟩
      apply conclude_rule
      · intro pc _ _ _
        constructor
        · show r.frame.stack.length ≤ StackLimit
          rw [stackAfter, List.length_append, List.length_drop, pushedLength, sameStack]
          omega
        · exact loggedAfter.congr_right returned_structLogs
      · intro ret err
        exact loggedAfter.congr_right returned_structLogs

/-- A run of the interpreter reads nothing below the bottom of the stack and logs only
stacks within the limit, for every amount of fuel. -/
theorem runner_stack (fuel : Nat) : ∀ contract input evm,
    Meets (fun r => Logged (fun l => l.Stack.length ≤ StackLimit) evm r.evm)
      (· ≠ .panic .stack) (runner env fuel contract input evm) := by
  intro contract input evm
  refine @runner_induction env (fun _ _ => True)
    (fun _ evm r => Logged (fun l => l.Stack.length ≤ StackLimit) evm r.evm)
    (fun _ _ => (· ≠ .panic .stack))
    (fun _ _ _ _ _ => .refl _) (fun _ _ _ => .of_eq rfl) ?_ fuel contract input evm trivial
  intro fuel ih contract input evm _
  -- the loop of the frame, whose rounds start frames with less fuel
  have loop := @loop_rule env fuel
    (fun _ frame evm' => frame.stack.length ≤ StackLimit ∧
      Logged (fun l => l.Stack.length ≤ StackLimit) evm evm')
    (fun r => Logged (fun l => l.Stack.length ≤ StackLimit) evm r.evm) (· ≠ .panic .stack)
    (fun _ _ _ => nofun) (fun _ _ _ _ inv _ => inv.2)
    (fun m _ _ lt inv _ => step_stack env (fun c i e' => ih m lt c i e' trivial) inv.1 inv.2)
  exact (loop ⟨0, { contract with Input := input }, Memory.NewMemory, []⟩
    { evm with depth := evm.depth + 1, returnData := [] } ⟨Nat.zero_le _, .of_eq rfl⟩).mono
    (fun r l => l.congr_right rfl) fun _ ne => ne

end Run


/-- The stack discipline of the interpreter: every operation of the three tables, given the
operands its check asks for, replaces `pop` items by `push`, and a run of the interpreter
never reads below the bottom of the stack nor holds more than `StackLimit` items in any
state it logs. -/
theorem stack_discipline :
    (∀ table ∈ instructionSets, ∀ op operation, table.get op = some operation →
      ∀ env fuel frame evm, operation.validateStack.pop ≤ frame.stack.length →
        Meets (StackEffect frame.stack operation.validateStack.pop operation.validateStack.push)
          (· ≠ .panic .stack) (operation.execute.apply env (runner env fuel) frame evm)) ∧
    ∀ env fuel contract input evm,
      Meets (fun r => Logged (fun l => l.Stack.length ≤ StackLimit) evm r.evm)
        (· ≠ .panic .stack) (runner env fuel contract input evm) := by
  constructor
  · intro table member op operation found env fuel frame evm enough
    obtain ⟨args, _, _, _⟩ := consistent_tables table member _ (JumpTable.mem_of_get found)
    have nested : ∀ c i e, Meets (fun _ => True) (· ≠ .panic .stack) (runner env fuel c i e) :=
      fun c i e => (runner_stack env fuel c i e).mono (fun _ _ => trivial) fun _ ne => ne
    exact (execute_effect _ args env _ frame evm enough nested).mono (fun _ both => both.1)
      fun _ ne => ne.1
  · intro env fuel
    exact runner_stack env fuel

theorem stack_discipline_add :
    Meets (StackEffect [2, 3] 2 1) (· ≠ .panic .stack)
      (executionFunc.apply
        ⟨⟨fun _ => Hash.zero, 0, 0, 0, 0, 0, 0, 0⟩, ⟨true, true, true, true⟩,
          ⟨false, false, false⟩, fun _ => Hash.zero, fun _ => ⟨fun _ => 0, fun _ => .ok []⟩⟩
        (runner ⟨⟨fun _ => Hash.zero, 0, 0, 0, 0, 0, 0, 0⟩, ⟨true, true, true, true⟩,
          ⟨false, false, false⟩, fun _ => Hash.zero, fun _ => ⟨fun _ => 0, fun _ => .ok []⟩⟩ 0)
        ⟨0, NewContract (.AccountRef 0) 0 0 0, Memory.NewMemory, [2, 3]⟩
        ⟨StateDB.New (fun _ => none) Hash.zero Hash.zero 0, 0, 0, false, [], false, []⟩
        (.arith .ADD)) :=
  stack_discipline.1 NewFrontierInstructionSet (by simp [instructionSets]) ADD _ rfl _ 0
    ⟨0, NewContract (.AccountRef 0) 0 0 0, Memory.NewMemory, [2, 3]⟩ _ (by decide)

/-! ### A call that calls on -/

/-- Two accounts with code, at which the modules on top of this one apply their results: the
code at `100` calls `200` with all its gas, drops the result, stores at its slot 0 and
reverts; the code at `200` stores at its slot 0 and stops. -/
def callingTrie (a : Address) : Option StateObject :=
  if a = 100 then
    some ⟨0, 0, Hash.zero, [0x60, 0x00, 0x60, 0x00, 0x60, 0x00, 0x60, 0x00, 0x60, 0x00, 0x60, 0xC8,
      0x5A, 0xF1, 0x50, 0x60, 0x01, 0x60, 0x00, 0x55, 0x60, 0x00, 0x60, 0x00, 0xFD], fun _ => 0,
      false, false⟩
  else if a = 200 then
    some ⟨0, 0, Hash.zero, [0x60, 0x01, 0x60, 0x00, 0x55, 0x00], fun _ => 0, false, false⟩
  else none

end Indigo.Evm
