import Indigo.Evm.Interpreter
import Indigo.State.Revert
import Indigo.Lib.Except

/-!
# Runs of the interpreter

The rules that every result about whole runs is built from. A run is a call tree: the loop
of `Interpreter.Run` executes rounds, and a round that calls or creates starts a frame that
runs a loop of its own. `loop_rule` is the invariant rule of one loop, with the invariant
indexed by the rounds left. The five ways into a frame have one rule each
(`Call_rule` and its siblings), which list every way the call can end, so that a property
of calls is proved branch by branch, without unfolding them again.

## Main results

- `loop_rule`: an invariant that every round keeps, and that gives the postcondition where
  a round ends the loop, holds through a loop of any number of rounds.
- `endCall_rule`, `Call_rule`, `CallCode_rule`, `DelegateCall_rule`, `StaticCall_rule`,
  `endCreate_rule`, `Create_rule`: the outcomes of a call.
- `Logged`: the machine after a run is the machine before it with `StructLog`s appended.
-/

namespace Indigo.Evm

open Indigo.Lib Indigo.State

/-! ### The trace -/

/-- `after` has the trace of `before` with more entries appended, each satisfying `P`. -/
def Logged (P : StructLog → Prop) (before after : EVM) : Prop :=
  ∃ new, after.structLogs = before.structLogs ++ new ∧ ∀ l ∈ new, P l

namespace Logged

variable {P : StructLog → Prop} {e₁ e₂ e₃ : EVM}

theorem of_eq (same : e₂.structLogs = e₁.structLogs) : Logged P e₁ e₂ :=
  ⟨[], by simp [same], by simp⟩

theorem refl (e : EVM) : Logged P e e := of_eq rfl

theorem trans (first : Logged P e₁ e₂) (second : Logged P e₂ e₃) : Logged P e₁ e₃ := by
  obtain ⟨new, logs, holds⟩ := first
  obtain ⟨new', logs', holds'⟩ := second
  refine ⟨new ++ new', by rw [logs', logs, List.append_assoc], ?_⟩
  intro l member
  rcases List.mem_append.mp member with early | late
  · exact holds l early
  · exact holds' l late

/-- Only the trace counts: a machine with the same trace is logged alike. -/
theorem congr_right {e₂' : EVM} (logged : Logged P e₁ e₂) (same : e₂'.structLogs = e₂.structLogs) :
    Logged P e₁ e₂' :=
  logged.trans (of_eq same)

theorem congr_left {e₁' : EVM} (logged : Logged P e₁ e₂) (same : e₁'.structLogs = e₁.structLogs) :
    Logged P e₁' e₂ :=
  (of_eq same.symm).trans logged

theorem snoc {l : StructLog} (holds : P l) (same : e₂.structLogs = e₁.structLogs ++ [l]) :
    Logged P e₁ e₂ :=
  ⟨[l], same, by simpa using holds⟩

theorem mono {Q : StructLog → Prop} (logged : Logged P e₁ e₂) (weaker : ∀ l, P l → Q l) :
    Logged Q e₁ e₂ := by
  obtain ⟨new, logs, holds⟩ := logged
  exact ⟨new, logs, fun l member => weaker l (holds l member)⟩

end Logged

/-! ### Journalled changes of the state -/

/-- `t` is `s` after journalled methods of the state database: no `Snapshot` and no revert. -/
def Journalled (keccak : Bytes → Hash) (s t : StateDB) : Prop :=
  ∃ ops : List Op, (∀ op ∈ ops, (∀ revid, op ≠ .RevertToSnapshot revid) ∧ op ≠ .Snapshot) ∧
    Op.applyAll keccak ops s = some t

namespace Journalled

variable {keccak : Bytes → Hash} {s u t : StateDB}

theorem refl (s : StateDB) : Journalled keccak s s :=
  ⟨[], fun _ member => absurd member List.not_mem_nil, rfl⟩

theorem trans (first : Journalled keccak s u) (second : Journalled keccak u t) :
    Journalled keccak s t := by
  obtain ⟨ops, methods, applied⟩ := first
  obtain ⟨ops', methods', applied'⟩ := second
  refine ⟨ops ++ ops', fun op member => ?_, ?_⟩
  · rcases List.mem_append.mp member with early | late
    · exact methods op early
    · exact methods' op late
  · unfold Op.applyAll at applied applied' ⊢
    rw [List.foldlM_append, applied]
    exact applied'

theorem single (op : Op) (method : ∀ revid, op ≠ .RevertToSnapshot revid)
    (notSnapshot : op ≠ .Snapshot) (applied : op.apply keccak s = some t) :
    Journalled keccak s t := by
  refine ⟨[op], fun op' member => ?_, ?_⟩
  · rw [List.mem_singleton.mp member]
    exact ⟨method, notSnapshot⟩
  · simp [Op.applyAll, applied]

end Journalled

/-! ### The loop -/

section Loop

variable (env : Env)

/-- What a round promises: `next` of the frame and machine the loop goes on with, or `done`
of the result the loop ends with. -/
def Step.Holds (next : Frame → EVM → Prop) (done : Ran → Prop) : Step → Prop
  | .next frame evm => next frame evm
  | .done r => done r

/-- The invariant rule of the loop of `Interpreter.Run`. The invariant `I m` holds with `m`
rounds left; the frames a round starts run with the rounds left after it, through
`runner env m`. -/
theorem loop_rule {fuel : Nat} (I : Nat → Frame → EVM → Prop) (post : Ran → Prop)
    (fail : Failure → Prop) (outOfFuel : ∀ frame evm, I 0 frame evm → fail .outOfFuel)
    (aborted : ∀ m frame evm, m < fuel → I (m + 1) frame evm → evm.abort = true →
      post ⟨[], none, frame.contract, evm⟩)
    (round : ∀ m frame evm, m < fuel → I (m + 1) frame evm → evm.abort = false →
      Meets (Step.Holds (I m) post) fail (Interpreter.step env (runner env m) frame evm)) :
    ∀ frame evm, I fuel frame evm → Meets post fail (Interpreter.loop env fuel frame evm) := by
  induction fuel with
  | zero =>
    intro frame evm inv
    exact outOfFuel frame evm inv
  | succ m ih =>
    intro frame evm inv
    -- the rounds after this one form a loop of `m` rounds
    have later := ih (fun k frame evm lt => aborted k frame evm (by omega))
      (fun k frame evm lt => round k frame evm (by omega))
    unfold Interpreter.loop
    cases abort : evm.abort with
    | true => exact aborted m frame evm (by omega) inv abort
    | false =>
      simp only [Bool.false_eq_true, if_false]
      apply Meets.bind (round m frame evm (by omega) inv abort)
      intro s holds
      cases s with
      | next frame' evm' => exact later frame' evm' holds
      | done r => exact holds

/-- The package function `run`: a precompiled contract returns with the machine it was
given; otherwise the interpreter runs. -/
theorem run_rule {interpreterRun : RunFn} {contract : Contract} {input : Bytes} {evm : EVM}
    {P : Ran → Prop} {fail : Failure → Prop}
    (precompiled : ∀ p, contract.CodeAddr.bind env.precompiles = some p →
      P ⟨(RunPrecompiledContract p input contract).1,
        (RunPrecompiledContract p input contract).2.1,
        (RunPrecompiledContract p input contract).2.2, evm⟩)
    (interpreted : Meets P fail (interpreterRun contract input evm)) :
    Meets P fail (run env interpreterRun contract input evm) := by
  unfold run
  split
  · next p found => exact precompiled p found
  · exact interpreted

/-- `Interpreter.Run`: a contract without code returns at once; otherwise the loop runs one
level deeper, from `pc` 0 with an empty memory and stack. -/
theorem Run_rule {loop : Frame → EVM → Except Failure Ran} {contract : Contract} {input : Bytes}
    {evm : EVM} {P : Ran → Prop} {fail : Failure → Prop}
    (empty : contract.Code.isEmpty = true →
      P ⟨[], none, contract, { evm with depth := evm.depth + 1 - 1, returnData := [] }⟩)
    (ran : Meets (fun r => P { r with evm := { r.evm with depth := r.evm.depth - 1 } }) fail
      (loop ⟨0, { contract with Input := input }, Memory.NewMemory, []⟩
        { evm with depth := evm.depth + 1, returnData := [] })) :
    Meets P fail (Interpreter.Run loop contract input evm) := by
  unfold Interpreter.Run
  dsimp only
  split
  · next isEmpty => exact empty isEmpty
  · exact Meets.bind ran fun _ holds => holds

/-- The induction every result about whole runs goes by: a promise about the runs of
contracts from machines `pre` holds at every amount of fuel if precompiles and empty code
keep it, and the loop of a frame keeps it whenever the frames its rounds start, with less
fuel, do. -/
theorem runner_induction {pre : Contract → EVM → Prop} {post : Contract → EVM → Ran → Prop}
    {fail : Nat → Contract → Failure → Prop}
    (precompiled : ∀ (evm : EVM) (contract : Contract) (input : Bytes) p, pre contract evm →
      post contract evm ⟨(RunPrecompiledContract p input contract).1,
        (RunPrecompiledContract p input contract).2.1,
        (RunPrecompiledContract p input contract).2.2, evm⟩)
    (empty : ∀ (evm : EVM) (contract : Contract), pre contract evm →
      post contract evm
        ⟨[], none, contract, { evm with depth := evm.depth + 1 - 1, returnData := [] }⟩)
    (framed : ∀ fuel, (∀ m < fuel, ∀ c i e, pre c e → Meets (post c e) (fail m c) (runner env m c i e)) →
      ∀ (contract : Contract) (input : Bytes) (evm : EVM), pre contract evm →
        Meets (fun r : Ran => post contract evm
            { r with evm := { r.evm with depth := r.evm.depth - 1 } })
          (fail fuel contract)
          (Interpreter.loop env fuel ⟨0, { contract with Input := input }, Memory.NewMemory, []⟩
            { evm with depth := evm.depth + 1, returnData := [] })) :
    ∀ fuel contract input evm, pre contract evm →
      Meets (post contract evm) (fail fuel contract) (runner env fuel contract input evm) := by
  intro fuel
  induction fuel using Nat.strong_induction_on with
  | _ fuel ih =>
  intro contract input evm holds
  apply run_rule env
  · intro p _
    exact precompiled evm contract input p holds
  · apply Run_rule
    · intro _
      exact empty evm contract holds
    · exact framed fuel ih contract input evm holds

/-- The end of a round goes on with the frame the instruction left, at some `pc`, when the
instruction neither failed, reverted nor halted, or ends with its contract; the machine is
the instruction's, with the output as the return data if the operation returns. -/
theorem conclude_rule {operation : operation} {r : Executed} {N : Frame → EVM → Prop}
    {D : Ran → Prop}
    (next : ∀ pc, r.err = none → operation.reverts = false → operation.halts = false →
      N { r.frame with pc := pc }
        (if operation.returns then { r.evm with returnData := r.ret } else r.evm))
    (done : ∀ ret err, D ⟨ret, err, r.frame.contract,
      if operation.returns then { r.evm with returnData := r.ret } else r.evm⟩) :
    Step.Holds N D (Interpreter.conclude operation r) := by
  unfold Interpreter.conclude
  dsimp only
  split
  · exact done _ _
  · next ok =>
    split
    · exact done _ _
    · next reverts =>
      split
      · exact done _ _
      · next halts =>
        have reverts := Bool.eq_false_iff.mpr reverts
        have halts := Bool.eq_false_iff.mpr halts
        split
        · exact next r.frame.pc ok reverts halts
        · exact next (r.frame.pc + 1) ok reverts halts

end Loop

/-! ### A round -/

section Round

variable (env : Env)

theorem withEvm_evm {evm evm' : EVM} {r : Except Failure (Except VmError Nat × Memory)}
    {cost : Except VmError Nat} {mem' : Memory}
    (ok : gasFunc.apply.withEvm evm r = .ok (cost, evm', mem')) : evm' = evm := by
  unfold gasFunc.apply.withEvm at ok
  obtain ⟨⟨price, mem⟩, -, ok⟩ := bind_eq_ok.mp ok
  cases ok
  rfl

/-- `gasSStore` refunds the clearing of a slot. -/
theorem gasSStore_evm {evm evm' : EVM} {contract : Contract} {stack : Stack} {gas : Nat}
    (ok : gasSStore evm contract stack = .ok (gas, evm')) :
    evm' = evm ∨ evm' = { evm with StateDB := evm.StateDB.AddRefund SstoreRefundGas } := by
  unfold gasSStore at ok
  obtain ⟨y, -, ok⟩ := bind_eq_ok.mp ok
  obtain ⟨x, -, ok⟩ := bind_eq_ok.mp ok
  dsimp only at ok
  split at ok
  · cases ok
    exact .inl rfl
  · split at ok
    · cases ok
      exact .inr rfl
    · cases ok
      exact .inl rfl

/-- `gasSuicide` refunds the first self-destruct of an account. -/
theorem gasSuicide_evm {gt : GasTable} {evm evm' : EVM} {contract : Contract} {stack : Stack}
    {gas : Nat} (ok : gasSuicide env gt evm contract stack = .ok (gas, evm')) :
    evm' = evm ∨ evm' = { evm with StateDB := evm.StateDB.AddRefund SuicideRefundGas } := by
  -- whatever the price, every branch returns the machine refunded or not
  have refunded : ∀ e : EVM, e = (if (!evm.StateDB.HasSuicided contract.self) = true then
      { evm with StateDB := evm.StateDB.AddRefund SuicideRefundGas } else evm) →
      e = evm ∨ e = { evm with StateDB := evm.StateDB.AddRefund SuicideRefundGas } := by
    intro e shape
    split at shape
    · exact .inr shape
    · exact .inl shape
  apply refunded
  unfold gasSuicide at ok
  dsimp only at ok
  split at ok
  · obtain ⟨beneficiary, -, ok⟩ := bind_eq_ok.mp ok
    split at ok
    · split at ok <;> (cases ok; rfl)
    · split at ok <;> (cases ok; rfl)
  · cases ok
    rfl

/-- The gas functions of the calls set `callGasTemp` and nothing else of the machine. -/
theorem callGasAndTemp_evm {gt : GasTable} {evm evm' : EVM} {contract : Contract}
    {stack : Stack} {mem mem' : Memory} {memorySize gas : Nat} {cost : Except VmError Nat}
    (ok : callGasAndTemp gt evm contract stack mem memorySize gas = .ok (cost, evm', mem')) :
    ∃ temp, evm' = { evm with callGasTemp := temp } := by
  unfold callGasAndTemp at ok
  split at ok
  · cases ok
    exact ⟨evm.callGasTemp, rfl⟩
  · split at ok
    · cases ok
      exact ⟨evm.callGasTemp, rfl⟩
    · obtain ⟨callCost, -, ok⟩ := bind_eq_ok.mp ok
      split at ok
      · cases ok
        exact ⟨0, rfl⟩
      · next temp _ =>
        cases ok
        exact ⟨temp, rfl⟩

/-- A gas function sets the machine's `callGasTemp` or credits a refund to its state, and
changes nothing else of it. -/
theorem gasFunc.apply_refunds {g : gasFunc} {gt : GasTable} {evm evm' : EVM}
    {contract : Contract} {stack : Stack} {mem mem' : Memory} {memorySize : Nat}
    {cost : Except VmError Nat}
    (ok : g.apply env gt evm contract stack mem memorySize = .ok (cost, evm', mem')) :
    (∃ temp, evm' = { evm with callGasTemp := temp }) ∨
      ∃ refund, evm' = { evm with StateDB := evm.StateDB.AddRefund refund } := by
  cases g with
  | constGasFunc | gasBalance | gasExtCodeSize | gasSLoad | gasPush | gasSwap | gasDup =>
    cases ok
    exact .inl ⟨evm.callGasTemp, rfl⟩
  | gasCallDataCopy | gasReturnDataCopy | makeGasLog | gasSha3 | gasCodeCopy | gasExtCodeCopy
    | gasMLoad | gasMStore8 | gasMStore | gasCreate | gasReturn | gasRevert =>
    rw [withEvm_evm ok]
    exact .inl ⟨evm.callGasTemp, rfl⟩
  | gasSStore =>
    obtain ⟨⟨gas, evm''⟩, priced, ok⟩ := bind_eq_ok.mp ok
    cases ok
    rcases gasSStore_evm priced with same | refunded
    · exact .inl ⟨evm.callGasTemp, same⟩
    · exact .inr ⟨_, refunded⟩
  | gasSuicide =>
    obtain ⟨⟨gas, evm''⟩, priced, ok⟩ := bind_eq_ok.mp ok
    cases ok
    rcases gasSuicide_evm env priced with same | refunded
    · exact .inl ⟨evm.callGasTemp, same⟩
    · exact .inr ⟨_, refunded⟩
  | gasExp =>
    obtain ⟨gas, -, ok⟩ := bind_eq_ok.mp ok
    cases ok
    exact .inl ⟨evm.callGasTemp, rfl⟩
  | gasCall =>
    have priced : Evm.gasCall env gt evm contract stack mem memorySize = .ok (cost, evm', mem') := ok
    unfold Evm.gasCall at priced
    obtain ⟨value, -, priced⟩ := bind_eq_ok.mp priced
    obtain ⟨addr, -, priced⟩ := bind_eq_ok.mp priced
    exact .inl (callGasAndTemp_evm priced)
  | gasCallCode =>
    have priced : Evm.gasCallCode gt evm contract stack mem memorySize = .ok (cost, evm', mem') := ok
    unfold Evm.gasCallCode at priced
    obtain ⟨value, -, priced⟩ := bind_eq_ok.mp priced
    exact .inl (callGasAndTemp_evm priced)
  | gasDelegateCall | gasStaticCall => exact .inl (callGasAndTemp_evm ok)

/-- A gas function changes nothing of the machine but the state and `callGasTemp`. -/
theorem gasFunc.apply_evm {g : gasFunc} {gt : GasTable} {evm evm' : EVM} {contract : Contract}
    {stack : Stack} {mem mem' : Memory} {memorySize : Nat} {cost : Except VmError Nat}
    (ok : g.apply env gt evm contract stack mem memorySize = .ok (cost, evm', mem')) :
    ∃ db temp, evm' = { evm with StateDB := db, callGasTemp := temp } := by
  rcases gasFunc.apply_refunds env ok with ⟨temp, rfl⟩ | ⟨refund, rfl⟩
  · exact ⟨evm.StateDB, temp, rfl⟩
  · exact ⟨_, evm.callGasTemp, rfl⟩

/-- The state a gas function leaves is its machine's state after journalled methods: at most
a refund. -/
theorem gasFunc.apply_journalled {g : gasFunc} {gt : GasTable} {evm evm' : EVM}
    {contract : Contract} {stack : Stack} {mem mem' : Memory} {memorySize : Nat}
    {cost : Except VmError Nat}
    (ok : g.apply env gt evm contract stack mem memorySize = .ok (cost, evm', mem')) :
    Journalled env.keccak evm.StateDB evm'.StateDB := by
  rcases gasFunc.apply_refunds env ok with ⟨temp, rfl⟩ | ⟨refund, rfl⟩
  · exact .refl _
  · exact .single (.AddRefund refund) nofun nofun rfl

/-- What `prepare` found when it lets the round go on: the opcode's operation, with the stack
it needs, allowed, and the memory size it needs. -/
theorem prepare_ok {op : OpCode} {stack : Stack} {evm : EVM} {operation : operation}
    {memorySize : Nat}
    (ok : Interpreter.prepare env op stack evm = .ok (.ok (operation, memorySize))) :
    env.jumpTable.get op = some operation ∧ operation.validateStack.validate stack = none ∧
      enforceRestrictions env op operation stack evm = .ok none ∧
      memorySizeOf operation stack = .ok (.ok memorySize) := by
  unfold Interpreter.prepare at ok
  split at ok
  · cases ok
  · next found =>
    split at ok
    · cases ok
    · next valid =>
      obtain ⟨allowed, enforced, ok⟩ := bind_eq_ok.mp ok
      cases allowed with
      | some err => cases ok
      | none =>
        obtain ⟨size, sized, ok⟩ := bind_eq_ok.mp ok
        cases size with
        | error err => cases ok
        | ok ms =>
          cases ok
          exact ⟨found, valid, enforced, sized⟩

/-- `prepare` fails only where the operation's restrictions or its memory size fail. -/
theorem prepare_fails {op : OpCode} {stack : Stack} {evm : EVM} {f : Failure}
    (fails : Interpreter.prepare env op stack evm = .error f) :
    ∃ operation, env.jumpTable.get op = some operation ∧
      operation.validateStack.validate stack = none ∧
      (enforceRestrictions env op operation stack evm = .error f ∨
        ∃ allowed, enforceRestrictions env op operation stack evm = .ok allowed ∧
          memorySizeOf operation stack = .error f) := by
  unfold Interpreter.prepare at fails
  split at fails
  · cases fails
  · next operation found =>
    split at fails
    · cases fails
    · next valid =>
      refine ⟨operation, found, valid, ?_⟩
      rcases bind_eq_error.mp fails with enforced | ⟨allowed, enforced, fails⟩
      · exact .inl enforced
      · cases allowed with
        | some err => cases fails
        | none =>
          rcases bind_eq_error.mp fails with sized | ⟨size, sized, fails⟩
          · exact .inr ⟨none, enforced, sized⟩
          · cases fails

/-- A charge that lets the round go on: nothing without metering; otherwise the gas
function's price, paid from the contract's gas, with the memory and machine it leaves. -/
theorem charge_some {operation : operation} {frame frame' : Frame} {evm evm' : EVM}
    {memorySize cost : Nat}
    (ok : Interpreter.charge env operation frame evm memorySize = .ok (some cost, frame', evm')) :
    (env.vmConfig.DisableGasMetering = true ∧ cost = 0 ∧ frame' = frame ∧ evm' = evm) ∨
      (env.vmConfig.DisableGasMetering = false ∧ ∃ mem contract,
        operation.gasCost.apply env env.gasTable evm frame.contract frame.stack frame.memory
          memorySize = .ok (.ok cost, evm', mem) ∧
        frame.contract.UseGas cost = some contract ∧
        frame' = { frame with memory := mem, contract := contract }) := by
  unfold Interpreter.charge at ok
  cases metering : env.vmConfig.DisableGasMetering with
  | true =>
    simp only [metering, if_true] at ok
    cases ok
    exact .inl ⟨rfl, rfl, rfl, rfl⟩
  | false =>
    simp only [metering, Bool.false_eq_true, if_false] at ok
    obtain ⟨⟨price, evm'', mem⟩, priced, ok⟩ := bind_eq_ok.mp ok
    refine .inr ⟨rfl, mem, ?_⟩
    cases price with
    | error err => cases ok
    | ok price =>
      cases paid : frame.contract.UseGas price with
      | none =>
        simp only [paid] at ok
        cases ok
      | some contract =>
        simp only [paid] at ok
        cases ok
        exact ⟨contract, priced, paid, rfl⟩

/-- A charge that ends the round with `ErrOutOfGas`: the gas function ran, with metering,
and left the memory and machine of the result. -/
theorem charge_none {operation : operation} {frame frame' : Frame} {evm evm' : EVM}
    {memorySize : Nat}
    (ok : Interpreter.charge env operation frame evm memorySize = .ok (none, frame', evm')) :
    env.vmConfig.DisableGasMetering = false ∧ ∃ price mem,
      operation.gasCost.apply env env.gasTable evm frame.contract frame.stack frame.memory
        memorySize = .ok (price, evm', mem) ∧ frame' = { frame with memory := mem } := by
  unfold Interpreter.charge at ok
  cases metering : env.vmConfig.DisableGasMetering with
  | true =>
    simp only [metering, if_true] at ok
    cases ok
  | false =>
    simp only [metering, Bool.false_eq_true, if_false] at ok
    obtain ⟨⟨price, evm'', mem⟩, priced, ok⟩ := bind_eq_ok.mp ok
    refine ⟨rfl, price, mem, ?_⟩
    cases price with
    | error err =>
      cases ok
      exact ⟨priced, rfl⟩
    | ok price =>
      cases paid : frame.contract.UseGas price with
      | none =>
        simp only [paid] at ok
        cases ok
        exact ⟨priced, rfl⟩
      | some contract =>
        simp only [paid] at ok
        cases ok

/-- A charge fails only where the gas function fails. -/
theorem charge_fails {operation : operation} {frame : Frame} {evm : EVM} {memorySize : Nat}
    {f : Failure} (fails : Interpreter.charge env operation frame evm memorySize = .error f) :
    operation.gasCost.apply env env.gasTable evm frame.contract frame.stack frame.memory
      memorySize = .error f := by
  unfold Interpreter.charge at fails
  cases metering : env.vmConfig.DisableGasMetering with
  | true =>
    simp only [metering, if_true] at fails
    cases fails
  | false =>
    simp only [metering, Bool.false_eq_true, if_false] at fails
    rcases bind_eq_error.mp fails with priced | ⟨_, _, fails⟩
    · exact priced
    · cases fails

/-- A charge changes only the frame's memory and contract, and the machine's state and
`callGasTemp`. -/
theorem charge_shape {operation : operation} {frame frame' : Frame} {evm evm' : EVM}
    {memorySize : Nat} {cost : Option Nat}
    (ok : Interpreter.charge env operation frame evm memorySize = .ok (cost, frame', evm')) :
    ∃ mem contract db temp, frame' = { frame with memory := mem, contract := contract } ∧
      evm' = { evm with StateDB := db, callGasTemp := temp } := by
  cases cost with
  | none =>
    obtain ⟨_, price, mem, priced, rfl⟩ := charge_none env ok
    obtain ⟨db, temp, rfl⟩ := gasFunc.apply_evm env priced
    exact ⟨mem, frame.contract, db, temp, rfl, rfl⟩
  | some cost =>
    rcases charge_some env ok with ⟨_, _, sameFrame, sameEvm⟩ | ⟨_, mem, contract, priced, _, rfl⟩
    · rw [sameFrame, sameEvm]
      exact ⟨frame.memory, frame.contract, evm.StateDB, evm.callGasTemp, rfl, rfl⟩
    · obtain ⟨db, temp, rfl⟩ := gasFunc.apply_evm env priced
      exact ⟨mem, contract, db, temp, rfl, rfl⟩

/-- A charge changes the state by journalled methods only. -/
theorem charge_journalled {operation : operation} {frame frame' : Frame} {evm evm' : EVM}
    {memorySize : Nat} {cost : Option Nat}
    (ok : Interpreter.charge env operation frame evm memorySize = .ok (cost, frame', evm')) :
    Journalled env.keccak evm.StateDB evm'.StateDB := by
  cases cost with
  | none =>
    obtain ⟨_, price, mem, priced, _⟩ := charge_none env ok
    exact gasFunc.apply_journalled env priced
  | some cost =>
    rcases charge_some env ok with ⟨_, _, _, rfl⟩ | ⟨_, mem, contract, priced, _, _⟩
    · exact .refl _
    · exact gasFunc.apply_journalled env priced

/-- One round of the loop: `prepare` ends it on an invalid or restricted opcode, `charge` on
gas the contract cannot pay; otherwise the memory grows, the `StructLog` is recorded, the
operation executes and `conclude` decides how the loop goes on. -/
theorem step_rule {run : RunFn} {frame : Frame} {evm : EVM} {P : Step → Prop}
    {fail : Failure → Prop}
    (prepareFails : ∀ f, Interpreter.prepare env (frame.contract.GetOp frame.pc) frame.stack evm =
      .error f → fail f)
    (invalid : ∀ err, Interpreter.prepare env (frame.contract.GetOp frame.pc) frame.stack evm =
      .ok (.error err) → P (.done ⟨[], some err, frame.contract, evm⟩))
    (chargeFails : ∀ operation memorySize f,
      Interpreter.prepare env (frame.contract.GetOp frame.pc) frame.stack evm =
        .ok (.ok (operation, memorySize)) →
      Interpreter.charge env operation frame evm memorySize = .error f → fail f)
    (outOfGas : ∀ operation memorySize charged evm',
      Interpreter.prepare env (frame.contract.GetOp frame.pc) frame.stack evm =
        .ok (.ok (operation, memorySize)) →
      Interpreter.charge env operation frame evm memorySize = .ok (none, charged, evm') →
      P (.done ⟨[], some .ErrOutOfGas, charged.contract, evm'⟩))
    (executes : ∀ operation memorySize cost charged evm',
      Interpreter.prepare env (frame.contract.GetOp frame.pc) frame.stack evm =
        .ok (.ok (operation, memorySize)) →
      Interpreter.charge env operation frame evm memorySize = .ok (some cost, charged, evm') →
      ∀ grown, grown = (if memorySize > 0 then
          { charged with memory := charged.memory.Resize memorySize } else charged) →
      Meets (fun r => P (Interpreter.conclude operation r)) fail
        (operation.execute.apply env run grown { evm' with structLogs := evm'.structLogs ++
          [⟨grown.pc, frame.contract.GetOp frame.pc, frame.contract.Gas, cost, grown.memory.Len,
            grown.stack, evm'.depth⟩] })) :
    Meets P fail (Interpreter.step env run frame evm) := by
  unfold Interpreter.step
  apply Meets.bind_ok prepareFails
  intro prepared found
  cases prepared with
  | error err => exact invalid err found
  | ok pair =>
    obtain ⟨operation, memorySize⟩ := pair
    apply Meets.bind_ok (chargeFails operation memorySize · found)
    intro charge charged
    obtain ⟨cost, frame', evm'⟩ := charge
    cases cost with
    | none => exact outOfGas operation memorySize frame' evm' found charged
    | some cost =>
      exact Meets.bind (executes operation memorySize cost frame' evm' found charged _ rfl)
        fun r holds => holds

end Round

/-! ### The calls -/

section Calls

variable (env : Env) (run : RunFn) {P : Called → Prop} {fail : Failure → Prop}

/-- The end of a call: the frame's result, or on an error a revert to the snapshot, which
panics if it fails. -/
theorem endCall_rule {snapshot : Nat} {r : Ran} (state : fail (.panic .state))
    (success : r.err = none → P ⟨r.ret, r.contract.Gas, none, r.evm⟩)
    (failure : ∀ err db, r.err = some err → r.evm.StateDB.RevertToSnapshot snapshot = some db →
      P ⟨r.ret, if err = .errExecutionReverted then r.contract.Gas else 0, some err,
        { r.evm with StateDB := db }⟩) :
    Meets P fail (EVM.endCall snapshot r) := by
  unfold EVM.endCall
  cases err : r.err with
  | none => exact success err
  | some e =>
    cases revert : r.evm.StateDB.RevertToSnapshot snapshot with
    | none => exact state
    | some db => exact failure e db err revert

/-- `EVM.Call`: refused without running (no recursion, too deep, not enough balance), nothing
to run for a missing account after EIP158, or the frame of `addr` on the state after the
snapshot, the account's creation and the transfer, and then `endCall`. -/
theorem Call_rule {evm : EVM} {caller : ContractRef} {addr : Address} {input : Bytes}
    {gas : Nat} {value : Int}
    (norecursion : env.vmConfig.NoRecursion = true → evm.depth > 0 → P ⟨[], gas, none, evm⟩)
    (depth : evm.depth > CallCreateDepth → P ⟨[], gas, some .ErrDepth, evm⟩)
    (balance : CanTransfer evm.StateDB caller.Address value = false →
      P ⟨[], gas, some .ErrInsufficientBalance, evm⟩)
    (missing : P ⟨[], gas, none, { evm with StateDB := evm.StateDB.Snapshot.2 }⟩)
    (ran : CanTransfer evm.StateDB caller.Address value = true → ∀ db, db = Transfer env.keccak
        (if evm.StateDB.Snapshot.2.Exist addr then evm.StateDB.Snapshot.2
          else evm.StateDB.Snapshot.2.CreateAccount env.keccak addr) caller.Address addr value →
      Meets (fun r => Meets P fail (EVM.endCall evm.StateDB.Snapshot.1 r)) fail
        (run ((NewContract caller addr value gas).SetCallCode addr (db.GetCodeHash addr)
          (db.GetCode addr)) input { evm with StateDB := db })) :
    Meets P fail (EVM.Call env run evm caller addr input gas value) := by
  unfold EVM.Call
  by_cases stop : env.vmConfig.NoRecursion = true ∧ evm.depth > 0
  · rw [if_pos stop]
    exact norecursion stop.1 stop.2
  rw [if_neg stop]
  by_cases deep : evm.depth > CallCreateDepth
  · rw [if_pos deep]
    exact depth deep
  rw [if_neg deep]
  cases transfer : CanTransfer evm.StateDB caller.Address value with
  | false => exact balance transfer
  | true =>
    rcases snapshot : evm.StateDB.Snapshot with ⟨id, db⟩
    simp only [snapshot] at missing ran
    simp only [Bool.not_true, Bool.false_eq_true, if_false]
    split
    · exact missing
    · exact Meets.bind (ran transfer _ rfl) fun r holds => holds

/-- `EVM.CallCode`: refused without running, or the code of `addr` run as the caller on the
state after the snapshot, and then `endCall`. -/
theorem CallCode_rule {evm : EVM} {caller : ContractRef} {addr : Address} {input : Bytes}
    {gas : Nat} {value : Int}
    (norecursion : env.vmConfig.NoRecursion = true → evm.depth > 0 → P ⟨[], gas, none, evm⟩)
    (depth : evm.depth > CallCreateDepth → P ⟨[], gas, some .ErrDepth, evm⟩)
    (balance : CanTransfer evm.StateDB caller.Address value = false →
      P ⟨[], gas, some .ErrInsufficientBalance, evm⟩)
    (ran : Meets (fun r => Meets P fail (EVM.endCall evm.StateDB.Snapshot.1 r)) fail
      (run ((NewContract caller caller.Address value gas).SetCallCode addr
        (evm.StateDB.Snapshot.2.GetCodeHash addr) (evm.StateDB.Snapshot.2.GetCode addr)) input
        { evm with StateDB := evm.StateDB.Snapshot.2 })) :
    Meets P fail (EVM.CallCode env run evm caller addr input gas value) := by
  unfold EVM.CallCode
  by_cases stop : env.vmConfig.NoRecursion = true ∧ evm.depth > 0
  · rw [if_pos stop]
    exact norecursion stop.1 stop.2
  rw [if_neg stop]
  by_cases deep : evm.depth > CallCreateDepth
  · rw [if_pos deep]
    exact depth deep
  rw [if_neg deep]
  cases transfer : CanTransfer evm.StateDB caller.Address value with
  | false => exact balance transfer
  | true => exact Meets.bind ran fun r holds => holds

/-- `EVM.DelegateCall`: refused without running, or the code of `addr` run as the calling
contract, whose caller and value it takes (`AsDelegate`), and then `endCall`. -/
theorem DelegateCall_rule {evm : EVM} {caller : ContractRef} {addr : Address} {input : Bytes}
    {gas : Nat}
    (norecursion : env.vmConfig.NoRecursion = true → evm.depth > 0 → P ⟨[], gas, none, evm⟩)
    (depth : evm.depth > CallCreateDepth → P ⟨[], gas, some .ErrDepth, evm⟩)
    (ran : Meets (fun contract => Meets (fun r => Meets P fail (EVM.endCall evm.StateDB.Snapshot.1 r))
        fail (run (contract.SetCallCode addr (evm.StateDB.Snapshot.2.GetCodeHash addr)
          (evm.StateDB.Snapshot.2.GetCode addr)) input { evm with StateDB := evm.StateDB.Snapshot.2 }))
      fail ((NewContract caller caller.Address 0 gas).AsDelegate caller)) :
    Meets P fail (EVM.DelegateCall env run evm caller addr input gas) := by
  unfold EVM.DelegateCall
  by_cases stop : env.vmConfig.NoRecursion = true ∧ evm.depth > 0
  · rw [if_pos stop]
    exact norecursion stop.1 stop.2
  rw [if_neg stop]
  by_cases deep : evm.depth > CallCreateDepth
  · rw [if_pos deep]
    exact depth deep
  rw [if_neg deep]
  exact Meets.bind ran fun contract started => Meets.bind started fun r holds => holds

/-- `EVM.StaticCall`: refused without running, or the frame of `addr` in read-only mode on
the state after the snapshot, then `endCall`; the call that turned the mode on turns it off. -/
theorem StaticCall_rule {evm : EVM} {caller : ContractRef} {addr : Address} {input : Bytes}
    {gas : Nat}
    (norecursion : env.vmConfig.NoRecursion = true → evm.depth > 0 → P ⟨[], gas, none, evm⟩)
    (depth : evm.depth > CallCreateDepth → P ⟨[], gas, some .ErrDepth, evm⟩)
    (ran : Meets (fun r => Meets (fun called => P (if evm.readOnly then called
          else { called with evm := { called.evm with readOnly := false } }))
        fail (EVM.endCall evm.StateDB.Snapshot.1 r)) fail
      (run ((NewContract caller addr 0 gas).SetCallCode addr
        (evm.StateDB.Snapshot.2.GetCodeHash addr) (evm.StateDB.Snapshot.2.GetCode addr)) input
        { evm with readOnly := true, StateDB := evm.StateDB.Snapshot.2 })) :
    Meets P fail (EVM.StaticCall env run evm caller addr input gas) := by
  unfold EVM.StaticCall
  by_cases stop : env.vmConfig.NoRecursion = true ∧ evm.depth > 0
  · rw [if_pos stop]
    exact norecursion stop.1 stop.2
  rw [if_neg stop]
  by_cases deep : evm.depth > CallCreateDepth
  · rw [if_pos deep]
    exact depth deep
  rw [if_neg deep]
  -- with the mode already on, the machine the frame runs on is the caller's
  obtain ⟨db, depth, callGasTemp, readOnly, returnData, abort, structLogs⟩ := evm
  cases readOnly with
  | false =>
    exact Meets.bind ran fun r ended => Meets.bind ended fun called holds => holds
  | true =>
    exact Meets.bind ran fun r ended => Meets.bind ended fun called holds => holds

/-- The end of `Create`: the code stored and paid for; before Homestead, code that cannot be
paid for left out with the state kept; or a revert to the snapshot on any other error,
including code too large after EIP158. -/
theorem endCreate_rule {Q : Created → Prop} {snapshot : Nat} {addr : Address} {r : Ran}
    (state : fail (.panic .state))
    (stored : ∀ contract, r.err = none →
      ¬(env.chainRules.IsEIP158 = true ∧ r.ret.length > MaxCodeSize) →
      r.contract.UseGas (r.ret.length * CreateDataGas % 2 ^ 64) = some contract →
      Q ⟨r.ret, addr, contract.Gas, none,
        { r.evm with StateDB := r.evm.StateDB.SetCode env.keccak addr r.ret }⟩)
    (kept : env.chainRules.IsHomestead = false →
      Q ⟨r.ret, addr, r.contract.Gas, some .ErrCodeStoreOutOfGas, r.evm⟩)
    (reverted : ∀ err db, err ≠ none → r.evm.StateDB.RevertToSnapshot snapshot = some db →
      Q ⟨r.ret, addr, if err = some .errExecutionReverted then r.contract.Gas else 0, err,
        { r.evm with StateDB := db }⟩) :
    Meets Q fail (EVM.endCreate env snapshot addr r) := by
  unfold EVM.endCreate
  by_cases large : env.chainRules.IsEIP158 = true ∧ r.ret.length > MaxCodeSize
  · -- too large: the frame's error, or `errMaxCodeSizeExceeded`
    obtain ⟨eip158, big⟩ := large
    simp only [eip158, gt_iff_lt, big, and_self, not_true_eq_false, and_false, ↓reduceIte, ne_eq,
      true_or, true_and, ite_not]
    -- every revert is from the frame's own state, with the frame's own contract
    split
    · exact state
    · next db reverts => exact reverted _ db (by split <;> simp_all) reverts
  · cases err : r.err with
    | none =>
      cases use : r.contract.UseGas (r.ret.length * CreateDataGas % 2 ^ 64) with
      | some contract =>
        simp only [gt_iff_lt, large, not_false_eq_true, and_self, ↓reduceIte, Option.isSome_none,
          Bool.false_eq_true, ne_eq, reduceCtorEq, or_true, and_true, or_self, meets_pure]
        exact stored contract err large use
      | none =>
        cases homestead : env.chainRules.IsHomestead with
        | true =>
          simp only [gt_iff_lt, large, not_false_eq_true, and_self, ↓reduceIte, Option.isSome_some,
            ne_eq, not_true_eq_false, or_false, or_true, reduceCtorEq, Option.some.injEq]
          split
          · exact state
          · next db reverts => exact reverted (some .ErrCodeStoreOutOfGas) db (by simp) reverts
        | false =>
          simp only [gt_iff_lt, large, not_false_eq_true, and_self, ↓reduceIte, Option.isSome_some,
            Bool.false_eq_true, ne_eq, not_true_eq_false, or_self, and_false, reduceCtorEq, meets_pure]
          exact kept homestead
    | some e =>
      by_cases keeps : env.chainRules.IsHomestead = false ∧ e = .ErrCodeStoreOutOfGas
      · obtain ⟨homestead, rfl⟩ := keeps
        simp only [gt_iff_lt, large, reduceCtorEq, not_false_eq_true, and_true, ↓reduceIte,
          Option.isSome_some, homestead, Bool.false_eq_true, ne_eq, not_true_eq_false, or_self,
          and_false, and_self, meets_pure]
        exact kept homestead
      · have reverts : env.chainRules.IsHomestead = true ∨ ¬some e = some .ErrCodeStoreOutOfGas := by
          cases homestead : env.chainRules.IsHomestead <;> simp_all
        simp only [gt_iff_lt, large, reduceCtorEq, not_false_eq_true, and_true, ↓reduceIte,
          Option.isSome_some, ne_eq, false_or, and_self, ite_not, reverts]
        split
        · exact state
        · next db reverts => exact reverted (some e) db (by simp) reverts

/-- `EVM.Create`: refused (too deep, not enough balance) with all the gas back; the creator's
nonce bumped and an address in use refused with none; or, on the state after the snapshot,
the account's creation and the transfer, nothing run without recursion, or the init code run
and then `endCreate`. -/
theorem Create_rule {Q : Created → Prop} {evm : EVM} {caller : ContractRef} {code : Bytes}
    {gas : Nat} {value : Int}
    (depth : evm.depth > CallCreateDepth → Q ⟨[], 0, gas, some .ErrDepth, evm⟩)
    (balance : CanTransfer evm.StateDB caller.Address value = false →
      Q ⟨[], 0, gas, some .ErrInsufficientBalance, evm⟩)
    (collision : ∀ bumped, bumped = evm.StateDB.SetNonce env.keccak caller.Address
        ((evm.StateDB.GetNonce caller.Address + 1) % 2 ^ 64) →
      Q ⟨[], 0, 0, some .ErrContractAddressCollision, { evm with StateDB := bumped }⟩)
    (ran : CanTransfer evm.StateDB caller.Address value = true →
      ∀ bumped addr created, bumped = evm.StateDB.SetNonce env.keccak caller.Address
        ((evm.StateDB.GetNonce caller.Address + 1) % 2 ^ 64) →
      addr = CreateAddress env.keccak caller.Address (evm.StateDB.GetNonce caller.Address) →
      created = Transfer env.keccak
        (if env.chainRules.IsEIP158 then
          (bumped.Snapshot.2.CreateAccount env.keccak addr).SetNonce env.keccak addr 1
        else bumped.Snapshot.2.CreateAccount env.keccak addr) caller.Address addr value →
      (env.vmConfig.NoRecursion = true → evm.depth > 0 →
        Q ⟨[], addr, gas, none, { evm with StateDB := created }⟩) ∧
      Meets (fun r => Meets Q fail (EVM.endCreate env bumped.Snapshot.1 addr r)) fail
        (run ((NewContract caller addr value gas).SetCallCode addr (env.keccak code) code) []
          { evm with StateDB := created })) :
    Meets Q fail (EVM.Create env run evm caller code gas value) := by
  unfold EVM.Create
  by_cases deep : evm.depth > CallCreateDepth
  · rw [if_pos deep]
    exact depth deep
  rw [if_neg deep]
  cases transfer : CanTransfer evm.StateDB caller.Address value with
  | false => exact balance transfer
  | true =>
    simp only [Bool.not_true, Bool.false_eq_true, if_false]
    split
    · exact collision _ rfl
    · obtain ⟨stops, runs⟩ := ran transfer _ _ _ rfl rfl rfl
      split
      · next stop => exact stops stop.1 stop.2
      · exact Meets.bind runs fun r holds => holds

/-! ### What the calls fail with -/

/-- A call fails only where the frame it starts fails, or where a revert to its snapshot
panics; `DelegateCall` also asserts that its caller is a contract. -/
theorem endCall_fails {snapshot : Nat} {r : Ran} (state : fail (.panic .state)) :
    Meets (fun _ => True) fail (EVM.endCall snapshot r) :=
  endCall_rule state (fun _ => trivial) fun _ _ _ _ => trivial

theorem Call_fails {evm : EVM} {caller : ContractRef} {addr : Address} {input : Bytes}
    {gas : Nat} {value : Int} (state : fail (.panic .state))
    (nested : ∀ c i e, Meets (fun _ => True) fail (run c i e)) :
    Meets (fun _ => True) fail (EVM.Call env run evm caller addr input gas value) :=
  Call_rule env run (fun _ _ => trivial) (fun _ => trivial) (fun _ => trivial) trivial
    fun _ _ _ => (nested _ _ _).mono (fun _ _ => endCall_fails state) fun _ failed => failed

theorem CallCode_fails {evm : EVM} {caller : ContractRef} {addr : Address} {input : Bytes}
    {gas : Nat} {value : Int} (state : fail (.panic .state))
    (nested : ∀ c i e, Meets (fun _ => True) fail (run c i e)) :
    Meets (fun _ => True) fail (EVM.CallCode env run evm caller addr input gas value) :=
  CallCode_rule env run (fun _ _ => trivial) (fun _ => trivial) (fun _ => trivial)
    ((nested _ _ _).mono (fun _ _ => endCall_fails state) fun _ failed => failed)

theorem DelegateCall_fails {evm : EVM} {caller : ContractRef} {addr : Address} {input : Bytes}
    {gas : Nat} (state : fail (.panic .state)) (assertion : fail (.panic .typeAssertion))
    (nested : ∀ c i e, Meets (fun _ => True) fail (run c i e)) :
    Meets (fun _ => True) fail (EVM.DelegateCall env run evm caller addr input gas) := by
  apply DelegateCall_rule env run (fun _ _ => trivial) (fun _ => trivial)
  cases caller with
  | AccountRef a => exact assertion
  | contract parent =>
    exact (nested _ _ _).mono (fun _ _ => endCall_fails state) fun _ failed => failed

theorem StaticCall_fails {evm : EVM} {caller : ContractRef} {addr : Address} {input : Bytes}
    {gas : Nat} (state : fail (.panic .state))
    (nested : ∀ c i e, Meets (fun _ => True) fail (run c i e)) :
    Meets (fun _ => True) fail (EVM.StaticCall env run evm caller addr input gas) :=
  StaticCall_rule env run (fun _ _ => trivial) (fun _ => trivial)
    ((nested _ _ _).mono (fun _ _ => (endCall_fails state).mono (fun _ _ => trivial)
      fun _ failed => failed) fun _ failed => failed)

theorem endCreate_fails {snapshot : Nat} {addr : Address} {r : Ran}
    (state : fail (.panic .state)) :
    Meets (fun _ => True) fail (EVM.endCreate env snapshot addr r) :=
  endCreate_rule env state (fun _ _ _ _ => trivial) (fun _ => trivial) fun _ _ _ _ => trivial

theorem Create_fails {evm : EVM} {caller : ContractRef} {code : Bytes} {gas : Nat}
    {value : Int} (state : fail (.panic .state))
    (nested : ∀ c i e, Meets (fun _ => True) fail (run c i e)) :
    Meets (fun _ => True) fail (EVM.Create env run evm caller code gas value) :=
  Create_rule env run (fun _ => trivial) (fun _ => trivial) (fun _ _ => trivial)
    fun _ _ _ _ _ _ _ => ⟨fun _ _ => trivial,
      (nested _ _ _).mono (fun _ _ => endCreate_fails env state) fun _ failed => failed⟩

/-! ### The trace through the calls -/

section Traces

variable {Q : StructLog → Prop}

/-- The machine a call returns has the caller's trace and what the frame it started
logged: the frame runs on the caller's machine with another state, and the call changes
only the state and the read-only flag of the machine the frame returns. -/
theorem endCall_logged {e : EVM} {snapshot : Nat} {r : Ran} (logged : Logged Q e r.evm) :
    Meets (fun called => Logged Q e called.evm) (fun _ => True) (EVM.endCall snapshot r) :=
  endCall_rule trivial (fun _ => logged) fun _ _ _ _ => logged.congr_right rfl

variable (nested : ∀ c i e, Meets (fun r => Logged Q e r.evm) (fun _ => True) (run c i e))
include nested

theorem Call_logged {evm : EVM} {caller : ContractRef} {addr : Address} {input : Bytes}
    {gas : Nat} {value : Int} :
    Meets (fun called => Logged Q evm called.evm) (fun _ => True)
      (EVM.Call env run evm caller addr input gas value) :=
  Call_rule env run (fun _ _ => .refl _) (fun _ => .refl _) (fun _ => .refl _) (.of_eq rfl)
    fun _ _ _ => (nested _ _ _).mono
      (fun _ logged => endCall_logged (logged.congr_left rfl)) fun _ _ => trivial

theorem CallCode_logged {evm : EVM} {caller : ContractRef} {addr : Address} {input : Bytes}
    {gas : Nat} {value : Int} :
    Meets (fun called => Logged Q evm called.evm) (fun _ => True)
      (EVM.CallCode env run evm caller addr input gas value) :=
  CallCode_rule env run (fun _ _ => .refl _) (fun _ => .refl _) (fun _ => .refl _)
    ((nested _ _ _).mono (fun _ logged => endCall_logged (logged.congr_left rfl))
      fun _ _ => trivial)

theorem DelegateCall_logged {evm : EVM} {caller : ContractRef} {addr : Address} {input : Bytes}
    {gas : Nat} :
    Meets (fun called => Logged Q evm called.evm) (fun _ => True)
      (EVM.DelegateCall env run evm caller addr input gas) := by
  apply DelegateCall_rule env run (fun _ _ => .refl _) (fun _ => .refl _)
  cases caller with
  | AccountRef a => trivial
  | contract parent =>
    exact (nested _ _ _).mono
      (fun _ logged => endCall_logged (logged.congr_left rfl)) fun _ _ => trivial

theorem StaticCall_logged {evm : EVM} {caller : ContractRef} {addr : Address} {input : Bytes}
    {gas : Nat} :
    Meets (fun called => Logged Q evm called.evm) (fun _ => True)
      (EVM.StaticCall env run evm caller addr input gas) := by
  apply StaticCall_rule env run (fun _ _ => .refl _) (fun _ => .refl _)
  apply (nested _ _ _).mono _ fun _ _ => trivial
  intro r logged
  apply (endCall_logged (logged.congr_left rfl)).mono _ fun _ _ => trivial
  intro called logged'
  -- turning the read-only mode off again leaves the trace alone
  split
  · exact logged'
  · exact logged'.congr_right rfl

theorem Create_logged {evm : EVM} {caller : ContractRef} {code : Bytes} {gas : Nat}
    {value : Int} :
    Meets (fun created => Logged Q evm created.evm) (fun _ => True)
      (EVM.Create env run evm caller code gas value) := by
  apply Create_rule env run (fun _ => .refl _) (fun _ => .refl _) (fun _ _ => .of_eq rfl)
  intro _ bumped addr created _ _ _
  refine ⟨fun _ _ => .of_eq rfl, ?_⟩
  apply (nested _ _ _).mono _ fun _ _ => trivial
  intro r logged
  -- every end of a creation returns the frame's machine with another state
  exact endCreate_rule env trivial (fun _ _ _ _ => logged.congr_left rfl)
    (fun _ => logged.congr_left rfl) fun _ _ _ _ => logged.congr_left rfl

end Traces

end Calls

end Indigo.Evm
