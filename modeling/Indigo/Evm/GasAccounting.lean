import Indigo.Evm.MemorySafety

/-!
# Gas accounting

With metering, a round charges its instruction's price before the instruction runs, and the
price of an instruction that starts a frame covers the gas the frame is given: a call
forwards `callGasTemp`, which its price includes, and with a value the 2300 of the stipend,
which the `CallValueTransferGas` of the price covers; a creation forwards gas the contract
pays at once. So no frame ends with more gas than it was given, and every instruction but
the last of each frame costs gas: a frame given `g` gas executes, with every frame it
starts, at most `g + 1` instructions, and needs no more than `g + 1` rounds of fuel.

## Main results

- `gasFunc.apply_floor`: each gas function charges at least its `floor`.
- `charges_tables`: in each table, an instruction that goes on costs at least one unit and
  each instruction that starts a frame has its own gas function.
- `charge_covers`: a metered charge pays for what the instruction forwards, and two units.
- `step_spent`, `runner_spent`: a round pays for itself, and a run given `g` gas hands back
  at most `g`, logs at most `g + 1` instructions less what it hands back, and runs out of
  fuel only with fuel at most `g`.
- `gas_never_created`, `run_terminates_within_gas`: the calls and rounds create no gas, and
  `Interpreter.Run` with more fuel than gas ends after at most `g + 1` instructions;
  `unmetered_create_returns_stipend` and `stop_executes_without_gas` show that metering and
  the `+ 1` are needed.

## Proof strategy

`Spent g evm evm' left` is the accounting of a run: `left ≤ g`, and the instructions logged
since `evm` and the gas left add up to at most `g + 1`. A round keeps `gas + logged` from
growing unless it ends the frame; a call instruction keeps it because its price is at least
what it forwards plus two (`Covers`), and the frame it starts keeps its own `Spent`. The
fuel is counted by the log (`Budget`): every round that goes on logs at least one instruction.
-/

namespace Indigo.Evm

open Indigo.Lib Indigo.State

/-! ### Prices -/

/-- A checked sum that succeeds is a `uint64` and at least its second term, and it is the
sum when its first term is a `uint64`. -/
theorem addGas_ok {x y z : Nat} (ok : addGas x y = .ok z) :
    z < 2 ^ 64 ∧ y ≤ z ∧ (x < 2 ^ 64 → z = x + y) := by
  unfold addGas at ok
  split at ok
  · next r safe =>
    cases ok
    simp only [SafeAdd, Prod.mk.injEq, MaxUint64, decide_eq_false_iff_not, gt_iff_lt,
      Nat.not_lt] at safe
    obtain ⟨sum, fits⟩ := safe
    subst sum
    refine ⟨Nat.mod_lt _ (by norm_num), ?_, fun small => Nat.mod_eq_of_lt (by omega)⟩
    -- past `2^64` the first term only passes with a zero second term
    by_cases small : x < 2 ^ 64
    · rw [Nat.mod_eq_of_lt (by omega)]
      omega
    · have zero : y = 0 := by omega
      omega
  · cases ok

/-- The least price of each gas function, whatever the stack, the memory and the state. -/
def gasFunc.floor (gt : GasTable) : gasFunc → Nat
  | .constGasFunc gas => gas
  | .gasCallDataCopy | .gasReturnDataCopy | .gasCodeCopy => GasFastestStep
  | .gasExtCodeCopy => gt.ExtcodeCopy
  | .gasSha3 => Sha3Gas
  | .gasSStore => SstoreResetGas
  | .makeGasLog _ => LogGas
  | .gasMLoad | .gasMStore8 | .gasMStore => GasFastestStep
  | .gasCreate => CreateGas
  | .gasBalance => gt.Balance
  | .gasExtCodeSize => gt.ExtcodeSize
  | .gasSLoad => gt.SLoad
  | .gasExp => GasSlowStep
  | .gasCall | .gasCallCode | .gasDelegateCall | .gasStaticCall => gt.Calls
  | .gasReturn | .gasRevert | .gasSuicide => 0
  | .gasPush | .gasSwap | .gasDup => GasFastestStep

/-- The three gas tables price a call between 40 and 700. -/
theorem Env.gasTable_calls (env : Env) : 40 ≤ env.gasTable.Calls ∧ env.gasTable.Calls ≤ 700 := by
  unfold Env.gasTable
  split
  · decide
  · split <;> decide

section Floors

variable {stack : Stack} {mem mem' : Memory} {memorySize cost : Nat}

theorem wordGas_floor {base perWord slot : Nat}
    (ok : wordGas base perWord slot stack mem memorySize = .ok (.ok cost, mem')) : base ≤ cost := by
  unfold wordGas at ok
  split at ok
  · cases ok
  · split at ok
    · cases ok
    · next gas _ priced =>
      obtain ⟨length, -, ok⟩ := bind_eq_ok.mp ok
      simp only [pure, Except.pure, Except.ok.injEq, Prod.mk.injEq] at ok
      obtain ⟨words, -, ok⟩ := bind_eq_ok.mp ok.1
      obtain ⟨words', -, ok⟩ := bind_eq_ok.mp ok
      obtain ⟨small, atLeast, -⟩ := addGas_ok priced
      obtain ⟨-, -, sum⟩ := addGas_ok ok
      rw [sum small]
      omega

theorem memoryGasPlus_floor {base : Nat}
    (ok : memoryGasPlus base mem memorySize = (.ok cost, mem')) : base ≤ cost := by
  unfold memoryGasPlus at ok
  split at ok
  · cases ok
  · simp only [Prod.mk.injEq] at ok
    exact (addGas_ok ok.1).2.1

theorem makeGasLog_floor {n : Nat}
    (ok : makeGasLog n stack mem memorySize = .ok (.ok cost, mem')) : LogGas ≤ cost := by
  unfold makeGasLog at ok
  obtain ⟨size, -, ok⟩ := bind_eq_ok.mp ok
  simp only [pure, Except.pure, Except.ok.injEq] at ok
  split at ok
  · cases ok
  · split at ok
    · cases ok
    · simp only [Prod.mk.injEq] at ok
      obtain ⟨gas, logged, ok⟩ := bind_eq_ok.mp ok.1
      obtain ⟨gas', topics, ok⟩ := bind_eq_ok.mp ok
      obtain ⟨sizeGas, -, ok⟩ := bind_eq_ok.mp ok
      -- each checked sum starts from a `uint64` and adds to it
      obtain ⟨small, atLeast, -⟩ := addGas_ok logged
      obtain ⟨small', -, sum'⟩ := addGas_ok topics
      obtain ⟨-, -, sum⟩ := addGas_ok ok
      rw [sum small', sum' small]
      omega

theorem gasSStore_floor {evm evm' : EVM} {contract : Contract} {gas : Nat}
    (ok : gasSStore evm contract stack = .ok (gas, evm')) : SstoreResetGas ≤ gas := by
  unfold gasSStore at ok
  obtain ⟨y, -, ok⟩ := bind_eq_ok.mp ok
  obtain ⟨x, -, ok⟩ := bind_eq_ok.mp ok
  dsimp only at ok
  split at ok
  · cases ok
    decide
  · split at ok <;> (cases ok; decide)

/-- The part the four calls share charges the call's own price and the gas it will forward,
which it leaves in `callGasTemp`. -/
theorem callGasAndTemp_covers {gt : GasTable} {evm evm' : EVM} {contract : Contract} {gas : Nat}
    (small : gas < 2 ^ 64)
    (ok : callGasAndTemp gt evm contract stack mem memorySize gas = .ok (.ok cost, evm', mem')) :
    gas + evm'.callGasTemp ≤ cost := by
  unfold callGasAndTemp at ok
  split at ok
  · cases ok
  · split at ok
    · cases ok
    · next gas' priced =>
      obtain ⟨callCost, -, ok⟩ := bind_eq_ok.mp ok
      simp only [pure, Except.pure, Except.ok.injEq] at ok
      split at ok
      · cases ok
      · next temp _ =>
        simp only [Prod.mk.injEq] at ok
        obtain ⟨total, rfl, -⟩ := ok
        obtain ⟨small', -, sum'⟩ := addGas_ok priced
        obtain ⟨-, -, sum⟩ := addGas_ok total
        show gas + temp ≤ cost
        rw [sum small', sum' small]
        omega

end Floors

section Calls

variable (env : Env) {evm evm' : EVM} {contract : Contract} {stack : Stack} {mem mem' : Memory}
  {memorySize cost : Nat}

/-- `gasCall` charges `Calls`, the value transfer when the third item is not zero, and the
gas it forwards. -/
theorem gasCall_covers
    (ok : Evm.gasCall env env.gasTable evm contract stack mem memorySize =
      .ok (.ok cost, evm', mem')) :
    ∃ v, stack[2]? = some v ∧
      env.gasTable.Calls + (if v ≠ 0 then CallValueTransferGas else 0) + evm'.callGasTemp ≤ cost := by
  unfold Evm.gasCall at ok
  obtain ⟨v, back, ok⟩ := bind_eq_ok.mp ok
  obtain ⟨addr, -, ok⟩ := bind_eq_ok.mp ok
  obtain ⟨lt, rfl⟩ := Stack.Back_eq_ok back
  have calls := env.gasTable_calls
  have transfer : CallValueTransferGas = 9000 := rfl
  have newAccount : CallNewAccountGas = 25000 := rfl
  refine ⟨stack[2], List.getElem?_eq_getElem lt, ?_⟩
  refine le_trans ?_ (callGasAndTemp_covers ?_ ok)
  · -- the price before the forwarded gas: `Calls`, a new account, the transfer
    split_ifs <;> omega
  · split_ifs <;> omega

theorem gasCallCode_covers
    (ok : Evm.gasCallCode env.gasTable evm contract stack mem memorySize =
      .ok (.ok cost, evm', mem')) :
    ∃ v, stack[2]? = some v ∧
      env.gasTable.Calls + (if v ≠ 0 then CallValueTransferGas else 0) + evm'.callGasTemp ≤ cost := by
  unfold Evm.gasCallCode at ok
  obtain ⟨v, back, ok⟩ := bind_eq_ok.mp ok
  obtain ⟨lt, rfl⟩ := Stack.Back_eq_ok back
  have calls := env.gasTable_calls
  have transfer : CallValueTransferGas = 9000 := rfl
  refine ⟨stack[2], List.getElem?_eq_getElem lt, ?_⟩
  refine le_trans ?_ (callGasAndTemp_covers ?_ ok)
  · split_ifs <;> omega
  · split_ifs <;> omega

theorem gasDelegateCall_covers
    (ok : Evm.gasDelegateCall env.gasTable evm contract stack mem memorySize =
      .ok (.ok cost, evm', mem')) :
    env.gasTable.Calls + evm'.callGasTemp ≤ cost :=
  callGasAndTemp_covers (by have := env.gasTable_calls; omega) ok

/-- Each gas function charges at least its floor. -/
theorem gasFunc.apply_floor {g : gasFunc}
    (ok : g.apply env env.gasTable evm contract stack mem memorySize = .ok (.ok cost, evm', mem')) :
    g.floor env.gasTable ≤ cost := by
  cases g with
  | constGasFunc | gasBalance | gasExtCodeSize | gasSLoad | gasPush | gasSwap | gasDup =>
    cases ok
    exact le_refl _
  | gasCallDataCopy | gasReturnDataCopy | gasCodeCopy | gasExtCodeCopy | gasSha3 =>
    exact wordGas_floor (withEvm_ok ok)
  | gasMLoad | gasMStore8 | gasMStore =>
    exact memoryGasPlus_floor (Except.ok.inj (withEvm_ok ok))
  | makeGasLog n => exact makeGasLog_floor (withEvm_ok ok)
  | gasCreate =>
    have priced := Except.ok.inj (withEvm_ok ok)
    simp only [Evm.gasCreate] at priced
    split at priced
    · cases priced
    · simp only [Prod.mk.injEq] at priced
      exact (addGas_ok priced.1).2.1
  | gasReturn | gasRevert | gasSuicide => exact Nat.zero_le _
  | gasSStore =>
    obtain ⟨⟨gas, evm''⟩, priced, ok⟩ := bind_eq_ok.mp ok
    cases ok
    exact gasSStore_floor priced
  | gasExp =>
    obtain ⟨gas, priced, ok⟩ := bind_eq_ok.mp ok
    cases ok
    simp only [Evm.gasExp] at priced
    obtain ⟨exponent, -, priced⟩ := bind_eq_ok.mp priced
    exact (addGas_ok (Except.ok.inj priced)).2.1
  | gasCall =>
    obtain ⟨v, -, covers⟩ := gasCall_covers env ok
    show env.gasTable.Calls ≤ cost
    omega
  | gasCallCode =>
    obtain ⟨v, -, covers⟩ := gasCallCode_covers env ok
    show env.gasTable.Calls ≤ cost
    omega
  | gasDelegateCall | gasStaticCall =>
    have covers := gasDelegateCall_covers env ok
    show env.gasTable.Calls ≤ cost
    omega

end Calls

/-! ### What the tables charge -/

/-- The gas function that prices each instruction that starts a frame: the call's own, which
also charges the gas the call forwards, or `gasCreate`. -/
def executionFunc.forwardPrice : executionFunc → Option gasFunc
  | .opCall => some .gasCall
  | .opCallCode => some .gasCallCode
  | .opDelegateCall => some .gasDelegateCall
  | .opStaticCall => some .gasStaticCall
  | .opCreate => some .gasCreate
  | _ => none

/-- What the jump table promises of the price of an entry: an instruction that neither halts
nor reverts costs at least one unit, in each gas table, and an instruction that starts a
frame is priced by its own gas function. -/
def Charges (entry : OpCode × operation) : Prop :=
  (entry.2.halts = false → entry.2.reverts = false →
    ∀ gt ∈ [GasTableHomestead, GasTableEIP150, GasTableEIP158], 1 ≤ entry.2.gasCost.floor gt) ∧
  (entry.2.execute.forwardPrice = none ∨ entry.2.execute.forwardPrice = some entry.2.gasCost)

instance : DecidablePred Charges := fun _ => inferInstanceAs (Decidable (_ ∧ _))

theorem charges_frontier : ∀ entry ∈ NewFrontierInstructionSet, Charges entry := by
  unfold NewFrontierInstructionSet
  simp only [List.forall_mem_append]
  refine ⟨⟨⟨⟨⟨⟨by decide, by decide⟩, by decide⟩, by decide⟩, by decide⟩, by decide⟩, by decide⟩

theorem charges_tables : ∀ table ∈ instructionSets, ∀ entry ∈ table, Charges entry := by
  simp only [instructionSets, List.mem_cons, List.not_mem_nil, or_false, forall_eq_or_imp,
    forall_eq]
  refine ⟨charges_frontier, ?_, ?_⟩
  · unfold NewHomesteadInstructionSet
    exact List.forall_mem_cons.mpr ⟨by decide, charges_frontier⟩
  · unfold NewByzantiumInstructionSet NewHomesteadInstructionSet
    simp only [List.forall_mem_append, List.forall_mem_cons]
    exact ⟨⟨by decide, by decide, by decide, by decide, fun _ no => absurd no List.not_mem_nil⟩,
      by decide, charges_frontier⟩

theorem Env.gasTable_mem (env : Env) :
    env.gasTable ∈ [GasTableHomestead, GasTableEIP150, GasTableEIP158] := by
  unfold Env.gasTable
  split
  · simp
  · split <;> simp

/-! ### What a charge covers -/

/-- What the price of an instruction that starts a frame covers besides two units of its own:
the gas a call forwards, `callGasTemp` (here `temp`), with the `CallValueTransferGas` that
pays for the stipend when the call's value is not zero. A creation forwards gas the frame
still has, so its price need only be two units. -/
def Covers (cost : Nat) (stack : Stack) (temp : Nat) : executionFunc → Prop
  | .opCall | .opCallCode => ∃ v, stack[2]? = some v ∧
      temp + (if v ≠ 0 then CallValueTransferGas else 0) + 2 ≤ cost
  | .opDelegateCall | .opStaticCall => temp + 2 ≤ cost
  | .opCreate => 2 ≤ cost
  | _ => True

section Covers

variable (env : Env) {evm evm' : EVM} {contract : Contract} {stack : Stack} {mem mem' : Memory}
  {memorySize cost : Nat}

/-- The gas function an instruction that starts a frame is priced by covers it. -/
theorem gasFunc.apply_covers {g : gasFunc} {f : executionFunc}
    (priced : f.forwardPrice = none ∨ f.forwardPrice = some g)
    (ok : g.apply env env.gasTable evm contract stack mem memorySize = .ok (.ok cost, evm', mem')) :
    Covers cost stack evm'.callGasTemp f := by
  have calls := env.gasTable_calls
  cases f
  case opCall =>
    simp only [executionFunc.forwardPrice, reduceCtorEq, Option.some.injEq, false_or] at priced
    subst priced
    obtain ⟨v, found, covers⟩ := gasCall_covers env ok
    exact ⟨v, found, by omega⟩
  case opCallCode =>
    simp only [executionFunc.forwardPrice, reduceCtorEq, Option.some.injEq, false_or] at priced
    subst priced
    obtain ⟨v, found, covers⟩ := gasCallCode_covers env ok
    exact ⟨v, found, by omega⟩
  case opDelegateCall =>
    simp only [executionFunc.forwardPrice, reduceCtorEq, Option.some.injEq, false_or] at priced
    subst priced
    have covers := gasDelegateCall_covers env ok
    show _ ≤ _
    omega
  case opStaticCall =>
    simp only [executionFunc.forwardPrice, reduceCtorEq, Option.some.injEq, false_or] at priced
    subst priced
    have covers := gasDelegateCall_covers env ok
    show _ ≤ _
    omega
  case opCreate =>
    simp only [executionFunc.forwardPrice, reduceCtorEq, Option.some.injEq, false_or] at priced
    subst priced
    have floor := gasFunc.apply_floor env ok
    have create : CreateGas = 32000 := rfl
    show 2 ≤ cost
    simp only [gasFunc.floor] at floor
    omega
  all_goals trivial

/-- A metered charge that lets the round go on takes its price from the contract's gas; the
price is at least one unit unless the instruction halts or reverts, and it covers what the
instruction forwards to a frame. -/
theorem charge_covers (metered : env.vmConfig.DisableGasMetering = false) {op : OpCode}
    {operation : operation} {frame charged : Frame}
    (found : env.jumpTable.get op = some operation)
    (ok : Interpreter.charge env operation frame evm memorySize = .ok (some cost, charged, evm')) :
    charged.contract.Gas + cost = frame.contract.Gas ∧
      (operation.halts = false → operation.reverts = false → 1 ≤ cost) ∧
      Covers cost frame.stack evm'.callGasTemp operation.execute := by
  rcases charge_some env ok with ⟨unmetered, -⟩ | ⟨-, mem, contract, priced, paid, rfl⟩
  · rw [metered] at unmetered
    cases unmetered
  obtain ⟨enough, rfl⟩ := Contract.UseGas_eq_some paid
  have charges : Charges (op, operation) :=
    charges_tables _ env.jumpTable_mem _ (JumpTable.mem_of_get found)
  have floor := gasFunc.apply_floor env priced
  refine ⟨Nat.sub_add_cancel enough, fun halts reverts => ?_,
    gasFunc.apply_covers env charges.2 priced⟩
  have least := charges.1 halts reverts env.gasTable env.gasTable_mem
  dsimp only at least
  omega

end Covers

/-! ### The accounting of a run -/

/-- The accounting of a run given `g` gas, from the machine `evm` to the machine `evm'`, that
handed back `left`: no more gas than it was given, a trace that only grew, and the gas
handed back and the instructions logged that add up to at most `g + 1`. -/
structure Spent (g : Nat) (evm evm' : EVM) (left : Nat) : Prop where
  within : left ≤ g
  grows : evm.structLogs.length ≤ evm'.structLogs.length
  paid : left + evm'.structLogs.length ≤ g + evm.structLogs.length + 1

/-- A run with `fuel` rounds given `gas` runs out of rounds only if the fuel is at most the
gas. -/
def Fuelled (fuel gas : Nat) (f : Failure) : Prop := f ≠ .outOfFuel ∨ fuel ≤ gas

theorem Fuelled.panic {fuel gas : Nat} (p : Panic) : Fuelled fuel gas (.panic p) := .inl nofun

theorem Fuelled.mono {fuel gas fuel' gas' : Nat} {f : Failure} (fuelled : Fuelled fuel gas f)
    (less : fuel ≤ gas → fuel' ≤ gas') : Fuelled fuel' gas' f :=
  fuelled.imp_right less

namespace Spent

variable {g left : Nat} {e₁ e₂ : EVM}

/-- A run that logged nothing and handed back at most its gas. -/
theorem returned {left' : Nat} (within : left' ≤ g) (same : e₂.structLogs = e₁.structLogs) :
    Spent g e₁ e₂ left' :=
  ⟨within, by rw [same], by rw [same]; omega⟩

/-- Less gas handed back, and machines with the same traces. -/
theorem congr {left' : Nat} {e₁' e₂' : EVM} (spent : Spent g e₁ e₂ left) (less : left' ≤ left)
    (before : e₁'.structLogs = e₁.structLogs) (after : e₂'.structLogs = e₂.structLogs) :
    Spent g e₁' e₂' left' := by
  obtain ⟨within, grows, paid⟩ := spent
  exact ⟨by omega, by rw [before, after]; exact grows, by rw [before, after]; omega⟩

end Spent

/-- What a precompiled contract hands back is what its contract has left after its price. -/
theorem RunPrecompiledContract_gas (p : PrecompiledContract) (input : Bytes) (contract : Contract) :
    (RunPrecompiledContract p input contract).2.2.Gas ≤ contract.Gas := by
  unfold RunPrecompiledContract
  split
  · next paid paidEq =>
    obtain ⟨-, rfl⟩ := Contract.UseGas_eq_some paidEq
    split <;> exact Nat.sub_le _ _
  · exact le_refl _

section Calls

variable (env : Env) (run : RunFn) {m : Nat} {evm : EVM}

/-- The end of a call hands back at most what the frame has left. -/
theorem endCall_spent {g snapshot : Nat} {r : Ran} (spent : Spent g evm r.evm r.contract.Gas) :
    Meets (fun called => Spent g evm called.evm called.leftOverGas) (Fuelled m g)
      (EVM.endCall snapshot r) := by
  apply endCall_rule (Fuelled.panic _) (fun _ => spent)
  intro err db _ _
  refine spent.congr ?_ rfl rfl
  split
  · exact le_refl _
  · exact Nat.zero_le _

/-- The end of a creation hands back at most what the frame has left, less the code's
price when it is stored. -/
theorem endCreate_spent {g snapshot : Nat} {addr : Address} {r : Ran}
    (spent : Spent g evm r.evm r.contract.Gas) :
    Meets (fun created => Spent g evm created.evm created.leftOverGas) (Fuelled m g)
      (EVM.endCreate env snapshot addr r) := by
  apply endCreate_rule env (Fuelled.panic _)
  · intro contract _ _ paid
    obtain ⟨-, rfl⟩ := Contract.UseGas_eq_some paid
    exact spent.congr (Nat.sub_le _ _) rfl rfl
  · exact fun _ => spent
  · intro err db _ _
    refine spent.congr ?_ rfl rfl
    split
    · exact le_refl _
    · exact Nat.zero_le _

variable (nested : ∀ c i e,
  Meets (fun r => Spent c.Gas e r.evm r.contract.Gas) (Fuelled m c.Gas) (run c i e))
include nested

theorem Call_spent {caller : ContractRef} {addr : Address} {input : Bytes} {gas : Nat}
    {value : Int} :
    Meets (fun called => Spent gas evm called.evm called.leftOverGas) (Fuelled m gas)
      (EVM.Call env run evm caller addr input gas value) := by
  apply Call_rule env run (fun _ _ => .returned le_rfl rfl) (fun _ => .returned le_rfl rfl)
    (fun _ => .returned le_rfl rfl) (.returned le_rfl rfl)
  intro _ db _
  refine (nested _ _ _).mono ?_ fun _ fuelled => fuelled
  intro r spent
  exact endCall_spent (spent.congr le_rfl rfl rfl)

theorem CallCode_spent {caller : ContractRef} {addr : Address} {input : Bytes} {gas : Nat}
    {value : Int} :
    Meets (fun called => Spent gas evm called.evm called.leftOverGas) (Fuelled m gas)
      (EVM.CallCode env run evm caller addr input gas value) := by
  apply CallCode_rule env run (fun _ _ => .returned le_rfl rfl) (fun _ => .returned le_rfl rfl)
    (fun _ => .returned le_rfl rfl)
  refine (nested _ _ _).mono ?_ fun _ fuelled => fuelled
  intro r spent
  exact endCall_spent (spent.congr le_rfl rfl rfl)

theorem DelegateCall_spent {caller : ContractRef} {addr : Address} {input : Bytes} {gas : Nat} :
    Meets (fun called => Spent gas evm called.evm called.leftOverGas) (Fuelled m gas)
      (EVM.DelegateCall env run evm caller addr input gas) := by
  apply DelegateCall_rule env run (fun _ _ => .returned le_rfl rfl) (fun _ => .returned le_rfl rfl)
  cases caller with
  | AccountRef a => exact Fuelled.panic _
  | contract parent =>
    refine (nested _ _ _).mono ?_ fun _ fuelled => fuelled
    intro r spent
    exact endCall_spent (spent.congr le_rfl rfl rfl)

theorem StaticCall_spent {caller : ContractRef} {addr : Address} {input : Bytes} {gas : Nat} :
    Meets (fun called => Spent gas evm called.evm called.leftOverGas) (Fuelled m gas)
      (EVM.StaticCall env run evm caller addr input gas) := by
  apply StaticCall_rule env run (fun _ _ => .returned le_rfl rfl) (fun _ => .returned le_rfl rfl)
  refine (nested _ _ _).mono ?_ fun _ fuelled => fuelled
  intro r spent
  refine (endCall_spent (spent.congr le_rfl rfl rfl)).mono ?_ fun _ fuelled => fuelled
  intro called spent'
  -- turning the read-only mode off again leaves the trace and the gas alone
  split <;> exact spent'.congr le_rfl rfl rfl

theorem Create_spent {caller : ContractRef} {code : Bytes} {gas : Nat} {value : Int} :
    Meets (fun created => Spent gas evm created.evm created.leftOverGas) (Fuelled m gas)
      (EVM.Create env run evm caller code gas value) := by
  apply Create_rule env run (fun _ => .returned le_rfl rfl) (fun _ => .returned le_rfl rfl)
    (fun _ _ => .returned (Nat.zero_le _) rfl)
  intro _ bumped addr created _ _ _
  refine ⟨fun _ _ => .returned le_rfl rfl, ?_⟩
  refine (nested _ _ _).mono ?_ fun _ fuelled => fuelled
  intro r spent
  exact endCreate_spent env (spent.congr le_rfl rfl rfl)

end Calls

/-! ### The instructions that start a frame -/

/-- What an instruction priced `cost` leaves of the frame's gas and the trace: a trace that
only grew, no more gas than before the charge, and gas and trace that together grew by less
than the price. -/
structure Refunds (cost : Nat) (frame : Frame) (evm : EVM) (r : Executed) : Prop where
  grows : evm.structLogs.length ≤ r.evm.structLogs.length
  below : r.frame.contract.Gas ≤ frame.contract.Gas + cost
  paid : r.frame.contract.Gas + r.evm.structLogs.length + 1 ≤
    frame.contract.Gas + evm.structLogs.length + cost

/-- A contract that can pay keeps what is left when it pays. -/
theorem Contract.UseGas_getD {c : Contract} {gas : Nat} (enough : gas ≤ c.Gas) :
    (c.UseGas gas).getD c = { c with Gas := c.Gas - gas } := by
  unfold Contract.UseGas
  rw [if_neg (by omega)]
  rfl

section Forwarding

variable (env : Env) (run : RunFn) (frame : Frame) (evm : EVM) {m cost : Nat}

/-- The gas a call forwards, stipend included, is two units short of a price that covers
`callGasTemp` and the value transfer. -/
theorem callGasWithStipend_covers {v : Int}
    (covers : evm.callGasTemp + (if v ≠ 0 then CallValueTransferGas else 0) + 2 ≤ cost) :
    callGasWithStipend evm (U256 v) + 2 ≤ cost := by
  have transfer : CallValueTransferGas = 9000 := rfl
  have stipend : CallStipend = 2300 := rfl
  unfold callGasWithStipend
  split
  · next nonzero =>
    -- the mask keeps zero, so a value that is not zero after it was not zero before
    have sends : v ≠ 0 := fun zero => nonzero (by rw [zero]; decide)
    rw [if_pos sends] at covers
    have wrapped := Nat.mod_le (evm.callGasTemp + CallStipend) (2 ^ 64)
    omega
  · split at covers <;> omega

/-- The end of a call, when its price covered the gas it forwarded and two units more. -/
theorem callReturn_refunds {gas g : Nat} {retOffset retSize : Int} {rest : Stack}
    {called : Called} (spent : Spent g evm called.evm called.leftOverGas) (covers : g + 2 ≤ cost) :
    Meets (Refunds cost frame evm) (Fuelled m gas)
      (callReturn frame retOffset retSize rest called) := by
  obtain ⟨within, grows, paid⟩ := spent
  have wrapped := Nat.mod_le (frame.contract.Gas + called.leftOverGas) (2 ^ 64)
  -- the frame gets back what the call handed back, wrapped to a `uint64`
  have refunds : ∀ memory stack, Refunds cost frame evm ⟨called.ret, none,
      { frame with
        contract := { frame.contract with
          Gas := (frame.contract.Gas + called.leftOverGas) % 2 ^ 64 }
        memory := memory
        stack := stack }, called.evm⟩ :=
    fun _ _ => ⟨grows, by dsimp only; omega, by dsimp only; omega⟩
  unfold callReturn
  dsimp only
  split
  · apply Meets.bind_ok fun _ fails => by rw [Memory.Set_error fails]; exact Fuelled.panic _
    intro memory _
    exact refunds _ _
  · exact refunds _ _

variable (nested : ∀ c i e,
  Meets (fun r => Spent c.Gas e r.evm r.contract.Gas) (Fuelled m c.Gas) (run c i e))
include nested

theorem opCall_refunds (covers : Covers cost frame.stack evm.callGasTemp .opCall) :
    Meets (Refunds cost frame evm) (Fuelled (m + 1) (frame.contract.Gas + cost))
      (opCall env run frame evm) := by
  obtain ⟨v, found, covers⟩ := covers
  unfold opCall
  split
  · next value _ _ _ _ _ _ stack =>
    rw [stack] at found
    cases found
    apply Meets.bind_ok fun _ fails => by rw [Memory.Get_error fails]; exact Fuelled.panic _
    intro args _
    have forwarded := callGasWithStipend_covers evm covers
    refine Meets.bind ((Call_spent env run nested).mono (fun _ spent => spent)
      fun _ fuelled => fuelled.mono fun enough => by omega) fun called spent => ?_
    exact callReturn_refunds frame evm spent forwarded
  · exact Fuelled.panic _

theorem opCallCode_refunds (covers : Covers cost frame.stack evm.callGasTemp .opCallCode) :
    Meets (Refunds cost frame evm) (Fuelled (m + 1) (frame.contract.Gas + cost))
      (opCallCode env run frame evm) := by
  obtain ⟨v, found, covers⟩ := covers
  unfold opCallCode
  split
  · next value _ _ _ _ _ _ stack =>
    rw [stack] at found
    cases found
    apply Meets.bind_ok fun _ fails => by rw [Memory.Get_error fails]; exact Fuelled.panic _
    intro args _
    have forwarded := callGasWithStipend_covers evm covers
    refine Meets.bind ((CallCode_spent env run nested).mono (fun _ spent => spent)
      fun _ fuelled => fuelled.mono fun enough => by omega) fun called spent => ?_
    exact callReturn_refunds frame evm spent forwarded
  · exact Fuelled.panic _

theorem opDelegateCall_refunds (covers : Covers cost frame.stack evm.callGasTemp .opDelegateCall) :
    Meets (Refunds cost frame evm) (Fuelled (m + 1) (frame.contract.Gas + cost))
      (opDelegateCall env run frame evm) := by
  have covers : evm.callGasTemp + 2 ≤ cost := covers
  unfold opDelegateCall
  split
  · apply Meets.bind_ok fun _ fails => by rw [Memory.Get_error fails]; exact Fuelled.panic _
    intro args _
    refine Meets.bind ((DelegateCall_spent env run nested).mono (fun _ spent => spent)
      fun _ fuelled => fuelled.mono fun enough => by omega) fun called spent => ?_
    exact callReturn_refunds frame evm spent covers
  · exact Fuelled.panic _

theorem opStaticCall_refunds (covers : Covers cost frame.stack evm.callGasTemp .opStaticCall) :
    Meets (Refunds cost frame evm) (Fuelled (m + 1) (frame.contract.Gas + cost))
      (opStaticCall env run frame evm) := by
  have covers : evm.callGasTemp + 2 ≤ cost := covers
  unfold opStaticCall
  split
  · apply Meets.bind_ok fun _ fails => by rw [Memory.Get_error fails]; exact Fuelled.panic _
    intro args _
    refine Meets.bind ((StaticCall_spent env run nested).mono (fun _ spent => spent)
      fun _ fuelled => fuelled.mono fun enough => by omega) fun called spent => ?_
    exact callReturn_refunds frame evm spent covers
  · exact Fuelled.panic _

/-- A creation pays its frame out of the gas the contract has left after the price, so a
price of two units covers it. -/
theorem opCreate_refunds (covers : Covers cost frame.stack evm.callGasTemp .opCreate) :
    Meets (Refunds cost frame evm) (Fuelled (m + 1) (frame.contract.Gas + cost))
      (opCreate env run frame evm) := by
  have covers : 2 ≤ cost := covers
  unfold opCreate
  split
  · apply Meets.bind_ok fun _ fails => by rw [Memory.Get_error fails]; exact Fuelled.panic _
    intro input _
    dsimp only
    -- all the gas left, or all but a 64th after EIP150
    have forwarded : (if env.chainRules.IsEIP150 = true then
        frame.contract.Gas - frame.contract.Gas / 64 else frame.contract.Gas) ≤
        frame.contract.Gas := by
      split <;> omega
    rw [Contract.UseGas_getD forwarded]
    refine Meets.bind ((Create_spent env run nested).mono (fun _ spent => spent)
      fun _ fuelled => fuelled.mono fun enough => by omega) fun created spent => ?_
    obtain ⟨within, grows, paid⟩ := spent
    have wrapped := Nat.mod_le (frame.contract.Gas - (if env.chainRules.IsEIP150 = true then
      frame.contract.Gas - frame.contract.Gas / 64 else frame.contract.Gas) +
        created.leftOverGas) (2 ^ 64)
    exact ⟨grows, by dsimp only; omega, by dsimp only; omega⟩
  · exact Fuelled.panic _

/-- Every instruction that starts a frame, priced by a charge that covers it. -/
theorem execute_refunds {f : executionFunc} (starting : f.startsFrame = true)
    (covers : Covers cost frame.stack evm.callGasTemp f) :
    Meets (Refunds cost frame evm) (Fuelled (m + 1) (frame.contract.Gas + cost))
      (f.apply env run frame evm) := by
  cases f
  case opCreate => exact opCreate_refunds env run frame evm nested covers
  case opCall => exact opCall_refunds env run frame evm nested covers
  case opCallCode => exact opCallCode_refunds env run frame evm nested covers
  case opDelegateCall => exact opDelegateCall_refunds env run frame evm nested covers
  case opStaticCall => exact opStaticCall_refunds env run frame evm nested covers
  all_goals cases starting

end Forwarding

/-! ### Rounds -/

/-- A round that goes on from `frame` and `evm` to `frame'` and `evm'`: it logged its
instruction at least, the gas did not grow, and the gas and the trace together did not grow. -/
structure Pays (frame : Frame) (evm : EVM) (frame' : Frame) (evm' : EVM) : Prop where
  below : frame'.contract.Gas ≤ frame.contract.Gas
  logged : evm.structLogs.length + 1 ≤ evm'.structLogs.length
  paid : frame'.contract.Gas + evm'.structLogs.length ≤
    frame.contract.Gas + evm.structLogs.length

section Round

variable (env : Env)

/-- The end of a round that logged its instruction and spent at least one unit unless the
instruction may end the frame: it goes on paying, or ends with the frame's accounting. -/
theorem conclude_spent {operation : operation} {r : Executed} {frame : Frame} {evm : EVM}
    (below : r.frame.contract.Gas ≤ frame.contract.Gas)
    (logged : evm.structLogs.length + 1 ≤ r.evm.structLogs.length)
    (paid : r.frame.contract.Gas + r.evm.structLogs.length ≤
      frame.contract.Gas + evm.structLogs.length + 1)
    (goesOn : operation.halts = false → operation.reverts = false →
      r.frame.contract.Gas + r.evm.structLogs.length ≤ frame.contract.Gas + evm.structLogs.length) :
    Step.Holds (Pays frame evm) (fun r' => Spent frame.contract.Gas evm r'.evm r'.contract.Gas)
      (Interpreter.conclude operation r) := by
  apply conclude_rule
  · intro pc _ reverts halts
    refine ⟨below, ?_, ?_⟩
    · rw [returned_structLogs]
      exact logged
    · rw [returned_structLogs]
      exact goesOn halts reverts
  · intro ret err
    refine ⟨below, ?_, ?_⟩
    · rw [returned_structLogs]
      omega
    · rw [returned_structLogs]
      exact paid

/-- With metering, one round pays for itself: a round that goes on logs its instruction and
keeps the gas, and the gas and the trace together, from growing; a round that ends leaves
the frame's accounting; and a frame that the round starts runs out of rounds only if the
rounds left are fewer than the gas. -/
theorem step_spent (metered : env.vmConfig.DisableGasMetering = false) {run : RunFn} {m : Nat}
    {frame : Frame} {evm : EVM}
    (safe : ∀ c i e, Meets (fun _ => True) (· ≠ .panic .stack) (run c i e))
    (nested : ∀ c i e,
      Meets (fun r => Spent c.Gas e r.evm r.contract.Gas) (Fuelled m c.Gas) (run c i e)) :
    Meets (Step.Holds (Pays frame evm) (fun r => Spent frame.contract.Gas evm r.evm r.contract.Gas))
      (Fuelled (m + 1) frame.contract.Gas) (Interpreter.step env run frame evm) := by
  apply step_rule env
  case prepareFails =>
    intro f fails
    exact ((prepare_total env _ evm).of_error fails).elim
  case invalid =>
    intro err _
    exact .returned le_rfl rfl
  case chargeFails =>
    intro operation memorySize f found fails
    exact ((charge_prepared env found).of_error fails).elim
  case outOfGas =>
    intro operation memorySize charged evm' _ ok
    obtain ⟨_, _, mem, _, rfl⟩ := charge_none env ok
    obtain ⟨_, _, db, temp, _, rfl⟩ := charge_shape env ok
    exact .returned le_rfl rfl
  case executes =>
    intro operation memorySize cost charged evm' found ok grown grownEq
    obtain ⟨args, sameStack, valid⟩ := executes_stack env found ok grownEq
    have enough := ((validate_eq_none_iff _ _).mp valid).1
    obtain ⟨charged', goesOn, covers⟩ := charge_covers env metered (prepare_ok env found).1 ok
    obtain ⟨mem, contract, db, temp, rfl, rfl⟩ := charge_shape env ok
    -- the instruction runs on the charged contract, whatever the memory grew to
    have paid : grown.contract.Gas + cost = frame.contract.Gas := by
      rw [grownEq]
      split <;> exact charged'
    have logs : ({ evm with
        StateDB := db
        callGasTemp := temp
        structLogs := evm.structLogs ++ [⟨grown.pc, frame.contract.GetOp frame.pc,
          frame.contract.Gas, cost, grown.memory.Len, grown.stack, evm.depth⟩] } : EVM
        ).structLogs.length = evm.structLogs.length + 1 := by
      simp
    cases starting : operation.execute.startsFrame with
    | false =>
      -- an instruction that starts no frame keeps the contract and the trace
      refine (execute_effect _ args env run grown _ (sameStack ▸ enough) safe).mono ?_
        fun _ failed => .inl (failed.2 starting).ne_outOfFuel
      rintro r ⟨-, isLocal⟩
      obtain ⟨sameContract, db', -, sameEvm⟩ := isLocal starting
      have logs' : r.evm.structLogs.length = evm.structLogs.length + 1 := by
        rw [sameEvm]
        exact logs
      rw [← sameContract] at paid
      refine conclude_spent (by omega) (by omega) (by omega) fun halts reverts => ?_
      -- an instruction that neither halts nor reverts costs at least one unit
      have least := goesOn halts reverts
      omega
    | true =>
      refine (execute_refunds env run grown _ nested starting (sameStack ▸ covers)).mono ?_
        fun _ fuelled => fuelled.mono fun enough => by omega
      rintro r ⟨grows, below, refunded⟩
      rw [logs] at grows refunded
      exact conclude_spent (by omega) (by omega) (by omega) fun _ _ => by omega

end Round

/-! ### Runs -/

/-- The invariant of the loop of a frame given `g` gas from the machine `start`, with `k` of
its `fuel` rounds left: the gas left is at most `g`, each round so far logged at least one
instruction, and the gas left and the trace together have not grown. -/
structure Budget (g fuel : Nat) (start : EVM) (k : Nat) (frame : Frame) (evm : EVM) : Prop where
  within : frame.contract.Gas ≤ g
  rounds : start.structLogs.length + (fuel - k) ≤ evm.structLogs.length
  paid : frame.contract.Gas + evm.structLogs.length ≤ g + start.structLogs.length

namespace Budget

variable {g fuel k : Nat} {start : EVM} {frame : Frame} {evm : EVM}

/-- A frame starts within its budget. -/
theorem initial (contract : Contract) (input : Bytes) :
    Budget contract.Gas fuel evm fuel ⟨0, { contract with Input := input }, Memory.NewMemory, []⟩
      evm :=
  ⟨le_refl _, by simp, le_refl _⟩

/-- A round that pays keeps the budget with one round less. -/
theorem next {frame' : Frame} {evm' : EVM} (budget : Budget g fuel start (k + 1) frame evm)
    (lt : k < fuel) (pays : Pays frame evm frame' evm') : Budget g fuel start k frame' evm' := by
  obtain ⟨within, rounds, paid⟩ := budget
  obtain ⟨below, logged, paid'⟩ := pays
  exact ⟨by omega, by omega, by omega⟩

/-- A frame that ends within its budget has spent at most what it was given. -/
theorem done {evm' : EVM} {left : Nat} (budget : Budget g fuel start k frame evm)
    (spent : Spent frame.contract.Gas evm evm' left) : Spent g start evm' left := by
  obtain ⟨within, rounds, paid⟩ := budget
  obtain ⟨within', grows, paid'⟩ := spent
  exact ⟨by omega, by omega, by omega⟩

/-- The rounds done are paid for, so a round runs out of fuel only if the frame does. -/
theorem fuelled {f : Failure} (budget : Budget g fuel start (k + 1) frame evm) (lt : k < fuel)
    (fuelled : Fuelled (k + 1) frame.contract.Gas f) : Fuelled fuel g f := by
  obtain ⟨within, rounds, paid⟩ := budget
  exact fuelled.mono fun enough => by omega

theorem outOfFuel (budget : Budget g fuel start 0 frame evm) : Fuelled fuel g .outOfFuel := by
  obtain ⟨within, rounds, paid⟩ := budget
  exact .inr (by omega)

end Budget

section Run

variable (env : Env) (metered : env.vmConfig.DisableGasMetering = false)
include metered

/-- The loop of a frame within its budget, whose rounds start frames that keep their own
accounting with the rounds left. -/
theorem loop_spent {fuel g : Nat} {start : EVM}
    (nested : ∀ m < fuel, ∀ c i e, Meets (fun r => Spent c.Gas e r.evm r.contract.Gas)
      (Fuelled m c.Gas) (runner env m c i e)) :
    ∀ frame evm, Budget g fuel start fuel frame evm →
      Meets (fun r => Spent g start r.evm r.contract.Gas) (Fuelled fuel g)
        (Interpreter.loop env fuel frame evm) := by
  apply loop_rule env (Budget g fuel start) _ _ (fun _ _ budget => budget.outOfFuel)
  · intro m frame evm _ budget _
    exact budget.done (.returned le_rfl rfl)
  · intro m frame evm lt budget _
    have safe : ∀ c i e, Meets (fun _ => True) (· ≠ .panic .stack) (runner env m c i e) :=
      fun c i e => (runner_stack env m c i e).mono (fun _ _ => trivial) fun _ ne => ne
    refine (step_spent env metered safe (nested m lt)).mono ?_ fun _ f => budget.fuelled lt f
    intro s holds
    cases s with
    | next frame' evm' => exact budget.next lt holds
    | done r => exact budget.done holds

/-- The frame `Interpreter.Run` starts for a contract, with the accounting of the contract's
gas from the machine it was given. -/
theorem frame_spent {fuel : Nat}
    (nested : ∀ m < fuel, ∀ c i e, Meets (fun r => Spent c.Gas e r.evm r.contract.Gas)
      (Fuelled m c.Gas) (runner env m c i e))
    (contract : Contract) (input : Bytes) (evm : EVM) :
    Meets (fun r : Ran => Spent contract.Gas evm { r.evm with depth := r.evm.depth - 1 }
        r.contract.Gas)
      (Fuelled fuel contract.Gas)
      (Interpreter.loop env fuel ⟨0, { contract with Input := input }, Memory.NewMemory, []⟩
        { evm with depth := evm.depth + 1, returnData := [] }) :=
  (loop_spent env metered nested _ _ (.initial contract input)).mono
    (fun _ spent => spent.congr le_rfl rfl rfl) fun _ fuelled => fuelled

/-- With metering, a run given `g` gas hands back at most `g`, logs at most `g + 1` less
what it hands back, and runs out of rounds only with at most `g` of them, for every amount
of fuel. -/
theorem runner_spent (fuel : Nat) : ∀ contract input evm,
    Meets (fun r => Spent contract.Gas evm r.evm r.contract.Gas) (Fuelled fuel contract.Gas)
      (runner env fuel contract input evm) := by
  intro contract input evm
  refine @runner_induction env (fun _ _ => True) (fun c e r => Spent c.Gas e r.evm r.contract.Gas)
    (fun m c => Fuelled m c.Gas)
    (fun _ contract input p _ => .returned (RunPrecompiledContract_gas p input contract) rfl)
    (fun _ _ _ => .returned le_rfl rfl) ?_ fuel contract input evm trivial
  intro fuel ih contract input evm _
  exact frame_spent env metered (fun m lt c i e => ih m lt c i e trivial) contract input evm

/-- `Interpreter.Run` itself, with the frames it starts run by the interpreter. -/
theorem Run_spent (fuel : Nat) (contract : Contract) (input : Bytes) (evm : EVM) :
    Meets (fun r => Spent contract.Gas evm r.evm r.contract.Gas) (Fuelled fuel contract.Gas)
      (Interpreter.Run (Interpreter.loop env fuel) contract input evm) :=
  Run_rule (fun _ => .returned le_rfl rfl)
    (frame_spent env metered (fun m _ => runner_spent env metered m) contract input evm)

end Run

/-! ### Gas is not created -/

/-- Gas is never created. With metering and any amount of fuel, each of `Call`, `CallCode`,
`DelegateCall`, `StaticCall` and `Create` run by the interpreter hands back at most the gas it
was given, and no round of the interpreter leaves its frame more gas than the frame had
before the round: what a call hands back is at most what its instruction was charged. -/
theorem gas_never_created (env : Env) (metered : env.vmConfig.DisableGasMetering = false)
    (fuel : Nat) (evm : EVM) :
    (∀ caller addr input gas value, Meets (fun called => called.leftOverGas ≤ gas)
      (fun _ => True) (EVM.Call env (runner env fuel) evm caller addr input gas value)) ∧
    (∀ caller addr input gas value, Meets (fun called => called.leftOverGas ≤ gas)
      (fun _ => True) (EVM.CallCode env (runner env fuel) evm caller addr input gas value)) ∧
    (∀ caller addr input gas, Meets (fun called => called.leftOverGas ≤ gas)
      (fun _ => True) (EVM.DelegateCall env (runner env fuel) evm caller addr input gas)) ∧
    (∀ caller addr input gas, Meets (fun called => called.leftOverGas ≤ gas)
      (fun _ => True) (EVM.StaticCall env (runner env fuel) evm caller addr input gas)) ∧
    (∀ caller code gas value, Meets (fun created => created.leftOverGas ≤ gas)
      (fun _ => True) (EVM.Create env (runner env fuel) evm caller code gas value)) ∧
    (∀ frame, Meets (Step.Holds (fun frame' _ => frame'.contract.Gas ≤ frame.contract.Gas)
        (fun r => r.contract.Gas ≤ frame.contract.Gas)) (fun _ => True)
      (Interpreter.step env (runner env fuel) frame evm)) := by
  have nested := runner_spent env metered fuel
  refine ⟨fun _ _ _ _ _ => ?_, fun _ _ _ _ _ => ?_, fun _ _ _ _ => ?_, fun _ _ _ _ => ?_,
    fun _ _ _ _ => ?_, fun frame => ?_⟩
  · exact (Call_spent env _ nested).mono (fun _ spent => spent.within) fun _ _ => trivial
  · exact (CallCode_spent env _ nested).mono (fun _ spent => spent.within) fun _ _ => trivial
  · exact (DelegateCall_spent env _ nested).mono (fun _ spent => spent.within) fun _ _ => trivial
  · exact (StaticCall_spent env _ nested).mono (fun _ spent => spent.within) fun _ _ => trivial
  · exact (Create_spent env _ nested).mono (fun _ spent => spent.within) fun _ _ => trivial
  · have safe : ∀ c i e, Meets (fun _ => True) (· ≠ .panic .stack) (runner env fuel c i e) :=
      fun c i e => (runner_stack env fuel c i e).mono (fun _ _ => trivial) fun _ ne => ne
    refine (step_spent env metered safe nested).mono ?_ fun _ _ => trivial
    intro s holds
    cases s with
    | next frame' evm' => exact holds.below
    | done r => exact holds.within

/-- A `Call` of `callingTrie`'s account `100` runs 19 instructions over two frames and ends
reverted, handing back at most the gas it was given. -/
theorem gas_never_created_nested :
    (⟨⟨fun _ => Hash.zero, 0, 0, 0, 0, 0, 0, 0⟩, ⟨true, true, true, true⟩,
        ⟨false, false, false⟩, fun _ => Hash.zero, fun _ => ⟨fun _ => 0, fun _ => .ok []⟩⟩ :
        Env).vmConfig.DisableGasMetering = false ∧
      Meets (fun called => called.leftOverGas ≤ 100000) (fun _ => True)
        (EVM.Call
          ⟨⟨fun _ => Hash.zero, 0, 0, 0, 0, 0, 0, 0⟩, ⟨true, true, true, true⟩,
            ⟨false, false, false⟩, fun _ => Hash.zero, fun _ => ⟨fun _ => 0, fun _ => .ok []⟩⟩
          (runner ⟨⟨fun _ => Hash.zero, 0, 0, 0, 0, 0, 0, 0⟩, ⟨true, true, true, true⟩,
            ⟨false, false, false⟩, fun _ => Hash.zero, fun _ => ⟨fun _ => 0, fun _ => .ok []⟩⟩ 20)
          ⟨StateDB.New callingTrie Hash.zero Hash.zero 0, 0, 0, false, [], false, []⟩
          (.AccountRef 1) 100 [] 100000 0) ∧
      (match EVM.Call
          ⟨⟨fun _ => Hash.zero, 0, 0, 0, 0, 0, 0, 0⟩, ⟨true, true, true, true⟩,
            ⟨false, false, false⟩, fun _ => Hash.zero, fun _ => ⟨fun _ => 0, fun _ => .ok []⟩⟩
          (runner ⟨⟨fun _ => Hash.zero, 0, 0, 0, 0, 0, 0, 0⟩, ⟨true, true, true, true⟩,
            ⟨false, false, false⟩, fun _ => Hash.zero, fun _ => ⟨fun _ => 0, fun _ => .ok []⟩⟩ 20)
          ⟨StateDB.New callingTrie Hash.zero Hash.zero 0, 0, 0, false, [], false, []⟩
          (.AccountRef 1) 100 [] 100000 0 with
        | .ok called => called.err == some .errExecutionReverted && called.evm.structLogs.length == 19
        | .error _ => false) = true :=
  ⟨rfl, (gas_never_created
      ⟨⟨fun _ => Hash.zero, 0, 0, 0, 0, 0, 0, 0⟩, ⟨true, true, true, true⟩,
        ⟨false, false, false⟩, fun _ => Hash.zero, fun _ => ⟨fun _ => 0, fun _ => .ok []⟩⟩
      rfl 20 _).1 _ _ _ _ _,
    by decide⟩

/-- Without metering the stipend is created from nothing: init code run by `Create` with no
gas makes a `CALL` with a value of one, which forwards the 2300 of the stipend that nothing
charged for, gets them back (the new contract cannot pay the value), and hands them back. -/
theorem unmetered_create_returns_stipend :
    (match EVM.Create
        ⟨⟨fun _ => Hash.zero, 0, 0, 0, 0, 0, 0, 0⟩, ⟨true, true, true, true⟩,
          ⟨false, true, false⟩, fun _ => Hash.zero, fun _ => ⟨fun _ => 0, fun _ => .ok []⟩⟩
        (runner ⟨⟨fun _ => Hash.zero, 0, 0, 0, 0, 0, 0, 0⟩, ⟨true, true, true, true⟩,
          ⟨false, true, false⟩, fun _ => Hash.zero, fun _ => ⟨fun _ => 0, fun _ => .ok []⟩⟩ 20)
        ⟨StateDB.New (fun _ => none) Hash.zero Hash.zero 0, 0, 0, false, [], false, []⟩
        (.AccountRef 1)
        [0x60, 0x00, 0x60, 0x00, 0x60, 0x00, 0x60, 0x00, 0x60, 0x01, 0x60, 0x65, 0x60, 0x00,
          0xF1, 0x00] 0 0 with
      | .ok created => created.err == none && created.leftOverGas == 2300
      | .error _ => false) = true := by
  decide

/-! ### Runs end within their gas -/

/-- Execution terminates within its gas. With metering, `Interpreter.Run` of a contract given
`g` gas, with more than `g` rounds of fuel, never runs out of rounds, and logs at most
`g + 1` instructions, those of every frame it starts included: every instruction but the
last of a frame costs at least one unit, and the last of a frame it starts is paid for by
the instruction that started it. -/
theorem run_terminates_within_gas (env : Env) (metered : env.vmConfig.DisableGasMetering = false)
    (contract : Contract) (input : Bytes) (evm : EVM) (fuel : Nat) (enough : contract.Gas < fuel) :
    Meets (fun r => r.evm.structLogs.length ≤ evm.structLogs.length + contract.Gas + 1)
      (· ≠ .outOfFuel) (Interpreter.Run (Interpreter.loop env fuel) contract input evm) := by
  refine (Run_spent env metered fuel contract input evm).mono ?_ ?_
  · intro r spent
    have paid := spent.paid
    omega
  · intro f fuelled
    rcases fuelled with ran | short
    · exact ran
    · omega

theorem run_terminates_within_gas_fresh :
    (⟨⟨fun _ => Hash.zero, 0, 0, 0, 0, 0, 0, 0⟩, ⟨true, true, true, true⟩,
        ⟨false, false, false⟩, fun _ => Hash.zero, fun _ => ⟨fun _ => 0, fun _ => .ok []⟩⟩ :
        Env).vmConfig.DisableGasMetering = false ∧
      ((NewContract (.AccountRef 1) 100 0 5).SetCallCode 100 Hash.zero [0x5B, 0x00]).Gas < 10 ∧
      Meets (fun r => r.evm.structLogs.length ≤ 0 + 5 + 1) (· ≠ .outOfFuel)
        (Interpreter.Run (Interpreter.loop
          ⟨⟨fun _ => Hash.zero, 0, 0, 0, 0, 0, 0, 0⟩, ⟨true, true, true, true⟩,
            ⟨false, false, false⟩, fun _ => Hash.zero, fun _ => ⟨fun _ => 0, fun _ => .ok []⟩⟩ 10)
          ((NewContract (.AccountRef 1) 100 0 5).SetCallCode 100 Hash.zero [0x5B, 0x00]) []
          ⟨StateDB.New (fun _ => none) Hash.zero Hash.zero 0, 0, 0, false, [], false, []⟩) :=
  ⟨rfl, by decide, run_terminates_within_gas
    ⟨⟨fun _ => Hash.zero, 0, 0, 0, 0, 0, 0, 0⟩, ⟨true, true, true, true⟩,
      ⟨false, false, false⟩, fun _ => Hash.zero, fun _ => ⟨fun _ => 0, fun _ => .ok []⟩⟩ rfl
    ((NewContract (.AccountRef 1) 100 0 5).SetCallCode 100 Hash.zero [0x5B, 0x00]) []
    ⟨StateDB.New (fun _ => none) Hash.zero Hash.zero 0, 0, 0, false, [], false, []⟩ 10
    (by decide)⟩

/-- The bound is `g + 1`, not `g`: a `STOP` costs nothing, so code that is only a `STOP`,
given no gas, executes one instruction. -/
theorem stop_executes_without_gas :
    (match Interpreter.Run (Interpreter.loop
          ⟨⟨fun _ => Hash.zero, 0, 0, 0, 0, 0, 0, 0⟩, ⟨true, true, true, true⟩,
            ⟨false, false, false⟩, fun _ => Hash.zero, fun _ => ⟨fun _ => 0, fun _ => .ok []⟩⟩ 5)
        ((NewContract (.AccountRef 1) 100 0 0).SetCallCode 100 Hash.zero [0x00]) []
        ⟨StateDB.New (fun _ => none) Hash.zero Hash.zero 0, 0, 0, false, [], false, []⟩ with
      | .ok r => r.evm.structLogs.length == 1
      | .error _ => false) = true := by
  decide

end Indigo.Evm
