import Indigo.Evm.StackDiscipline

/-!
# Write protection of `STATICCALL`

After Byzantium, `STATICCALL` runs its frame in read-only mode, and in that mode
`enforceRestrictions` refuses every operation the jump table marks as writing, and a `CALL`
with a value. The mode is one flag of the machine, shared by every frame: `StaticCall`
turns it on only if it is off and turns it off again when it returns, and every other call
passes the machine on as it is. So the frames a read-only frame starts run read-only too,
and the flag is off again once the outermost `STATICCALL` returns.

## Main results

- `Restricted`: a logged instruction that writes nothing.
- `runner_guarded`: after Byzantium, a run keeps the read-only flag, and in read-only mode
  logs only restricted instructions, its own and those of every frame it starts.
- `static_write_protection`: the frames run read-only execute only restricted instructions,
  and the outermost `STATICCALL` returns with the flag off.

## Proof strategy

A fact of the Byzantium table (`protects_byzantium`): it marks the writing opcodes as
writing. In read-only mode `enforceRestrictions` then lets only restricted instructions
through (`restricted_of_enforced`). `Guarded` relates the machine before and after a run;
journalled changes of the state keep it, and so do the five calls when the frames they start
do. `StaticCall` gives more: what its frame logs is restricted, in whatever mode it was
called. The run lemma is `loop_rule` under `runner_induction`.
-/

namespace Indigo.Evm

open Indigo.Lib Indigo.State

/-! ### The instructions read-only mode refuses -/

/-- The opcodes that write the state or the logs: `SSTORE`, `LOG0` to `LOG4`, `CREATE` and
`SELFDESTRUCT`. -/
def writeOps : List OpCode := [SSTORE, LOG 0, LOG 1, LOG 2, LOG 3, LOG 4, CREATE, SELFDESTRUCT]

/-- A logged instruction that writes nothing: no writing opcode, and a `CALL` without a
value (the third item of the stack it ran on). -/
def Restricted (l : StructLog) : Prop :=
  l.Op ∉ writeOps ∧ (l.Op = CALL → l.Stack[2]? = some 0)

/-- A table entry whose opcode writes is marked as writing. -/
def Protects (entry : OpCode × operation) : Prop :=
  entry.1 ∈ writeOps → entry.2.writes = true

instance : DecidablePred Protects := fun _ => inferInstanceAs (Decidable (_ → _))

theorem protects_byzantium : ∀ entry ∈ NewByzantiumInstructionSet, Protects entry := by
  unfold NewByzantiumInstructionSet NewHomesteadInstructionSet NewFrontierInstructionSet
  simp only [List.forall_mem_append, List.forall_mem_cons]
  repeat' constructor
  all_goals decide

section Round

variable (env : Env)

/-- In read-only mode after Byzantium, what `enforceRestrictions` lets through writes
nothing, and a `CALL` it lets through has no value. -/
theorem enforceRestrictions_restricts {op : OpCode} {operation : operation} {stack : Stack}
    {evm : EVM} (byzantium : env.chainRules.IsByzantium = true) (readOnly : evm.readOnly = true)
    (ok : enforceRestrictions env op operation stack evm = .ok none) :
    operation.writes = false ∧ (op = CALL → stack[2]? = some 0) := by
  unfold enforceRestrictions at ok
  simp only [byzantium, readOnly, and_self, if_true] at ok
  cases writes : operation.writes with
  | true =>
    simp only [writes, if_true] at ok
    cases ok
  | false =>
    refine ⟨rfl, fun call => ?_⟩
    simp only [writes, Bool.false_eq_true, if_false, call, if_true] at ok
    obtain ⟨value, back, ok⟩ := bind_eq_ok.mp ok
    obtain ⟨lt, rfl⟩ := Stack.Back_eq_ok back
    -- a value with bits is refused
    have noBits : BitLen stack[2] = 0 := by
      by_contra bits
      rw [if_pos (Nat.pos_of_ne_zero bits)] at ok
      cases ok
    have zero : stack[2] = 0 := Int.natAbs_eq_zero.mp (Nat.size_eq_zero.mp noBits)
    rw [List.getElem?_eq_getElem lt, zero]

/-- The instruction a round logs in read-only mode after Byzantium, having passed
`enforceRestrictions`, is restricted. -/
theorem restricted_of_enforced {op : OpCode} {operation : operation} {stack : Stack}
    {evm : EVM} (byzantium : env.chainRules.IsByzantium = true) (readOnly : evm.readOnly = true)
    (found : env.jumpTable.get op = some operation)
    (ok : enforceRestrictions env op operation stack evm = .ok none)
    (pc gas cost size depth : Nat) : Restricted ⟨pc, op, gas, cost, size, stack, depth⟩ := by
  obtain ⟨reads, call⟩ := enforceRestrictions_restricts env byzantium readOnly ok
  have table : env.jumpTable = NewByzantiumInstructionSet := by
    simp [Env.jumpTable, byzantium]
  rw [table] at found
  refine ⟨fun writes => ?_, call⟩
  have marked := protects_byzantium _ (JumpTable.mem_of_get found) writes
  rw [reads] at marked
  cases marked

end Round

/-! ### What a run does to the mode and the log -/

/-- What a run does to the read-only mode and the log: `evm'` is in the mode of `evm`, and in
read-only mode only restricted instructions were logged since `evm`. -/
def Guarded (evm evm' : EVM) : Prop :=
  evm'.readOnly = evm.readOnly ∧ (evm.readOnly = true → Logged Restricted evm evm')

namespace Guarded

variable {e₁ e₂ e₃ : EVM}

theorem refl (e : EVM) : Guarded e e := ⟨rfl, fun _ => .refl e⟩

theorem trans (first : Guarded e₁ e₂) (second : Guarded e₂ e₃) : Guarded e₁ e₃ :=
  ⟨second.1.trans first.1, fun on => (first.2 on).trans (second.2 (first.1.trans on))⟩

/-- A machine in the same mode with the same log, such as the same machine with another
state. -/
theorem of_eq (readOnly : e₂.readOnly = e₁.readOnly) (logs : e₂.structLogs = e₁.structLogs) :
    Guarded e₁ e₂ :=
  ⟨readOnly, fun _ => .of_eq logs⟩

end Guarded

/-! ### The five ways into a frame -/

section Calls

variable (env : Env) (run : RunFn) {evm : EVM}

theorem endCall_guarded {e : EVM} {snapshot : Nat} {r : Ran} (guarded : Guarded e r.evm) :
    Meets (fun called => Guarded e called.evm) (fun _ => True) (EVM.endCall snapshot r) :=
  endCall_rule trivial (fun _ => guarded) fun _ _ _ _ => guarded.trans (.of_eq rfl rfl)

variable (nested : ∀ c i e, Meets (fun r => Guarded e r.evm) (fun _ => True) (run c i e))
include nested

theorem Call_guarded {caller : ContractRef} {addr : Address} {input : Bytes} {gas : Nat}
    {value : Int} :
    Meets (fun called => Guarded evm called.evm) (fun _ => True)
      (EVM.Call env run evm caller addr input gas value) :=
  Call_rule env run (fun _ _ => .refl _) (fun _ => .refl _) (fun _ => .refl _) (.of_eq rfl rfl)
    fun _ _ _ => (nested _ _ _).mono
      (fun _ guarded => endCall_guarded ((Guarded.of_eq rfl rfl).trans guarded))
      fun _ _ => trivial

theorem CallCode_guarded {caller : ContractRef} {addr : Address} {input : Bytes} {gas : Nat}
    {value : Int} :
    Meets (fun called => Guarded evm called.evm) (fun _ => True)
      (EVM.CallCode env run evm caller addr input gas value) :=
  CallCode_rule env run (fun _ _ => .refl _) (fun _ => .refl _) (fun _ => .refl _)
    ((nested _ _ _).mono (fun _ guarded => endCall_guarded ((Guarded.of_eq rfl rfl).trans guarded))
      fun _ _ => trivial)

theorem DelegateCall_guarded {caller : ContractRef} {addr : Address} {input : Bytes}
    {gas : Nat} :
    Meets (fun called => Guarded evm called.evm) (fun _ => True)
      (EVM.DelegateCall env run evm caller addr input gas) := by
  apply DelegateCall_rule env run (fun _ _ => .refl _) (fun _ => .refl _)
  cases caller with
  | AccountRef a => trivial
  | contract parent =>
    exact (nested _ _ _).mono
      (fun _ guarded => endCall_guarded ((Guarded.of_eq rfl rfl).trans guarded)) fun _ _ => trivial

/-- `StaticCall` returns in the mode it was called in, and what its frame logged is
restricted, whatever that mode. -/
theorem StaticCall_static {caller : ContractRef} {addr : Address} {input : Bytes} {gas : Nat} :
    Meets (fun called => called.evm.readOnly = evm.readOnly ∧ Logged Restricted evm called.evm)
      (fun _ => True) (EVM.StaticCall env run evm caller addr input gas) := by
  apply StaticCall_rule env run (fun _ _ => ⟨rfl, .refl _⟩) (fun _ => ⟨rfl, .refl _⟩)
  refine (nested _ _ _).mono ?_ fun _ _ => trivial
  intro r guarded
  refine (endCall_guarded guarded).mono ?_ fun _ _ => trivial
  intro called ⟨readOnly, logged⟩
  -- the frame ran in read-only mode, from the caller's log
  have restricted : Logged Restricted evm called.evm := (logged rfl).congr_left rfl
  split
  · next on => exact ⟨readOnly.trans on.symm, restricted⟩
  · -- the call that turned the mode on turns it off
    next off => exact ⟨(Bool.eq_false_iff.mpr off).symm, restricted.congr_right rfl⟩

theorem Create_guarded {caller : ContractRef} {code : Bytes} {gas : Nat} {value : Int} :
    Meets (fun created => Guarded evm created.evm) (fun _ => True)
      (EVM.Create env run evm caller code gas value) := by
  apply Create_rule env run (fun _ => .refl _) (fun _ => .refl _) (fun _ _ => .of_eq rfl rfl)
  intro _ bumped addr created _ _ _
  refine ⟨fun _ _ => .of_eq rfl rfl, ?_⟩
  refine (nested _ _ _).mono ?_ fun _ _ => trivial
  intro r guarded
  have started := (Guarded.of_eq rfl rfl).trans guarded
  -- every end of a creation returns the frame's machine with another state
  exact endCreate_rule env trivial (fun _ _ _ _ => started.trans (.of_eq rfl rfl))
    (fun _ => started) fun _ _ _ _ => started.trans (.of_eq rfl rfl)

/-- What the five calls keep, from a machine that a run from `e` reached. -/
theorem starts_guarded {e : EVM} (guarded : Guarded e evm) :
    Starts (Guarded e) env run evm :=
  ⟨fun _ _ _ _ => (Create_guarded env run nested).mono (fun _ g => guarded.trans g)
      fun _ _ => trivial,
    fun _ _ _ _ _ => (Call_guarded env run nested).mono (fun _ g => guarded.trans g)
      fun _ _ => trivial,
    fun _ _ _ _ _ => (CallCode_guarded env run nested).mono (fun _ g => guarded.trans g)
      fun _ _ => trivial,
    fun _ _ _ _ => (DelegateCall_guarded env run nested).mono (fun _ g => guarded.trans g)
      fun _ _ => trivial,
    fun _ _ _ _ => (StaticCall_static env run nested).mono
      (fun _ static => guarded.trans ⟨static.1, fun _ => static.2⟩) fun _ _ => trivial⟩

end Calls

/-! ### Runs -/

section Run

variable (env : Env) (byzantium : env.chainRules.IsByzantium = true)
include byzantium

/-- One round after Byzantium keeps the mode, and in read-only mode logs a restricted
instruction, given frames it starts that do the same. -/
theorem step_guarded {run : RunFn} {e : EVM} {frame : Frame} {evm : EVM}
    (safe : ∀ c i e', Meets (fun _ => True) (· ≠ .panic .stack) (run c i e'))
    (nested : ∀ c i e', Meets (fun r => Guarded e' r.evm) (fun _ => True) (run c i e'))
    (guarded : Guarded e evm) :
    Meets (Step.Holds (fun _ evm' => Guarded e evm') (fun r => Guarded e r.evm))
      (fun _ => True) (Interpreter.step env run frame evm) := by
  apply step_rule env
  case prepareFails => exact fun _ _ => trivial
  case invalid => exact fun _ _ => guarded
  case chargeFails => exact fun _ _ _ _ _ => trivial
  case outOfGas =>
    intro operation memorySize charged evm' _ ok
    obtain ⟨_, _, db, temp, _, rfl⟩ := charge_shape env ok
    exact guarded.trans (.of_eq rfl rfl)
  case executes =>
    intro operation memorySize cost charged evm' found ok grown grownEq
    obtain ⟨args, sameStack, valid⟩ := executes_stack env found ok grownEq
    have enough := ((validate_eq_none_iff _ _).mp valid).1
    obtain ⟨found, -, enforced, -⟩ := prepare_ok env found
    obtain ⟨mem, contract, db, temp, -, rfl⟩ := charge_shape env ok
    -- the charge changes the state only; the log entry is restricted in read-only mode
    have logged : Guarded e
        { evm with
          StateDB := db
          callGasTemp := temp
          structLogs := evm.structLogs ++ [⟨grown.pc, frame.contract.GetOp frame.pc,
            frame.contract.Gas, cost, grown.memory.Len, grown.stack, evm.depth⟩] } :=
      guarded.trans ⟨rfl, fun on => .snoc
        (sameStack ▸ restricted_of_enforced env byzantium on found enforced _ _ _ _ _) rfl⟩
    refine (execute_within env run grown _ (starts_guarded env run nested logged) args safe
      (sameStack ▸ enough) fun _ _ => logged.trans (.of_eq rfl rfl)).mono ?_ fun _ _ => trivial
    intro r after
    apply conclude_rule
    · intro pc _ _ _
      split
      · exact after.trans (.of_eq rfl rfl)
      · exact after
    · intro ret err
      split
      · exact after.trans (.of_eq rfl rfl)
      · exact after

/-- After Byzantium, a run keeps the read-only mode, and in read-only mode logs only
restricted instructions, for every amount of fuel. -/
theorem runner_guarded (fuel : Nat) : ∀ contract input evm,
    Meets (fun r => Guarded evm r.evm) (fun _ => True) (runner env fuel contract input evm) := by
  intro contract input evm
  refine @runner_induction env (fun _ _ => True) (fun _ evm r => Guarded evm r.evm)
    (fun _ _ _ => True)
    (fun _ _ _ _ _ => .refl _) (fun _ _ _ => .of_eq rfl rfl) ?_ fuel contract input evm trivial
  intro fuel ih contract input evm _
  -- the loop of the frame, whose rounds start frames with less fuel
  have loop := @loop_rule env fuel (fun _ _ evm' => Guarded evm evm')
    (fun r => Guarded evm r.evm) (fun _ => True) (fun _ _ _ => trivial)
    (fun _ _ _ _ guarded _ => guarded)
    (fun m _ _ lt guarded _ => step_guarded env byzantium
      (fun c i e => (runner_stack env m c i e).mono (fun _ _ => trivial) fun _ ne => ne)
      (fun c i e => ih m lt c i e trivial) guarded)
  exact (loop ⟨0, { contract with Input := input }, Memory.NewMemory, []⟩
    { evm with depth := evm.depth + 1, returnData := [] } (.of_eq rfl rfl)).mono
    (fun _ guarded => guarded.trans (.of_eq rfl rfl)) fun _ _ => trivial

end Run

/-- The write protection of `STATICCALL` after Byzantium. A frame run in read-only mode,
which every frame inside a `STATICCALL` is, executes no `SSTORE`, `LOG0` to `LOG4`, `CREATE`
or `SELFDESTRUCT` and no `CALL` with a value, itself or in any frame it starts through any
nesting of calls and creations, and returns still in read-only mode; a `STATICCALL` made
outside read-only mode runs only such instructions and returns with the mode off. -/
theorem static_write_protection (env : Env) (byzantium : env.chainRules.IsByzantium = true)
    (fuel : Nat) :
    (∀ contract input evm, evm.readOnly = true →
      Meets (fun r => r.evm.readOnly = true ∧ Logged Restricted evm r.evm) (fun _ => True)
        (runner env fuel contract input evm)) ∧
    (∀ evm caller addr input gas, evm.readOnly = false →
      Meets (fun called => called.evm.readOnly = false ∧ Logged Restricted evm called.evm)
        (fun _ => True) (EVM.StaticCall env (runner env fuel) evm caller addr input gas)) := by
  have nested := runner_guarded env byzantium fuel
  constructor
  · intro contract input evm on
    refine (nested contract input evm).mono ?_ fun _ _ => trivial
    intro r ⟨readOnly, logged⟩
    exact ⟨readOnly.trans on, logged on⟩
  · intro evm caller addr input gas off
    refine (StaticCall_static env _ nested).mono ?_ fun _ _ => trivial
    intro called ⟨readOnly, logged⟩
    exact ⟨readOnly.trans off, logged⟩

/-- A `StaticCall` of `callingTrie`'s account `100`: the `CALL` of `200` runs in read-only
mode too, which refuses its `SSTORE`, and then refuses the `SSTORE` of `100`; the call ends
with `errWriteProtection` after 13 instructions over the two frames, with the mode off. -/
theorem static_write_protection_nested :
    (⟨true, true, true, true⟩ : Rules).IsByzantium = true ∧
      Meets (fun called => called.evm.readOnly = false ∧ Logged Restricted
          ⟨StateDB.New callingTrie Hash.zero Hash.zero 0, 0, 0, false, [], false, []⟩ called.evm)
        (fun _ => True)
        (EVM.StaticCall
          ⟨⟨fun _ => Hash.zero, 0, 0, 0, 0, 0, 0, 0⟩, ⟨true, true, true, true⟩,
            ⟨false, false, false⟩, fun _ => Hash.zero, fun _ => ⟨fun _ => 0, fun _ => .ok []⟩⟩
          (runner ⟨⟨fun _ => Hash.zero, 0, 0, 0, 0, 0, 0, 0⟩, ⟨true, true, true, true⟩,
            ⟨false, false, false⟩, fun _ => Hash.zero, fun _ => ⟨fun _ => 0, fun _ => .ok []⟩⟩ 20)
          ⟨StateDB.New callingTrie Hash.zero Hash.zero 0, 0, 0, false, [], false, []⟩
          (.AccountRef 1) 100 [] 100000) ∧
      (match EVM.StaticCall
          ⟨⟨fun _ => Hash.zero, 0, 0, 0, 0, 0, 0, 0⟩, ⟨true, true, true, true⟩,
            ⟨false, false, false⟩, fun _ => Hash.zero, fun _ => ⟨fun _ => 0, fun _ => .ok []⟩⟩
          (runner ⟨⟨fun _ => Hash.zero, 0, 0, 0, 0, 0, 0, 0⟩, ⟨true, true, true, true⟩,
            ⟨false, false, false⟩, fun _ => Hash.zero, fun _ => ⟨fun _ => 0, fun _ => .ok []⟩⟩ 20)
          ⟨StateDB.New callingTrie Hash.zero Hash.zero 0, 0, 0, false, [], false, []⟩
          (.AccountRef 1) 100 [] 100000 with
        | .ok called => called.err == some .errWriteProtection && called.evm.structLogs.length == 13
        | .error _ => false) = true :=
  ⟨rfl, (static_write_protection
    ⟨⟨fun _ => Hash.zero, 0, 0, 0, 0, 0, 0, 0⟩, ⟨true, true, true, true⟩,
      ⟨false, false, false⟩, fun _ => Hash.zero, fun _ => ⟨fun _ => 0, fun _ => .ok []⟩⟩
    rfl 20).2 _ _ _ _ _ rfl, by decide⟩

end Indigo.Evm
