import Indigo.Evm.StackDiscipline

/-!
# Failed calls leave the state as it was

Each of the five ways into a frame takes a snapshot of the state before it runs the frame's
code, and reverts to the snapshot when the frame ends with an error. A frame changes the
state only by journalled methods (its instructions, and the refunds of its gas functions)
and by the frames it starts itself, which revert to snapshots of their own. The revert
therefore finds the snapshot's state extended by the frame, and it gives back what the
getters read when the snapshot was taken. A call refused before its snapshot (too deep, or
not enough balance for the value) changes nothing and returns all of its gas.

## Main results

- `Keeps`: how the state a run reaches relates to the state it starts from.
- `runner_keeps`: every run of the interpreter keeps it, for every amount of fuel.
- `Call_restores`, `CallCode_restores`, `DelegateCall_restores`, `StaticCall_restores` and
  `Create_restores`: a call that returns an error leaves every getter as it found it.
- `failed_calls_restore_state`: the five ways into a frame, run by the interpreter.

## Proof strategy

`Keeps s t` is `Extends` together with a well-formed revision stack and revision ids that
only grow. Journalled methods keep it (`Keeps.journalled`), and so does a revert to a
snapshot taken since, which also gives `Same` (`Keeps.revert_snapshot`). The call rules of
`Evm/Run.lean` list how each call ends, so each call lemma is one case per ending. The run
lemma is `loop_rule` with `Keeps` from the frame's start as the invariant, by strong
induction on the fuel for the frames a round starts.
-/

namespace Indigo.Evm

open Indigo.Lib Indigo.State

/-! ### What a run does to the state -/

/-- What a run does to the state database: `t` extends `s` (journalled methods, and reverts
only to snapshots taken since), its revision stack is well formed, and revision ids only
grow, so that a snapshot taken during the run has an id that no revision of `s` has. -/
structure Keeps (s t : StateDB) : Prop where
  extension : s.Extends t
  wf : t.Wf
  ids : s.nextRevisionId ≤ t.nextRevisionId

namespace Keeps

variable {s u t : StateDB}

theorem refl (wf : s.Wf) : Keeps s s := ⟨.refl s, wf, le_refl _⟩

theorem trans (first : Keeps s u) (second : Keeps u t) : Keeps s t :=
  ⟨first.extension.trans second.extension, second.wf, first.ids.trans second.ids⟩

/-- Journalled methods extend a well-formed state and leave its revisions alone. -/
theorem journalled {keccak : Bytes → Hash} (wf : s.Wf) (changed : Journalled keccak s t) :
    Keeps s t := by
  obtain ⟨ops, methods, applied⟩ := changed
  -- one method at a time, from the state the previous one left
  induction ops generalizing s with
  | nil =>
    cases applied
    exact refl wf
  | cons op rest ih =>
    simp only [Op.applyAll, List.foldlM_cons] at applied
    obtain ⟨u, first, applied⟩ := Option.bind_eq_some_iff.mp applied
    obtain ⟨method, notSnapshot⟩ := methods op List.mem_cons_self
    have same := Op.apply_sameRevisions keccak method notSnapshot first
    have step : Keeps s u :=
      ⟨Op.apply_extends keccak method first, wf.of_sameRevisions same, same.2.ge⟩
    exact step.trans (ih step.wf (fun op member => methods op (List.mem_cons_of_mem _ member))
      applied)

theorem snapshot (wf : s.Wf) : Keeps s s.Snapshot.2 :=
  ⟨.Snapshot s, wf.Snapshot, Nat.le_succ _⟩

/-- A revert to the snapshot taken in `s`, from a state that a run from the snapshot reached,
gives back what `s` read, with `s`'s journal and revisions, and a revision id past every
snapshot of the run. -/
theorem revert_snapshot (wf : s.Wf) (kept : Keeps s.Snapshot.2 t) {t' : StateDB}
    (revert : t.RevertToSnapshot s.Snapshot.1 = some t') : Keeps s t' ∧ StateDB.Same t' s := by
  obtain ⟨t'', revert', same, journal, revisions⟩ := kept.extension.revert_snapshot wf.below
  obtain rfl : t' = t'' := Option.some.inj (revert.symm.trans revert')
  obtain ⟨-, -, -, -, next⟩ := StateDB.RevertToSnapshot_spec revert
  have grown : s.nextRevisionId < t'.nextRevisionId := by
    rw [next]
    exact Nat.lt_of_lt_of_le (Nat.lt_succ_self _) kept.ids
  refine ⟨⟨.of_same same journal revisions, ⟨?_, fun r member => ?_⟩, grown.le⟩, same⟩
  · rw [revisions]
    exact wf.increasing
  · rw [revisions] at member
    exact (wf.below r member).trans grown

end Keeps

/-- Moving value and creating the callee's account are journalled methods. -/
theorem Transfer_journalled (keccak : Bytes → Hash) (db : StateDB) (sender recipient : Address)
    (amount : Int) : Journalled keccak db (Transfer keccak db sender recipient amount) :=
  (Journalled.single (.SubBalance sender amount) nofun nofun rfl).trans
    (.single (.AddBalance recipient amount) nofun nofun rfl)

theorem createMissing_journalled (keccak : Bytes → Hash) (db : StateDB) (addr : Address) :
    Journalled keccak db (if db.Exist addr then db else db.CreateAccount keccak addr) := by
  split
  · exact .refl db
  · exact .single (.CreateAccount addr) nofun nofun rfl

/-! ### What a failed call leaves -/

/-- Every getter of the state database reads in `t` what it reads in `s`. -/
def Unchanged (keccak : Bytes → Hash) (s t : StateDB) : Prop :=
  (∀ addr, t.Exist addr = s.Exist addr ∧ t.Empty keccak addr = s.Empty keccak addr ∧
    t.HasSuicided addr = s.HasSuicided addr ∧ t.GetBalance addr = s.GetBalance addr ∧
    t.GetNonce addr = s.GetNonce addr ∧ t.GetCode addr = s.GetCode addr ∧
    t.GetCodeHash addr = s.GetCodeHash addr ∧ t.GetCodeSize addr = s.GetCodeSize addr ∧
    ∀ key, t.GetState addr key = s.GetState addr key) ∧
  t.GetRefund = s.GetRefund ∧ (∀ hash, t.GetLogs hash = s.GetLogs hash) ∧
  t.Preimages = s.Preimages

theorem unchanged_of_same (keccak : Bytes → Hash) {s t : StateDB} (same : StateDB.Same t s) :
    Unchanged keccak s t :=
  same.getters keccak

/-- What a call leaves when it returns an error, from the state `s` and the `gas` it was
given: every getter reads as in `s`, and no gas is left unless the code reverted, or the
call was refused before it started (too deep, or not enough balance for the value), which
returns all of it. -/
def Restores (keccak : Bytes → Hash) (s : StateDB) (gas : Nat) (called : Called) : Prop :=
  ∀ err, called.err = some err → Unchanged keccak s called.evm.StateDB ∧
    (called.leftOverGas = 0 ∨ err = .errExecutionReverted ∨
      ((err = .ErrDepth ∨ err = .ErrInsufficientBalance) ∧ called.leftOverGas = gas))

/-- The same for a creation by `creator`: a creation refused before it starts leaves `s`,
one that fails later leaves `s` with the creator's nonce bumped. Before Homestead, code
that cannot be paid for is left out with the state kept, and is not a failure here. -/
def CreateRestores (env : Env) (s : StateDB) (creator : Address) (gas : Nat)
    (created : Created) : Prop :=
  ∀ err, created.err = some err →
    ¬(env.chainRules.IsHomestead = false ∧ err = .ErrCodeStoreOutOfGas) →
    (Unchanged env.keccak s created.evm.StateDB ∧
        (err = .ErrDepth ∨ err = .ErrInsufficientBalance) ∧ created.leftOverGas = gas) ∨
      (Unchanged env.keccak (s.SetNonce env.keccak creator ((s.GetNonce creator + 1) % 2 ^ 64))
          created.evm.StateDB ∧ (created.leftOverGas = 0 ∨ err = .errExecutionReverted))

namespace Restores

variable {keccak : Bytes → Hash} {s : StateDB} {gas : Nat} {called : Called}

theorem of_none (none : called.err = none) : Restores keccak s gas called := by
  intro err failed
  rw [none] at failed
  cases failed

/-- A call refused before its snapshot returns the machine it was given and all its gas. -/
theorem refused {err : VmError} (refusal : err = .ErrDepth ∨ err = .ErrInsufficientBalance)
    {evm : EVM} : Restores keccak evm.StateDB gas ⟨[], gas, some err, evm⟩ := by
  intro err' failed
  cases failed
  exact ⟨unchanged_of_same keccak (.refl _), .inr (.inr ⟨refusal, rfl⟩)⟩

end Restores

/-! ### The five ways into a frame -/

section Calls

variable (env : Env) (run : RunFn) {evm : EVM}

/-- The end of a call, from a frame that ran on the snapshot of `s`: on an error the revert
gives `s` back, and the gas is gone unless the frame reverted. -/
theorem endCall_restores {s : StateDB} (wf : s.Wf) {gas : Nat} {r : Ran}
    (kept : Keeps s.Snapshot.2 r.evm.StateDB) :
    Meets (fun called => Keeps s called.evm.StateDB ∧ Restores env.keccak s gas called)
      (fun _ => True) (EVM.endCall s.Snapshot.1 r) := by
  apply endCall_rule trivial
  · intro _
    exact ⟨(Keeps.snapshot wf).trans kept, .of_none rfl⟩
  · intro err db _ reverted
    obtain ⟨keeps, same⟩ := kept.revert_snapshot wf reverted
    refine ⟨keeps, fun err' failed => ⟨unchanged_of_same env.keccak same, ?_⟩⟩
    cases failed
    show (if err = .errExecutionReverted then r.contract.Gas else 0) = 0 ∨ _
    split
    · next reverts => exact .inr (.inl reverts)
    · exact .inl rfl

/-- The end of a creation, from a frame that ran on the snapshot of `bumped`: the stored code
is a journalled method, and every other end but the code kept before Homestead reverts. -/
theorem endCreate_restores {bumped : StateDB} (bumpedWf : bumped.Wf) {addr : Address} {r : Ran}
    (kept : Keeps bumped.Snapshot.2 r.evm.StateDB) :
    Meets (fun created => Keeps bumped created.evm.StateDB ∧
        ∀ err, created.err = some err →
          ¬(env.chainRules.IsHomestead = false ∧ err = .ErrCodeStoreOutOfGas) →
          Unchanged env.keccak bumped created.evm.StateDB ∧
            (created.leftOverGas = 0 ∨ err = .errExecutionReverted))
      (fun _ => True) (EVM.endCreate env bumped.Snapshot.1 addr r) := by
  have ran := (Keeps.snapshot bumpedWf).trans kept
  apply endCreate_rule env trivial
  case stored =>
    intro contract _ _ _
    refine ⟨ran.trans (.journalled kept.wf (.single (.SetCode addr r.ret) nofun nofun rfl)), ?_⟩
    intro err failed
    cases failed
  case kept =>
    intro homestead
    refine ⟨ran, fun err failed excluded => ?_⟩
    cases failed
    exact absurd ⟨homestead, rfl⟩ excluded
  case reverted =>
    intro err db _ reverted
    obtain ⟨keeps, same⟩ := kept.revert_snapshot bumpedWf reverted
    refine ⟨keeps, fun err' failed _ => ⟨unchanged_of_same env.keccak same, ?_⟩⟩
    cases failed
    show (if some err' = some .errExecutionReverted then r.contract.Gas else 0) = 0 ∨ _
    split
    · next reverts => exact .inr (Option.some.inj reverts)
    · exact .inl rfl

variable (wf : evm.StateDB.Wf)
  (nested : ∀ c i e, e.StateDB.Wf →
    Meets (fun r => Keeps e.StateDB r.evm.StateDB) (fun _ => True) (run c i e))
include wf nested

theorem Call_restores {caller : ContractRef} {addr : Address} {input : Bytes} {gas : Nat}
    {value : Int} :
    Meets (fun called => Keeps evm.StateDB called.evm.StateDB ∧
        Restores env.keccak evm.StateDB gas called)
      (fun _ => True) (EVM.Call env run evm caller addr input gas value) := by
  apply Call_rule env run
  case norecursion => exact fun _ _ => ⟨.refl wf, .of_none rfl⟩
  case depth => exact fun _ => ⟨.refl wf, .refused (.inl rfl)⟩
  case balance => exact fun _ => ⟨.refl wf, .refused (.inr rfl)⟩
  case missing => exact ⟨.snapshot wf, .of_none rfl⟩
  case ran =>
    intro _ db transferred
    -- the callee's account and the value are journalled after the snapshot
    have prepared : Keeps evm.StateDB.Snapshot.2 db := by
      rw [transferred]
      exact .journalled wf.Snapshot ((createMissing_journalled _ _ addr).trans
        (Transfer_journalled _ _ _ _ _))
    exact (nested _ _ _ prepared.wf).mono
      (fun r kept => endCall_restores env wf (prepared.trans kept)) fun _ _ => trivial

theorem CallCode_restores {caller : ContractRef} {addr : Address} {input : Bytes} {gas : Nat}
    {value : Int} :
    Meets (fun called => Keeps evm.StateDB called.evm.StateDB ∧
        Restores env.keccak evm.StateDB gas called)
      (fun _ => True) (EVM.CallCode env run evm caller addr input gas value) := by
  apply CallCode_rule env run
  case norecursion => exact fun _ _ => ⟨.refl wf, .of_none rfl⟩
  case depth => exact fun _ => ⟨.refl wf, .refused (.inl rfl)⟩
  case balance => exact fun _ => ⟨.refl wf, .refused (.inr rfl)⟩
  case ran =>
    exact (nested _ _ _ wf.Snapshot).mono
      (fun r kept => endCall_restores env wf kept) fun _ _ => trivial

theorem DelegateCall_restores {caller : ContractRef} {addr : Address} {input : Bytes}
    {gas : Nat} :
    Meets (fun called => Keeps evm.StateDB called.evm.StateDB ∧
        Restores env.keccak evm.StateDB gas called)
      (fun _ => True) (EVM.DelegateCall env run evm caller addr input gas) := by
  apply DelegateCall_rule env run
  case norecursion => exact fun _ _ => ⟨.refl wf, .of_none rfl⟩
  case depth => exact fun _ => ⟨.refl wf, .refused (.inl rfl)⟩
  case ran =>
    -- only a contract can delegate; the assertion on any other caller is no return
    cases caller with
    | AccountRef a => trivial
    | contract parent =>
      exact (nested _ _ _ wf.Snapshot).mono
        (fun r kept => endCall_restores env wf kept) fun _ _ => trivial

theorem StaticCall_restores {caller : ContractRef} {addr : Address} {input : Bytes}
    {gas : Nat} :
    Meets (fun called => Keeps evm.StateDB called.evm.StateDB ∧
        Restores env.keccak evm.StateDB gas called)
      (fun _ => True) (EVM.StaticCall env run evm caller addr input gas) := by
  apply StaticCall_rule env run
  case norecursion => exact fun _ _ => ⟨.refl wf, .of_none rfl⟩
  case depth => exact fun _ => ⟨.refl wf, .refused (.inl rfl)⟩
  case ran =>
    refine (nested _ _ _ wf.Snapshot).mono ?_ fun _ _ => trivial
    intro r kept
    refine (@endCall_restores env _ wf gas _ kept).mono ?_ fun _ _ => trivial
    intro called restored
    -- turning the read-only mode off again leaves the state, the error and the gas alone
    split
    · exact restored
    · exact restored

theorem Create_restores {caller : ContractRef} {code : Bytes} {gas : Nat} {value : Int} :
    Meets (fun created => Keeps evm.StateDB created.evm.StateDB ∧
        CreateRestores env evm.StateDB caller.Address gas created)
      (fun _ => True) (EVM.Create env run evm caller code gas value) := by
  apply Create_rule env run
  case depth =>
    refine fun _ => ⟨.refl wf, fun err failed _ => .inl ?_⟩
    cases failed
    exact ⟨unchanged_of_same env.keccak (.refl _), .inl rfl, rfl⟩
  case balance =>
    refine fun _ => ⟨.refl wf, fun err failed _ => .inl ?_⟩
    cases failed
    exact ⟨unchanged_of_same env.keccak (.refl _), .inr rfl, rfl⟩
  case collision =>
    intro bumped bump
    subst bump
    refine ⟨.journalled wf (.single (.SetNonce _ _) nofun nofun rfl),
      fun err failed _ => .inr ⟨unchanged_of_same env.keccak (.refl _), .inl rfl⟩⟩
  case ran =>
    intro _ bumped addr created bump _ transferred
    have bumping : Keeps evm.StateDB bumped := by
      rw [bump]
      exact .journalled wf (.single (.SetNonce _ _) nofun nofun rfl)
    -- the new account, its nonce after EIP158 and the value are journalled after the snapshot
    have prepared : Keeps bumped.Snapshot.2 created := by
      rw [transferred]
      refine .journalled bumping.wf.Snapshot (Journalled.trans ?_ (Transfer_journalled _ _ _ _ _))
      have account : Journalled env.keccak bumped.Snapshot.2
          (bumped.Snapshot.2.CreateAccount env.keccak addr) :=
        .single (.CreateAccount addr) nofun nofun rfl
      split
      · exact account.trans (.single (.SetNonce addr 1) nofun nofun rfl)
      · exact account
    refine ⟨fun _ _ => ⟨bumping.trans ((Keeps.snapshot bumping.wf).trans prepared),
      fun err failed => by cases failed⟩, ?_⟩
    apply (nested _ _ _ prepared.wf).mono _ fun _ _ => trivial
    intro r kept
    apply (endCreate_restores env bumping.wf (prepared.trans kept)).mono _ fun _ _ => trivial
    intro result ⟨keeps, restored⟩
    refine ⟨bumping.trans keeps, fun err failed excluded => .inr ?_⟩
    rw [← bump]
    exact restored err failed excluded

omit wf in
/-- What the five calls keep, from a machine whose state a run from `s` reached. -/
theorem starts_keeps {s : StateDB} (kept : Keeps s evm.StateDB) :
    Starts (fun e => Keeps s e.StateDB) env run evm :=
  ⟨fun _ _ _ _ => (Create_restores env run kept.wf nested).mono
      (fun _ after => kept.trans after.1) fun _ _ => trivial,
    fun _ _ _ _ _ => (Call_restores env run kept.wf nested).mono
      (fun _ after => kept.trans after.1) fun _ _ => trivial,
    fun _ _ _ _ _ => (CallCode_restores env run kept.wf nested).mono
      (fun _ after => kept.trans after.1) fun _ _ => trivial,
    fun _ _ _ _ => (DelegateCall_restores env run kept.wf nested).mono
      (fun _ after => kept.trans after.1) fun _ _ => trivial,
    fun _ _ _ _ => (StaticCall_restores env run kept.wf nested).mono
      (fun _ after => kept.trans after.1) fun _ _ => trivial⟩

end Calls

/-! ### Runs -/

section Run

variable (env : Env)

/-- The instruction of a round, with the operands it takes, keeps the state a run from `s`
reached related to `s`: an instruction that starts no frame makes journalled changes, one
that starts a frame keeps what the five calls keep. -/
theorem execute_keeps {run : RunFn} {s : StateDB} {f : executionFunc} {pop push : Nat}
    {frame : Frame} {evm : EVM} (args : f.stackArgs = some (pop, push))
    (safe : ∀ c i e, Meets (fun _ => True) (· ≠ .panic .stack) (run c i e))
    (nested : ∀ c i e, e.StateDB.Wf →
      Meets (fun r => Keeps e.StateDB r.evm.StateDB) (fun _ => True) (run c i e))
    (enough : pop ≤ frame.stack.length) (kept : Keeps s evm.StateDB) :
    Meets (fun r => Keeps s r.evm.StateDB) (fun _ => True) (f.apply env run frame evm) :=
  execute_within env run frame evm (starts_keeps env run nested kept) args safe enough
    fun _ changed => kept.trans (.journalled kept.wf changed)

/-- One round keeps the state related to the state the frame started from. -/
theorem step_keeps {run : RunFn} {s : StateDB} {frame : Frame} {evm : EVM}
    (safe : ∀ c i e, Meets (fun _ => True) (· ≠ .panic .stack) (run c i e))
    (nested : ∀ c i e, e.StateDB.Wf →
      Meets (fun r => Keeps e.StateDB r.evm.StateDB) (fun _ => True) (run c i e))
    (kept : Keeps s evm.StateDB) :
    Meets (Step.Holds (fun _ evm' => Keeps s evm'.StateDB) (fun r => Keeps s r.evm.StateDB))
      (fun _ => True) (Interpreter.step env run frame evm) := by
  apply step_rule env
  case prepareFails => exact fun _ _ => trivial
  case invalid => exact fun _ _ => kept
  case chargeFails => exact fun _ _ _ _ _ => trivial
  case outOfGas =>
    intro operation memorySize charged evm' _ ok
    exact kept.trans (.journalled kept.wf (charge_journalled env ok))
  case executes =>
    intro operation memorySize cost charged evm' found ok grown grownEq
    obtain ⟨args, sameStack, valid⟩ := executes_stack env found ok grownEq
    have enough := ((validate_eq_none_iff _ _).mp valid).1
    refine (execute_keeps env (s := s) args safe nested (sameStack ▸ enough) ?_).mono ?_
      fun _ _ => trivial
    · -- the gas function's refund; the log entry is not the state
      show Keeps s evm'.StateDB
      exact kept.trans (.journalled kept.wf (charge_journalled env ok))
    · intro r after
      apply conclude_rule
      · intro pc _ _ _
        split <;> exact after
      · intro ret err
        split <;> exact after

/-- A run of the interpreter, from a machine with a well-formed state, reaches a state that
extends it, for every amount of fuel. -/
theorem runner_keeps (fuel : Nat) : ∀ contract input evm, evm.StateDB.Wf →
    Meets (fun r => Keeps evm.StateDB r.evm.StateDB) (fun _ => True)
      (runner env fuel contract input evm) := by
  refine @runner_induction env (fun _ evm => evm.StateDB.Wf)
    (fun _ evm r => Keeps evm.StateDB r.evm.StateDB) (fun _ _ _ => True)
    (fun _ _ _ _ wf => .refl wf) (fun _ _ wf => .refl wf) ?_ fuel
  intro fuel ih contract input evm wf
  -- the loop of the frame, whose rounds start frames with less fuel
  have loop := @loop_rule env fuel (fun _ _ evm' => Keeps evm.StateDB evm'.StateDB)
    (fun r => Keeps evm.StateDB r.evm.StateDB) (fun _ => True) (fun _ _ _ => trivial)
    (fun _ _ _ _ kept _ => kept)
    (fun m _ _ lt kept _ => step_keeps env
      (fun c i e => (runner_stack env m c i e).mono (fun _ _ => trivial) fun _ ne => ne)
      (ih m lt) kept)
  exact (loop ⟨0, { contract with Input := input }, Memory.NewMemory, []⟩
    { evm with depth := evm.depth + 1, returnData := [] } (.refl wf)).mono
    (fun _ kept => kept) fun _ _ => trivial

end Run

/-- Failed calls leave the state as it was. Run by the interpreter with any amount of fuel,
from a machine whose revision stack is as `Snapshot` builds it, each of `Call`, `CallCode`,
`DelegateCall` and `StaticCall` that returns an error leaves every getter of the state as it
was before the call, and no gas unless the code reverted or the call was refused as too
deep or for want of balance, which returns all of it; a `Create` that returns an error
other than the code kept before Homestead leaves the state as it was, or as it was with the
creator's nonce bumped, with the same rule for the gas. -/
theorem failed_calls_restore_state (env : Env) (fuel : Nat) (evm : EVM)
    (wf : evm.StateDB.Wf) :
    (∀ caller addr input gas value, Meets (Restores env.keccak evm.StateDB gas) (fun _ => True)
      (EVM.Call env (runner env fuel) evm caller addr input gas value)) ∧
    (∀ caller addr input gas value, Meets (Restores env.keccak evm.StateDB gas) (fun _ => True)
      (EVM.CallCode env (runner env fuel) evm caller addr input gas value)) ∧
    (∀ caller addr input gas, Meets (Restores env.keccak evm.StateDB gas) (fun _ => True)
      (EVM.DelegateCall env (runner env fuel) evm caller addr input gas)) ∧
    (∀ caller addr input gas, Meets (Restores env.keccak evm.StateDB gas) (fun _ => True)
      (EVM.StaticCall env (runner env fuel) evm caller addr input gas)) ∧
    (∀ caller code gas value,
      Meets (CreateRestores env evm.StateDB caller.Address gas) (fun _ => True)
        (EVM.Create env (runner env fuel) evm caller code gas value)) := by
  have nested := runner_keeps env fuel
  refine ⟨fun _ _ _ _ _ => ?_, fun _ _ _ _ _ => ?_, fun _ _ _ _ => ?_, fun _ _ _ _ => ?_,
    fun _ _ _ _ => ?_⟩
  · exact (Call_restores env _ wf nested).mono (fun _ after => after.2) fun _ _ => trivial
  · exact (CallCode_restores env _ wf nested).mono (fun _ after => after.2) fun _ _ => trivial
  · exact (DelegateCall_restores env _ wf nested).mono (fun _ after => after.2) fun _ _ => trivial
  · exact (StaticCall_restores env _ wf nested).mono (fun _ after => after.2) fun _ _ => trivial
  · exact (Create_restores env _ wf nested).mono (fun _ after => after.2) fun _ _ => trivial

/-- A `Call` of `callingTrie`'s account `100` runs 19 instructions over two frames, ends
reverted, and leaves the state as it was. -/
theorem failed_calls_restore_state_reverted :
    (StateDB.New callingTrie Hash.zero Hash.zero 0).Wf ∧
      Meets (Restores (fun _ => Hash.zero) (StateDB.New callingTrie Hash.zero Hash.zero 0) 100000)
        (fun _ => True)
        (EVM.Call
          ⟨⟨fun _ => Hash.zero, 0, 0, 0, 0, 0, 0, 0⟩, ⟨true, true, true, true⟩,
            ⟨false, false, false⟩, fun _ => Hash.zero, fun _ => ⟨fun _ => 0, fun _ => .ok []⟩⟩
          (runner ⟨⟨fun _ => Hash.zero, 0, 0, 0, 0, 0, 0, 0⟩, ⟨true, true, true, true⟩,
            ⟨false, false, false⟩, fun _ => Hash.zero, fun _ => ⟨fun _ => 0, fun _ => .ok []⟩⟩ 20)
          ⟨StateDB.New callingTrie Hash.zero Hash.zero 0, 0, 0, false, [], false, []⟩
          (.AccountRef 1) 100 [] 100000 0) ∧
      (match EVM.Call
          ⟨⟨fun _ => Hash.zero, 0, 0, 0, 0, 0, 0, 0⟩, ⟨true, true, true, true⟩,
            ⟨false, false, false⟩, fun _ => Hash.zero, fun _ => ⟨fun _ => 0, fun _ => .ok []⟩⟩
          (runner ⟨⟨fun _ => Hash.zero, 0, 0, 0, 0, 0, 0, 0⟩, ⟨true, true, true, true⟩,
            ⟨false, false, false⟩, fun _ => Hash.zero, fun _ => ⟨fun _ => 0, fun _ => .ok []⟩⟩ 20)
          ⟨StateDB.New callingTrie Hash.zero Hash.zero 0, 0, 0, false, [], false, []⟩
          (.AccountRef 1) 100 [] 100000 0 with
        | .ok called => called.err == some .errExecutionReverted && called.evm.structLogs.length == 19
        | .error _ => false) = true :=
  ⟨StateDB.wf_New _ _ _ _,
    (failed_calls_restore_state
      ⟨⟨fun _ => Hash.zero, 0, 0, 0, 0, 0, 0, 0⟩, ⟨true, true, true, true⟩,
        ⟨false, false, false⟩, fun _ => Hash.zero, fun _ => ⟨fun _ => 0, fun _ => .ok []⟩⟩ 20
      ⟨StateDB.New callingTrie Hash.zero Hash.zero 0, 0, 0, false, [], false, []⟩
      (StateDB.wf_New _ _ _ _)).1 _ _ _ _ _,
    by decide⟩

end Indigo.Evm
