import Indigo.Evm.MemorySafety
import Indigo.State.Solvent

/-!
# Memory safety over whole runs

`memory_in_bounds` is about one round, for a stack of non-negative items. A run keeps its
stacks so: every instruction pushes a 256-bit word, a count, an address, a flag, the value
of its contract, the gas price or a balance. The first two of the last three are non-negative
when the run starts so, and a balance is non-negative in a solvent state, which every
instruction and every call keeps: a transfer moves no more than `CanTransfer` checked, a
suicide credits a balance, and a revert puts back balances the journal remembers.

## Main results

- `ArithOp.execute_unsigned`, `execute_unsigned`: every instruction keeps the words of the
  frame unsigned and the state solvent, given frames it starts that keep the state solvent.
- `enters_solvent`: the five ways into a frame keep the state solvent and fail on no memory
  access when the runs behind them do, from a solvent state.
- `round_in_bounds`: with gas metering, a round from unsigned words on a solvent state
  accesses no memory out of bounds and keeps both.
- `runner_memory_in_bounds`: with gas metering and a non-negative gas price, the run of a
  contract of non-negative value on a solvent state, with every frame it starts, accesses no
  memory out of bounds and leaves a solvent state.

## Proof strategy

One lemma per shape of instruction says what it pushes; `execute_unsigned` is one case per
`execute` function. The memory side is `executes_any_in_bounds`, joined to the words by
`Meets.and_post`. The run goes by `runner_induction` and `loop_rule`, with the frames a round
starts covered by the induction through `enters_solvent`.
-/

namespace Indigo.Evm

open Indigo.Lib Indigo.State

/-- The items of a frame's stack and the value of its contract are not negative. -/
structure Frame.Unsigned (frame : Frame) : Prop where
  stack : ∀ x ∈ frame.stack, 0 ≤ x
  value : 0 ≤ frame.contract.value

/-- What an instruction keeps: the words of its frame unsigned and the state solvent. -/
def Executed.Unsigned (r : Executed) : Prop := r.frame.Unsigned ∧ r.evm.StateDB.Solvent

section Words

variable {frame : Frame}

theorem Frame.Unsigned.withStack (unsigned : frame.Unsigned) {stack : Stack}
    (words : ∀ x ∈ stack, 0 ≤ x) : (frame.withStack stack).Unsigned :=
  ⟨words, unsigned.value⟩

/-- The items under those an instruction takes off are unsigned. -/
theorem Frame.Unsigned.under (unsigned : frame.Unsigned) (taken : Stack) {rest : Stack}
    (split : frame.stack = taken ++ rest) : ∀ x ∈ rest, 0 ≤ x :=
  fun x member => unsigned.stack x (split ▸ List.mem_append_right _ member)

/-- So is each item an instruction takes off. -/
theorem Frame.Unsigned.taken (unsigned : frame.Unsigned) (taken : Stack) {rest : Stack}
    (split : frame.stack = taken ++ rest) : ∀ x ∈ taken, 0 ≤ x :=
  fun x member => unsigned.stack x (split ▸ List.mem_append_left _ member)

/-- A result chosen between unsigned ones is unsigned. -/
theorem ite_unsigned {p : Prop} [Decidable p] {a b : Int} (first : 0 ≤ a) (second : 0 ≤ b) :
    0 ≤ if p then a else b := by
  split
  · exact first
  · exact second

end Words

/-! ### The arithmetic -/

section Arith

variable {stack stack' : List Int}

theorem unaryOp_unsigned {f : Int → Int} (nonneg : ∀ x, 0 ≤ x → 0 ≤ f x)
    (words : ∀ x ∈ stack, 0 ≤ x) (ok : unaryOp f stack = some stack') :
    ∀ x ∈ stack', 0 ≤ x := by
  rcases stack with _ | ⟨x, rest⟩
  · cases ok
  · cases ok
    obtain ⟨top, below⟩ := List.forall_mem_cons.mp words
    exact List.forall_mem_cons.mpr ⟨nonneg x top, below⟩

theorem binaryOp_unsigned {f : Int → Int → Int}
    (nonneg : ∀ x y, 0 ≤ x → 0 ≤ y → 0 ≤ f x y) (words : ∀ x ∈ stack, 0 ≤ x)
    (ok : binaryOp f stack = some stack') : ∀ x ∈ stack', 0 ≤ x := by
  rcases stack with _ | ⟨x, _ | ⟨y, rest⟩⟩
  · cases ok
  · cases ok
  · cases ok
    obtain ⟨first, words⟩ := List.forall_mem_cons.mp words
    obtain ⟨second, below⟩ := List.forall_mem_cons.mp words
    exact List.forall_mem_cons.mpr ⟨nonneg x y first second, below⟩

theorem ternaryOp_unsigned {f : Int → Int → Int → Int}
    (nonneg : ∀ x y z, 0 ≤ x → 0 ≤ y → 0 ≤ z → 0 ≤ f x y z)
    (words : ∀ x ∈ stack, 0 ≤ x) (ok : ternaryOp f stack = some stack') :
    ∀ x ∈ stack', 0 ≤ x := by
  rcases stack with _ | ⟨x, _ | ⟨y, _ | ⟨z, rest⟩⟩⟩
  · cases ok
  · cases ok
  · cases ok
  · cases ok
    obtain ⟨first, words⟩ := List.forall_mem_cons.mp words
    obtain ⟨second, words⟩ := List.forall_mem_cons.mp words
    obtain ⟨third, below⟩ := List.forall_mem_cons.mp words
    exact List.forall_mem_cons.mpr ⟨nonneg x y z first second third, below⟩

/-- `SIGNEXTEND` pushes a word, or leaves its second operand where it was. -/
theorem opSignExtend_unsigned (words : ∀ x ∈ stack, 0 ≤ x)
    (ok : opSignExtend stack = some stack') :
    ∀ x ∈ stack', 0 ≤ x := by
  rcases stack with _ | ⟨back, rest⟩
  · cases ok
  · have below := (List.forall_mem_cons.mp words).2
    by_cases small : back < 31
    · rcases rest with _ | ⟨num, rest⟩
      · simp [opSignExtend, small] at ok
      · simp only [opSignExtend, if_pos small, Option.some.injEq] at ok
        subst ok
        exact List.forall_mem_cons.mpr ⟨(U256_bounds _).1, (List.forall_mem_cons.mp below).2⟩
    · simp only [opSignExtend, if_neg small, Option.some.injEq] at ok
      subst ok
      exact below

theorem U256_unsigned (x : Int) : 0 ≤ U256 x := (U256_bounds x).1

/-- Every arithmetic instruction pushes a word: a `U256`, a flag, a byte, a power modulo
`2^256`, or a bitwise combination of words. -/
theorem ArithOp.execute_unsigned (op : ArithOp) (words : ∀ x ∈ stack, 0 ≤ x)
    (ok : op.execute stack = some stack') : ∀ x ∈ stack', 0 ≤ x := by
  cases op with
  | ADD | SUB | MUL => exact binaryOp_unsigned (fun _ _ _ _ => U256_unsigned _) words ok
  | DIV => exact binaryOp_unsigned (fun _ _ _ _ => ite_unsigned (U256_unsigned _) le_rfl) words ok
  | MOD | SDIV | SMOD =>
    exact binaryOp_unsigned (fun _ _ _ _ => ite_unsigned le_rfl (U256_unsigned _)) words ok
  | ADDMOD | MULMOD =>
    exact ternaryOp_unsigned (fun _ _ _ _ _ _ => ite_unsigned (U256_unsigned _) le_rfl) words ok
  | EXP =>
    refine binaryOp_unsigned (fun base exponent baseNonneg exponentNonneg => ?_) words ok
    obtain ⟨a, rfl⟩ := Int.eq_ofNat_of_zero_le baseNonneg
    obtain ⟨e, rfl⟩ := Int.eq_ofNat_of_zero_le exponentNonneg
    show 0 ≤ Exp a e
    rw [Exp_eq]
    exact Int.natCast_nonneg _
  | SIGNEXTEND => exact opSignExtend_unsigned words ok
  | LT | GT | SLT | SGT | EQ =>
    exact binaryOp_unsigned (fun _ _ _ _ => ite_unsigned zero_le_one le_rfl) words ok
  | ISZERO => exact unaryOp_unsigned (fun _ _ => ite_unsigned le_rfl zero_le_one) words ok
  | NOT => exact unaryOp_unsigned (fun _ _ => U256_unsigned _) words ok
  | AND | OR | XOR =>
    -- on non-negative operands the bitwise operations are those of the naturals
    refine binaryOp_unsigned (fun x y xNonneg yNonneg => ?_) words ok
    obtain ⟨m, rfl⟩ := Int.eq_ofNat_of_zero_le xNonneg
    obtain ⟨n, rfl⟩ := Int.eq_ofNat_of_zero_le yNonneg
    exact Int.natCast_nonneg _
  | BYTE =>
    exact binaryOp_unsigned (fun _ _ _ _ => ite_unsigned (Int.natCast_nonneg _) le_rfl) words ok

end Arith

/-! ### What the instructions push -/

/-- The end of the four calls pushes a flag onto the items under their operands and keeps the
value of the contract. -/
theorem callReturn_unsigned {frame : Frame} (value : 0 ≤ frame.contract.value)
    {retOffset retSize : Int} {rest : Stack} (words : ∀ x ∈ rest, 0 ≤ x) {called : Called}
    (solvent : called.evm.StateDB.Solvent) :
    Meets Executed.Unsigned (fun _ => True) (callReturn frame retOffset retSize rest called) := by
  have flag : (0 : Int) ≤ if called.err.isSome then 0 else 1 := ite_unsigned le_rfl zero_le_one
  unfold callReturn
  dsimp only
  -- the output is copied unless the call failed without reverting
  split
  · apply Meets.bind_ok fun _ _ => trivial
    intro memory _
    exact ⟨⟨List.forall_mem_cons.mpr ⟨flag, words⟩, value⟩, solvent⟩
  · exact ⟨⟨List.forall_mem_cons.mpr ⟨flag, words⟩, value⟩, solvent⟩

theorem UseGas_getD_value (c : Contract) (gas : Nat) :
    ((c.UseGas gas).getD c).value = c.value := by
  unfold Contract.UseGas
  split <;> rfl

section Instructions

variable (env : Env) (run : RunFn) (frame : Frame) (evm : EVM)
  (unsigned : frame.Unsigned) (solvent : evm.StateDB.Solvent)
include unsigned solvent

theorem pushValue_unsigned {x : Int} (nonneg : 0 ≤ x) :
    Meets Executed.Unsigned (fun _ => True) (pushValue frame evm x) :=
  ⟨unsigned.withStack (List.forall_mem_cons.mpr ⟨nonneg, unsigned.stack⟩), solvent⟩

theorem replaceTop_unsigned {g : Int → Int} (nonneg : ∀ y, 0 ≤ g y) :
    Meets Executed.Unsigned (fun _ => True) (replaceTop frame evm g) := by
  unfold replaceTop
  split
  · next x rest top =>
    exact ⟨unsigned.withStack (List.forall_mem_cons.mpr ⟨nonneg x, unsigned.under [x] top⟩),
      solvent⟩
  · trivial

theorem opArith_unsigned (op : ArithOp) :
    Meets Executed.Unsigned (fun _ => True) (opArith frame evm op) := by
  unfold opArith
  split
  · next stack executed =>
    exact ⟨unsigned.withStack (op.execute_unsigned unsigned.stack executed), solvent⟩
  · trivial

theorem copyToMemory_unsigned (source : Int → Int → Bytes) :
    Meets Executed.Unsigned (fun _ => True) (copyToMemory frame evm source) := by
  unfold copyToMemory
  split
  · next memOffset dataOffset length rest popped =>
    apply Meets.bind_ok fun _ _ => trivial
    intro memory _
    exact ⟨⟨unsigned.under [memOffset, dataOffset, length] popped, unsigned.value⟩, solvent⟩
  · trivial

theorem opSha3_unsigned : Meets Executed.Unsigned (fun _ => True) (opSha3 env frame evm) := by
  unfold opSha3
  split
  · next offset size rest popped =>
    apply Meets.bind_ok fun _ _ => trivial
    intro data _
    refine ⟨unsigned.withStack (List.forall_mem_cons.mpr
      ⟨Int.natCast_nonneg _, unsigned.under [offset, size] popped⟩), ?_⟩
    -- the preimage is recorded only when asked for
    split
    · exact solvent.AddPreimage _ _
    · exact solvent
  · trivial

theorem opReturnDataCopy_unsigned :
    Meets Executed.Unsigned (fun _ => True) (opReturnDataCopy frame evm) := by
  unfold opReturnDataCopy
  split
  · next memOffset dataOffset length rest popped =>
    have under := unsigned.under [memOffset, dataOffset, length] popped
    dsimp only
    split
    · exact ⟨unsigned.withStack under, solvent⟩
    · split
      · apply Meets.bind_ok fun _ _ => trivial
        intro memory _
        exact ⟨⟨under, unsigned.value⟩, solvent⟩
      · trivial
  · trivial

theorem opExtCodeCopy_unsigned :
    Meets Executed.Unsigned (fun _ => True) (opExtCodeCopy frame evm) := by
  unfold opExtCodeCopy
  split
  · next addr rest popped =>
    exact copyToMemory_unsigned _ evm (unsigned.withStack (unsigned.under [addr] popped))
      solvent _
  · trivial

theorem opPop_unsigned : Meets Executed.Unsigned (fun _ => True) (opPop frame evm) := by
  unfold opPop
  split
  · next x rest popped => exact ⟨unsigned.withStack (unsigned.under [x] popped), solvent⟩
  · trivial

theorem opMload_unsigned : Meets Executed.Unsigned (fun _ => True) (opMload frame evm) := by
  unfold opMload
  split
  · next offset rest popped =>
    apply Meets.bind_ok fun _ _ => trivial
    intro data _
    exact ⟨unsigned.withStack (List.forall_mem_cons.mpr
      ⟨Int.natCast_nonneg _, unsigned.under [offset] popped⟩), solvent⟩
  · trivial

theorem opMstore_unsigned : Meets Executed.Unsigned (fun _ => True) (opMstore frame evm) := by
  unfold opMstore
  split
  · next mStart val rest popped =>
    apply Meets.bind_ok fun _ _ => trivial
    intro memory _
    exact ⟨⟨unsigned.under [mStart, val] popped, unsigned.value⟩, solvent⟩
  · trivial

theorem opMstore8_unsigned : Meets Executed.Unsigned (fun _ => True) (opMstore8 frame evm) := by
  unfold opMstore8
  split
  · next off val rest popped =>
    apply Meets.bind_ok fun _ _ => trivial
    intro memory _
    exact ⟨⟨unsigned.under [off, val] popped, unsigned.value⟩, solvent⟩
  · trivial

theorem opSstore_unsigned : Meets Executed.Unsigned (fun _ => True) (opSstore env frame evm) := by
  unfold opSstore
  split
  · next loc val rest popped =>
    exact ⟨unsigned.withStack (unsigned.under [loc, val] popped), solvent.SetState _ _ _⟩
  · trivial

theorem opJump_unsigned : Meets Executed.Unsigned (fun _ => True) (opJump frame evm) := by
  unfold opJump
  split
  · next pos rest popped =>
    have kept : Frame.Unsigned (frame.withStack rest) :=
      unsigned.withStack (unsigned.under [pos] popped)
    dsimp only
    split
    · exact ⟨kept, solvent⟩
    · exact ⟨⟨kept.stack, kept.value⟩, solvent⟩
  · trivial

theorem opJumpi_unsigned : Meets Executed.Unsigned (fun _ => True) (opJumpi frame evm) := by
  unfold opJumpi
  split
  · next pos cond rest popped =>
    have kept : Frame.Unsigned (frame.withStack rest) :=
      unsigned.withStack (unsigned.under [pos, cond] popped)
    dsimp only
    split
    · split
      · exact ⟨kept, solvent⟩
      · exact ⟨⟨kept.stack, kept.value⟩, solvent⟩
    · exact ⟨⟨kept.stack, kept.value⟩, solvent⟩
  · trivial

theorem opReturn_unsigned : Meets Executed.Unsigned (fun _ => True) (opReturn frame evm) := by
  unfold opReturn
  split
  · next offset size rest popped =>
    apply Meets.bind_ok fun _ _ => trivial
    intro ret _
    exact ⟨unsigned.withStack (unsigned.under [offset, size] popped), solvent⟩
  · trivial

/-- `SELFDESTRUCT` credits the beneficiary with a balance of a solvent state. -/
theorem opSuicide_unsigned :
    Meets Executed.Unsigned (fun _ => True) (opSuicide env frame evm) := by
  unfold opSuicide
  split
  · next beneficiary rest popped =>
    have credited : (evm.StateDB.AddBalance env.keccak (BigToAddress beneficiary)
        (evm.StateDB.GetBalance frame.contract.self)).Solvent :=
      solvent.AddBalance env.keccak (solvent.GetBalance _)
    exact ⟨unsigned.withStack (unsigned.under [beneficiary] popped), credited.Suicide⟩
  · trivial

theorem makeLog_unsigned (size : Nat) :
    Meets Executed.Unsigned (fun _ => True) (makeLog env frame evm size) := by
  unfold makeLog
  split
  · next mStart mSize rest popped =>
    have under := unsigned.under [mStart, mSize] popped
    split
    · apply Meets.bind_ok fun _ _ => trivial
      intro data _
      exact ⟨unsigned.withStack fun x member => under x (List.mem_of_mem_drop member),
        solvent.AddLog _⟩
    · trivial
  · trivial

theorem makePush_unsigned (size pushByteSize : Nat) :
    Meets Executed.Unsigned (fun _ => True) (makePush frame evm size pushByteSize) :=
  ⟨⟨List.forall_mem_cons.mpr ⟨Int.natCast_nonneg _, unsigned.stack⟩, unsigned.value⟩,
    solvent⟩

theorem makeDup_unsigned (size : Nat) :
    Meets Executed.Unsigned (fun _ => True) (makeDup frame evm size) := by
  unfold makeDup
  apply Meets.bind_ok fun _ _ => trivial
  intro stack duped
  exact ⟨unsigned.withStack fun x member => unsigned.stack x (Stack.mem_of_dup duped member),
    solvent⟩

theorem makeSwap_unsigned (size : Nat) :
    Meets Executed.Unsigned (fun _ => True) (makeSwap frame evm size) := by
  unfold makeSwap
  apply Meets.bind_ok fun _ _ => trivial
  intro stack swapped
  exact ⟨unsigned.withStack fun x member => unsigned.stack x (Stack.mem_of_swap swapped member),
    solvent⟩

end Instructions

/-! ### The instructions that start a frame -/

section Frames

variable (env : Env) (run : RunFn) (frame : Frame) (evm : EVM) (unsigned : frame.Unsigned)
  (enters : Enters (fun e => e.StateDB.Solvent) (fun _ => True) env run evm frame.contract)
include unsigned enters

/-- `CREATE` pushes an address or zero and keeps the value of its contract, whose gas it
only shares with the new one. -/
theorem opCreate_unsigned :
    Meets Executed.Unsigned (fun _ => True) (opCreate env run frame evm) := by
  unfold opCreate
  split
  · next value offset size rest popped =>
    have funded := unsigned.taken [value, offset, size] popped value (by simp)
    apply Meets.bind_ok fun _ _ => trivial
    intro input _
    apply Meets.bind (enters.create _ _ _ _ funded)
    intro created solvent'
    have pushed : (0 : Int) ≤ if env.chainRules.IsHomestead ∧
        created.err = some .ErrCodeStoreOutOfGas then (0 : Int)
      else if created.err.isSome ∧ created.err ≠ some .ErrCodeStoreOutOfGas then 0
      else (created.contractAddr : Int) :=
      ite_unsigned le_rfl (ite_unsigned le_rfl (Int.natCast_nonneg _))
    refine ⟨⟨List.forall_mem_cons.mpr ⟨pushed, unsigned.under [value, offset, size] popped⟩,
      ?_⟩, solvent'⟩
    exact (UseGas_getD_value _ _).symm ▸ unsigned.value
  · trivial

theorem opCall_unsigned : Meets Executed.Unsigned (fun _ => True) (opCall env run frame evm) := by
  unfold opCall
  split
  · next gas addr value inOffset inSize retOffset retSize rest popped =>
    apply Meets.bind_ok fun _ _ => trivial
    intro args _
    apply Meets.bind (enters.call _ _ _ _ _ (U256_unsigned value))
    intro called solvent'
    exact callReturn_unsigned unsigned.value
      (unsigned.under [gas, addr, value, inOffset, inSize, retOffset, retSize] popped) solvent'
  · trivial

theorem opCallCode_unsigned :
    Meets Executed.Unsigned (fun _ => True) (opCallCode env run frame evm) := by
  unfold opCallCode
  split
  · next gas addr value inOffset inSize retOffset retSize rest popped =>
    apply Meets.bind_ok fun _ _ => trivial
    intro args _
    apply Meets.bind (enters.callCode _ _ _ _ _ (U256_unsigned value))
    intro called solvent'
    exact callReturn_unsigned unsigned.value
      (unsigned.under [gas, addr, value, inOffset, inSize, retOffset, retSize] popped) solvent'
  · trivial

theorem opDelegateCall_unsigned :
    Meets Executed.Unsigned (fun _ => True) (opDelegateCall env run frame evm) := by
  unfold opDelegateCall
  split
  · next gas addr inOffset inSize retOffset retSize rest popped =>
    apply Meets.bind_ok fun _ _ => trivial
    intro args _
    apply Meets.bind (enters.delegateCall _ _ _)
    intro called solvent'
    exact callReturn_unsigned unsigned.value
      (unsigned.under [gas, addr, inOffset, inSize, retOffset, retSize] popped) solvent'
  · trivial

theorem opStaticCall_unsigned :
    Meets Executed.Unsigned (fun _ => True) (opStaticCall env run frame evm) := by
  unfold opStaticCall
  split
  · next gas addr inOffset inSize retOffset retSize rest popped =>
    apply Meets.bind_ok fun _ _ => trivial
    intro args _
    apply Meets.bind (enters.staticCall _ _ _ _)
    intro called solvent'
    exact callReturn_unsigned unsigned.value
      (unsigned.under [gas, addr, inOffset, inSize, retOffset, retSize] popped) solvent'
  · trivial

end Frames

/-- Every instruction keeps the words of its frame unsigned and the state solvent, given a
non-negative gas price and frames it starts that keep the state solvent. -/
theorem execute_unsigned (f : executionFunc) (env : Env) (run : RunFn) (frame : Frame)
    (evm : EVM) (price : 0 ≤ env.Context.GasPrice) (unsigned : frame.Unsigned)
    (solvent : evm.StateDB.Solvent)
    (enters : Enters (fun e => e.StateDB.Solvent) (fun _ => True) env run evm frame.contract) :
    Meets Executed.Unsigned (fun _ => True) (f.apply env run frame evm) := by
  cases f with
  | arith op => exact opArith_unsigned frame evm unsigned solvent op
  | opSha3 => exact opSha3_unsigned env frame evm unsigned solvent
  -- addresses, sizes and counts
  | opAddress | opOrigin | opCaller | opCallDataSize | opReturnDataSize | opCodeSize
  | opCoinbase | opPc | opMsize | opGas =>
    exact pushValue_unsigned frame evm unsigned solvent (Int.natCast_nonneg _)
  -- the fields of the block, as 256-bit words
  | opTimestamp | opNumber | opDifficulty | opGasLimit =>
    exact pushValue_unsigned frame evm unsigned solvent (U256_unsigned _)
  | opCallValue => exact pushValue_unsigned frame evm unsigned solvent unsigned.value
  | opGasprice => exact pushValue_unsigned frame evm unsigned solvent price
  | opBalance =>
    exact replaceTop_unsigned frame evm unsigned solvent fun _ => solvent.GetBalance _
  | opCallDataLoad | opExtCodeSize | opSload =>
    exact replaceTop_unsigned frame evm unsigned solvent fun _ => Int.natCast_nonneg _
  | opBlockhash =>
    exact replaceTop_unsigned frame evm unsigned solvent fun _ =>
      ite_unsigned (Int.natCast_nonneg _) le_rfl
  | opCallDataCopy | opCodeCopy => exact copyToMemory_unsigned frame evm unsigned solvent _
  | opReturnDataCopy => exact opReturnDataCopy_unsigned frame evm unsigned solvent
  | opExtCodeCopy => exact opExtCodeCopy_unsigned frame evm unsigned solvent
  | opPop => exact opPop_unsigned frame evm unsigned solvent
  | opMload => exact opMload_unsigned frame evm unsigned solvent
  | opMstore => exact opMstore_unsigned frame evm unsigned solvent
  | opMstore8 => exact opMstore8_unsigned frame evm unsigned solvent
  | opSstore => exact opSstore_unsigned env frame evm unsigned solvent
  | opJump => exact opJump_unsigned frame evm unsigned solvent
  | opJumpi => exact opJumpi_unsigned frame evm unsigned solvent
  | opJumpdest | opStop => exact ⟨unsigned, solvent⟩
  | opReturn | opRevert => exact opReturn_unsigned frame evm unsigned solvent
  | opSuicide => exact opSuicide_unsigned env frame evm unsigned solvent
  | opCreate => exact opCreate_unsigned env run frame evm unsigned enters
  | opCall => exact opCall_unsigned env run frame evm unsigned enters
  | opCallCode => exact opCallCode_unsigned env run frame evm unsigned enters
  | opDelegateCall => exact opDelegateCall_unsigned env run frame evm unsigned enters
  | opStaticCall => exact opStaticCall_unsigned env run frame evm unsigned enters
  | makeLog size => exact makeLog_unsigned env frame evm unsigned solvent size
  | makePush size pushByteSize => exact makePush_unsigned frame evm unsigned solvent _ _
  | makeDup size => exact makeDup_unsigned frame evm unsigned solvent size
  | makeSwap size => exact makeSwap_unsigned frame evm unsigned solvent size

/-! ### The calls keep a state solvent -/

section Transfers

variable (keccak : Bytes → Hash) {db : StateDB}

/-- `Transfer` keeps a state solvent when the sender holds the amount. -/
theorem Transfer_solvent (solvent : db.Solvent) {sender recipient : Address} {amount : Int}
    (nonneg : 0 ≤ amount) (covered : amount ≤ db.GetBalance sender) :
    (Transfer keccak db sender recipient amount).Solvent :=
  (solvent.SubBalance keccak covered).AddBalance keccak nonneg

theorem covered_of_CanTransfer {addr : Address} {amount : Int}
    (transfer : CanTransfer db addr amount = true) : amount ≤ db.GetBalance addr :=
  of_decide_eq_true transfer

/-- The state `Call` transfers on: the callee's account created if it is missing, with every
balance as it was. -/
theorem createMissing_solvent (solvent : db.Solvent) (addr : Address) :
    (if db.Exist addr then db else db.CreateAccount keccak addr).Solvent ∧
      ∀ a, (if db.Exist addr then db else db.CreateAccount keccak addr).GetBalance a =
        db.GetBalance a := by
  split
  · exact ⟨solvent, fun _ => rfl⟩
  · exact ⟨solvent.CreateAccount keccak, StateDB.GetBalance_CreateAccount keccak db addr⟩

/-- The state `Create` transfers on: the new account on a snapshot, with nonce 1 after
EIP158, and every balance as it was. -/
theorem createNew_solvent (eip158 : Bool) (solvent : db.Solvent) (addr : Address) :
    (if eip158 then (db.Snapshot.2.CreateAccount keccak addr).SetNonce keccak addr 1
      else db.Snapshot.2.CreateAccount keccak addr).Solvent ∧
    ∀ a, (if eip158 then (db.Snapshot.2.CreateAccount keccak addr).SetNonce keccak addr 1
      else db.Snapshot.2.CreateAccount keccak addr).GetBalance a = db.GetBalance a := by
  have created : (db.Snapshot.2.CreateAccount keccak addr).Solvent :=
    solvent.Snapshot.CreateAccount keccak
  split
  · refine ⟨created.SetNonce keccak 1, fun a => ?_⟩
    rw [StateDB.GetBalance_SetNonce, StateDB.GetBalance_CreateAccount, StateDB.GetBalance_Snapshot]
  · refine ⟨created, fun a => ?_⟩
    rw [StateDB.GetBalance_CreateAccount, StateDB.GetBalance_Snapshot]

end Transfers

section Calls

variable (env : Env) {run : RunFn}

theorem endCall_solvent {snapshot : Nat} {r : Ran} (solvent : r.evm.StateDB.Solvent) :
    Meets (fun called : Called => called.evm.StateDB.Solvent) (· ≠ .panic .memory)
      (EVM.endCall snapshot r) :=
  endCall_rule (by decide) (fun _ => solvent) fun _ _ _ reverted =>
    solvent.RevertToSnapshot reverted

theorem endCreate_solvent {snapshot : Nat} {addr : Address} {r : Ran}
    (solvent : r.evm.StateDB.Solvent) :
    Meets (fun created : Created => created.evm.StateDB.Solvent) (· ≠ .panic .memory)
      (EVM.endCreate env snapshot addr r) :=
  endCreate_rule env (by decide) (fun _ _ _ _ => solvent.SetCode env.keccak _) (fun _ => solvent)
    fun _ _ _ reverted => solvent.RevertToSnapshot reverted

variable (runs : ∀ c i e, 0 ≤ c.value → e.StateDB.Solvent →
    Meets (fun r : Ran => r.evm.StateDB.Solvent) (· ≠ .panic .memory) (run c i e))
  {evm : EVM} (solvent : evm.StateDB.Solvent)
include runs solvent

theorem Call_solvent {caller : ContractRef} {addr : Address} {input : Bytes} {gas : Nat}
    {value : Int} (nonneg : 0 ≤ value) :
    Meets (fun called : Called => called.evm.StateDB.Solvent) (· ≠ .panic .memory)
      (EVM.Call env run evm caller addr input gas value) := by
  apply Call_rule env run (fun _ _ => solvent) (fun _ => solvent) (fun _ => solvent)
    solvent.Snapshot
  intro transfer db transferred
  obtain ⟨prepared, kept⟩ := createMissing_solvent env.keccak solvent.Snapshot addr
  -- the caller pays no more than `CanTransfer` found on its account
  have covered := (kept caller.Address).symm ▸ covered_of_CanTransfer transfer
  subst transferred
  exact (runs _ _ _ nonneg (Transfer_solvent env.keccak prepared nonneg covered)).mono
    (fun _ ran => endCall_solvent ran) fun _ ne => ne

theorem CallCode_solvent {caller : ContractRef} {addr : Address} {input : Bytes} {gas : Nat}
    {value : Int} (nonneg : 0 ≤ value) :
    Meets (fun called : Called => called.evm.StateDB.Solvent) (· ≠ .panic .memory)
      (EVM.CallCode env run evm caller addr input gas value) :=
  CallCode_rule env run (fun _ _ => solvent) (fun _ => solvent) (fun _ => solvent)
    ((runs _ _ _ nonneg solvent.Snapshot).mono (fun _ ran => endCall_solvent ran)
      fun _ ne => ne)

/-- The code a contract delegates to runs with the contract's own value. -/
theorem DelegateCall_solvent {contract : Contract} (value : 0 ≤ contract.value) {addr : Address}
    {input : Bytes} {gas : Nat} :
    Meets (fun called : Called => called.evm.StateDB.Solvent) (· ≠ .panic .memory)
      (EVM.DelegateCall env run evm (.contract contract) addr input gas) := by
  apply DelegateCall_rule env run (fun _ _ => solvent) (fun _ => solvent)
  refine (runs _ _ _ ?_ solvent.Snapshot).mono (fun _ ran => endCall_solvent ran) fun _ ne => ne
  exact value

theorem StaticCall_solvent {caller : ContractRef} {addr : Address} {input : Bytes} {gas : Nat} :
    Meets (fun called : Called => called.evm.StateDB.Solvent) (· ≠ .panic .memory)
      (EVM.StaticCall env run evm caller addr input gas) := by
  apply StaticCall_rule env run (fun _ _ => solvent) (fun _ => solvent)
  refine (runs _ _ _ ?_ solvent.Snapshot).mono ?_ fun _ ne => ne
  · exact le_rfl
  · intro r ran
    refine (endCall_solvent ran).mono ?_ fun _ ne => ne
    -- turning the read-only mode back off keeps the state
    intro called ended
    split
    · exact ended
    · exact ended

theorem Create_solvent {caller : ContractRef} {code : Bytes} {gas : Nat} {value : Int}
    (nonneg : 0 ≤ value) :
    Meets (fun created : Created => created.evm.StateDB.Solvent) (· ≠ .panic .memory)
      (EVM.Create env run evm caller code gas value) := by
  apply Create_rule env run (fun _ => solvent) (fun _ => solvent)
    (fun _ bump => bump ▸ solvent.SetNonce env.keccak _)
  intro transfer bumped addr created bump _ transferred
  have bumpedSolvent : bumped.Solvent := bump ▸ solvent.SetNonce env.keccak _
  obtain ⟨prepared, kept⟩ :=
    createNew_solvent env.keccak env.chainRules.IsEIP158 bumpedSolvent addr
  -- the creator's new nonce moves no balance, so it still covers the value
  have covered : value ≤ bumped.GetBalance caller.Address := by
    rw [bump, StateDB.GetBalance_SetNonce]
    exact covered_of_CanTransfer transfer
  have funded : created.Solvent :=
    transferred ▸ Transfer_solvent env.keccak prepared nonneg ((kept _).symm ▸ covered)
  refine ⟨fun _ _ => funded, ?_⟩
  subst transferred
  exact (runs _ _ _ nonneg funded).mono (fun _ ran => endCreate_solvent env ran) fun _ ne => ne

/-- The five ways into a frame keep a solvent state solvent and fail on no memory access,
when the runs of contracts of non-negative value from solvent states do. -/
theorem enters_solvent {contract : Contract} (value : 0 ≤ contract.value) :
    Enters (fun e => e.StateDB.Solvent) (· ≠ .panic .memory) env run evm contract where
  create _ _ _ _ nonneg := Create_solvent env runs solvent nonneg
  call _ _ _ _ _ nonneg := Call_solvent env runs solvent nonneg
  callCode _ _ _ _ _ nonneg := CallCode_solvent env runs solvent nonneg
  delegateCall _ _ _ := DelegateCall_solvent env runs solvent value
  staticCall _ _ _ _ := StaticCall_solvent env runs solvent

end Calls

/-! ### A round and a run -/

section Round

variable (env : Env) {operation : operation} {frame charged : Frame} {evm evm' : EVM}
  {memorySize : Nat}

/-- A gas function credits the state at most a refund. -/
theorem gasFunc.apply_solvent {g : gasFunc} {gt : GasTable} {contract : Contract}
    {stack : Stack} {mem mem' : Memory} {cost : Except VmError Nat}
    (ok : g.apply env gt evm contract stack mem memorySize = .ok (cost, evm', mem'))
    (solvent : evm.StateDB.Solvent) : evm'.StateDB.Solvent := by
  rcases gasFunc.apply_refunds env ok with ⟨_, rfl⟩ | ⟨refund, rfl⟩
  · exact solvent
  · exact solvent.AddRefund refund

theorem charge_solvent {cost : Option Nat}
    (ok : Interpreter.charge env operation frame evm memorySize = .ok (cost, charged, evm'))
    (solvent : evm.StateDB.Solvent) : evm'.StateDB.Solvent := by
  cases cost with
  | none =>
    obtain ⟨_, _, _, priced, _⟩ := charge_none env ok
    exact gasFunc.apply_solvent env priced solvent
  | some cost =>
    rcases charge_some env ok with ⟨_, _, _, rfl⟩ | ⟨_, _, _, priced, _, _⟩
    · exact solvent
    · exact gasFunc.apply_solvent env priced solvent

/-- A charge takes gas from the contract and grows the memory, and keeps the words. -/
theorem charge_unsigned {cost : Nat}
    (ok : Interpreter.charge env operation frame evm memorySize = .ok (some cost, charged, evm'))
    (unsigned : frame.Unsigned) : charged.Unsigned := by
  rcases charge_some env ok with ⟨_, _, rfl, _⟩ | ⟨_, _, contract, _, paid, rfl⟩
  · exact unsigned
  · obtain ⟨_, rfl⟩ := Contract.UseGas_eq_some paid
    exact ⟨unsigned.stack, unsigned.value⟩

/-- With gas metering and a non-negative gas price, a round from unsigned words on a solvent
state accesses no memory out of bounds and goes on from unsigned words on a solvent state,
or ends on one, given runs of the frames it starts that do. -/
theorem round_in_bounds {run : RunFn} (metered : env.vmConfig.DisableGasMetering = false)
    (price : 0 ≤ env.Context.GasPrice)
    (runs : ∀ c i e, 0 ≤ c.value → e.StateDB.Solvent →
      Meets (fun r : Ran => r.evm.StateDB.Solvent) (· ≠ .panic .memory) (run c i e))
    (unsigned : frame.Unsigned) (solvent : evm.StateDB.Solvent) :
    Meets (Step.Holds (fun frame evm => frame.Unsigned ∧ evm.StateDB.Solvent)
        (fun r => r.evm.StateDB.Solvent))
      (· ≠ .panic .memory) (Interpreter.step env run frame evm) := by
  apply step_rule env
  case prepareFails =>
    intro f fails
    exact ((prepare_total env _ evm).of_error fails).elim
  case invalid =>
    intro _ _
    exact solvent
  case chargeFails =>
    intro operation memorySize f found fails
    exact ((charge_prepared env found).of_error fails).elim
  case outOfGas =>
    intro operation memorySize charged evm' _ ok
    exact charge_solvent env ok solvent
  case executes =>
    intro operation memorySize cost charged evm' found ok grown grownEq
    have charged' := charge_unsigned env ok unsigned
    -- growing the memory keeps the stack and the contract
    have grown' : grown.Unsigned := by
      rw [grownEq]
      split
      · exact ⟨charged'.stack, charged'.value⟩
      · exact charged'
    set logged : EVM := { evm' with structLogs := evm'.structLogs ++
      [⟨grown.pc, frame.contract.GetOp frame.pc, frame.contract.Gas, cost, grown.memory.Len,
        grown.stack, evm'.depth⟩] }
    have solvent' : logged.StateDB.Solvent := (charge_solvent env ok solvent :)
    have entering := enters_solvent env runs solvent' grown'.value
    have inBounds := executes_any_in_bounds metered unsigned.stack found ok grownEq entering
    have kept := execute_unsigned operation.execute env run grown logged price grown' solvent'
      (entering.mono (fun _ solvent => solvent) fun _ _ => trivial)
    refine (inBounds.and_post kept).mono ?_ fun _ ne => ne
    intro r both
    obtain ⟨_, unsigned', solvent''⟩ := both
    -- the loop goes on with the instruction's frame, or ends with its state
    apply conclude_rule
    · intro pc _ _ _
      exact ⟨⟨unsigned'.stack, unsigned'.value⟩, returned_StateDB ▸ solvent''⟩
    · intro ret err
      exact returned_StateDB ▸ solvent''

/-- With gas metering and a non-negative gas price, the run of a contract of non-negative
value on a solvent state, with every frame it starts, accesses no memory out of bounds and
leaves a solvent state, for every amount of fuel. -/
theorem runner_memory_in_bounds (metered : env.vmConfig.DisableGasMetering = false)
    (price : 0 ≤ env.Context.GasPrice) (fuel : Nat) (contract : Contract) (input : Bytes)
    (evm : EVM) (value : 0 ≤ contract.value) (solvent : evm.StateDB.Solvent) :
    Meets (fun r => r.evm.StateDB.Solvent) (· ≠ .panic .memory)
      (runner env fuel contract input evm) := by
  refine @runner_induction env (fun c e => 0 ≤ c.value ∧ e.StateDB.Solvent)
    (fun _ _ r => r.evm.StateDB.Solvent) (fun _ _ => (· ≠ .panic .memory))
    (fun _ _ _ _ pre => pre.2) (fun _ _ pre => pre.2) ?_ fuel contract input evm
    ⟨value, solvent⟩
  intro fuel ih contract input evm pre
  -- the loop of the frame, whose rounds start frames with less fuel
  have loop := @loop_rule env fuel (fun _ frame evm' => frame.Unsigned ∧ evm'.StateDB.Solvent)
    (fun r => r.evm.StateDB.Solvent) (· ≠ .panic .memory)
    (fun _ _ _ => by decide) (fun _ _ _ _ inv _ => inv.2)
    (fun m _ _ lt inv _ => round_in_bounds env metered price
      (fun c i e value solvent => ih m lt c i e ⟨value, solvent⟩) inv.1 inv.2)
  exact loop ⟨0, { contract with Input := input }, Memory.NewMemory, []⟩
    { evm with depth := evm.depth + 1, returnData := [] }
    ⟨⟨List.forall_mem_nil _, pre.1⟩, pre.2⟩

theorem runner_memory_in_bounds_mstore :
    Meets (fun r => r.evm.StateDB.Solvent) (· ≠ .panic .memory)
      (runner
        ⟨⟨fun _ => Hash.zero, 0, 0, 0, 0, 0, 0, 0⟩, ⟨true, true, true, true⟩,
          ⟨false, false, false⟩, fun _ => Hash.zero,
          fun _ => ⟨fun _ => 0, fun _ => .ok []⟩⟩ 10
        ((NewContract (.AccountRef 1) 100 0 100000).SetCallCode 100 Hash.zero
          [0x60, 0x01, 0x60, 0x00, 0x52, 0x00]) []
        ⟨StateDB.New (fun _ => none) Hash.zero Hash.zero 0, 0, 0, false, [], false, []⟩) :=
  runner_memory_in_bounds _ rfl le_rfl _ _ _ _ le_rfl
    (StateDB.solvent_New (fun _ _ absent => by simp at absent) _ _ _)

end Round

end Indigo.Evm
