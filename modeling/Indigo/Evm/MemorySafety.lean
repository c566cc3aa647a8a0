import Indigo.Evm.StackDiscipline

/-!
# Memory safety

`Interpreter.Run` grows the memory of a frame before an operation runs, to the size the
operation's `memorySize` function computes from the stack, rounded up to whole words, and
after the gas for it is paid. The operation then reads and writes its regions with `int64`
and `uint64` conversions of stack items and no check of its own: each region must lie in
the part of memory that `memory_table.go` accounted for, at the same stack slots.

## Main results

- `execute_memory`: an operation whose regions the value of its memory function covers,
  inside the memory and below `2^63`, performs no access out of bounds.
- `execute_no_memory`: an operation without a memory function touches no memory.
- `executes_any_in_bounds`: with gas metering, whatever operation a round executes after its
  charge performs no access out of bounds, for a stack of non-negative items.
- `memory_in_bounds`: with gas metering, a round that runs an operation with a memory
  function performs no access out of bounds, for every stack of non-negative items.
  `Indigo.Evm.UnsignedWords` carries it over whole runs, whose stacks stay non-negative.
- `sha3_offset_wraps`: the `int64` conversions are not safe as such: an empty region at
  offset `2^63` passes every check and its offset wraps to a negative number.
- `unmetered_memory_exceeds_gas`: without metering nothing prices the memory: an `MSTORE`
  at `2^32` grows it far past what the gas of the call would pay for.

## Proof strategy

One lemma per access (`Get_region`, `Set_region`, `storeAt_region`) turns the end of a
region, as `calcMemSize` computes it, into the bounds the access checks; an empty region
is never accessed. One lemma per operation cites them at the slots its memory function
reads; `memory_in_bounds` bounds the memory function's value by the size the round grows
the memory to, and that size by what `memoryGasCost` accepts.
-/

namespace Indigo.Evm

open Indigo.Lib Indigo.State

/-! ### Regions -/

section Regions

variable {m : Memory} {off size : Int} {fail : Failure → Prop}

theorem Int64_zero : Int64 0 = 0 := Int64_of_lt (x := 0) (by norm_num)

theorem Uint64_zero : Uint64 0 = 0 := rfl

/-- A read of a region at non-negative bounds whose end is in the memory and below `2^63`
cannot fail: an empty region is not read at all. -/
theorem Get_region (offNonneg : 0 ≤ off) (sizeNonneg : 0 ≤ size)
    (fits : calcMemSize off size ≤ m.Len) (small : calcMemSize off size < 2 ^ 63) :
    Meets (fun _ => True) fail (m.Get (Int64 off) (Int64 size)) := by
  obtain ⟨o, rfl⟩ := Int.eq_ofNat_of_zero_le offNonneg
  obtain ⟨s, rfl⟩ := Int.eq_ofNat_of_zero_le sizeNonneg
  by_cases empty : s = 0
  · subst empty
    rw [Nat.cast_zero, Int64_zero]
    unfold Memory.Get
    rw [if_pos rfl]
    trivial
  · have sum : calcMemSize o s = o + s := if_neg (by omega)
    rw [sum] at fits small
    rw [Int64_of_lt (by omega), Int64_of_lt (by omega)]
    obtain ⟨bytes, ok⟩ : ∃ bytes, m.Get o s = .ok bytes := m.Get_within (by omega) (by omega)
    rw [ok]
    trivial

theorem GetPtr_region (offNonneg : 0 ≤ off) (sizeNonneg : 0 ≤ size)
    (fits : calcMemSize off size ≤ m.Len) (small : calcMemSize off size < 2 ^ 63) :
    Meets (fun _ => True) fail (m.GetPtr (Int64 off) (Int64 size)) := by
  obtain ⟨o, rfl⟩ := Int.eq_ofNat_of_zero_le offNonneg
  obtain ⟨s, rfl⟩ := Int.eq_ofNat_of_zero_le sizeNonneg
  by_cases empty : s = 0
  · subst empty
    rw [Nat.cast_zero, Int64_zero]
    unfold Memory.GetPtr
    rw [if_pos rfl]
    trivial
  · have sum : calcMemSize o s = o + s := if_neg (by omega)
    rw [sum] at fits small
    rw [Int64_of_lt (by omega), Int64_of_lt (by omega)]
    obtain ⟨bytes, ok⟩ : ∃ bytes, m.GetPtr o s = .ok bytes :=
      m.GetPtr_within (by omega) (by omega)
    rw [ok]
    trivial

/-- A write of a region at non-negative bounds whose end is in the memory and below `2^63`
cannot fail. -/
theorem Set_region (value : Bytes) (offNonneg : 0 ≤ off) (sizeNonneg : 0 ≤ size)
    (fits : calcMemSize off size ≤ m.Len) (small : calcMemSize off size < 2 ^ 63) :
    Meets (fun _ => True) fail (m.Set (Uint64 off) (Uint64 size) value) := by
  obtain ⟨o, rfl⟩ := Int.eq_ofNat_of_zero_le offNonneg
  obtain ⟨s, rfl⟩ := Int.eq_ofNat_of_zero_le sizeNonneg
  by_cases empty : s = 0
  · subst empty
    rw [Nat.cast_zero, Uint64_zero]
    unfold Memory.Set
    rw [if_neg (by omega), if_neg (by omega)]
    trivial
  · have sum : calcMemSize o s = o + s := if_neg (by omega)
    rw [sum] at fits small
    rw [Uint64_of_lt (by omega), Uint64_of_lt (by omega)]
    obtain ⟨m', ok⟩ : ∃ m', m.Set o s value = .ok m' := m.Set_within value (by omega) (by omega)
    rw [ok]
    trivial

theorem storeAt_region (b : UInt8) (offNonneg : 0 ≤ off) (fits : calcMemSize off 1 ≤ m.Len)
    (small : calcMemSize off 1 < 2 ^ 63) :
    Meets (fun _ => True) fail (m.storeAt (Int64 off) b) := by
  obtain ⟨o, rfl⟩ := Int.eq_ofNat_of_zero_le offNonneg
  have sum : calcMemSize o 1 = o + 1 := if_neg (by omega)
  rw [sum] at fits small
  rw [Int64_of_lt (by omega)]
  obtain ⟨m', ok⟩ : ∃ m', m.storeAt o b = .ok m' := m.storeAt_inBounds b (by omega)
  rw [ok]
  trivial

end Regions

/-! ### The frames an operation starts -/

/-- What the five ways into a frame from `evm` promise of the machine they return and of how
they fail, for every value that is not negative, as the values of the instructions are;
`DELEGATECALL` is made by `contract`, whose value the new frame takes over. -/
structure Enters (P : EVM → Prop) (fail : Failure → Prop) (env : Env) (run : RunFn) (evm : EVM)
    (contract : Contract) : Prop where
  create : ∀ caller code gas value, 0 ≤ value →
    Meets (fun created : Created => P created.evm) fail (EVM.Create env run evm caller code gas value)
  call : ∀ caller addr input gas value, 0 ≤ value →
    Meets (fun called : Called => P called.evm) fail (EVM.Call env run evm caller addr input gas value)
  callCode : ∀ caller addr input gas value, 0 ≤ value →
    Meets (fun called : Called => P called.evm) fail
      (EVM.CallCode env run evm caller addr input gas value)
  delegateCall : ∀ addr input gas, Meets (fun called : Called => P called.evm) fail
    (EVM.DelegateCall env run evm (.contract contract) addr input gas)
  staticCall : ∀ caller addr input gas, Meets (fun called : Called => P called.evm) fail
    (EVM.StaticCall env run evm caller addr input gas)

section Enters

variable {P Q : EVM → Prop} {fail fail' : Failure → Prop} {env : Env} {run : RunFn} {evm : EVM}
  {contract : Contract}

theorem Enters.mono (enters : Enters P fail env run evm contract) (posts : ∀ e, P e → Q e)
    (fails : ∀ f, fail f → fail' f) : Enters Q fail' env run evm contract where
  create caller code gas value nonneg :=
    (enters.create caller code gas value nonneg).mono (fun _ holds => posts _ holds) fails
  call caller addr input gas value nonneg :=
    (enters.call caller addr input gas value nonneg).mono (fun _ holds => posts _ holds) fails
  callCode caller addr input gas value nonneg :=
    (enters.callCode caller addr input gas value nonneg).mono (fun _ holds => posts _ holds) fails
  delegateCall addr input gas :=
    (enters.delegateCall addr input gas).mono (fun _ holds => posts _ holds) fails
  staticCall caller addr input gas :=
    (enters.staticCall caller addr input gas).mono (fun _ holds => posts _ holds) fails

/-- Frames that fail only with `fail`, whatever they run, enter with no more than that, given
that a revert to a snapshot and the assertion of `DelegateCall` are among the failures. -/
theorem enters_of_nested (state : fail (.panic .state)) (assertion : fail (.panic .typeAssertion))
    (nested : ∀ c i e, Meets (fun _ => True) fail (run c i e)) :
    Enters (fun _ => True) fail env run evm contract where
  create _ _ _ _ _ := Create_fails env run state nested
  call _ _ _ _ _ _ := Call_fails env run state nested
  callCode _ _ _ _ _ _ := CallCode_fails env run state nested
  delegateCall _ _ _ := DelegateCall_fails env run state assertion nested
  staticCall _ _ _ _ := StaticCall_fails env run state nested

end Enters

/-! ### The operations -/

section Operations

variable (env : Env) (run : RunFn) (frame : Frame) (evm : EVM) {v : Int}

/-- The end of the four calls writes the output into the region its memory function
counted. -/
theorem callReturn_memory {fail : Failure → Prop} {retOffset retSize : Int} {rest : Stack}
    {called : Called} (offNonneg : 0 ≤ retOffset) (sizeNonneg : 0 ≤ retSize)
    (fits : calcMemSize retOffset retSize ≤ frame.memory.Len)
    (small : calcMemSize retOffset retSize < 2 ^ 63) :
    Meets (fun _ => True) fail (callReturn frame retOffset retSize rest called) := by
  unfold callReturn
  dsimp only
  split
  · exact Meets.bind_true (Set_region _ offNonneg sizeNonneg fits small) fun _ => trivial
  · trivial

variable (words : ∀ x ∈ frame.stack, 0 ≤ x) (fits : v ≤ frame.memory.Len) (small : v < 2 ^ 63)
include words fits small

theorem opSha3_memory (sized : memorySha3 frame.stack = .ok v) :
    Meets (fun _ => True) (· ≠ .panic .memory) (opSha3 env frame evm) := by
  obtain ⟨pc, contract, memory, stack⟩ := frame
  -- a stack too short for the memory function is none the memory function accepts
  rcases stack with _ | ⟨offset, _ | ⟨size, rest⟩⟩ <;> cases sized
  exact Meets.bind_true (Get_region (words offset (by simp)) (words size (by simp)) fits small)
    fun _ => trivial

theorem copyToMemory_memory (source : Int → Int → Bytes)
    (sized : memoryCallDataCopy frame.stack = .ok v) :
    Meets (fun _ => True) (· ≠ .panic .memory) (copyToMemory frame evm source) := by
  obtain ⟨pc, contract, memory, stack⟩ := frame
  rcases stack with _ | ⟨memOffset, _ | ⟨dataOffset, _ | ⟨length, rest⟩⟩⟩ <;> cases sized
  exact Meets.bind_true
    (Set_region _ (words memOffset (by simp)) (words length (by simp)) fits small) fun _ => trivial

theorem opExtCodeCopy_memory (sized : memoryExtCodeCopy frame.stack = .ok v) :
    Meets (fun _ => True) (· ≠ .panic .memory) (opExtCodeCopy frame evm) := by
  obtain ⟨pc, contract, memory, stack⟩ := frame
  rcases stack with _ | ⟨addr, _ | ⟨memOffset, _ | ⟨codeOffset, _ | ⟨length, rest⟩⟩⟩⟩ <;>
    cases sized
  exact Meets.bind_true
    (Set_region _ (words memOffset (by simp)) (words length (by simp)) fits small) fun _ => trivial

theorem opReturnDataCopy_memory (sized : memoryReturnDataCopy frame.stack = .ok v) :
    Meets (fun _ => True) (· ≠ .panic .memory) (opReturnDataCopy frame evm) := by
  obtain ⟨pc, contract, memory, stack⟩ := frame
  rcases stack with _ | ⟨memOffset, _ | ⟨dataOffset, _ | ⟨length, rest⟩⟩⟩ <;> cases sized
  unfold opReturnDataCopy
  dsimp only
  split
  · trivial
  · split
    · exact Meets.bind_true
        (Set_region _ (words memOffset (by simp)) (words length (by simp)) fits small)
        fun _ => trivial
    · show Failure.panic .slice ≠ .panic .memory
      decide

theorem opMload_memory (sized : memoryMLoad frame.stack = .ok v) :
    Meets (fun _ => True) (· ≠ .panic .memory) (opMload frame evm) := by
  obtain ⟨pc, contract, memory, stack⟩ := frame
  rcases stack with _ | ⟨offset, rest⟩ <;> cases sized
  have word : Int64 32 = 32 := Int64_of_lt (x := 32) (by norm_num)
  have read := @Get_region memory offset 32 (· ≠ .panic .memory) (words offset (by simp))
    (by norm_num) fits small
  rw [word] at read
  exact Meets.bind_true read fun _ => trivial

theorem opMstore_memory (sized : memoryMStore frame.stack = .ok v) :
    Meets (fun _ => True) (· ≠ .panic .memory) (opMstore frame evm) := by
  obtain ⟨pc, contract, memory, stack⟩ := frame
  rcases stack with _ | ⟨mStart, _ | ⟨val, rest⟩⟩ <;> cases sized
  -- the memory function reads the offset alone: without the value the store panics on the
  -- stack
  · show Failure.panic .stack ≠ .panic .memory
    decide
  -- the word is written at a `uint64` offset with the constant size `32`
  · apply Meets.bind_true (@Set_region memory mStart 32 _ _ (words mStart (by simp))
      (by norm_num) fits small)
    intro _
    trivial

theorem opMstore8_memory (sized : memoryMStore8 frame.stack = .ok v) :
    Meets (fun _ => True) (· ≠ .panic .memory) (opMstore8 frame evm) := by
  obtain ⟨pc, contract, memory, stack⟩ := frame
  rcases stack with _ | ⟨off, _ | ⟨val, rest⟩⟩ <;> cases sized
  · show Failure.panic .stack ≠ .panic .memory
    decide
  · apply Meets.bind_true (storeAt_region _ (words off (by simp)) fits small)
    intro _
    trivial

theorem makeLog_memory (size : Nat) (sized : memoryLog frame.stack = .ok v) :
    Meets (fun _ => True) (· ≠ .panic .memory) (makeLog env frame evm size) := by
  obtain ⟨pc, contract, memory, stack⟩ := frame
  rcases stack with _ | ⟨mStart, _ | ⟨mSize, rest⟩⟩ <;> cases sized
  unfold makeLog
  dsimp only
  split
  · apply Meets.bind_true (Get_region (words mStart (by simp)) (words mSize (by simp)) fits small)
    intro _
    trivial
  · show Failure.panic .stack ≠ .panic .memory
    decide

theorem opReturn_memory (sized : memoryReturn frame.stack = .ok v) :
    Meets (fun _ => True) (· ≠ .panic .memory) (opReturn frame evm) := by
  obtain ⟨pc, contract, memory, stack⟩ := frame
  rcases stack with _ | ⟨offset, _ | ⟨size, rest⟩⟩ <;> cases sized
  exact Meets.bind_true
    (GetPtr_region (words offset (by simp)) (words size (by simp)) fits small) fun _ => trivial

variable {P : EVM → Prop} (enters : Enters P (· ≠ .panic .memory) env run evm frame.contract)
include enters

theorem opCreate_memory (sized : memoryCreate frame.stack = .ok v) :
    Meets (fun _ => True) (· ≠ .panic .memory) (opCreate env run frame evm) := by
  obtain ⟨pc, contract, memory, stack⟩ := frame
  rcases stack with _ | ⟨value, _ | ⟨offset, _ | ⟨size, rest⟩⟩⟩ <;> cases sized
  apply Meets.bind_true
    (Get_region (words offset (by simp)) (words size (by simp)) fits small)
  intro input
  exact Meets.bind (enters.create _ _ _ _ (words value (by simp))) fun _ _ => trivial

theorem opCall_memory (sized : memoryCall frame.stack = .ok v) :
    Meets (fun _ => True) (· ≠ .panic .memory) (opCall env run frame evm) := by
  obtain ⟨pc, contract, memory, stack⟩ := frame
  rcases stack with _ | ⟨gas, _ | ⟨addr, _ | ⟨value, _ | ⟨inOffset, _ | ⟨inSize, _ |
    ⟨retOffset, _ | ⟨retSize, rest⟩⟩⟩⟩⟩⟩⟩ <;> cases sized
  -- the memory function counted the larger of the input and the output regions
  apply Meets.bind_true (Get_region (words inOffset (by simp)) (words inSize (by simp))
    ((le_max_right _ _).trans fits) ((le_max_right _ _).trans_lt small))
  intro args
  apply Meets.bind (enters.call _ _ _ _ _ (U256_bounds value).1)
  intro called _
  exact callReturn_memory _ (words retOffset (by simp)) (words retSize (by simp))
    ((le_max_left _ _).trans fits) ((le_max_left _ _).trans_lt small)

theorem opCallCode_memory (sized : memoryCall frame.stack = .ok v) :
    Meets (fun _ => True) (· ≠ .panic .memory) (opCallCode env run frame evm) := by
  obtain ⟨pc, contract, memory, stack⟩ := frame
  rcases stack with _ | ⟨gas, _ | ⟨addr, _ | ⟨value, _ | ⟨inOffset, _ | ⟨inSize, _ |
    ⟨retOffset, _ | ⟨retSize, rest⟩⟩⟩⟩⟩⟩⟩ <;> cases sized
  apply Meets.bind_true (Get_region (words inOffset (by simp)) (words inSize (by simp))
    ((le_max_right _ _).trans fits) ((le_max_right _ _).trans_lt small))
  intro args
  apply Meets.bind (enters.callCode _ _ _ _ _ (U256_bounds value).1)
  intro called _
  exact callReturn_memory _ (words retOffset (by simp)) (words retSize (by simp))
    ((le_max_left _ _).trans fits) ((le_max_left _ _).trans_lt small)

theorem opDelegateCall_memory (sized : memoryDelegateCall frame.stack = .ok v) :
    Meets (fun _ => True) (· ≠ .panic .memory) (opDelegateCall env run frame evm) := by
  obtain ⟨pc, contract, memory, stack⟩ := frame
  rcases stack with _ | ⟨gas, _ | ⟨addr, _ | ⟨inOffset, _ | ⟨inSize, _ | ⟨retOffset, _ |
    ⟨retSize, rest⟩⟩⟩⟩⟩⟩ <;> cases sized
  apply Meets.bind_true (Get_region (words inOffset (by simp)) (words inSize (by simp))
    ((le_max_right _ _).trans fits) ((le_max_right _ _).trans_lt small))
  intro args
  apply Meets.bind (enters.delegateCall _ _ _)
  intro called _
  exact callReturn_memory _ (words retOffset (by simp)) (words retSize (by simp))
    ((le_max_left _ _).trans fits) ((le_max_left _ _).trans_lt small)

theorem opStaticCall_memory (sized : memoryStaticCall frame.stack = .ok v) :
    Meets (fun _ => True) (· ≠ .panic .memory) (opStaticCall env run frame evm) := by
  obtain ⟨pc, contract, memory, stack⟩ := frame
  rcases stack with _ | ⟨gas, _ | ⟨addr, _ | ⟨inOffset, _ | ⟨inSize, _ | ⟨retOffset, _ |
    ⟨retSize, rest⟩⟩⟩⟩⟩⟩ <;> cases sized
  apply Meets.bind_true (Get_region (words inOffset (by simp)) (words inSize (by simp))
    ((le_max_right _ _).trans fits) ((le_max_right _ _).trans_lt small))
  intro args
  apply Meets.bind (enters.staticCall _ _ _ _)
  intro called _
  exact callReturn_memory _ (words retOffset (by simp)) (words retSize (by simp))
    ((le_max_left _ _).trans fits) ((le_max_left _ _).trans_lt small)

end Operations

/-! ### Every operation with a memory function -/

/-- The memory function whose value counts the regions an `execute` function accesses. -/
def executionFunc.memoryFunc : executionFunc → Option memorySizeFunc
  | .opSha3 => some .memorySha3
  | .opCallDataCopy => some .memoryCallDataCopy
  | .opReturnDataCopy => some .memoryReturnDataCopy
  | .opCodeCopy => some .memoryCodeCopy
  | .opExtCodeCopy => some .memoryExtCodeCopy
  | .opMload => some .memoryMLoad
  | .opMstore8 => some .memoryMStore8
  | .opMstore => some .memoryMStore
  | .opCreate => some .memoryCreate
  | .opCall | .opCallCode => some .memoryCall
  | .opDelegateCall => some .memoryDelegateCall
  | .opStaticCall => some .memoryStaticCall
  | .opReturn => some .memoryReturn
  | .opRevert => some .memoryRevert
  | .makeLog _ => some .memoryLog
  | _ => none

/-- An operation whose memory function counts its regions, inside the memory and below
`2^63`, accesses nothing out of bounds, given frames it starts that do not. -/
theorem execute_memory (f : executionFunc) {m : memorySizeFunc} (covers : f.memoryFunc = some m)
    (env : Env) (run : RunFn) (frame : Frame) (evm : EVM) (words : ∀ x ∈ frame.stack, 0 ≤ x)
    {v : Int} (sized : m.apply frame.stack = .ok v) (fits : v ≤ frame.memory.Len)
    (small : v < 2 ^ 63) {P : EVM → Prop}
    (enters : Enters P (· ≠ .panic .memory) env run evm frame.contract) :
    Meets (fun _ => True) (· ≠ .panic .memory) (f.apply env run frame evm) := by
  cases f with
  | opSha3 =>
    cases covers
    exact opSha3_memory env frame evm words fits small sized
  | opCallDataCopy | opCodeCopy =>
    cases covers
    exact copyToMemory_memory frame evm words fits small _ sized
  | opExtCodeCopy =>
    cases covers
    exact opExtCodeCopy_memory frame evm words fits small sized
  | opReturnDataCopy =>
    cases covers
    exact opReturnDataCopy_memory frame evm words fits small sized
  | opMload =>
    cases covers
    exact opMload_memory frame evm words fits small sized
  | opMstore =>
    cases covers
    exact opMstore_memory frame evm words fits small sized
  | opMstore8 =>
    cases covers
    exact opMstore8_memory frame evm words fits small sized
  | makeLog size =>
    cases covers
    exact makeLog_memory env frame evm words fits small size sized
  | opReturn | opRevert =>
    cases covers
    exact opReturn_memory frame evm words fits small sized
  | opCreate =>
    cases covers
    exact opCreate_memory env run frame evm words fits small enters sized
  | opCall =>
    cases covers
    exact opCall_memory env run frame evm words fits small enters sized
  | opCallCode =>
    cases covers
    exact opCallCode_memory env run frame evm words fits small enters sized
  | opDelegateCall =>
    cases covers
    exact opDelegateCall_memory env run frame evm words fits small enters sized
  | opStaticCall =>
    cases covers
    exact opStaticCall_memory env run frame evm words fits small enters sized
  | _ => cases covers

/-! ### Every operation without one -/

section NoMemory

variable (frame : Frame) (evm : EVM)

theorem replaceTop_stack (g : Int → Int) :
    Meets (fun _ => True) (· = .panic .stack) (replaceTop frame evm g) := by
  unfold replaceTop
  split
  · trivial
  · rfl

theorem opArith_stack (op : ArithOp) :
    Meets (fun _ => True) (· = .panic .stack) (opArith frame evm op) := by
  unfold opArith
  split
  · trivial
  · rfl

theorem opJump_stack : Meets (fun _ => True) (· = .panic .stack) (opJump frame evm) := by
  unfold opJump
  split
  · dsimp only
    split <;> trivial
  · rfl

theorem opJumpi_stack : Meets (fun _ => True) (· = .panic .stack) (opJumpi frame evm) := by
  unfold opJumpi
  split
  · dsimp only
    split
    · split <;> trivial
    · trivial
  · rfl

theorem makeDup_stack (size : Nat) :
    Meets (fun _ => True) (· = .panic .stack) (makeDup frame evm size) := by
  unfold makeDup
  apply Meets.bind_ok fun _ fails => Stack.dup_error fails
  intro _ _
  trivial

theorem makeSwap_stack (size : Nat) :
    Meets (fun _ => True) (· = .panic .stack) (makeSwap frame evm size) := by
  unfold makeSwap
  apply Meets.bind_ok fun _ fails => Stack.swap_error fails
  intro _ _
  trivial

end NoMemory

/-- An operation without a memory function touches no memory: it fails, if at all, on a
stack too short for it. -/
theorem execute_no_memory (f : executionFunc) (none_ : f.memoryFunc = none) (env : Env)
    (run : RunFn) (frame : Frame) (evm : EVM) :
    Meets (fun _ => True) (· = .panic .stack) (f.apply env run frame evm) := by
  cases f with
  | arith op => exact opArith_stack frame evm op
  | opAddress | opOrigin | opCaller | opCallValue | opCallDataSize | opReturnDataSize
  | opCodeSize | opGasprice | opCoinbase | opTimestamp | opNumber | opDifficulty | opGasLimit
  | opPc | opMsize | opGas | opJumpdest | opStop | makePush => trivial
  | opBalance | opCallDataLoad | opExtCodeSize | opBlockhash | opSload =>
    exact replaceTop_stack frame evm _
  | opPop =>
    show Meets _ _ (opPop frame evm)
    unfold opPop
    split
    · trivial
    · rfl
  | opSstore =>
    show Meets _ _ (opSstore env frame evm)
    unfold opSstore
    split
    · trivial
    · rfl
  | opSuicide =>
    show Meets _ _ (opSuicide env frame evm)
    unfold opSuicide
    split
    · trivial
    · rfl
  | opJump => exact opJump_stack frame evm
  | opJumpi => exact opJumpi_stack frame evm
  | makeDup size => exact makeDup_stack frame evm size
  | makeSwap size => exact makeSwap_stack frame evm size
  | _ => cases none_

/-! ### The size a round grows the memory to -/

/-- The gas functions that price the growth of the memory with `memoryGasCost`. -/
def gasFunc.pricesMemory : gasFunc → Bool
  | .gasCallDataCopy | .gasReturnDataCopy | .gasCodeCopy | .gasExtCodeCopy | .gasSha3
  | .makeGasLog _ | .gasMLoad | .gasMStore8 | .gasMStore | .gasCreate | .gasCall | .gasCallCode
  | .gasDelegateCall | .gasStaticCall | .gasReturn | .gasRevert => true
  | _ => false

/-- What the interpreter relies on of an entry with a memory function: it is the one that
counts the regions of the entry's `execute`, and the entry's gas function prices it. -/
def Accounted (entry : OpCode × operation) : Prop :=
  entry.2.memorySize = entry.2.execute.memoryFunc ∧
  (entry.2.memorySize.isSome → entry.2.gasCost.pricesMemory)

instance : DecidablePred Accounted := fun _ => inferInstanceAs (Decidable (_ ∧ _))

theorem accounted_frontier : ∀ entry ∈ NewFrontierInstructionSet, Accounted entry := by
  unfold NewFrontierInstructionSet
  simp only [List.forall_mem_append]
  refine ⟨⟨⟨⟨⟨⟨by decide, by decide⟩, by decide⟩, by decide⟩, by decide⟩, by decide⟩, by decide⟩

theorem accounted_of_get {env : Env} {op : OpCode} {operation : operation}
    (found : env.jumpTable.get op = some operation) : Accounted (op, operation) := by
  have tables : ∀ table ∈ instructionSets, ∀ entry ∈ table, Accounted entry := by
    simp only [instructionSets, List.mem_cons, List.not_mem_nil, or_false, forall_eq_or_imp,
      forall_eq]
    refine ⟨accounted_frontier, ?_, ?_⟩
    · unfold NewHomesteadInstructionSet
      exact List.forall_mem_cons.mpr ⟨by decide, accounted_frontier⟩
    · unfold NewByzantiumInstructionSet NewHomesteadInstructionSet
      simp only [List.forall_mem_append, List.forall_mem_cons]
      exact ⟨⟨by decide, by decide, by decide, by decide, fun _ no => absurd no List.not_mem_nil⟩,
        by decide, accounted_frontier⟩
  exact tables _ env.jumpTable_mem _ (JumpTable.mem_of_get found)

section Prices

variable (env : Env) {stack : Stack} {mem mem' : Memory} {memorySize cost : Nat}

theorem wordGas_prices {base perWord slot : Nat}
    (ok : wordGas base perWord slot stack mem memorySize = .ok (.ok cost, mem')) :
    memorySize ≤ 0xffffffffe0 := by
  unfold wordGas at ok
  split at ok
  · cases ok
  · next priced => exact memoryGasCost_le priced

theorem memoryGasPlus_prices {base : Nat} (ok : memoryGasPlus base mem memorySize = (.ok cost, mem')) :
    memorySize ≤ 0xffffffffe0 := by
  unfold memoryGasPlus at ok
  split at ok
  · cases ok
  · next priced => exact memoryGasCost_le priced

theorem callGasAndTemp_prices {gt : GasTable} {evm evm' : EVM} {contract : Contract} {gas : Nat}
    (ok : callGasAndTemp gt evm contract stack mem memorySize gas = .ok (.ok cost, evm', mem')) :
    memorySize ≤ 0xffffffffe0 := by
  unfold callGasAndTemp at ok
  split at ok
  · cases ok
  · next priced => exact memoryGasCost_le priced

theorem withEvm_ok {evm evm' : EVM} {r : Except Failure (Except VmError Nat × Memory)}
    {price : Except VmError Nat} (ok : gasFunc.apply.withEvm evm r = .ok (price, evm', mem')) :
    r = .ok (price, mem') := by
  unfold gasFunc.apply.withEvm at ok
  obtain ⟨⟨price', mem''⟩, found, ok⟩ := bind_eq_ok.mp ok
  cases ok
  exact found

/-- A gas function that prices the memory accepts no size above `0xffffffffe0` bytes. -/
theorem gasFunc.apply_prices {g : gasFunc} {gt : GasTable} {evm evm' : EVM}
    {contract : Contract} (prices : g.pricesMemory = true)
    (ok : g.apply env gt evm contract stack mem memorySize = .ok (.ok cost, evm', mem')) :
    memorySize ≤ 0xffffffffe0 := by
  cases g with
  | gasCallDataCopy | gasReturnDataCopy | gasCodeCopy | gasExtCodeCopy | gasSha3 =>
    exact wordGas_prices (withEvm_ok ok)
  | gasMLoad | gasMStore8 | gasMStore =>
    have priced := withEvm_ok ok
    exact memoryGasPlus_prices (Except.ok.inj priced)
  | gasCreate | gasReturn | gasRevert =>
    have priced := Except.ok.inj (withEvm_ok ok)
    simp only [Evm.gasCreate, Evm.gasReturn, Evm.gasRevert] at priced
    split at priced
    · cases priced
    · next found => exact memoryGasCost_le found
  | makeGasLog n =>
    have priced := withEvm_ok ok
    obtain ⟨size, _, priced⟩ := bind_eq_ok.mp priced
    simp only [pure, Except.pure, Except.ok.injEq] at priced
    split at priced
    · cases priced
    · split at priced
      · cases priced
      · next found => exact memoryGasCost_le found
  | gasCall =>
    obtain ⟨_, _, ok⟩ := bind_eq_ok.mp ok
    obtain ⟨_, _, ok⟩ := bind_eq_ok.mp ok
    exact callGasAndTemp_prices ok
  | gasCallCode =>
    obtain ⟨_, _, ok⟩ := bind_eq_ok.mp ok
    exact callGasAndTemp_prices ok
  | gasDelegateCall | gasStaticCall => exact callGasAndTemp_prices ok
  | _ => cases prices

end Prices

/-- The word size in bytes of a `uint64` is at least the size. -/
theorem le_toWordSize_mul {size : Nat} (small : size < 2 ^ 64) : size ≤ toWordSize size * 32 := by
  unfold toWordSize
  by_cases big : size > MaxUint64 - 31
  · rw [if_pos big]
    unfold MaxUint64
    omega
  · rw [if_neg big]
    omega

/-- The memory size `prepare` computes is at least the value of the memory function. -/
theorem memorySizeOf_bound {operation : operation} {stack : Stack} {f : memorySizeFunc}
    {memorySize : Nat} (found : operation.memorySize = some f)
    (ok : memorySizeOf operation stack = .ok (.ok memorySize)) :
    ∃ v, f.apply stack = .ok v ∧ v ≤ memorySize := by
  unfold memorySizeOf at ok
  rw [found] at ok
  obtain ⟨v, sized, ok⟩ := bind_eq_ok.mp ok
  refine ⟨v, sized, ?_⟩
  simp only [pure, Except.pure, Except.ok.injEq] at ok
  split at ok
  · cases ok
  · next memSize fits64 =>
    split at ok
    · cases ok
    · next words =>
      cases ok
      -- the value fits a `uint64` and is rounded up to whole words
      have abs := bigUint64_eq fits64
      have product := SafeMul_overflow words
      have small : memSize < 2 ^ 64 := by
        rw [abs]
        simp only [bigUint64, Prod.mk.injEq, BitLen] at fits64
        exact Nat.size_le.mp (by simpa using fits64.2)
      have rounded := le_toWordSize_mul small
      calc v ≤ (v.natAbs : Int) := Int.le_natAbs
        _ = memSize := by rw [abs]
        _ ≤ memorySize := by rw [product]; exact_mod_cast rounded

/-! ### A round -/

/-- With gas metering, an operation with a memory function that a round executes after its
charge accesses nothing out of bounds, for a stack of non-negative items, given frames it
starts that do not. -/
theorem executes_in_bounds {env : Env} {run : RunFn} {frame charged grown : Frame}
    {evm evm' logged : EVM} {operation : operation} {memorySize cost : Nat} {f : memorySizeFunc}
    {P : EVM → Prop} (metered : env.vmConfig.DisableGasMetering = false)
    (words : ∀ x ∈ frame.stack, 0 ≤ x)
    (found : Interpreter.prepare env (frame.contract.GetOp frame.pc) frame.stack evm =
      .ok (.ok (operation, memorySize)))
    (hasF : operation.memorySize = some f)
    (ok : Interpreter.charge env operation frame evm memorySize = .ok (some cost, charged, evm'))
    (grownEq : grown = if memorySize > 0 then
      { charged with memory := charged.memory.Resize memorySize } else charged)
    (enters : Enters P (· ≠ .panic .memory) env run logged grown.contract) :
    Meets (fun _ => True) (· ≠ .panic .memory) (operation.execute.apply env run grown logged) := by
  obtain ⟨found, _, _, sizedOf⟩ := prepare_ok env found
  obtain ⟨v, sized, bounded⟩ := memorySizeOf_bound hasF sizedOf
  obtain ⟨covers, priced⟩ := accounted_of_get found
  dsimp only at covers priced
  rcases charge_some env ok with ⟨unmetered, _⟩ | ⟨_, mem, contract, gasOk, _, rfl⟩
  · rw [metered] at unmetered
    cases unmetered
  -- the gas function priced the size the memory grows to
  have limit := gasFunc.apply_prices env (priced (by rw [hasF]; rfl)) gasOk
  have sameStack : grown.stack = frame.stack := by
    rw [grownEq]
    split <;> rfl
  have grownLen : memorySize ≤ grown.memory.Len := by
    rw [grownEq]
    split
    · simp only [Memory.Len_Resize]
      omega
    · omega
  have fits : v ≤ grown.memory.Len := bounded.trans (by exact_mod_cast grownLen)
  have small : v < 2 ^ 63 := bounded.trans_lt (by omega)
  exact execute_memory operation.execute (covers.symm.trans hasF) env run grown logged
    (fun x member => words x (sameStack ▸ member)) (sameStack ▸ sized) fits small enters

/-- With gas metering, whatever operation a round executes after its charge accesses nothing
out of bounds, for a stack of non-negative items: one with a memory function within its
count, one without by touching no memory. -/
theorem executes_any_in_bounds {env : Env} {run : RunFn} {frame charged grown : Frame}
    {evm evm' logged : EVM} {operation : operation} {memorySize cost : Nat}
    {P : EVM → Prop} (metered : env.vmConfig.DisableGasMetering = false)
    (words : ∀ x ∈ frame.stack, 0 ≤ x)
    (found : Interpreter.prepare env (frame.contract.GetOp frame.pc) frame.stack evm =
      .ok (.ok (operation, memorySize)))
    (ok : Interpreter.charge env operation frame evm memorySize = .ok (some cost, charged, evm'))
    (grownEq : grown = if memorySize > 0 then
      { charged with memory := charged.memory.Resize memorySize } else charged)
    (enters : Enters P (· ≠ .panic .memory) env run logged grown.contract) :
    Meets (fun _ => True) (· ≠ .panic .memory) (operation.execute.apply env run grown logged) := by
  cases hasF : operation.memorySize with
  | some f => exact executes_in_bounds metered words found hasF ok grownEq enters
  | none =>
    -- the table gives an entry without a memory function an `execute` that has none
    have none_ : operation.execute.memoryFunc = none :=
      (accounted_of_get (prepare_ok env found).1).1.symm.trans hasF
    exact (execute_no_memory _ none_ env run grown logged).mono (fun _ _ => trivial)
      fun _ stack => by rw [stack]; decide


/-- With gas metering, a round that runs an operation with a memory function accesses
nothing out of bounds, for every stack of non-negative items, given frames it starts that do
not. -/
theorem memory_in_bounds (env : Env) (run : RunFn) (frame : Frame) (evm : EVM)
    (metered : env.vmConfig.DisableGasMetering = false)
    (words : ∀ x ∈ frame.stack, 0 ≤ x)
    (counted : ∀ operation, env.jumpTable.get (frame.contract.GetOp frame.pc) = some operation →
      operation.memorySize.isSome)
    (nested : ∀ c i e, Meets (fun _ => True) (· ≠ .panic .memory) (run c i e)) :
    Meets (fun _ => True) (· ≠ .panic .memory) (Interpreter.step env run frame evm) := by
  apply step_rule env
  case prepareFails =>
    intro f fails
    exact ((prepare_total env _ evm).of_error fails).elim
  case invalid =>
    intro _ _
    trivial
  case chargeFails =>
    intro operation memorySize f found fails
    exact ((charge_prepared env found).of_error fails).elim
  case outOfGas =>
    intro _ _ _ _ _ _
    trivial
  case executes =>
    intro operation memorySize cost charged evm' found ok grown grownEq
    obtain ⟨f, hasF⟩ := Option.isSome_iff_exists.mp (counted operation (prepare_ok env found).1)
    exact (executes_in_bounds metered words found hasF ok grownEq
      (enters_of_nested (by decide) (by decide) nested)).mono (fun _ _ => trivial) fun _ ne => ne

theorem memory_in_bounds_sha3 :
    Meets (fun _ => True) (· ≠ .panic .memory)
      (Interpreter.step
        ⟨⟨fun _ => Hash.zero, 0, 0, 0, 0, 0, 0, 0⟩, ⟨true, true, true, true⟩,
          ⟨false, false, false⟩, fun _ => Hash.zero, fun _ => ⟨fun _ => 0, fun _ => .ok []⟩⟩
        (fun c _ e => .ok ⟨[], none, c, e⟩)
        ⟨0, (NewContract (.AccountRef 1) 100 0 1000).SetCallCode 100 Hash.zero [0x20],
          Memory.NewMemory, [0, 32]⟩
        ⟨StateDB.New (fun _ => none) Hash.zero Hash.zero 0, 0, 0, false, [], false, []⟩) :=
  memory_in_bounds _ _ _ _ rfl (by decide)
    (fun operation found => by
      obtain rfl := Option.some.inj (found.symm.trans rfl)
      rfl)
    fun _ _ _ => trivial

/-- The `int64` conversions are not safe as such: with gas metering, `SHA3` of the empty
region at offset `2^63` passes the memory size, the gas and the memory, runs, and converts
its offset to `-2^63`. -/
theorem sha3_offset_wraps :
    Int64 (2 ^ 63) = -2 ^ 63 ∧
      (match Interpreter.step
          ⟨⟨fun _ => Hash.zero, 0, 0, 0, 0, 0, 0, 0⟩, ⟨true, true, true, true⟩,
            ⟨false, false, false⟩, fun _ => Hash.zero, fun _ => ⟨fun _ => 0, fun _ => .ok []⟩⟩
          (fun c _ e => .ok ⟨[], none, c, e⟩)
          ⟨0, (NewContract (.AccountRef 1) 100 0 1000).SetCallCode 100 Hash.zero [0x20],
            Memory.NewMemory, [2 ^ 63, 0]⟩
          ⟨StateDB.New (fun _ => none) Hash.zero Hash.zero 0, 0, 0, false, [], false, []⟩ with
        | .ok (.next _ evm') => evm'.structLogs.map (·.Op) == [SHA3]
        | _ => false) = true := by
  decide

/-! ### Without metering -/

/-- Without metering a round pays nothing and the charge leaves the frame, its memory and
the machine as they are, whatever gas the contract has left: nothing bounds the size the
memory then grows to but the `uint64` checks of `prepare`. -/
theorem charge_unmetered (env : Env) (operation : operation) (frame : Frame) (evm : EVM)
    (memorySize : Nat) (unmetered : env.vmConfig.DisableGasMetering = true) :
    Interpreter.charge env operation frame evm memorySize = .ok (some 0, frame, evm) := by
  unfold Interpreter.charge
  rw [if_pos unmetered]
  rfl

/-- An `MSTORE` at offset `2^32`, run without metering with the default gas of `eth_call`,
grows the memory to `2^32 + 32` bytes, whose expansion fee is far above that gas. -/
theorem unmetered_memory_exceeds_gas :
    (match runner
        ⟨⟨fun _ => Hash.zero, 0, 0, 0, 50000000, 0, 0, 0⟩, ⟨true, true, true, true⟩,
          ⟨false, true, false⟩, fun _ => Hash.zero, fun _ => ⟨fun _ => 0, fun _ => .ok []⟩⟩ 5
        ((NewContract (.AccountRef 1) 100 0 50000000).SetCallCode 100 Hash.zero
          [0x60, 0x00, 0x64, 0x01, 0x00, 0x00, 0x00, 0x00, 0x52, 0x00]) []
        ⟨StateDB.New (fun _ => none) Hash.zero Hash.zero 0, 0, 0, false, [], false, []⟩,
        memoryGasCost Memory.NewMemory (2 ^ 32 + 32) with
      | .ok r, .ok (fee, _) =>
        r.evm.structLogs.any (·.MemorySize == 2 ^ 32 + 32) && decide (50000000 < fee)
      | _, _ => false) = true := by
  decide

end Indigo.Evm
