import Indigo.Evm.Stack

/-!
# Memory

`core/vm/memory.go`: the memory of a frame is a byte slice that only grows, by `Resize`,
and is read and written by slices. The slice is kept as its length and the function
from indices to bytes, which makes a memory of any size as cheap to build as a small one;
bytes at or past the length are never read. Go checks a slice against the capacity of the
slice it cuts, which `append` may leave above the length; the model checks against the
length, which is all the capacity the interpreter relies on.

`Get` and `GetPtr` take `int64` offsets and sizes, `Set` takes `uint64` ones: their
arguments are the conversions the instructions make, and a negative or wrapped value
reaches the slice expression and panics there, as in Go.

`memory_table.go` computes, from the stack, the end of the region an operation touches;
`memoryGasCost` of `gas_table.go` prices growing the memory to it.

## Main results

- `Len_Resize`: `Resize` grows the memory to the size asked for, and never shrinks it.
- `Get_inBounds`, `GetPtr_inBounds`, `Set_inBounds`: an access inside the memory, below
  `2^63`, does not panic.
- `memoryGasCost_le`: a size that can be priced is at most `0xffffffffe0` bytes.
- `memoryGasCost_exact`, `expandAll_priced`: below `2^32` words, `memoryGasCost` charges the
  fee of the new size less that of the old one, so the fees of a run add up to the fee of
  the memory it ends with.
- `memoryGasCost_square_wraps`: at the largest size it accepts, the square of the word count
  wraps and the charge is far below the fee.
-/

namespace Indigo.Evm

open Indigo.Lib

/-- `params.MemoryGas`. -/
def MemoryGas : Nat := 3

/-- `params.QuadCoeffDiv`. -/
def QuadCoeffDiv : Nat := 512

/-- `Memory`: the store of `Len` bytes and the fee paid for it so far. -/
structure Memory where
  store : Nat → UInt8
  Len : Nat
  lastGasCost : Nat

namespace Memory

/-- `NewMemory`. -/
def NewMemory : Memory := ⟨fun _ => 0, 0, 0⟩

/-- The bytes of the store from `offset` on, `size` of them. -/
def slice (m : Memory) (offset size : Nat) : Bytes :=
  (List.range size).map fun i => m.store (offset + i)

/-- `Memory.Set`: copy `value` into the `size` bytes at `offset`; the slice
`m.store[offset:offset+size]` is taken with `uint64` arithmetic. -/
def Set (m : Memory) (offset size : Nat) (value : Bytes) : Except Failure Memory :=
  if size > m.Len then throw (.panic .memory)
  else if size > 0 then
    let high := (offset + size) % 2 ^ 64
    if offset ≤ high ∧ high ≤ m.Len then
      pure { m with
        store := fun i =>
          if offset ≤ i ∧ i < offset + min size value.length then value.getD (i - offset) 0
          else m.store i }
    else throw (.panic .memory)
  else pure m

/-- `Memory.Resize`: append zeros up to `size` bytes. -/
def Resize (m : Memory) (size : Nat) : Memory :=
  if m.Len < size then { m with store := fun i => if i < m.Len then m.store i else 0, Len := size }
  else m

/-- The slice `store[offset:offset+size]` of `int64` bounds, the sum wrapping in 64 bits. -/
def sliceChecked (m : Memory) (offset size : Int) : Except Failure Bytes :=
  let high := toSigned 64 (toWord 64 (offset + size))
  if 0 ≤ size ∧ 0 ≤ offset ∧ offset ≤ high ∧ high ≤ m.Len then pure (m.slice offset.toNat size.toNat)
  else throw (.panic .memory)

/-- `Memory.Get`: a copy of `size` bytes at `offset`; nothing for an empty region, and
nothing for a region starting past the end. -/
def Get (m : Memory) (offset size : Int) : Except Failure Bytes :=
  if size = 0 then pure []
  else if (m.Len : Int) > offset then m.sliceChecked offset size
  else pure []

/-- `Memory.GetPtr`: the same region as `Get`, as a slice of the store. -/
def GetPtr (m : Memory) (offset size : Int) : Except Failure Bytes :=
  if size = 0 then pure []
  else if (m.Len : Int) > offset then m.sliceChecked offset size
  else pure []

/-- The assignment `memory.store[off] = b` of `opMstore8`. -/
def storeAt (m : Memory) (off : Int) (b : UInt8) : Except Failure Memory :=
  if 0 ≤ off ∧ off < m.Len then pure { m with store := fun i => if i = off.toNat then b else m.store i }
  else throw (.panic .memory)

@[simp] theorem Len_Resize (m : Memory) (size : Nat) : (m.Resize size).Len = max m.Len size := by
  unfold Resize
  split <;> simp <;> omega

@[simp] theorem lastGasCost_Resize (m : Memory) (size : Nat) :
    (m.Resize size).lastGasCost = m.lastGasCost := by
  unfold Resize
  split <;> rfl

theorem Len_Set {m m' : Memory} {offset size : Nat} {value : Bytes}
    (ok : m.Set offset size value = .ok m') : m'.Len = m.Len := by
  unfold Set at ok
  dsimp only at ok
  split at ok
  · cases ok
  · split at ok
    · split at ok
      · cases ok; rfl
      · cases ok
    · cases ok; rfl

theorem Len_storeAt {m m' : Memory} {off : Int} {b : UInt8} (ok : m.storeAt off b = .ok m') :
    m'.Len = m.Len := by
  unfold storeAt at ok
  split at ok
  · cases ok; rfl
  · cases ok

/-- A region below `2^63` inside the memory is the slice of the store. -/
theorem sliceChecked_within (m : Memory) {offset size : Nat} (fits : offset + size ≤ m.Len)
    (small : offset + size < 2 ^ 63) : m.sliceChecked offset size = .ok (m.slice offset size) := by
  have sum : toSigned 64 (toWord 64 ((offset : Int) + size)) = offset + size := by
    rw [← Nat.cast_add, toWord_natCast, Nat.mod_eq_of_lt (by omega)]
    have low : offset + size < 2 ^ (64 - 1) := small
    simp only [toSigned, if_pos low, Nat.cast_add]
  simp only [sliceChecked, sum]
  rw [if_pos (by omega)]
  rfl

theorem sliceChecked_inBounds (m : Memory) {offset size : Nat} (fits : offset + size ≤ m.Len)
    (small : m.Len < 2 ^ 63) : m.sliceChecked offset size = .ok (m.slice offset size) :=
  m.sliceChecked_within fits (by omega)

theorem Get_within (m : Memory) {offset size : Nat} (fits : offset + size ≤ m.Len)
    (small : offset + size < 2 ^ 63) : ∃ bytes, m.Get offset size = .ok bytes := by
  unfold Get
  split
  · exact ⟨[], rfl⟩
  · split
    · exact ⟨_, m.sliceChecked_within fits small⟩
    · exact ⟨[], rfl⟩

theorem Get_inBounds (m : Memory) {offset size : Nat} (fits : offset + size ≤ m.Len)
    (small : m.Len < 2 ^ 63) : ∃ bytes, m.Get offset size = .ok bytes :=
  m.Get_within fits (by omega)

theorem GetPtr_within (m : Memory) {offset size : Nat} (fits : offset + size ≤ m.Len)
    (small : offset + size < 2 ^ 63) : ∃ bytes, m.GetPtr offset size = .ok bytes := by
  unfold GetPtr
  split
  · exact ⟨[], rfl⟩
  · split
    · exact ⟨_, m.sliceChecked_within fits small⟩
    · exact ⟨[], rfl⟩

theorem GetPtr_inBounds (m : Memory) {offset size : Nat} (fits : offset + size ≤ m.Len)
    (small : m.Len < 2 ^ 63) : ∃ bytes, m.GetPtr offset size = .ok bytes :=
  m.GetPtr_within fits (by omega)

theorem Set_within (m : Memory) {offset size : Nat} (value : Bytes)
    (fits : offset + size ≤ m.Len) (small : offset + size < 2 ^ 64) :
    ∃ m', m.Set offset size value = .ok m' := by
  unfold Set
  rw [if_neg (by omega)]
  split
  · rw [Nat.mod_eq_of_lt small, if_pos (by omega)]
    exact ⟨_, rfl⟩
  · exact ⟨m, rfl⟩

theorem Set_inBounds (m : Memory) {offset size : Nat} (value : Bytes)
    (fits : offset + size ≤ m.Len) (small : m.Len < 2 ^ 64) :
    ∃ m', m.Set offset size value = .ok m' :=
  m.Set_within value fits (by omega)

theorem storeAt_inBounds (m : Memory) {off : Nat} (b : UInt8) (lt : off < m.Len) :
    ∃ m', m.storeAt off b = .ok m' := by
  unfold storeAt
  rw [if_pos (by omega)]
  exact ⟨_, rfl⟩

/-! The accesses fail only by panicking on the memory. -/

theorem sliceChecked_error {m : Memory} {offset size : Int} {f : Failure}
    (fails : m.sliceChecked offset size = .error f) : f = .panic .memory := by
  unfold sliceChecked at fails
  dsimp only at fails
  split at fails
  · cases fails
  · cases fails
    rfl

theorem Get_error {m : Memory} {offset size : Int} {f : Failure}
    (fails : m.Get offset size = .error f) : f = .panic .memory := by
  unfold Get at fails
  split at fails
  · cases fails
  · split at fails
    · exact sliceChecked_error fails
    · cases fails

theorem GetPtr_error {m : Memory} {offset size : Int} {f : Failure}
    (fails : m.GetPtr offset size = .error f) : f = .panic .memory := by
  unfold GetPtr at fails
  split at fails
  · cases fails
  · split at fails
    · exact sliceChecked_error fails
    · cases fails

theorem Set_error {m : Memory} {offset size : Nat} {value : Bytes} {f : Failure}
    (fails : m.Set offset size value = .error f) : f = .panic .memory := by
  unfold Set at fails
  dsimp only at fails
  split at fails
  · cases fails
    rfl
  · split at fails
    · split at fails
      · cases fails
      · cases fails
        rfl
    · cases fails

theorem storeAt_error {m : Memory} {off : Int} {b : UInt8} {f : Failure}
    (fails : m.storeAt off b = .error f) : f = .panic .memory := by
  unfold storeAt at fails
  split at fails
  · cases fails
  · cases fails
    rfl

end Memory

/-! ### `memory_table.go` -/

section MemoryTable

variable (stack : Stack)

def memorySha3 : Except Failure Int := do
  pure (calcMemSize (← stack.Back 0) (← stack.Back 1))

def memoryCallDataCopy : Except Failure Int := do
  pure (calcMemSize (← stack.Back 0) (← stack.Back 2))

def memoryReturnDataCopy : Except Failure Int := do
  pure (calcMemSize (← stack.Back 0) (← stack.Back 2))

def memoryCodeCopy : Except Failure Int := do
  pure (calcMemSize (← stack.Back 0) (← stack.Back 2))

def memoryExtCodeCopy : Except Failure Int := do
  pure (calcMemSize (← stack.Back 1) (← stack.Back 3))

def memoryMLoad : Except Failure Int := do
  pure (calcMemSize (← stack.Back 0) 32)

def memoryMStore8 : Except Failure Int := do
  pure (calcMemSize (← stack.Back 0) 1)

def memoryMStore : Except Failure Int := do
  pure (calcMemSize (← stack.Back 0) 32)

def memoryCreate : Except Failure Int := do
  pure (calcMemSize (← stack.Back 1) (← stack.Back 2))

/-- `memoryCall`: the larger of the output and the input regions (`math.BigMax`). -/
def memoryCall : Except Failure Int := do
  let x := calcMemSize (← stack.Back 5) (← stack.Back 6)
  let y := calcMemSize (← stack.Back 3) (← stack.Back 4)
  pure (max x y)

def memoryDelegateCall : Except Failure Int := do
  let x := calcMemSize (← stack.Back 4) (← stack.Back 5)
  let y := calcMemSize (← stack.Back 2) (← stack.Back 3)
  pure (max x y)

def memoryStaticCall : Except Failure Int := do
  let x := calcMemSize (← stack.Back 4) (← stack.Back 5)
  let y := calcMemSize (← stack.Back 2) (← stack.Back 3)
  pure (max x y)

def memoryReturn : Except Failure Int := do
  pure (calcMemSize (← stack.Back 0) (← stack.Back 1))

def memoryRevert : Except Failure Int := do
  pure (calcMemSize (← stack.Back 0) (← stack.Back 1))

def memoryLog : Except Failure Int := do
  let mSize ← stack.Back 1
  let mStart ← stack.Back 0
  pure (calcMemSize mStart mSize)

end MemoryTable

/-- The `memorySize` functions of the jump table, by name. -/
inductive memorySizeFunc where
  | memorySha3 | memoryCallDataCopy | memoryReturnDataCopy | memoryCodeCopy
  | memoryExtCodeCopy | memoryMLoad | memoryMStore8 | memoryMStore | memoryCreate
  | memoryCall | memoryDelegateCall | memoryStaticCall | memoryReturn | memoryRevert
  | memoryLog
deriving DecidableEq, Repr

/-- The function each name stands for. -/
def memorySizeFunc.apply : memorySizeFunc → Stack → Except Failure Int
  | .memorySha3 => Evm.memorySha3
  | .memoryCallDataCopy => Evm.memoryCallDataCopy
  | .memoryReturnDataCopy => Evm.memoryReturnDataCopy
  | .memoryCodeCopy => Evm.memoryCodeCopy
  | .memoryExtCodeCopy => Evm.memoryExtCodeCopy
  | .memoryMLoad => Evm.memoryMLoad
  | .memoryMStore8 => Evm.memoryMStore8
  | .memoryMStore => Evm.memoryMStore
  | .memoryCreate => Evm.memoryCreate
  | .memoryCall => Evm.memoryCall
  | .memoryDelegateCall => Evm.memoryDelegateCall
  | .memoryStaticCall => Evm.memoryStaticCall
  | .memoryReturn => Evm.memoryReturn
  | .memoryRevert => Evm.memoryRevert
  | .memoryLog => Evm.memoryLog

/-! ### `memoryGasCost` -/

/-- `memoryGasCost`: the fee for growing the memory to `newMemSize` bytes, the difference
between the total fee of the new size and the one already paid. The square of the number
of words is a `uint64` product and wraps. -/
def memoryGasCost (mem : Memory) (newMemSize : Nat) : Except VmError (Nat × Memory) :=
  if newMemSize = 0 then pure (0, mem)
  else if newMemSize > 0xffffffffe0 then throw .errGasUintOverflow
  else
    let newMemSizeWords := toWordSize newMemSize
    let newMemSize := newMemSizeWords * 32
    if newMemSize > mem.Len then
      let square := newMemSizeWords * newMemSizeWords % 2 ^ 64
      let linCoef := newMemSizeWords * MemoryGas
      let quadCoef := square / QuadCoeffDiv
      let newTotalFee := linCoef + quadCoef
      let fee := (newTotalFee + 2 ^ 64 - mem.lastGasCost) % 2 ^ 64
      pure (fee, { mem with lastGasCost := newTotalFee })
    else pure (0, mem)

theorem memoryGasCost_le {mem mem' : Memory} {newMemSize fee : Nat}
    (ok : memoryGasCost mem newMemSize = .ok (fee, mem')) : newMemSize ≤ 0xffffffffe0 := by
  unfold memoryGasCost at ok
  split at ok
  · omega
  · split at ok
    · cases ok
    · omega

theorem memoryGasCost_store {mem mem' : Memory} {newMemSize fee : Nat}
    (ok : memoryGasCost mem newMemSize = .ok (fee, mem')) :
    mem'.Len = mem.Len ∧ mem'.store = mem.store := by
  unfold memoryGasCost at ok
  dsimp only at ok
  split at ok
  · cases ok; exact ⟨rfl, rfl⟩
  · split at ok
    · cases ok
    · split at ok <;> (cases ok; exact ⟨rfl, rfl⟩)

/-! ### The fee of a memory size -/

/-- `C(n) = 3n + ⌊n² / 512⌋`: the total fee for `n` words of memory, over unbounded integers. -/
def memoryFee (words : Nat) : Nat := words * MemoryGas + words * words / QuadCoeffDiv

/-- At the largest size `memoryGasCost` accepts, `0xffffffffe0` bytes or `2^35 - 1` words, the
square of the word count wraps in `uint64`: a fresh memory is charged 36028899963961341, the
value `TestMemoryGasCost` pins, where the fee of that many words is 2305843112158691325. -/
theorem memoryGasCost_square_wraps :
    memoryGasCost Memory.NewMemory 0xffffffffe0 =
        .ok (36028899963961341, { Memory.NewMemory with lastGasCost := 36028899963961341 }) ∧
      memoryFee (toWordSize 0xffffffffe0) = 2305843112158691325 :=
  ⟨rfl, rfl⟩

/-! ### The fees of a run -/

/-- What the interpreter does with the memory size of an operation, a multiple of 32: price
the growth with `memoryGasCost`, then `Resize`. -/
def Memory.expand (mem : Memory) (memorySize : Nat) : Except VmError (Nat × Memory) := do
  let (fee, mem) ← memoryGasCost mem memorySize
  pure (fee, if memorySize > 0 then mem.Resize memorySize else mem)

/-- The fees charged for the memory sizes of a run's operations, in order, and the memory
they leave. -/
def Memory.expandAll (mem : Memory) : List Nat → Except VmError (Nat × Memory)
  | [] => pure (0, mem)
  | size :: sizes => do
    let (fee, mem) ← mem.expand size
    let (fees, mem) ← expandAll mem sizes
    pure (fee + fees, mem)

/-- A memory of whole words, all of them paid for. -/
structure Memory.Priced (mem : Memory) : Prop where
  words : mem.Len % 32 = 0
  paid : mem.lastGasCost = memoryFee (mem.Len / 32)

theorem le_foldl_max (sizes : List Nat) (start : Nat) : start ≤ sizes.foldl max start := by
  induction sizes generalizing start with
  | nil => exact Nat.le_refl _
  | cons size sizes ih => exact (le_max_left start size).trans (ih _)

theorem priced_NewMemory : Memory.NewMemory.Priced := ⟨rfl, rfl⟩

theorem memoryFee_mono {a b : Nat} (le : a ≤ b) : memoryFee a ≤ memoryFee b := by
  have square := Nat.div_le_div_right (c := QuadCoeffDiv) (Nat.mul_le_mul le le)
  have linear := Nat.mul_le_mul_right MemoryGas le
  unfold memoryFee
  omega

/-- The fee of fewer than `2^32` words fits in `uint64`, and so does their square. -/
theorem memoryFee_lt {words : Nat} (bound : words < 2 ^ 32) :
    words * words < 2 ^ 64 ∧ memoryFee words < 2 ^ 64 := by
  have square : words * words < 2 ^ 32 * 2 ^ 32 := Nat.mul_lt_mul'' bound bound
  unfold memoryFee MemoryGas QuadCoeffDiv
  omega

/-- Below `2^32` words the square does not wrap, and `memoryGasCost` charges the fee of the
new size less the fee of the old one. -/
theorem memoryGasCost_exact {mem : Memory} (priced : mem.Priced) {size : Nat} (words : size % 32 = 0)
    (bound : size ≤ 0x1fffffffe0) :
    memoryGasCost mem size = .ok (memoryFee (max mem.Len size / 32) - memoryFee (mem.Len / 32),
      if size > mem.Len then { mem with lastGasCost := memoryFee (size / 32) } else mem) := by
  unfold memoryGasCost
  by_cases zero : size = 0
  · subst zero
    simp only [if_pos, max_eq_left (Nat.zero_le _), Nat.sub_self, gt_iff_lt, Nat.not_lt_zero, if_false]
    rfl
  rw [if_neg zero, if_neg (by omega)]
  have rounded : toWordSize size = size / 32 := by
    unfold toWordSize MaxUint64
    split <;> omega
  have whole : size / 32 * 32 = size := Nat.div_mul_cancel (Nat.dvd_of_mod_eq_zero words)
  simp only [rounded, whole]
  split
  · next grows =>
    -- the memory grows: nothing wraps, and the old fee is below the new one
    obtain ⟨square, fits⟩ := memoryFee_lt (show size / 32 < 2 ^ 32 by omega)
    have below := memoryFee_mono (show mem.Len / 32 ≤ size / 32 by omega)
    have newTotal : size / 32 * MemoryGas + size / 32 * (size / 32) % 2 ^ 64 / QuadCoeffDiv =
        memoryFee (size / 32) := by
      rw [Nat.mod_eq_of_lt square]
      rfl
    rw [newTotal, priced.paid, max_eq_right (by omega)]
    congr 3
    omega
  · next fits =>
    rw [max_eq_left (by omega), Nat.sub_self]
    rfl

/-- One operation: its fee is the growth of the fee of the memory, which stays priced. -/
theorem expand_priced {mem mem' : Memory} (priced : mem.Priced) {size fee : Nat} (words : size % 32 = 0)
    (bound : size ≤ 0x1fffffffe0) (expanded : mem.expand size = .ok (fee, mem')) :
    fee = memoryFee (mem'.Len / 32) - memoryFee (mem.Len / 32) ∧ mem'.Len = max mem.Len size ∧
      mem'.Priced := by
  rw [Memory.expand, memoryGasCost_exact priced words bound] at expanded
  cases expanded
  by_cases grows : size > mem.Len
  · -- the memory grows to `size`, whose fee is now paid
    rw [if_pos grows, if_pos (by omega : size > 0)]
    have len : ({ mem with lastGasCost := memoryFee (size / 32) }.Resize size).Len = size := by
      rw [Memory.Len_Resize]
      exact max_eq_right (le_of_lt grows)
    rw [len, max_eq_right (le_of_lt grows)]
    exact ⟨rfl, rfl, by rw [len]; exact words, by rw [len, Memory.lastGasCost_Resize]⟩
  · -- the memory holds `size` bytes already: nothing is charged and nothing changes
    rw [if_neg grows, max_eq_left (by omega), Nat.sub_self]
    have same : (if size > 0 then mem.Resize size else mem).Len = mem.Len ∧
        (if size > 0 then mem.Resize size else mem).lastGasCost = mem.lastGasCost := by
      split
      · rw [Memory.Len_Resize, Memory.lastGasCost_Resize]
        exact ⟨max_eq_left (by omega), rfl⟩
      · exact ⟨rfl, rfl⟩
    rw [same.1, Nat.sub_self]
    exact ⟨rfl, rfl, by rw [same.1]; exact priced.words, by rw [same.1, same.2]; exact priced.paid⟩

/-- Over a run, the fees add up to the growth of the fee of the memory, which ends as large as
the largest size asked for. -/
theorem expandAll_priced (sizes : List Nat) (words : ∀ s ∈ sizes, s % 32 = 0)
    (bound : ∀ s ∈ sizes, s ≤ 0x1fffffffe0) {mem : Memory} (priced : mem.Priced) :
    ∃ mem', mem.expandAll sizes = .ok (memoryFee (mem'.Len / 32) - memoryFee (mem.Len / 32), mem') ∧
      mem'.Len = sizes.foldl max mem.Len ∧ mem'.Priced := by
  induction sizes generalizing mem with
  | nil => exact ⟨mem, by rw [Nat.sub_self]; rfl, rfl, priced⟩
  | cons size sizes ih =>
    have wordsHere := words size (by simp)
    have boundHere := bound size (by simp)
    -- the first operation is priced exactly, and the rest is the run from there
    obtain ⟨next, expanded⟩ : ∃ next, mem.expand size = .ok next := by
      rw [Memory.expand, memoryGasCost_exact priced wordsHere boundHere]
      exact ⟨_, rfl⟩
    obtain ⟨fee, mid⟩ := next
    obtain ⟨paid, grown, pricedMid⟩ := expand_priced priced wordsHere boundHere expanded
    obtain ⟨mem', rest, final, priced'⟩ := ih (fun s member => words s (by simp [member]))
      (fun s member => bound s (by simp [member])) pricedMid
    have monotone : mem.Len ≤ mid.Len ∧ mid.Len ≤ mem'.Len := by
      rw [final, grown]
      exact ⟨le_max_left _ _, le_foldl_max ..⟩
    have first := memoryFee_mono (Nat.div_le_div_right (c := 32) monotone.1)
    have second := memoryFee_mono (Nat.div_le_div_right (c := 32) monotone.2)
    refine ⟨mem', ?_, by rw [final, grown, List.foldl_cons], priced'⟩
    simp only [Memory.expandAll, expanded, rest, bind, Except.bind, pure, Except.pure, paid]
    congr 2
    omega

/-- From a fresh memory, as long as no operation asks for `2^32` words or more, the fees of a
run add up to the fee of the memory it ends with, `C(final word count)`. -/
theorem expandAll_fees_sum (sizes : List Nat) (words : ∀ s ∈ sizes, s % 32 = 0)
    (bound : ∀ s ∈ sizes, s ≤ 0x1fffffffe0) :
    ∃ mem, Memory.NewMemory.expandAll sizes = .ok (memoryFee (mem.Len / 32), mem) ∧
      mem.Len = sizes.foldl max 0 := by
  obtain ⟨mem, run, final, -⟩ := expandAll_priced sizes words bound priced_NewMemory
  exact ⟨mem, run, final⟩

theorem expandAll_fees_sum_grow_shrink :
    (∀ s ∈ [64, 32, 96], s % 32 = 0) ∧ (∀ s ∈ [64, 32, 96], s ≤ 0x1fffffffe0) ∧
      ∃ mem, Memory.NewMemory.expandAll [64, 32, 96] = .ok (memoryFee (mem.Len / 32), mem) ∧
        mem.Len = [64, 32, 96].foldl max 0 :=
  ⟨by decide, by decide, expandAll_fees_sum [64, 32, 96] (by decide) (by decide)⟩

end Indigo.Evm
