import Indigo.Evm.Contract

/-!
# Jump destination analysis

`core/vm/analysis.go` decides which bytes of a program are instructions and which are the
immediate bytes of a `PUSH`, so that a jump may only land on a `JUMPDEST` instruction. The
linear decoding of the code steps from 0 over one instruction at a time, a `PUSHn` with its
`n` bytes (`instrStart`); `codeBitmap` marks the bytes that decoding skips.

The model of `Indigo.Evm.Contract` keeps the bitmap as a function of the position, the bits
`codeBitmap` sets; here is also the `bitvec` of the source, eight positions to a byte with the
first position in the most significant bit, filled by `set8` eight bits at a time across
byte boundaries and by `set` one bit at a time, and read by `codeSegment`, with the cache of
analysed code in `destinations`. A Go index out of range is `none`.

## Main results

- `codeBitmap_eq_false_iff`: below the length of the code, a position is left clear by the
  bitmap exactly when the linear decoding starts an instruction there.
- `bitvec.codeBitmap_bit`: the bytes of `codeBitmap` hold the same bits, and filling them
  never writes outside the buffer of `len(code)/8 + 1 + 4` bytes.
- `jumpdest_analysis_spec`: with a cache that holds the bitmaps of the codes of its hashes,
  `destinations.has` never panics, keeps the cache so, and, for a code shorter than `2^62`
  bytes as every Go slice is, finds a `JUMPDEST` exactly at an instruction start below
  `len(code)`. `has` itself answers false at `2^62` and above (`has_iff`).

## Proof strategy

The instruction starts are the iterates of `nextInstr` from 0, strictly increasing, so every
position lies between two consecutive ones (`exists_between_instrStart`): it starts an
instruction or is an immediate byte of the one before it. The loop of `codeBitmap` is
described by the iterates it visits (`bitmapLoop_iff`). The `bitvec` loops are related to
the bits they set one write at a time (`set_bit`, `set8_bit`).
-/

namespace Indigo.Evm

/-! ### The linear decoding -/

/-- The number of immediate bytes of an instruction: `n` for `PUSHn`, none for the others. -/
def immediates (op : OpCode) : Nat := if PUSH1 ≤ op ∧ op ≤ PUSH32 then (op - PUSH1).toNat + 1 else 0

/-- A `PUSH32` has the most immediates, 32. -/
theorem immediates_le (op : OpCode) : immediates op ≤ 32 := by
  unfold immediates
  split
  · next push =>
    have low : PUSH1.toNat = 96 := by decide
    have high : PUSH32.toNat = 127 := by decide
    have fromLow := UInt8.le_iff_toNat_le.mp push.1
    have toHigh := UInt8.le_iff_toNat_le.mp push.2
    rw [UInt8.toNat_sub_of_le _ _ push.1]
    omega
  · omega

/-- Where the instruction after the one at `pc` starts. -/
def nextInstr (code : Bytes) (pc : Nat) : Nat := pc + 1 + immediates (code.getD pc 0)

/-- Where the `k`-th instruction of the linear decoding from 0 starts. -/
def instrStart (code : Bytes) (k : Nat) : Nat := (nextInstr code)^[k] 0

/-- `p` starts an instruction: stepping from 0 over whole instructions, each of them inside
the code, reaches `p`. -/
def IsInstrStart (code : Bytes) (p : Nat) : Prop :=
  ∃ k, instrStart code k = p ∧ ∀ j < k, instrStart code j < code.length

/-- `i` is an immediate byte of an instruction that the linear decoding reaches inside the
code. -/
def InPushData (code : Bytes) (i : Nat) : Prop :=
  ∃ k, (∀ j ≤ k, instrStart code j < code.length) ∧ instrStart code k < i ∧ i < instrStart code (k + 1)

theorem lt_nextInstr (code : Bytes) (pc : Nat) : pc < nextInstr code pc := by
  unfold nextInstr
  omega

@[simp] theorem instrStart_zero (code : Bytes) : instrStart code 0 = 0 := rfl

theorem instrStart_succ (code : Bytes) (k : Nat) :
    instrStart code (k + 1) = nextInstr code (instrStart code k) :=
  Function.iterate_succ_apply' _ _ _

theorem instrStart_strictMono (code : Bytes) : StrictMono (instrStart code) :=
  strictMono_nat_of_lt_succ fun k => by
    rw [instrStart_succ]
    exact lt_nextInstr code _

theorem le_instrStart (code : Bytes) (k : Nat) : k ≤ instrStart code k :=
  (instrStart_strictMono code).id_le k

/-- Every position lies in the stretch of one instruction of the decoding: from its start up
to the start of the next. -/
theorem exists_between_instrStart (code : Bytes) (i : Nat) :
    ∃ k, instrStart code k ≤ i ∧ i < instrStart code (k + 1) := by
  -- the first start beyond `i`, which is not the start at 0
  have beyond : ∃ k, i < instrStart code k := ⟨i + 1, by have := le_instrStart code (i + 1); omega⟩
  let k := Nat.find beyond
  have above : i < instrStart code k := Nat.find_spec beyond
  have positive : k ≠ 0 := fun zero => by
    have := above
    rw [zero, instrStart_zero] at this
    omega
  obtain ⟨j, succ⟩ := Nat.exists_eq_succ_of_ne_zero positive
  have notBeyond : ¬i < instrStart code j :=
    Nat.find_min beyond (show j < Nat.find beyond by dsimp only [k] at succ; omega)
  rw [succ] at above
  exact ⟨j, Nat.not_lt.mp notBeyond, above⟩

/-- Inside the code, a position starts an instruction exactly when it is no immediate byte. -/
theorem isInstrStart_iff_not_inPushData {code : Bytes} {i : Nat} (inside : i < code.length) :
    IsInstrStart code i ↔ ¬InPushData code i := by
  constructor
  · -- a start lies on no stretch of immediates: the starts increase strictly
    rintro ⟨k, rfl, -⟩ ⟨j, -, after, before⟩
    have lt := (instrStart_strictMono code).lt_iff_lt.mp after
    have gt := (instrStart_strictMono code).lt_iff_lt.mp before
    omega
  · -- the start of the stretch `i` lies on is `i` itself, or `i` is one of its immediates
    intro notData
    obtain ⟨k, atOrAfter, before⟩ := exists_between_instrStart code i
    have earlier : ∀ j ≤ k, instrStart code j < code.length := fun j le =>
      lt_of_le_of_lt ((instrStart_strictMono code).monotone le) (lt_of_le_of_lt atOrAfter inside)
    rcases Nat.lt_or_eq_of_le atOrAfter with after | same
    · exact absurd ⟨k, earlier, after, before⟩ notData
    · exact ⟨k, same, fun j lt => earlier j (Nat.le_of_lt lt)⟩

/-! ### The bits of `codeBitmap` -/

/-- The loop of `codeBitmap` from `pc`, with `rounds` rounds left: it sets the bits of the
immediates of the instructions it steps over from `pc`, as long as they start inside the
code. -/
theorem bitmapLoop_iff (code : Bytes) (rounds pc : Nat) (bits : Nat → Bool) (i : Nat) :
    bitmapLoop code rounds pc bits i = true ↔ bits i = true ∨
      ∃ m < rounds, (∀ m' ≤ m, (nextInstr code)^[m'] pc < code.length) ∧
        (nextInstr code)^[m] pc < i ∧ i < (nextInstr code)^[m + 1] pc := by
  induction rounds generalizing pc bits with
  | zero => simp [bitmapLoop]
  | succ rounds ih =>
    by_cases inside : pc < code.length
    · -- one round: the immediates of the instruction at `pc`, then the loop from the next
      have marked : bitmapLoop code (rounds + 1) pc bits = bitmapLoop code rounds (nextInstr code pc)
          fun i => bits i || (pc < i ∧ i < nextInstr code pc) := by
        simp only [bitmapLoop, if_pos inside, nextInstr, immediates]
        split
        · -- `pc + 1 ≤ i` is `pc < i`
          rfl
        · congr 1
          funext i
          simp only [Nat.add_zero]
          simp
      rw [marked, ih]
      simp only [Bool.or_eq_true, decide_eq_true_eq, Function.iterate_succ_apply]
      constructor
      · rintro ((old | here) | ⟨m, lt, within, after, before⟩)
        · exact .inl old
        · exact .inr ⟨0, by omega, fun m' le => by rw [Nat.le_zero.mp le]; exact inside, here⟩
        · refine .inr ⟨m + 1, by omega, fun m' le => ?_, after, before⟩
          cases m' with
          | zero => exact inside
          | succ m' => exact within m' (by omega)
      · rintro (old | ⟨m, lt, within, after, before⟩)
        · exact .inl (.inl old)
        · cases m with
          | zero => exact .inl (.inr ⟨after, before⟩)
          | succ m =>
            exact .inr ⟨m, by omega, fun m' le => within (m' + 1) (by omega), after, before⟩
    · have done : bitmapLoop code (rounds + 1) pc bits = bits := by
        simp only [bitmapLoop, if_neg inside]
      rw [done]
      constructor
      · exact .inl
      · rintro (old | ⟨m, -, within, -⟩)
        · exact old
        · exact absurd (within 0 (Nat.zero_le _)) inside

/-- The bits `codeBitmap` sets are the immediate bytes of the linear decoding. -/
theorem codeBitmap_iff (code : Bytes) (i : Nat) : codeBitmap code i = true ↔ InPushData code i := by
  rw [codeBitmap, bitmapLoop_iff]
  simp only [Bool.false_eq_true, false_or]
  constructor
  · rintro ⟨m, -, within, after, before⟩
    exact ⟨m, within, after, before⟩
  · rintro ⟨m, within, after, before⟩
    -- an instruction that starts inside the code is among the first `len(code)`
    have short := lt_of_le_of_lt (le_instrStart code m) (within m (Nat.le_refl _))
    exact ⟨m, short, within, after, before⟩

/-- Below the length of the code, `codeBitmap` leaves a position clear exactly when the
linear decoding starts an instruction there. -/
theorem codeBitmap_eq_false_iff {code : Bytes} {i : Nat} (inside : i < code.length) :
    codeBitmap code i = false ↔ IsInstrStart code i := by
  rw [isInstrStart_iff_not_inPushData inside, ← codeBitmap_iff, Bool.not_eq_true]

/-- `has` of the interpreter finds a `JUMPDEST` exactly at an instruction start below the
length of the code and below `2^62`, where the bit length of the destination reaches 63. -/
theorem has_iff (code : Bytes) (dest : Nat) :
    has code dest = true ↔
      dest < 2 ^ 62 ∧ dest < code.length ∧ code.getD dest 0 = JUMPDEST ∧ IsInstrStart code dest := by
  have bits : BitLen (dest : Int) ≥ 63 ↔ 2 ^ 62 ≤ dest := by
    simp only [BitLen, Int.natAbs_natCast, ge_iff_le]
    exact Nat.lt_size
  by_cases far : 2 ^ 62 ≤ dest
  · simp only [has, if_pos (Or.inl (bits.mpr far))]
    simp only [Bool.false_eq_true, false_iff, not_and]
    intro near
    omega
  · have word : Uint64 (dest : Int) = dest := by
      simp only [Uint64, Int.natAbs_natCast]
      exact Nat.mod_eq_of_lt (by omega)
    by_cases outside : dest < code.length
    · have clear := codeBitmap_eq_false_iff outside
      simp only [has, word, if_neg (show ¬(BitLen (dest : Int) ≥ 63 ∨ dest ≥ code.length) by
        rw [bits]; omega), Bool.and_eq_true, beq_iff_eq, Bool.not_eq_true', clear]
      constructor
      · rintro ⟨jumpdest, start⟩
        exact ⟨by omega, outside, jumpdest, start⟩
      · rintro ⟨-, -, jumpdest, start⟩
        exact ⟨jumpdest, start⟩
    · simp only [has, word, if_pos (Or.inr (Nat.le_of_not_lt outside))]
      simp only [Bool.false_eq_true, false_iff, not_and]
      intro _ inside
      exact absurd inside outside

/-! ### The `bitvec` of the source -/

/-- `bitvec`: a bit for each byte of code, eight to a byte with the first in the most
significant bit; a set bit marks push data. -/
abbrev bitvec := List UInt8

namespace bitvec

/-- The bit of position `pos`: bit `7 - pos % 8` of byte `pos / 8`, clear past the end. -/
def bit (bits : bitvec) (pos : Nat) : Bool := (bits.getD (pos / 8) 0).toNat.testBit (7 - pos % 8)

/-- `bitvec.set`: `bits[pos/8] |= 0x80 >> (pos % 8)`. -/
def set (bits : bitvec) (pos : Nat) : Option bitvec :=
  if pos / 8 < bits.length then
    some (bits.modify (pos / 8) (· ||| (0x80 : UInt8) >>> (pos % 8).toUInt8))
  else none

/-- `bitvec.set8`: the bits of `pos` to the end of its byte, then those of the next byte before
`pos + 8`. -/
def set8 (bits : bitvec) (pos : Nat) : Option bitvec :=
  if pos / 8 + 1 < bits.length then
    some ((bits.modify (pos / 8) (· ||| (0xFF : UInt8) >>> (pos % 8).toUInt8)).modify (pos / 8 + 1)
      (· ||| ~~~((0xFF : UInt8) >>> (pos % 8).toUInt8)))
  else none

/-- `codeSegment`: whether the bit of `pos` is clear. -/
def codeSegment (bits : bitvec) (pos : Nat) : Option Bool :=
  bits[pos / 8]?.map fun b => b &&& (0x80 : UInt8) >>> (pos % 8).toUInt8 == 0

/-- `for ; numbits >= 8; numbits -= 8 { bits.set8(pc); pc += 8 }`, over the `numbits / 8`
rounds it makes. -/
def set8Loop (bits : bitvec) (pc : Nat) : (rounds : Nat) → Option (bitvec × Nat)
  | 0 => some (bits, pc)
  | rounds + 1 => do
    let bits ← bits.set8 pc
    set8Loop bits (pc + 8) rounds

/-- `for ; numbits > 0; numbits-- { bits.set(pc); pc++ }`. -/
def setLoop (bits : bitvec) (pc : Nat) : (numbits : Nat) → Option (bitvec × Nat)
  | 0 => some (bits, pc)
  | numbits + 1 => do
    let bits ← bits.set pc
    setLoop bits (pc + 1) numbits

/-- The loop of `codeBitmap`, with `rounds` rounds left; every round moves `pc` forward, so
`len(code)` of them reach its end. -/
def codeBitmapLoop (code : Bytes) : (rounds pc : Nat) → bitvec → Option bitvec
  | 0, _, bits => some bits
  | rounds + 1, pc, bits =>
    if pc < code.length then
      let op : OpCode := code.getD pc 0
      if PUSH1 ≤ op ∧ op ≤ PUSH32 then
        let numbits := (op - PUSH1).toNat + 1
        do
          let (bits, pc) ← set8Loop bits (pc + 1) (numbits / 8)
          let (bits, pc) ← setLoop bits pc (numbits % 8)
          codeBitmapLoop code rounds pc bits
      else codeBitmapLoop code rounds (pc + 1) bits
    else some bits

/-- `codeBitmap`: the buffer has 4 bytes more than the code needs, for the bits of a `PUSH32`
at the end of the code. -/
def codeBitmap (code : Bytes) : Option bitvec :=
  codeBitmapLoop code code.length 0 (List.replicate (code.length / 8 + 1 + 4) 0)

/-! ### Bits of bytes -/

/-- The bits of `0x80 >> r`, `0xFF >> r` and its complement, most significant first. -/
theorem testBit_masks (r j : Fin 8) :
    ((0x80 : UInt8) >>> r.val.toUInt8).toNat.testBit (7 - j.val) = decide (j = r) ∧
      ((0xFF : UInt8) >>> r.val.toUInt8).toNat.testBit (7 - j.val) = decide (r ≤ j) ∧
      (~~~((0xFF : UInt8) >>> r.val.toUInt8)).toNat.testBit (7 - j.val) = decide (j < r) := by
  revert r j
  decide

theorem bit_modify_or (bits : bitvec) (n : Nat) (mask : UInt8) (i : Nat) :
    bit (bits.modify n (· ||| mask)) i =
      (bit bits i || decide (i / 8 = n ∧ n < bits.length) && mask.toNat.testBit (7 - i % 8)) := by
  simp only [bit, List.getD_eq_getElem?_getD, List.getElem?_modify]
  by_cases same : n = i / 8
  · subst same
    cases found : bits[i / 8]? with
    | none =>
      have outside : ¬i / 8 < bits.length := fun inside => by
        rw [List.getElem?_eq_getElem inside] at found
        cases found
      simp [outside]
    | some b =>
      have inside : i / 8 < bits.length := by
        by_contra outside
        rw [List.getElem?_eq_none (Nat.le_of_not_lt outside)] at found
        cases found
      simp [inside, UInt8.toNat_or, Nat.testBit_or]
  · have other : ¬(i / 8 = n ∧ n < bits.length) := fun ⟨eq, _⟩ => same eq.symm
    cases bits[i / 8]? <;> simp [same, other]

/-- `set` sets the bit of `pos` and no other, and keeps the length. -/
theorem set_bit {bits : bitvec} {pos : Nat} (inside : pos / 8 < bits.length) :
    ∃ bits', bits.set pos = some bits' ∧ bits'.length = bits.length ∧
      ∀ i, bit bits' i = (bit bits i || decide (pos ≤ i ∧ i < pos + 1)) := by
  refine ⟨_, if_pos inside, List.length_modify .., fun i => ?_⟩
  rw [bit_modify_or]
  congr 1
  have masks := (testBit_masks ⟨pos % 8, Nat.mod_lt _ (by norm_num)⟩ ⟨i % 8, Nat.mod_lt _ (by norm_num)⟩).1
  simp only [Fin.mk.injEq] at masks
  rw [masks]
  -- the same byte and the same bit in it make the same position
  have split : pos ≤ i ∧ i < pos + 1 ↔ i / 8 = pos / 8 ∧ i % 8 = pos % 8 := by omega
  simp only [split, inside, and_true, Bool.decide_and]

/-- `set8` sets the bits of `pos` to `pos + 7` and no other, and keeps the length. -/
theorem set8_bit {bits : bitvec} {pos : Nat} (inside : pos / 8 + 1 < bits.length) :
    ∃ bits', bits.set8 pos = some bits' ∧ bits'.length = bits.length ∧
      ∀ i, bit bits' i = (bit bits i || decide (pos ≤ i ∧ i < pos + 8)) := by
  refine ⟨_, if_pos inside, by simp only [List.length_modify], fun i => ?_⟩
  rw [bit_modify_or, bit_modify_or, List.length_modify]
  have masks := testBit_masks ⟨pos % 8, Nat.mod_lt _ (by norm_num)⟩ ⟨i % 8, Nat.mod_lt _ (by norm_num)⟩
  simp only [Fin.mk.injEq, Fin.mk_le_mk, Fin.mk_lt_mk] at masks
  rw [masks.2.1, masks.2.2, Bool.or_assoc]
  congr 1
  -- the eight positions from `pos` are the end of its byte and the start of the next
  have split : pos ≤ i ∧ i < pos + 8 ↔
      (i / 8 = pos / 8 ∧ pos % 8 ≤ i % 8) ∨ (i / 8 = pos / 8 + 1 ∧ i % 8 < pos % 8) := by omega
  simp only [split, show pos / 8 < bits.length by omega, inside, and_true, Bool.decide_or,
    Bool.decide_and]

/-- Two adjacent ranges of positions make one. -/
theorem decide_range_or {a b c i : Nat} (ab : a ≤ b) (bc : b ≤ c) :
    (decide (a ≤ i ∧ i < b) || decide (b ≤ i ∧ i < c)) = decide (a ≤ i ∧ i < c) := by
  rw [Bool.eq_iff_iff]
  simp only [Bool.or_eq_true, decide_eq_true_eq]
  omega

/-- The loop of `set8` sets the `8 * rounds` bits from `pc` and moves `pc` past them. -/
theorem set8Loop_bit {bits : bitvec} {pc rounds : Nat} (inside : pc + 8 * rounds < 8 * bits.length) :
    ∃ bits', set8Loop bits pc rounds = some (bits', pc + 8 * rounds) ∧ bits'.length = bits.length ∧
      ∀ i, bit bits' i = (bit bits i || decide (pc ≤ i ∧ i < pc + 8 * rounds)) := by
  induction rounds generalizing bits pc with
  | zero => exact ⟨bits, rfl, rfl, fun i => by simp⟩
  | succ rounds ih =>
    obtain ⟨once, set, sameLength, marked⟩ := @set8_bit bits pc (by omega)
    obtain ⟨rest, loop, sameLength', marked'⟩ := @ih once (pc + 8) (by omega)
    refine ⟨rest, ?_, by rw [sameLength', sameLength], fun i => ?_⟩
    · simp only [set8Loop, set, Option.bind_eq_bind, Option.bind_some, loop]
      congr 2
      omega
    · rw [marked', marked, Bool.or_assoc, decide_range_or (by omega) (by omega)]
      rw [show pc + 8 + 8 * rounds = pc + 8 * (rounds + 1) by omega]

/-- The loop of `set` sets the `numbits` bits from `pc` and moves `pc` past them. -/
theorem setLoop_bit {bits : bitvec} {pc numbits : Nat} (inside : pc + numbits ≤ 8 * bits.length) :
    ∃ bits', setLoop bits pc numbits = some (bits', pc + numbits) ∧ bits'.length = bits.length ∧
      ∀ i, bit bits' i = (bit bits i || decide (pc ≤ i ∧ i < pc + numbits)) := by
  induction numbits generalizing bits pc with
  | zero => exact ⟨bits, rfl, rfl, fun i => by simp⟩
  | succ numbits ih =>
    obtain ⟨once, set, sameLength, marked⟩ := @set_bit bits pc (by omega)
    obtain ⟨rest, loop, sameLength', marked'⟩ := @ih once (pc + 1) (by omega)
    refine ⟨rest, ?_, by rw [sameLength', sameLength], fun i => ?_⟩
    · simp only [setLoop, set, Option.bind_eq_bind, Option.bind_some, loop]
      congr 2
      omega
    · rw [marked', marked, Bool.or_assoc, decide_range_or (by omega) (by omega)]
      rw [show pc + 1 + numbits = pc + (numbits + 1) by omega]

/-- The loop of the byte bitmap computes the bits of the loop of `Contract`'s bitmap, within
its buffer. -/
theorem codeBitmapLoop_bit (code : Bytes) (rounds pc : Nat) {bits : bitvec} {marks : Nat → Bool}
    (length : bits.length = code.length / 8 + 1 + 4) (same : ∀ i, bit bits i = marks i) :
    ∃ bits', codeBitmapLoop code rounds pc bits = some bits' ∧ bits'.length = bits.length ∧
      ∀ i, bit bits' i = bitmapLoop code rounds pc marks i := by
  induction rounds generalizing pc bits marks with
  | zero => exact ⟨bits, rfl, rfl, same⟩
  | succ rounds ih =>
    by_cases inside : pc < code.length
    · by_cases push : PUSH1 ≤ code.getD pc 0 ∧ code.getD pc 0 ≤ PUSH32
      · -- at most 32 immediates from inside the code: they fit in the 4 spare bytes
        have fewer := immediates_le (code.getD pc 0)
        rw [immediates, if_pos push] at fewer
        obtain ⟨blocks, loop8, length8, marked8⟩ := @set8Loop_bit bits (pc + 1)
          (((code.getD pc 0 - PUSH1).toNat + 1) / 8) (by omega)
        obtain ⟨singles, loop1, length1, marked1⟩ := @setLoop_bit blocks
          (pc + 1 + 8 * (((code.getD pc 0 - PUSH1).toNat + 1) / 8))
          (((code.getD pc 0 - PUSH1).toNat + 1) % 8) (by omega)
        obtain ⟨final, loop, lengthFinal, markedFinal⟩ := @ih (pc + 1 + ((code.getD pc 0 - PUSH1).toNat + 1)) singles
          (fun i => marks i || decide (pc + 1 ≤ i ∧ i < pc + 1 + ((code.getD pc 0 - PUSH1).toNat + 1)))
          (by rw [length1, length8, length]) (fun i => by
            rw [marked1, marked8, same, Bool.or_assoc, decide_range_or (by omega) (by omega)]
            rw [show pc + 1 + 8 * (((code.getD pc 0 - PUSH1).toNat + 1) / 8) +
                ((code.getD pc 0 - PUSH1).toNat + 1) % 8 = pc + 1 + ((code.getD pc 0 - PUSH1).toNat + 1) by omega])
        refine ⟨final, ?_, by rw [lengthFinal, length1, length8], fun i => ?_⟩
        · simp only [codeBitmapLoop, if_pos inside, if_pos push, Option.bind_eq_bind, loop8,
            Option.bind_some, loop1]
          rw [show pc + 1 + 8 * (((code.getD pc 0 - PUSH1).toNat + 1) / 8) +
              ((code.getD pc 0 - PUSH1).toNat + 1) % 8 = pc + 1 + ((code.getD pc 0 - PUSH1).toNat + 1) by omega]
          exact loop
        · rw [markedFinal]
          simp only [bitmapLoop, if_pos inside, if_pos push]
      · obtain ⟨final, loop, lengthFinal, markedFinal⟩ := ih (pc + 1) length same
        refine ⟨final, ?_, lengthFinal, fun i => ?_⟩
        · simp only [codeBitmapLoop, if_pos inside, if_neg push]
          exact loop
        · rw [markedFinal]
          simp only [bitmapLoop, if_pos inside, if_neg push]
    · refine ⟨bits, by simp only [codeBitmapLoop, if_neg inside], rfl, fun i => ?_⟩
      simp only [bitmapLoop, if_neg inside, same]

/-- `codeBitmap` fills its buffer without writing outside it, with the bits of the bitmap
of `Contract`. -/
theorem codeBitmap_bit (code : Bytes) :
    ∃ bits, codeBitmap code = some bits ∧ bits.length = code.length / 8 + 1 + 4 ∧
      ∀ i, bit bits i = Indigo.Evm.codeBitmap code i := by
  have clear : ∀ i, bit (List.replicate (code.length / 8 + 1 + 4) 0) i = false := fun i => by
    simp only [bit, List.getD_eq_getElem?_getD, List.getElem?_replicate]
    split <;> simp
  obtain ⟨bits, loop, length, same⟩ := codeBitmapLoop_bit code code.length 0 (List.length_replicate ..) clear
  exact ⟨bits, loop, by rw [length, List.length_replicate], same⟩

set_option maxRecDepth 20000 in
/-- A byte masked with the bit of a position is zero exactly when that bit is clear. -/
theorem and_mask_eq_zero (b : UInt8) (r : Fin 8) :
    (b &&& (0x80 : UInt8) >>> r.val.toUInt8 == 0) = !b.toNat.testBit (7 - r.val) := by
  revert b r
  decide

/-- `codeSegment` reads the bit of a position inside the buffer. -/
theorem codeSegment_eq {bits : bitvec} {pos : Nat} (inside : pos / 8 < bits.length) :
    codeSegment bits pos = some !(bit bits pos) := by
  simp only [codeSegment, bit, List.getElem?_eq_getElem inside, Option.map_some,
    List.getD_eq_getElem?_getD, Option.getD_some]
  exact congrArg some (and_mask_eq_zero _ ⟨pos % 8, Nat.mod_lt _ (by norm_num)⟩)

/-- `codeSegment` of the byte bitmap is the linear decoding: below the length of the code, it
holds exactly at instruction starts. -/
theorem codeSegment_iff {code : Bytes} {bits : bitvec} (computed : codeBitmap code = some bits)
    {p : Nat} (inside : p < code.length) :
    ∃ segment, codeSegment bits p = some segment ∧ (segment = true ↔ IsInstrStart code p) := by
  obtain ⟨bits', computed', length, same⟩ := codeBitmap_bit code
  rw [computed, Option.some.injEq] at computed'
  subst computed'
  refine ⟨_, codeSegment_eq (by omega), ?_⟩
  rw [same, Bool.not_eq_true', codeBitmap_eq_false_iff inside]

end bitvec

/-! ### The cache of analysed code -/

/-- `destinations`: the bitmaps of the code analysed so far, by the hash of the code. -/
abbrev destinations := Hash → Option bitvec

namespace destinations

/-- `m, analysed := d[codehash]`, and the code analysed and cached if it was not. -/
def analyse (d : destinations) (codehash : Hash) (code : Bytes) : Option (bitvec × destinations) :=
  match d codehash with
  | some m => some (m, d)
  | none => (bitvec.codeBitmap code).map fun m => (m, Function.update d codehash (some m))

/-- `destinations.has`: whether `dest` is a `JUMPDEST` of the code outside push data. -/
def has (d : destinations) (codehash : Hash) (code : Bytes) (dest : Int) :
    Option (Bool × destinations) :=
  -- PC cannot go beyond len(code) and certainly can't be bigger than 63 bits
  let udest := Uint64 dest
  if BitLen dest ≥ 63 ∨ udest ≥ code.length then some (false, d)
  else do
    let (m, d) ← d.analyse codehash code
    if code.getD udest 0 = JUMPDEST then
      let segment ← m.codeSegment udest
      some (segment, d)
    else some (false, d)

/-- The cache holds, under each hash, the bitmap of the code `codeOf` names by it. -/
def Holds (d : destinations) (codeOf : Hash → Bytes) : Prop :=
  ∀ h m, d h = some m → bitvec.codeBitmap (codeOf h) = some m

theorem holds_empty (codeOf : Hash → Bytes) : Holds (fun _ => none) codeOf :=
  fun _ _ cached => by cases cached

/-- A cache that holds gives the bitmap of the code, and still holds when it caches it. -/
theorem analyse_spec {d : destinations} {codeOf : Hash → Bytes} (holds : d.Holds codeOf)
    {codehash : Hash} {code : Bytes} (hashed : codeOf codehash = code) :
    ∃ m d', d.analyse codehash code = some (m, d') ∧ bitvec.codeBitmap code = some m ∧
      d'.Holds codeOf := by
  cases cached : d codehash with
  | some m =>
    exact ⟨m, d, by simp [analyse, cached], hashed ▸ holds codehash m cached, holds⟩
  | none =>
    obtain ⟨m, computed, -⟩ := bitvec.codeBitmap_bit code
    refine ⟨m, Function.update d codehash (some m), by simp [analyse, cached, computed], computed,
      fun h m' found => ?_⟩
    by_cases same : h = codehash
    · subst same
      rw [Function.update_self, Option.some.injEq] at found
      rw [hashed, ← found, computed]
    · rw [Function.update_of_ne same] at found
      exact holds h m' found

/-- With a cache that holds, `has` does not panic, answers as `has` of the interpreter, and
leaves a cache that holds. -/
theorem has_eq {d : destinations} {codeOf : Hash → Bytes} (holds : d.Holds codeOf)
    {codehash : Hash} {code : Bytes} (hashed : codeOf codehash = code) (dest : Int) :
    ∃ d', d.has codehash code dest = some (Evm.has code dest, d') ∧ d'.Holds codeOf := by
  by_cases outside : BitLen dest ≥ 63 ∨ Uint64 dest ≥ code.length
  · exact ⟨d, by simp only [has, if_pos outside, Evm.has], holds⟩
  · obtain ⟨m, d', analysed, computed, holds'⟩ := analyse_spec holds hashed
    refine ⟨d', ?_, holds'⟩
    have inside : Uint64 dest < code.length := by omega
    obtain ⟨bits, computed', length, same⟩ := bitvec.codeBitmap_bit code
    rw [computed, Option.some.injEq] at computed'
    subst computed'
    simp only [has, if_neg outside, Evm.has, analysed, Option.bind_eq_bind, Option.bind_some]
    split
    · next jumpdest =>
      rw [bitvec.codeSegment_eq (by omega), Option.bind_some, same, jumpdest, beq_self_eq_true,
        Bool.true_and]
    · next other =>
      rw [beq_false_of_ne other, Bool.false_and]

end destinations

/-- The JUMPDEST analysis: `codeBitmap` fills its buffer of `len(code)/8 + 1 + 4` bytes
without writing outside it, and below the length of the code `codeSegment` holds exactly at
the instruction starts of the linear decoding. For a code a Go process can hold (a slice is
below `maxAlloc`, `2^48` bytes on 64-bit platforms, so far below `2^62`) and a cache that holds
the bitmaps of the codes of its hashes, `has` does not panic, keeps the cache so, and finds a
destination exactly when it is below the length of the code, holds a `JUMPDEST`, and starts an
instruction. -/
theorem jumpdest_analysis_spec (code : Bytes) (platform : code.length ≤ 2 ^ 62)
    (codeOf : Hash → Bytes) (d : destinations) (holds : d.Holds codeOf) (codehash : Hash)
    (hashed : codeOf codehash = code) :
    (∃ bits, bitvec.codeBitmap code = some bits ∧ bits.length = code.length / 8 + 1 + 4 ∧
      ∀ p < code.length, ∃ segment, bitvec.codeSegment bits p = some segment ∧
        (segment = true ↔ IsInstrStart code p)) ∧
    ∀ dest : Nat, ∃ found d', d.has codehash code dest = some (found, d') ∧ d'.Holds codeOf ∧
      (found = true ↔ dest < code.length ∧ code.getD dest 0 = JUMPDEST ∧ IsInstrStart code dest) := by
  obtain ⟨bits, computed, length, -⟩ := bitvec.codeBitmap_bit code
  refine ⟨⟨bits, computed, length, fun p inside => bitvec.codeSegment_iff computed inside⟩,
    fun dest => ?_⟩
  obtain ⟨d', answered, holds'⟩ := destinations.has_eq holds hashed dest
  refine ⟨_, d', answered, holds', (has_iff code dest).trans ⟨fun found => found.2, ?_⟩⟩
  -- a destination below the length of such a code is below `2^62`
  rintro ⟨inside, rest⟩
  exact ⟨lt_of_lt_of_le inside platform, inside, rest⟩

theorem jumpdest_analysis_spec_push :
    [PUSH1, JUMPDEST, JUMPDEST].length ≤ 2 ^ 62 ∧
      destinations.Holds (fun _ => none) (fun _ => [PUSH1, JUMPDEST, JUMPDEST]) ∧
      (fun _ => [PUSH1, JUMPDEST, JUMPDEST] : Hash → Bytes) Hash.zero = [PUSH1, JUMPDEST, JUMPDEST] ∧
      ((∃ bits, bitvec.codeBitmap [PUSH1, JUMPDEST, JUMPDEST] = some bits ∧
          bits.length = 3 / 8 + 1 + 4 ∧
        ∀ p < 3, ∃ segment, bitvec.codeSegment bits p = some segment ∧
          (segment = true ↔ IsInstrStart [PUSH1, JUMPDEST, JUMPDEST] p)) ∧
      ∀ dest : Nat, ∃ found d',
        destinations.has (fun _ => none) Hash.zero [PUSH1, JUMPDEST, JUMPDEST] dest =
          some (found, d') ∧ d'.Holds (fun _ => [PUSH1, JUMPDEST, JUMPDEST]) ∧
        (found = true ↔ dest < 3 ∧ [PUSH1, JUMPDEST, JUMPDEST].getD dest 0 = JUMPDEST ∧
          IsInstrStart [PUSH1, JUMPDEST, JUMPDEST] dest)) :=
  ⟨by decide, destinations.holds_empty _, rfl,
    jumpdest_analysis_spec _ (by decide) _ _ (destinations.holds_empty _) Hash.zero rfl⟩

end Indigo.Evm
