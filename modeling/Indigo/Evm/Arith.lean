import Indigo.Evm.Word
import Indigo.Evm.YellowPaper

/-!
# Arithmetic, comparison and bitwise instructions

`core/vm/instructions.go`, `opAdd` to `opMulmod`: each instruction pops its operands as
`big.Int`s, computes on unbounded integers and pushes the result brought back to a word by
`U256`, with its own sign handling (`S256`, `Abs`, a sign put back by a multiplication)
where the instruction is signed. The stack is a list of integers, its top first; popping an
empty stack panics, which is `none`.

## Main results

- `arith_execute_eq_step`: on a stack of words, every one of the 22 instructions replaces
  its operands with exactly the Yellow Paper's result (`ArithOp.step`), and a stack that is
  too short makes both fail.

## Proof strategy

Most instructions pop two operands and push one result (`binaryOp`); for those the stack
part is proved once (`binaryOp_step`) and each instruction only contributes the equation of
its result on words (`opAdd_result` and its siblings). `SIGNEXTEND` pops its second operand
only when it extends, and has its own proof through the bits of the mask.
-/

namespace Indigo.Evm

open Indigo.Lib

/-! ### The shapes of the instructions -/

/-- An instruction that pops `x` and pushes `f x`. -/
def unaryOp (f : Int → Int) : List Int → Option (List Int)
  | x :: rest => some (f x :: rest)
  | [] => none

/-- An instruction that pops `x`, then `y`, and pushes `f x y`. -/
def binaryOp (f : Int → Int → Int) : List Int → Option (List Int)
  | x :: y :: rest => some (f x y :: rest)
  | _ => none

/-- An instruction that pops `x`, `y` and `z` and pushes `f x y z`. -/
def ternaryOp (f : Int → Int → Int → Int) : List Int → Option (List Int)
  | x :: y :: z :: rest => some (f x y z :: rest)
  | _ => none

/-! ### The instructions -/

def opAdd : List Int → Option (List Int) := binaryOp fun x y => U256 (x + y)

def opSub : List Int → Option (List Int) := binaryOp fun x y => U256 (x - y)

def opMul : List Int → Option (List Int) := binaryOp fun x y => U256 (x * y)

def opDiv : List Int → Option (List Int) :=
  binaryOp fun x y => if y ≠ 0 then U256 (x / y) else 0

/-- `opSdiv`: the quotient of the absolute values, negated when the product of the signed
operands is negative. -/
def opSdiv : List Int → Option (List Int) :=
  binaryOp fun x y =>
    let x := S256 x
    let y := S256 y
    if y = 0 then 0
    else
      let n : Int := if x * y < 0 then -1 else 1
      U256 (|x| / |y| * n)

def opMod : List Int → Option (List Int) :=
  binaryOp fun x y => if y = 0 then 0 else U256 (x % y)

/-- `opSmod`: the remainder of the absolute values, negated when the dividend is negative. -/
def opSmod : List Int → Option (List Int) :=
  binaryOp fun x y =>
    let x := S256 x
    let y := S256 y
    if y = 0 then 0
    else
      let n : Int := if x < 0 then -1 else 1
      U256 (|x| % |y| * n)

def opExp : List Int → Option (List Int) := binaryOp fun base exponent => Exp base exponent

/-- `opSignExtend`: with `back < 31`, pop `num` and copy its bit `8 back + 7` to all the bits
above it through the mask `1 << bit - 1`; otherwise `num` stays on the stack as it is. -/
def opSignExtend : List Int → Option (List Int)
  | back :: rest =>
    if back < 31 then
      match rest with
      | num :: rest =>
        let bit := back.toNat * 8 + 7
        let mask : Int := 2 ^ bit - 1
        let num := if num.testBit bit then Int.lor num (Int.lnot mask) else Int.land num mask
        some (U256 num :: rest)
      | [] => none
    else some rest
  | [] => none

def opNot : List Int → Option (List Int) := unaryOp fun x => U256 (Int.lnot x)

def opLt : List Int → Option (List Int) := binaryOp fun x y => if x < y then 1 else 0

def opGt : List Int → Option (List Int) := binaryOp fun x y => if x > y then 1 else 0

/-- `opSlt`: the second operand goes through `S256` twice. -/
def opSlt : List Int → Option (List Int) :=
  binaryOp fun x y =>
    let x := S256 x
    let y := S256 y
    if x < S256 y then 1 else 0

def opSgt : List Int → Option (List Int) :=
  binaryOp fun x y =>
    let x := S256 x
    let y := S256 y
    if x > y then 1 else 0

def opEq : List Int → Option (List Int) := binaryOp fun x y => if x = y then 1 else 0

def opIszero : List Int → Option (List Int) := unaryOp fun x => if x > 0 then 0 else 1

def opAnd : List Int → Option (List Int) := binaryOp Int.land

def opOr : List Int → Option (List Int) := binaryOp Int.lor

def opXor : List Int → Option (List Int) := binaryOp Int.xor

/-- `opByte`: the value under the index is replaced in place by the byte. -/
def opByte : List Int → Option (List Int) :=
  binaryOp fun th val => if th < 32 then ((Byte val 32 th.toNat).toNat : Int) else 0

def opAddmod : List Int → Option (List Int) :=
  ternaryOp fun x y z => if z > 0 then U256 ((x + y) % z) else 0

def opMulmod : List Int → Option (List Int) :=
  ternaryOp fun x y z => if z > 0 then U256 (x * y % z) else 0

/-- The `execute` function the jump table gives each instruction. -/
def ArithOp.execute : ArithOp → List Int → Option (List Int)
  | .ADD => opAdd
  | .MUL => opMul
  | .SUB => opSub
  | .DIV => opDiv
  | .SDIV => opSdiv
  | .MOD => opMod
  | .SMOD => opSmod
  | .ADDMOD => opAddmod
  | .MULMOD => opMulmod
  | .EXP => opExp
  | .SIGNEXTEND => opSignExtend
  | .LT => opLt
  | .GT => opGt
  | .SLT => opSlt
  | .SGT => opSgt
  | .EQ => opEq
  | .ISZERO => opIszero
  | .AND => opAnd
  | .OR => opOr
  | .XOR => opXor
  | .NOT => opNot
  | .BYTE => opByte

/-! ### The stack part, once for each shape -/

section Shapes

variable {op : ArithOp} (stack : List Nat)

-- the lemmas of this section compute `step` by `simp`
attribute [local simp] ArithOp.step

theorem unaryOp_step {f : Int → Int} (arity : op.arity = 1)
    (agree : ∀ a b c : Nat, a < 2 ^ 256 → f a = op.result a b c)
    (words : ∀ w ∈ stack, w < 2 ^ 256) :
    unaryOp f (stack.map (↑)) = (op.step stack).map (List.map (↑)) := by
  cases stack with
  | nil => simp [unaryOp, arity]
  | cons a rest =>
    have result := agree a ((rest.getD 0 0)) (rest.getD 1 0) (words a (by simp))
    simp [unaryOp, result, arity]

theorem binaryOp_step {f : Int → Int → Int} (arity : op.arity = 2)
    (agree : ∀ a b c : Nat, a < 2 ^ 256 → b < 2 ^ 256 → f a b = op.result a b c)
    (words : ∀ w ∈ stack, w < 2 ^ 256) :
    binaryOp f (stack.map (↑)) = (op.step stack).map (List.map (↑)) := by
  match stack, words with
  | [], _ => simp [binaryOp, arity]
  | [_], _ => simp [binaryOp, arity]
  | a :: b :: rest, words =>
    have result := agree a b (rest.getD 0 0) (words a (by simp)) (words b (by simp))
    simp [binaryOp, result, arity]

theorem ternaryOp_step {f : Int → Int → Int → Int} (arity : op.arity = 3)
    (agree : ∀ a b c : Nat, a < 2 ^ 256 → b < 2 ^ 256 → c < 2 ^ 256 → f a b c = op.result a b c)
    (words : ∀ w ∈ stack, w < 2 ^ 256) :
    ternaryOp f (stack.map (↑)) = (op.step stack).map (List.map (↑)) := by
  match stack, words with
  | [], _ => simp [ternaryOp, arity]
  | [_], _ => simp [ternaryOp, arity]
  | [_, _], _ => simp [ternaryOp, arity]
  | a :: b :: c :: rest, words =>
    have result := agree a b c (words a (by simp)) (words b (by simp)) (words c (by simp))
    simp [ternaryOp, result, arity]

end Shapes

/-! ### The result of each instruction on words -/

section Results

open ArithOp

variable (a b c : Nat)

-- the lemmas of this section compute `result` by `simp`
attribute [local simp] result

theorem add_result : U256 ((a : Int) + b) = ArithOp.ADD.result a b c := by
  rw [U256_eq, ← Nat.cast_add, toWord_natCast]; rfl

theorem mul_result : U256 ((a : Int) * b) = ArithOp.MUL.result a b c := by
  rw [U256_eq, ← Nat.cast_mul, toWord_natCast]; rfl

theorem sub_result : U256 ((a : Int) - b) = ArithOp.SUB.result a b c := by
  rw [U256_eq]; rfl

theorem div_result (lt : a < 2 ^ 256) :
    (if (b : Int) ≠ 0 then U256 ((a : Int) / b) else 0) = ArithOp.DIV.result a b c := by
  by_cases zero : b = 0
  · simp [zero]
  · have fits : a / b < 2 ^ 256 := Nat.lt_of_le_of_lt (Nat.div_le_self a b) lt
    rw [if_pos (by exact_mod_cast zero), ← Int.natCast_ediv, U256_of_lt fits]
    simp [zero]

theorem mod_result (lt : b < 2 ^ 256) :
    (if (b : Int) = 0 then 0 else U256 ((a : Int) % b)) = ArithOp.MOD.result a b c := by
  by_cases zero : b = 0
  · simp [zero]
  · have fits : a % b < 2 ^ 256 := Nat.lt_trans (Nat.mod_lt a (by omega)) lt
    rw [if_neg (by exact_mod_cast zero), ← Int.natCast_emod, U256_of_lt fits]
    simp [zero]

theorem addmod_result (lt : c < 2 ^ 256) :
    (if (c : Int) > 0 then U256 (((a : Int) + b) % c) else 0) = ArithOp.ADDMOD.result a b c := by
  by_cases zero : c = 0
  · simp [zero]
  · have fits : (a + b) % c < 2 ^ 256 := Nat.lt_trans (Nat.mod_lt _ (by omega)) lt
    rw [if_pos (by omega), ← Nat.cast_add, ← Int.natCast_emod, U256_of_lt fits]
    simp [zero]

theorem mulmod_result (lt : c < 2 ^ 256) :
    (if (c : Int) > 0 then U256 ((a : Int) * b % c) else 0) = ArithOp.MULMOD.result a b c := by
  by_cases zero : c = 0
  · simp [zero]
  · have fits : a * b % c < 2 ^ 256 := Nat.lt_trans (Nat.mod_lt _ (by omega)) lt
    rw [if_pos (by omega), ← Nat.cast_mul, ← Int.natCast_emod, U256_of_lt fits]
    simp [zero]

theorem exp_result : Exp a b = ArithOp.EXP.result a b c := Exp_eq a b

theorem lt_result : (if (a : Int) < b then (1 : Int) else 0) = (ArithOp.LT.result a b c : Int) := by
  by_cases less : a < b <;> simp [less]

theorem gt_result : (if (a : Int) > b then (1 : Int) else 0) = (ArithOp.GT.result a b c : Int) := by
  by_cases greater : a > b <;> simp [greater]

theorem eq_result : (if (a : Int) = b then (1 : Int) else 0) = (ArithOp.EQ.result a b c : Int) := by
  by_cases same : a = b <;> simp [same]

theorem iszero_result : (if (a : Int) > 0 then (0 : Int) else 1) = (ArithOp.ISZERO.result a b c : Int) := by
  by_cases zero : a = 0 <;> simp [zero, Nat.pos_of_ne_zero]

theorem and_result : Int.land a b = ArithOp.AND.result a b c := rfl

theorem or_result : Int.lor a b = ArithOp.OR.result a b c := rfl

theorem xor_result : Int.xor a b = ArithOp.XOR.result a b c := rfl

theorem not_result (lt : a < 2 ^ 256) : U256 (Int.lnot a) = ArithOp.NOT.result a b c := by
  -- `lnot a = -a - 1`, whose word is `2^256 - 1 - a`
  have lnot : Int.lnot a = -(a : Int) - 1 := by
    show Int.negSucc a = _
    rw [Int.negSucc_eq]; ring
  have flip : Int.lnot a ≡ ((2 ^ 256 - 1 - a : Nat) : Int) [ZMOD 2 ^ 256] := by
    rw [Int.modEq_iff_dvd, lnot, Nat.cast_sub (by omega), Nat.cast_sub Nat.one_le_two_pow]
    exact ⟨1, by push_cast; ring⟩
  rw [U256_eq, toWord_congr flip, toWord_of_lt (by omega)]
  rfl

theorem byte_result :
    (if (a : Int) < 32 then ((Byte b 32 (a : Int).toNat).toNat : Int) else 0) =
      ArithOp.BYTE.result a b c := by
  by_cases inside : a < 32
  · rw [if_pos (by exact_mod_cast inside), Int.toNat_natCast, Byte_eq b 32 a inside]
    simp [inside]
  · rw [if_neg (by exact_mod_cast inside)]
    simp [inside]

/-- `S256` leaves a signed reading as it is. -/
theorem S256_S256 (lt : b < 2 ^ 256) : S256 (S256 b) = S256 b := by
  have below := (toSigned_bounds (by norm_num) lt).2
  rw [S256_eq]
  exact if_pos (by rw [tt255]; exact below)

theorem slt_result (lt : b < 2 ^ 256) :
    (if S256 a < S256 (S256 b) then (1 : Int) else 0) = (ArithOp.SLT.result a b c : Int) := by
  rw [S256_S256 b lt, S256_eq, S256_eq]
  by_cases less : toSigned 256 a < toSigned 256 b <;> simp [less]

theorem sgt_result : (if S256 a > S256 b then (1 : Int) else 0) = (ArithOp.SGT.result a b c : Int) := by
  rw [S256_eq, S256_eq]
  by_cases greater : toSigned 256 a > toSigned 256 b <;> simp [greater]

theorem sdiv_result :
    (if S256 b = 0 then 0
      else U256 (|S256 a| / |S256 b| * (if S256 a * S256 b < 0 then -1 else 1))) =
      ArithOp.SDIV.result a b c := by
  rw [S256_eq, S256_eq, abs_ediv_abs_mul_sign]
  simp only [result]
  by_cases zero : toSigned 256 b = 0
  · simp [zero, toWord]
  · rw [if_neg zero, if_neg zero, U256_eq]
    by_cases special : toSigned 256 a = -2 ^ 255 ∧ toSigned 256 b = -1
    · -- `-2^255 ÷ -1` is `2^255`, whose word is that of `-2^255`
      rw [if_pos special, special.1, special.2]
      decide
    · rw [if_neg special]

theorem smod_result :
    (if S256 b = 0 then 0 else U256 (|S256 a| % |S256 b| * (if S256 a < 0 then -1 else 1))) =
      ArithOp.SMOD.result a b c := by
  rw [S256_eq, S256_eq, abs_emod_abs_mul_sign]
  simp only [result]
  by_cases zero : toSigned 256 b = 0
  · simp [zero, toWord]
  · rw [if_neg zero, if_neg zero, U256_eq]

end Results

/-! ### Sign extension -/

/-- `SIGNEXTEND` with both its operands on the stack. Go pops `num` only when it extends
it, which leaves the same stack as popping both and pushing `num` back. -/
theorem signExtend_step (stack : List Nat) (words : ∀ w ∈ stack, w < 2 ^ 256)
    (enough : 2 ≤ stack.length) :
    opSignExtend (stack.map (↑)) = (ArithOp.SIGNEXTEND.step stack).map (List.map (↑)) := by
  match stack, words, enough with
  | b :: x :: rest, words, _ =>
    have small : x < 2 ^ 256 := words x (by simp)
    simp only [opSignExtend, List.map_cons, ArithOp.step, ArithOp.arity, List.length_cons,
      ArithOp.result]
    by_cases extending : b < 31
    · -- the extension of bit `8 b + 7`
      have bits := extend_eq_toSigned x (b * 8 + 7)
      rw [show b * 8 + 7 + 1 = 8 * (b + 1) by ring] at bits
      simp [extending, bits, U256_eq, show ((b : Int) < 31) from by exact_mod_cast extending]
    · simp [extending, show ¬ ((b : Int) < 31) from by exact_mod_cast extending]

/-! ### All of them -/

/-- On a stack of words holding its operands, each instruction replaces them with the Yellow
Paper's result and leaves the rest of the stack as it was. -/
theorem arith_execute_eq_step (op : ArithOp) (stack : List Nat)
    (words : ∀ w ∈ stack, w < 2 ^ 256) (enough : op.arity ≤ stack.length) :
    op.execute (stack.map (↑)) = (op.step stack).map (List.map (↑)) := by
  cases op with
  | ADD => exact binaryOp_step stack rfl (fun a b c _ _ => add_result a b c) words
  | MUL => exact binaryOp_step stack rfl (fun a b c _ _ => mul_result a b c) words
  | SUB => exact binaryOp_step stack rfl (fun a b c _ _ => sub_result a b c) words
  | DIV => exact binaryOp_step stack rfl (fun a b c ha _ => div_result a b c ha) words
  | SDIV => exact binaryOp_step stack rfl (fun a b c _ _ => sdiv_result a b c) words
  | MOD => exact binaryOp_step stack rfl (fun a b c _ hb => mod_result a b c hb) words
  | SMOD => exact binaryOp_step stack rfl (fun a b c _ _ => smod_result a b c) words
  | ADDMOD => exact ternaryOp_step stack rfl (fun a b c _ _ hc => addmod_result a b c hc) words
  | MULMOD => exact ternaryOp_step stack rfl (fun a b c _ _ hc => mulmod_result a b c hc) words
  | EXP => exact binaryOp_step stack rfl (fun a b c _ _ => exp_result a b c) words
  | SIGNEXTEND => exact signExtend_step stack words enough
  | LT => exact binaryOp_step stack rfl (fun a b c _ _ => lt_result a b c) words
  | GT => exact binaryOp_step stack rfl (fun a b c _ _ => gt_result a b c) words
  | SLT => exact binaryOp_step stack rfl (fun a b c _ hb => slt_result a b c hb) words
  | SGT => exact binaryOp_step stack rfl (fun a b c _ _ => sgt_result a b c) words
  | EQ => exact binaryOp_step stack rfl (fun a b c _ _ => eq_result a b c) words
  | ISZERO => exact unaryOp_step stack rfl (fun a b c _ => iszero_result a b c) words
  | AND => exact binaryOp_step stack rfl (fun a b c _ _ => and_result a b c) words
  | OR => exact binaryOp_step stack rfl (fun a b c _ _ => or_result a b c) words
  | XOR => exact binaryOp_step stack rfl (fun a b c _ _ => xor_result a b c) words
  | NOT => exact unaryOp_step stack rfl (fun a b c ha => not_result a b c ha) words
  | BYTE => exact binaryOp_step stack rfl (fun a b c _ _ => byte_result a b c) words

/-- `-2^255 / -1`: the one quotient that does not fit, which the Yellow Paper and Go both
wrap to `-2^255`. -/
theorem arith_execute_eq_step_sdiv_overflow :
    (∀ w ∈ [2 ^ 255, 2 ^ 256 - 1], w < 2 ^ 256) ∧ ArithOp.SDIV.arity ≤ 2 ∧
      ArithOp.SDIV.execute ([2 ^ 255, 2 ^ 256 - 1].map (↑)) =
        (ArithOp.SDIV.step [2 ^ 255, 2 ^ 256 - 1]).map (List.map (↑)) :=
  ⟨by decide, by decide, arith_execute_eq_step .SDIV _ (by decide) (by decide)⟩

end Indigo.Evm
