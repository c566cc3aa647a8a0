import Indigo.Lib.TwosComplement

/-!
# The Yellow Paper's arithmetic

What the arithmetic, comparison and bitwise instructions compute, as the Yellow Paper states
it in its appendix on the instruction set: words are natural numbers below `2^256`,
arithmetic is modulo `2^256`, the signed instructions work on the two's complement readings
of their operands, and a zero divisor or modulus gives zero. An instruction takes its
operands `μs[0]`, `μs[1]`, … from the top of the stack and pushes its result in their place;
a stack with too few items is an exceptional halt.

This is the specification the interpreter's instructions (`Evm/Arith.lean`) are proved
against.
-/

namespace Indigo.Evm

open Indigo.Lib

/-- The arithmetic, comparison and bitwise instructions. -/
inductive ArithOp where
  | ADD | MUL | SUB | DIV | SDIV | MOD | SMOD | ADDMOD | MULMOD | EXP | SIGNEXTEND
  | LT | GT | SLT | SGT | EQ | ISZERO | AND | OR | XOR | NOT | BYTE
deriving DecidableEq, Repr

namespace ArithOp

/-- The number of operands an instruction takes, `δ`. -/
def arity : ArithOp → Nat
  | ADDMOD | MULMOD => 3
  | ISZERO | NOT => 1
  | _ => 2

/-- The result of an instruction on its operands `μs[0]`, `μs[1]`, `μs[2]`. -/
def result : ArithOp → Nat → Nat → Nat → Nat
  | ADD, a, b, _ => (a + b) % 2 ^ 256
  | MUL, a, b, _ => a * b % 2 ^ 256
  | SUB, a, b, _ => toWord 256 (a - b)
  | DIV, a, b, _ => if b = 0 then 0 else a / b
  -- `sgn(μs[0] ÷ μs[1]) ⌊|μs[0] ÷ μs[1]|⌋`, and `-2^255` for `-2^255 ÷ -1`
  | SDIV, a, b, _ =>
    let a := toSigned 256 a
    let b := toSigned 256 b
    toWord 256 (if b = 0 then 0
      else if a = -2 ^ 255 ∧ b = -1 then -2 ^ 255
      else a.sign * b.sign * (a.natAbs / b.natAbs : Nat))
  | MOD, a, b, _ => if b = 0 then 0 else a % b
  -- `sgn(μs[0]) (|μs[0]| mod |μs[1]|)`
  | SMOD, a, b, _ =>
    let a := toSigned 256 a
    let b := toSigned 256 b
    toWord 256 (if b = 0 then 0 else a.sign * (a.natAbs % b.natAbs : Nat))
  -- without truncating the sum or the product
  | ADDMOD, a, b, n => if n = 0 then 0 else (a + b) % n
  | MULMOD, a, b, n => if n = 0 then 0 else a * b % n
  | EXP, a, b, _ => a ^ b % 2 ^ 256
  -- the low `b + 1` bytes of `x` as a signed number, when they do not fill the word
  | SIGNEXTEND, b, x, _ =>
    if b < 31 then toWord 256 (toSigned (8 * (b + 1)) (x % 2 ^ (8 * (b + 1)))) else x
  | LT, a, b, _ => if a < b then 1 else 0
  | GT, a, b, _ => if a > b then 1 else 0
  | SLT, a, b, _ => if toSigned 256 a < toSigned 256 b then 1 else 0
  | SGT, a, b, _ => if toSigned 256 a > toSigned 256 b then 1 else 0
  | EQ, a, b, _ => if a = b then 1 else 0
  | ISZERO, a, _, _ => if a = 0 then 1 else 0
  | AND, a, b, _ => a &&& b
  | OR, a, b, _ => a ||| b
  | XOR, a, b, _ => a ^^^ b
  | NOT, a, _, _ => 2 ^ 256 - 1 - a
  -- byte `i` of `x`, the most significant byte first
  | BYTE, i, x, _ => if i < 32 then x / 2 ^ (8 * (31 - i)) % 256 else 0

/-- An instruction on a stack, its top first: the operands are replaced by the result. -/
def step (op : ArithOp) (stack : List Nat) : Option (List Nat) :=
  if stack.length < op.arity then none
  else some (op.result (stack.getD 0 0) (stack.getD 1 0) (stack.getD 2 0) :: stack.drop op.arity)

end ArithOp

end Indigo.Evm
