import Indigo.Evm.Common

/-!
# Opcodes and errors

`core/vm/opcodes.go` names the bytes of the instruction set; the families `PUSH1`–`PUSH32`,
`DUP1`–`DUP16`, `SWAP1`–`SWAP16` and `LOG0`–`LOG4` are consecutive bytes and are written
here as one function of the index each. `VmError` gathers the errors the interpreter and
the calls return (`errors.go`, the sentinels of `instructions.go` and `jump_table.go`, and
the formatted ones of the interpreter loop and the stack checks, with the values their
messages print).
-/

namespace Indigo.Evm

/-- `OpCode`: a byte of code. -/
abbrev OpCode := UInt8

/-! ### 0x0 range: arithmetic -/

def STOP : OpCode := 0x00
def ADD : OpCode := 0x01
def MUL : OpCode := 0x02
def SUB : OpCode := 0x03
def DIV : OpCode := 0x04
def SDIV : OpCode := 0x05
def MOD : OpCode := 0x06
def SMOD : OpCode := 0x07
def ADDMOD : OpCode := 0x08
def MULMOD : OpCode := 0x09
def EXP : OpCode := 0x0a
def SIGNEXTEND : OpCode := 0x0b

/-! ### 0x10 range: comparison and bitwise -/

def LT : OpCode := 0x10
def GT : OpCode := 0x11
def SLT : OpCode := 0x12
def SGT : OpCode := 0x13
def EQ : OpCode := 0x14
def ISZERO : OpCode := 0x15
def AND : OpCode := 0x16
def OR : OpCode := 0x17
def XOR : OpCode := 0x18
def NOT : OpCode := 0x19
def BYTE : OpCode := 0x1a
def SHA3 : OpCode := 0x20

/-! ### 0x30 range: closure state -/

def ADDRESS : OpCode := 0x30
def BALANCE : OpCode := 0x31
def ORIGIN : OpCode := 0x32
def CALLER : OpCode := 0x33
def CALLVALUE : OpCode := 0x34
def CALLDATALOAD : OpCode := 0x35
def CALLDATASIZE : OpCode := 0x36
def CALLDATACOPY : OpCode := 0x37
def CODESIZE : OpCode := 0x38
def CODECOPY : OpCode := 0x39
def GASPRICE : OpCode := 0x3a
def EXTCODESIZE : OpCode := 0x3b
def EXTCODECOPY : OpCode := 0x3c
def RETURNDATASIZE : OpCode := 0x3d
def RETURNDATACOPY : OpCode := 0x3e

/-! ### 0x40 range: block operations -/

def BLOCKHASH : OpCode := 0x40
def COINBASE : OpCode := 0x41
def TIMESTAMP : OpCode := 0x42
def NUMBER : OpCode := 0x43
def DIFFICULTY : OpCode := 0x44
def GASLIMIT : OpCode := 0x45

/-! ### 0x50 range: storage and execution -/

def POP : OpCode := 0x50
def MLOAD : OpCode := 0x51
def MSTORE : OpCode := 0x52
def MSTORE8 : OpCode := 0x53
def SLOAD : OpCode := 0x54
def SSTORE : OpCode := 0x55
def JUMP : OpCode := 0x56
def JUMPI : OpCode := 0x57
def PC : OpCode := 0x58
def MSIZE : OpCode := 0x59
def GAS : OpCode := 0x5a
def JUMPDEST : OpCode := 0x5b

/-! ### 0x60 to 0xa0: pushes, duplications, swaps and logs -/

/-- `PUSH1` to `PUSH32`: `PUSH n` for `n` from 1 to 32. -/
def PUSH (n : Nat) : OpCode := 0x5f + n.toUInt8

/-- `DUP1` to `DUP16`. -/
def DUP (n : Nat) : OpCode := 0x7f + n.toUInt8

/-- `SWAP1` to `SWAP16`. -/
def SWAP (n : Nat) : OpCode := 0x8f + n.toUInt8

/-- `LOG0` to `LOG4`. -/
def LOG (n : Nat) : OpCode := 0xa0 + n.toUInt8

def PUSH1 : OpCode := PUSH 1
def PUSH32 : OpCode := PUSH 32

/-! ### 0xf0 range: closures -/

def CREATE : OpCode := 0xf0
def CALL : OpCode := 0xf1
def CALLCODE : OpCode := 0xf2
def RETURN : OpCode := 0xf3
def DELEGATECALL : OpCode := 0xf4
def STATICCALL : OpCode := 0xfa
def REVERT : OpCode := 0xfd
def SELFDESTRUCT : OpCode := 0xff

/-! ### Errors -/

/-- The errors of the interpreter and of the calls into it. -/
inductive VmError where
  | ErrOutOfGas
  | ErrCodeStoreOutOfGas
  | ErrDepth
  | ErrInsufficientBalance
  | ErrContractAddressCollision
  | errGasUintOverflow
  | errWriteProtection
  | errReturnDataOutOfBounds
  | errExecutionReverted
  | errMaxCodeSizeExceeded
  /-- `invalid opcode 0x%x`. -/
  | invalidOpcode (op : OpCode)
  /-- `stack underflow (%d <=> %d)`: the length of the stack and the items required. -/
  | stackUnderflow (len required : Nat)
  /-- `stack limit reached %d (%d)`. -/
  | stackLimit (len limit : Nat)
  /-- `invalid jump destination (%v) %v`: the opcode at the destination and the destination. -/
  | invalidJump (nop : OpCode) (pos : Int)
  /-- The error a precompiled contract returns, by its text. -/
  | precompile (reason : String)
deriving DecidableEq, Repr

end Indigo.Evm
