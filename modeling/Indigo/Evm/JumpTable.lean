import Indigo.Evm.Instructions

/-!
# The jump tables

`core/vm/jump_table.go`: the operation of each opcode of the Frontier instruction set, and
the Homestead and Byzantium sets built from it by adding `DELEGATECALL`, then
`STATICCALL`, `RETURNDATASIZE`, `RETURNDATACOPY` and `REVERT`. An operation names its
functions (`execute`, `gasCost`, `memorySize`, and `validateStack` by the numbers it is
built from), so that a table is data that can be inspected; the interpreter applies the
functions the names stand for. An opcode is valid in a table when the table has an entry
for it, which is what the `valid` flag of Go's array records; a later entry of a set
replaces the one it inherits for the same opcode.

The entries of `PUSH1`–`PUSH32`, `DUP1`–`DUP16`, `SWAP1`–`SWAP16` and `LOG0`–`LOG4` differ
only by their index and are written as one list each.
-/

namespace Indigo.Evm

/-- `operation`: what the interpreter needs to run an opcode. -/
structure operation where
  execute : executionFunc
  gasCost : gasFunc
  validateStack : stackValidationFunc
  memorySize : Option memorySizeFunc := none
  halts : Bool := false
  jumps : Bool := false
  writes : Bool := false
  reverts : Bool := false
  returns : Bool := false
deriving DecidableEq, Repr

/-- A jump table, by its valid opcodes. -/
abbrev JumpTable := List (OpCode × operation)

/-- The operation of `op`, if it is valid. -/
def JumpTable.get (table : JumpTable) (op : OpCode) : Option operation := List.lookup op table

theorem JumpTable.mem_of_get {table : JumpTable} {op : OpCode} {operation : operation}
    (found : table.get op = some operation) : (op, operation) ∈ table := by
  induction table with
  | nil => cases found
  | cons entry rest ih =>
    obtain ⟨op', operation'⟩ := entry
    unfold JumpTable.get at found ih
    simp only [List.lookup_cons] at found
    split at found
    · next same =>
      cases found
      rw [beq_iff_eq.mp same]
      exact List.mem_cons_self
    · exact List.mem_cons_of_mem _ (ih found)

/-- `PUSH1` to `PUSH32`. -/
def pushOperations : JumpTable :=
  (List.range 32).map fun i =>
    (PUSH (i + 1), { execute := .makePush (i + 1) (i + 1), gasCost := .gasPush,
                     validateStack := makeStackFunc 0 1 })

/-- `DUP1` to `DUP16`. -/
def dupOperations : JumpTable :=
  (List.range 16).map fun i =>
    (DUP (i + 1), { execute := .makeDup (i + 1), gasCost := .gasDup,
                    validateStack := makeDupStackFunc (i + 1) })

/-- `SWAP1` to `SWAP16`. -/
def swapOperations : JumpTable :=
  (List.range 16).map fun i =>
    (SWAP (i + 1), { execute := .makeSwap (i + 1), gasCost := .gasSwap,
                     validateStack := makeSwapStackFunc (i + 2) })

/-- `LOG0` to `LOG4`. -/
def logOperations : JumpTable :=
  (List.range 5).map fun n =>
    (LOG n, { execute := .makeLog n, gasCost := .makeGasLog n,
              validateStack := makeStackFunc (2 + n) 0, memorySize := some .memoryLog,
              writes := true })

/-- `NewFrontierInstructionSet`. -/
def NewFrontierInstructionSet : JumpTable :=
  [
    (STOP, { execute := .opStop, gasCost := .constGasFunc 0, validateStack := makeStackFunc 0 0,
             halts := true }),
    (ADD, { execute := .arith .ADD, gasCost := .constGasFunc GasFastestStep,
            validateStack := makeStackFunc 2 1 }),
    (MUL, { execute := .arith .MUL, gasCost := .constGasFunc GasFastStep,
            validateStack := makeStackFunc 2 1 }),
    (SUB, { execute := .arith .SUB, gasCost := .constGasFunc GasFastestStep,
            validateStack := makeStackFunc 2 1 }),
    (DIV, { execute := .arith .DIV, gasCost := .constGasFunc GasFastStep,
            validateStack := makeStackFunc 2 1 }),
    (SDIV, { execute := .arith .SDIV, gasCost := .constGasFunc GasFastStep,
             validateStack := makeStackFunc 2 1 }),
    (MOD, { execute := .arith .MOD, gasCost := .constGasFunc GasFastStep,
            validateStack := makeStackFunc 2 1 }),
    (SMOD, { execute := .arith .SMOD, gasCost := .constGasFunc GasFastStep,
             validateStack := makeStackFunc 2 1 }),
    (ADDMOD, { execute := .arith .ADDMOD, gasCost := .constGasFunc GasMidStep,
               validateStack := makeStackFunc 3 1 }),
    (MULMOD, { execute := .arith .MULMOD, gasCost := .constGasFunc GasMidStep,
               validateStack := makeStackFunc 3 1 }),
    (EXP, { execute := .arith .EXP, gasCost := .gasExp, validateStack := makeStackFunc 2 1 }),
    (SIGNEXTEND, { execute := .arith .SIGNEXTEND, gasCost := .constGasFunc GasFastStep,
                   validateStack := makeStackFunc 2 1 }),
    (LT, { execute := .arith .LT, gasCost := .constGasFunc GasFastestStep,
           validateStack := makeStackFunc 2 1 }),
    (GT, { execute := .arith .GT, gasCost := .constGasFunc GasFastestStep,
           validateStack := makeStackFunc 2 1 }),
    (SLT, { execute := .arith .SLT, gasCost := .constGasFunc GasFastestStep,
            validateStack := makeStackFunc 2 1 }),
    (SGT, { execute := .arith .SGT, gasCost := .constGasFunc GasFastestStep,
            validateStack := makeStackFunc 2 1 }),
    (EQ, { execute := .arith .EQ, gasCost := .constGasFunc GasFastestStep,
           validateStack := makeStackFunc 2 1 }),
    (ISZERO, { execute := .arith .ISZERO, gasCost := .constGasFunc GasFastestStep,
               validateStack := makeStackFunc 1 1 }),
    (AND, { execute := .arith .AND, gasCost := .constGasFunc GasFastestStep,
            validateStack := makeStackFunc 2 1 }),
    (XOR, { execute := .arith .XOR, gasCost := .constGasFunc GasFastestStep,
            validateStack := makeStackFunc 2 1 }),
    (OR, { execute := .arith .OR, gasCost := .constGasFunc GasFastestStep,
           validateStack := makeStackFunc 2 1 }),
    (NOT, { execute := .arith .NOT, gasCost := .constGasFunc GasFastestStep,
            validateStack := makeStackFunc 1 1 }),
    (BYTE, { execute := .arith .BYTE, gasCost := .constGasFunc GasFastestStep,
             validateStack := makeStackFunc 2 1 }),
    (SHA3, { execute := .opSha3, gasCost := .gasSha3, validateStack := makeStackFunc 2 1,
             memorySize := some .memorySha3 }),
    (ADDRESS, { execute := .opAddress, gasCost := .constGasFunc GasQuickStep,
                validateStack := makeStackFunc 0 1 }),
    (BALANCE, { execute := .opBalance, gasCost := .gasBalance,
                validateStack := makeStackFunc 1 1 }),
    (ORIGIN, { execute := .opOrigin, gasCost := .constGasFunc GasQuickStep,
               validateStack := makeStackFunc 0 1 }),
    (CALLER, { execute := .opCaller, gasCost := .constGasFunc GasQuickStep,
               validateStack := makeStackFunc 0 1 }),
    (CALLVALUE, { execute := .opCallValue, gasCost := .constGasFunc GasQuickStep,
                  validateStack := makeStackFunc 0 1 }),
    (CALLDATALOAD, { execute := .opCallDataLoad, gasCost := .constGasFunc GasFastestStep,
                     validateStack := makeStackFunc 1 1 }),
    (CALLDATASIZE, { execute := .opCallDataSize, gasCost := .constGasFunc GasQuickStep,
                     validateStack := makeStackFunc 0 1 }),
    (CALLDATACOPY, { execute := .opCallDataCopy, gasCost := .gasCallDataCopy,
                     validateStack := makeStackFunc 3 0, memorySize := some .memoryCallDataCopy }),
    (CODESIZE, { execute := .opCodeSize, gasCost := .constGasFunc GasQuickStep,
                 validateStack := makeStackFunc 0 1 }),
    (CODECOPY, { execute := .opCodeCopy, gasCost := .gasCodeCopy,
                 validateStack := makeStackFunc 3 0, memorySize := some .memoryCodeCopy }),
    (GASPRICE, { execute := .opGasprice, gasCost := .constGasFunc GasQuickStep,
                 validateStack := makeStackFunc 0 1 }),
    (EXTCODESIZE, { execute := .opExtCodeSize, gasCost := .gasExtCodeSize,
                    validateStack := makeStackFunc 1 1 }),
    (EXTCODECOPY, { execute := .opExtCodeCopy, gasCost := .gasExtCodeCopy,
                    validateStack := makeStackFunc 4 0, memorySize := some .memoryExtCodeCopy }),
    (BLOCKHASH, { execute := .opBlockhash, gasCost := .constGasFunc GasExtStep,
                  validateStack := makeStackFunc 1 1 }),
    (COINBASE, { execute := .opCoinbase, gasCost := .constGasFunc GasQuickStep,
                 validateStack := makeStackFunc 0 1 }),
    (TIMESTAMP, { execute := .opTimestamp, gasCost := .constGasFunc GasQuickStep,
                  validateStack := makeStackFunc 0 1 }),
    (NUMBER, { execute := .opNumber, gasCost := .constGasFunc GasQuickStep,
               validateStack := makeStackFunc 0 1 }),
    (DIFFICULTY, { execute := .opDifficulty, gasCost := .constGasFunc GasQuickStep,
                   validateStack := makeStackFunc 0 1 }),
    (GASLIMIT, { execute := .opGasLimit, gasCost := .constGasFunc GasQuickStep,
                 validateStack := makeStackFunc 0 1 }),
    (POP, { execute := .opPop, gasCost := .constGasFunc GasQuickStep,
            validateStack := makeStackFunc 1 0 }),
    (MLOAD, { execute := .opMload, gasCost := .gasMLoad, validateStack := makeStackFunc 1 1,
              memorySize := some .memoryMLoad }),
    (MSTORE, { execute := .opMstore, gasCost := .gasMStore, validateStack := makeStackFunc 2 0,
               memorySize := some .memoryMStore }),
    (MSTORE8, { execute := .opMstore8, gasCost := .gasMStore8, validateStack := makeStackFunc 2 0,
                memorySize := some .memoryMStore8 }),
    (SLOAD, { execute := .opSload, gasCost := .gasSLoad, validateStack := makeStackFunc 1 1 }),
    (SSTORE, { execute := .opSstore, gasCost := .gasSStore, validateStack := makeStackFunc 2 0,
               writes := true }),
    (JUMP, { execute := .opJump, gasCost := .constGasFunc GasMidStep,
             validateStack := makeStackFunc 1 0, jumps := true }),
    (JUMPI, { execute := .opJumpi, gasCost := .constGasFunc GasSlowStep,
              validateStack := makeStackFunc 2 0, jumps := true })
  ] ++ [
    (PC, { execute := .opPc, gasCost := .constGasFunc GasQuickStep,
           validateStack := makeStackFunc 0 1 }),
    (MSIZE, { execute := .opMsize, gasCost := .constGasFunc GasQuickStep,
              validateStack := makeStackFunc 0 1 }),
    (GAS, { execute := .opGas, gasCost := .constGasFunc GasQuickStep,
            validateStack := makeStackFunc 0 1 }),
    (JUMPDEST, { execute := .opJumpdest, gasCost := .constGasFunc JumpdestGas,
                 validateStack := makeStackFunc 0 0 })
  ] ++ pushOperations ++ dupOperations ++ swapOperations ++ logOperations ++ [
    (CREATE, { execute := .opCreate, gasCost := .gasCreate, validateStack := makeStackFunc 3 1,
               memorySize := some .memoryCreate, writes := true, returns := true }),
    (CALL, { execute := .opCall, gasCost := .gasCall, validateStack := makeStackFunc 7 1,
             memorySize := some .memoryCall, returns := true }),
    (CALLCODE, { execute := .opCallCode, gasCost := .gasCallCode,
                 validateStack := makeStackFunc 7 1, memorySize := some .memoryCall,
                 returns := true }),
    (RETURN, { execute := .opReturn, gasCost := .gasReturn, validateStack := makeStackFunc 2 0,
               memorySize := some .memoryReturn, halts := true }),
    (SELFDESTRUCT, { execute := .opSuicide, gasCost := .gasSuicide,
                     validateStack := makeStackFunc 1 0, halts := true, writes := true })
  ]

/-- `NewHomesteadInstructionSet`. -/
def NewHomesteadInstructionSet : JumpTable :=
  (DELEGATECALL, { execute := .opDelegateCall, gasCost := .gasDelegateCall,
                   validateStack := makeStackFunc 6 1, memorySize := some .memoryDelegateCall,
                   returns := true }) ::
  NewFrontierInstructionSet

/-- `NewByzantiumInstructionSet`. -/
def NewByzantiumInstructionSet : JumpTable :=
  [(STATICCALL, { execute := .opStaticCall, gasCost := .gasStaticCall,
                  validateStack := makeStackFunc 6 1, memorySize := some .memoryStaticCall,
                  returns := true }),
   (RETURNDATASIZE, { execute := .opReturnDataSize, gasCost := .constGasFunc GasQuickStep,
                      validateStack := makeStackFunc 0 1 }),
   (RETURNDATACOPY, { execute := .opReturnDataCopy, gasCost := .gasReturnDataCopy,
                      validateStack := makeStackFunc 3 0,
                      memorySize := some .memoryReturnDataCopy }),
   (REVERT, { execute := .opRevert, gasCost := .gasRevert, validateStack := makeStackFunc 2 0,
              memorySize := some .memoryRevert, reverts := true, returns := true })] ++
  NewHomesteadInstructionSet

/-- The interpreter's table, chosen by `NewInterpreter` from the forks in force. -/
def Env.jumpTable (env : Env) : JumpTable :=
  if env.chainRules.IsByzantium then NewByzantiumInstructionSet
  else if env.chainRules.IsHomestead then NewHomesteadInstructionSet
  else NewFrontierInstructionSet

end Indigo.Evm
