import Indigo.Evm.Memory

/-!
# Contracts and jump destinations

`core/vm/contract.go`: the frame-independent part of an execution, with the code it runs,
its input, the value it was sent and the gas left. The caller is a `ContractRef`, an
account or a contract; `AsDelegate` asserts the second. The cache of analysed code that
contracts share is left out: `destinations.has` recomputes the bitmap of `analysis.go`
for the code at hand, which is what the cache holds for it.

## Main results

- `UseGas_eq_some`: `UseGas` succeeds exactly when enough gas is left, and takes it.
-/

namespace Indigo.Evm

/-- `Contract`, with `self` the address of the account it runs as. -/
structure Contract where
  CallerAddress : Address
  self : Address
  Code : Bytes
  CodeHash : Hash
  CodeAddr : Option Address
  Input : Bytes
  Gas : Nat
  value : Int
  DelegateCall : Bool

/-- `ContractRef`: an `AccountRef` or a running contract. -/
inductive ContractRef where
  | AccountRef (addr : Address)
  | contract (c : Contract)

/-- `ContractRef.Address`; a contract's is `Contract.Address`, its `self`. -/
def ContractRef.Address : ContractRef → Address
  | .AccountRef addr => addr
  | .contract c => c.self

/-- `NewContract`: a contract for `object` called by `caller`, with no code yet. -/
def NewContract (caller : ContractRef) (object : Address) (value : Int) (gas : Nat) : Contract where
  CallerAddress := caller.Address
  self := object
  Code := []
  CodeHash := Hash.zero
  CodeAddr := none
  Input := []
  Gas := gas
  value := value
  DelegateCall := false

namespace Contract

/-- `AsDelegate`: the caller's caller and value become this contract's; the caller must be a
contract (`c.caller.(*Contract)`). -/
def AsDelegate (c : Contract) (caller : ContractRef) : Except Failure Contract :=
  match caller with
  | .contract parent =>
    pure { c with DelegateCall := true, CallerAddress := parent.CallerAddress, value := parent.value }
  | .AccountRef _ => throw (.panic .typeAssertion)

/-- `GetByte`: the byte at `n`, and `STOP` past the end of the code. -/
def GetByte (c : Contract) (n : Nat) : UInt8 := c.Code.getD n 0

/-- `GetOp`. -/
def GetOp (c : Contract) (n : Nat) : OpCode := c.GetByte n

/-- `UseGas`: take `gas` when that much is left. -/
def UseGas (c : Contract) (gas : Nat) : Option Contract :=
  if c.Gas < gas then none else some { c with Gas := c.Gas - gas }

/-- `SetCallCode`. -/
def SetCallCode (c : Contract) (addr : Address) (hash : Hash) (code : Bytes) : Contract :=
  { c with Code := code, CodeHash := hash, CodeAddr := some addr }

theorem UseGas_eq_some {c c' : Contract} {gas : Nat} (ok : c.UseGas gas = some c') :
    gas ≤ c.Gas ∧ c' = { c with Gas := c.Gas - gas } := by
  unfold UseGas at ok
  split at ok
  · cases ok
  · cases ok
    exact ⟨by omega, rfl⟩

end Contract

/-! ### `analysis.go` -/

/-- `bitvec.set8`, `bitvec.set` and `codeSegment` on the bits of the positions: a set bit
marks push data. The loop of `codeBitmap`: a push instruction marks the bytes of its data,
any other byte is code. Every round moves `pc` forward, so `len(code)` rounds reach its end. -/
def bitmapLoop (code : Bytes) : (rounds pc : Nat) → (Nat → Bool) → (Nat → Bool)
  | 0, _, bits => bits
  | rounds + 1, pc, bits =>
    if pc < code.length then
      let op : OpCode := code.getD pc 0
      if PUSH1 ≤ op ∧ op ≤ PUSH32 then
        let numbits := (op - PUSH1).toNat + 1
        bitmapLoop code rounds (pc + 1 + numbits)
          fun i => bits i || (pc + 1 ≤ i ∧ i < pc + 1 + numbits)
      else bitmapLoop code rounds (pc + 1) bits
    else bits

/-- `codeBitmap`. -/
def codeBitmap (code : Bytes) : Nat → Bool := bitmapLoop code code.length 0 fun _ => false

/-- `destinations.has`: whether `dest` is a `JUMPDEST` of the code, not inside push data. -/
def has (code : Bytes) (dest : Int) : Bool :=
  let udest := Uint64 dest
  if BitLen dest ≥ 63 ∨ udest ≥ code.length then false
  else code.getD udest 0 == JUMPDEST && !codeBitmap code udest

end Indigo.Evm
