import Indigo.Evm.OpCodes
import Indigo.Lib.Except

/-!
# The stack and its validation

`core/vm/stack.go` keeps the items bottom first in a slice; here the stack is the list of
its items with the top first, so that `Back n`, Go's `data[len-n-1]`, is the `n`-th
element. Every access below the bottom is a Go index panic. `stack_table.go` builds the
check each operation makes before it runs from the number of items it pops and pushes;
that closure is kept as the pair it is built from, with `validate` its body.

## Main results

- `validate_eq_none_iff`: an operation passes its check exactly when the stack holds the
  items it pops and its pushes keep the stack within `StackLimit`.
-/

namespace Indigo.Evm

/-- `params.StackLimit`. -/
def StackLimit : Nat := 1024

/-- `Stack`: the items, the top first. -/
abbrev Stack := List Int

namespace Stack

/-- `Stack.Back(n)`: the `n`-th item from the top. -/
def Back (st : Stack) (n : Nat) : Except Failure Int :=
  match st[n]? with
  | some x => pure x
  | none => throw (.panic .stack)

/-- `Stack.pop`. -/
def pop (st : Stack) : Except Failure (Int × Stack) :=
  match st with
  | x :: rest => pure (x, rest)
  | [] => throw (.panic .stack)

/-- `Stack.dup(n)`: push a copy of the `n`-th item, counting the top as the first. -/
def dup (st : Stack) (n : Nat) : Except Failure Stack :=
  if 0 < n then do
    let x ← st.Back (n - 1)
    pure (x :: st)
  else throw (.panic .stack)

/-- `Stack.swap(n)`: exchange the top with the `n`-th item, counting the top as the first. -/
def swap (st : Stack) (n : Nat) : Except Failure Stack :=
  if h : 0 < n ∧ n ≤ st.length then
    pure ((st.set 0 (st.get ⟨n - 1, by omega⟩)).set (n - 1) (st.get ⟨0, by omega⟩))
  else throw (.panic .stack)

/-- `Stack.require`. -/
def require (st : Stack) (n : Nat) : Option VmError :=
  if st.length < n then some (.stackUnderflow st.length n) else none

theorem Back_of_lt {st : Stack} {n : Nat} (lt : n < st.length) : st.Back n = .ok st[n] := by
  simp only [Back, List.getElem?_eq_getElem lt]
  rfl

/-- A read within the stack returns its item, whatever a failure would have to satisfy. -/
theorem Back_meets {st : Stack} {n : Nat} {fail : Failure → Prop} (lt : n < st.length) :
    Lib.Meets (· = st[n]) fail (st.Back n) := by
  rw [Back_of_lt lt]
  rfl

theorem Back_eq_ok {st : Stack} {n : Nat} {x : Int} (ok : st.Back n = .ok x) :
    ∃ lt : n < st.length, st[n] = x := by
  unfold Back at ok
  split at ok
  next found =>
    obtain ⟨lt, eq⟩ := List.getElem?_eq_some_iff.mp found
    cases ok
    exact ⟨lt, eq⟩
  next => cases ok

theorem dup_ok {st : Stack} {n : Nat} (pos : 0 < n) (lt : n - 1 < st.length) :
    st.dup n = .ok (st[n - 1] :: st) := by
  unfold dup
  rw [if_pos pos, Back_of_lt lt]
  rfl

theorem swap_ok {st : Stack} {n : Nat} (pos : 0 < n) (le : n ≤ st.length) :
    ∃ st', st.swap n = .ok st' := by
  unfold swap
  rw [dif_pos ⟨pos, le⟩]
  exact ⟨_, rfl⟩

theorem length_swap {st st' : Stack} {n : Nat} (ok : st.swap n = .ok st') :
    st'.length = st.length := by
  unfold swap at ok
  split at ok
  next => cases ok; simp
  next => cases ok

theorem swap_drop {st st' : Stack} {n : Nat} (ok : st.swap n = .ok st') :
    st'.drop n = st.drop n := by
  unfold swap at ok
  split at ok
  next bounds =>
    cases ok
    apply List.ext_getElem
    · simp
    · intro i h₁ h₂
      simp only [List.getElem_drop, List.getElem_set]
      rw [if_neg (by omega), if_neg (by omega)]
  next => cases ok

/-- `dup` fails only below the bottom of the stack. -/
theorem dup_error {st : Stack} {n : Nat} {e : Failure} (fails : st.dup n = .error e) :
    e = .panic .stack := by
  unfold dup at fails
  split at fails
  · rcases Lib.bind_eq_error.mp fails with back | ⟨_, _, pushed⟩
    · unfold Back at back
      split at back
      · cases back
      · cases back
        rfl
    · cases pushed
  · cases fails
    rfl

theorem swap_error {st : Stack} {n : Nat} {e : Failure} (fails : st.swap n = .error e) :
    e = .panic .stack := by
  unfold swap at fails
  split at fails
  · cases fails
  · cases fails
    rfl

/-- `dup` copies an item that is on the stack. -/
theorem mem_of_dup {st st' : Stack} {n : Nat} (ok : st.dup n = .ok st') {x : Int}
    (member : x ∈ st') : x ∈ st := by
  unfold dup at ok
  split at ok
  · obtain ⟨y, back, pushed⟩ := Lib.bind_eq_ok.mp ok
    cases pushed
    obtain ⟨lt, rfl⟩ := Back_eq_ok back
    rcases List.mem_cons.mp member with top | below
    · exact top ▸ List.getElem_mem lt
    · exact below
  · cases ok

/-- `swap` only exchanges items of the stack. -/
theorem mem_of_swap {st st' : Stack} {n : Nat} (ok : st.swap n = .ok st') {x : Int}
    (member : x ∈ st') : x ∈ st := by
  unfold swap at ok
  split at ok
  · cases ok
    rcases List.mem_or_eq_of_mem_set member with inner | second
    · rcases List.mem_or_eq_of_mem_set inner with kept | first
      · exact kept
      · exact first ▸ List.get_mem _ _
    · exact second ▸ List.get_mem _ _
  · cases ok

end Stack

/-! ### `stack_table.go` -/

/-- The check `makeStackFunc(pop, push)` builds, kept as its two numbers. -/
structure stackValidationFunc where
  pop : Nat
  push : Nat
deriving DecidableEq, Repr

def makeStackFunc (pop push : Nat) : stackValidationFunc := ⟨pop, push⟩

def makeDupStackFunc (n : Nat) : stackValidationFunc := makeStackFunc n (n + 1)

def makeSwapStackFunc (n : Nat) : stackValidationFunc := makeStackFunc n n

/-- The body of the closure: enough items to pop, and room for what is pushed. -/
def stackValidationFunc.validate (f : stackValidationFunc) (stack : Stack) : Option VmError :=
  match stack.require f.pop with
  | some err => some err
  | none =>
    if stack.length + f.push - f.pop > StackLimit then some (.stackLimit stack.length StackLimit)
    else none

theorem validate_eq_none_iff (f : stackValidationFunc) (stack : Stack) :
    f.validate stack = none ↔ f.pop ≤ stack.length ∧ stack.length + f.push - f.pop ≤ StackLimit := by
  unfold stackValidationFunc.validate Stack.require
  by_cases short : stack.length < f.pop
  · simp [short]
  · simp only [if_neg short]
    constructor
    · intro ok
      split at ok
      · cases ok
      · exact ⟨by omega, by omega⟩
    · intro ⟨_, room⟩
      rw [if_neg (by omega)]

end Indigo.Evm
