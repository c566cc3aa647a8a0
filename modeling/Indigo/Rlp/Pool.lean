import Indigo.Rlp.Decode

/-!
# The stream pool

`rlp/decode.go` keeps its decoding streams in a `sync.Pool`. `NewStream` takes a stream
from the pool, or allocates one when the pool offers none, and `Reset`s it for its reader;
`Discard` puts it back. A caller holds the stream in a `*Stream` variable, which still
points to the stream after `Discard`, when the pool may hand it to any other goroutine.

The model is a heap of streams shared by goroutines. A goroutine is the list of calls it
makes on its stream variable, with the results of its stream operations so far. A schedule
says which goroutine makes its next call and, for a `NewStream`, which pooled stream `Get`
returns. In the reference semantics every `NewStream` allocates a stream of its own.

## Main results

- `pooled_run_isolated`: goroutines that use their stream only between a `NewStream` and
  its `Discard` get, in every interleaving, the results they get with streams of their own.
- `recordDecode_reads_foreign_input`: `Record.DecodeRLP` (`p2p/enr`) discards its stream
  right after `NewStream` and then reads from it. Interleaved with the whisper handler of
  `powRequirementCode`, which gets the same stream from the pool, both read each other's
  input.

## Proof strategy

A simulation between the pooled and the reference system (`Owns`): a goroutine that holds
a stream owns it (no other holder, not in the pool, already allocated), and the owned stream
is the goroutine's own one in the reference. Each call keeps this (`Owns.step`), so by
induction on the schedule both systems take the same steps and record the same results.
-/

namespace Indigo.Rlp

/-! ### Goroutines and the pool -/

/-- One call a goroutine makes on its stream variable `s`. -/
inductive Call (α : Type) where
  /-- `s = NewStream(bytes.NewReader(b), inputLimit)`. -/
  | newStream (b : Bytes) (inputLimit : Nat)
  /-- `Discard(s)`. -/
  | discard
  /-- A stream operation on `s`, such as `s.List()` or `s.Decode(&v)`. -/
  | read (op : StreamM α)

/-- `streamPool.Get()` with `New` behind it: the pooled stream at `pick` if the pool offers
it, or else a new stream at the next free address. Returns the address, the pool and the
next free address. -/
def poolGet (pool : List Nat) (next : Nat) (pick : Option Nat) : Nat × List Nat × Nat :=
  match pick with
  | some a => if a ∈ pool then (a, pool.erase a, next) else (next, pool, next + 1)
  | none => (next, pool, next + 1)

/-- A goroutine of the pooled system. -/
structure Goroutine (α : Type) where
  calls : List (Call α)
  /-- The `*Stream` variable: an address of the heap, or nil. -/
  s : Option Nat
  results : List (Except Error α)

/-- Goroutines sharing a heap of streams and the pool. -/
structure Pooled (α : Type) where
  heap : Nat → Stream
  pool : List Nat
  /-- The addresses below `next` have been allocated. -/
  next : Nat
  goroutines : Nat → Goroutine α

variable {α : Type}

/-- Goroutine `g` makes its next call; `pick` is what `Get` returns if the call is a
`NewStream`. `Discard(nil)` and operations on a nil stream are left out (no caller makes
them; the latter panics). -/
def Pooled.step (sys : Pooled α) (g : Nat) (pick : Option Nat) : Option (Pooled α) :=
  let gr := sys.goroutines g
  match gr.calls with
  | [] => none
  | .newStream b inputLimit :: rest =>
    let (a, pool, next) := poolGet sys.pool sys.next pick
    -- `Reset` sets every field, so the stream's old state does not matter
    some { heap := Function.update sys.heap a (NewStream b inputLimit), pool, next,
           goroutines := Function.update sys.goroutines g { gr with calls := rest, s := some a } }
  | .discard :: rest => gr.s.map fun a =>
    { sys with pool := a :: sys.pool,
               goroutines := Function.update sys.goroutines g { gr with calls := rest } }
  | .read op :: rest => do
    let a ← gr.s
    let (r, st) ← op.go (sys.heap a)
    pure { sys with heap := Function.update sys.heap a st,
                    goroutines := Function.update sys.goroutines g
                      { gr with calls := rest, results := gr.results ++ [r] } }

/-- A run along a schedule of goroutines and `Get` choices. -/
def Pooled.run (sys : Pooled α) : List (Nat × Option Nat) → Option (Pooled α)
  | [] => some sys
  | (g, pick) :: sched => (sys.step g pick).bind (·.run sched)

/-- Goroutine `g` runs the calls `progs[g]`; the content of a stream before its first
`Reset` is never read. -/
def Pooled.init (progs : List (List (Call α))) : Pooled α :=
  { heap := fun _ => NewStream [] 0, pool := [], next := 0,
    goroutines := fun g => { calls := progs.getD g [], s := none, results := [] } }

/-- The results of every goroutine. -/
def Pooled.results (sys : Pooled α) (g : Nat) : List (Except Error α) :=
  (sys.goroutines g).results

/-! ### The reference: a stream of one's own -/

/-- A goroutine whose every `NewStream` allocates a stream of its own. -/
structure Own (α : Type) where
  calls : List (Call α)
  stream : Option Stream
  results : List (Except Error α)

/-- The next call of a goroutine with its own streams. -/
def Own.step (gr : Own α) : Option (Own α) :=
  match gr.calls with
  | [] => none
  | .newStream b inputLimit :: rest =>
    some { gr with calls := rest, stream := some (NewStream b inputLimit) }
  | .discard :: rest => gr.stream.map fun _ => { gr with calls := rest }
  | .read op :: rest => do
    let st ← gr.stream
    let (r, st') ← op.go st
    pure { calls := rest, stream := some st', results := gr.results ++ [r] }

/-- Goroutines with their own streams, along a schedule of goroutines. -/
def Own.run (gs : Nat → Own α) : List Nat → Option (Nat → Own α)
  | [] => some gs
  | g :: sched => (gs g).step.bind fun gr => Own.run (Function.update gs g gr) sched

/-- Goroutine `g` runs the calls `progs[g]`. -/
def Own.init (progs : List (List (Call α))) (g : Nat) : Own α :=
  { calls := progs.getD g [], stream := none, results := [] }

/-- The results of every goroutine. -/
def Own.resultsOf (gs : Nat → Own α) (g : Nat) : List (Except Error α) := (gs g).results

/-! ### Callers that own their stream -/

/-- A goroutine uses its stream only between a `NewStream` and the `Discard` of that
stream, and discards it once. `holds` says whether it holds a stream it has not discarded. -/
def disciplined : Bool → List (Call α) → Bool
  | _, [] => true
  | _, .newStream _ _ :: rest => disciplined true rest
  | holds, .discard :: rest => holds && disciplined false rest
  | holds, .read _ :: rest => holds && disciplined holds rest

/-- `DecodeBytes`, `Msg.Decode`, the eth handlers and the tx journal: `NewStream`, reads,
then a deferred `Discard`. -/
theorem disciplined_deferred (b : Bytes) (inputLimit : Nat) (ops : List (StreamM α)) :
    disciplined false (.newStream b inputLimit :: ops.map .read ++ [.discard]) = true := by
  simp only [List.cons_append, disciplined]
  induction ops with
  | nil => rfl
  | cons op ops ih => simpa [disciplined] using ih

/-- The simulation: under `holds`, each goroutine that holds a stream owns it, and it is
the goroutine's own stream in the reference. -/
structure Owns (sys : Pooled α) (gs : Nat → Own α) (holds : Nat → Bool) : Prop where
  calls : ∀ g, (sys.goroutines g).calls = (gs g).calls
  results : ∀ g, (sys.goroutines g).results = (gs g).results
  obeys : ∀ g, disciplined (holds g) (gs g).calls = true
  held : ∀ g, holds g = true → ∃ a, (sys.goroutines g).s = some a ∧
    (gs g).stream = some (sys.heap a) ∧ a ∉ sys.pool ∧ a < sys.next
  exclusive : ∀ g g' a, g ≠ g' → holds g = true → holds g' = true →
    (sys.goroutines g).s = some a → (sys.goroutines g').s ≠ some a
  pooled : ∀ a ∈ sys.pool, a < sys.next
  nodup : sys.pool.Nodup

/-- The pooled and the reference system are related. -/
def Sim (sys : Pooled α) (gs : Nat → Own α) : Prop := ∃ holds, Owns sys gs holds

/-! ### One call -/

/-- What `Get` returns is not pooled any more and is allocated, and it is no address that
is neither pooled nor allocated before. -/
theorem poolGet_spec {pool : List Nat} {next : Nat} (pick : Option Nat) (nodup : pool.Nodup)
    (pooled : ∀ a ∈ pool, a < next) :
    let (a, pool', next') := poolGet pool next pick
    a ∉ pool' ∧ a < next' ∧ pool'.Nodup ∧ (∀ b ∈ pool', b ∈ pool) ∧ next ≤ next' ∧
      (∀ b, b < next → b ∉ pool → b ≠ a) := by
  cases pick with
  | none =>
    refine ⟨fun mem => by simpa using pooled _ mem, by simp, nodup, fun _ => id, by simp, ?_⟩
    intro b lt _
    omega
  | some a =>
    by_cases mem : a ∈ pool
    · simp only [poolGet, if_pos mem]
      refine ⟨(List.Nodup.mem_erase_iff nodup).not.mpr (by simp), pooled a mem,
        nodup.erase a, fun b h => List.mem_of_mem_erase h, le_refl _, ?_⟩
      rintro b - notMem rfl
      exact notMem mem
    · simp only [poolGet, if_neg mem]
      refine ⟨fun mem' => by simpa using pooled _ mem', by simp, nodup, fun _ => id, by simp, ?_⟩
      intro b lt _
      omega

section Step

variable {sys : Pooled α} {gs : Nat → Own α} {holds : Nat → Bool}

/-- `Owns` after a call of goroutine `g`: the goroutine is related to its reference, and
the streams the other goroutines hold are kept as they were. -/
theorem Owns.update (sim : Owns sys gs holds) {g : Nat} {gr : Goroutine α} {own : Own α}
    {h : Bool} {heap : Nat → Stream} {pool : List Nat} {next : Nat}
    (calls : gr.calls = own.calls) (results : gr.results = own.results)
    (obeys : disciplined h own.calls = true)
    (held : h = true → ∃ a, gr.s = some a ∧ own.stream = some (heap a) ∧ a ∉ pool ∧ a < next ∧
      ∀ g', g' ≠ g → holds g' = true → (sys.goroutines g').s ≠ some a)
    (frame : ∀ g', g' ≠ g → holds g' = true → ∀ a, (sys.goroutines g').s = some a →
      heap a = sys.heap a ∧ a ∉ pool ∧ a < next)
    (pooled : ∀ a ∈ pool, a < next) (nodup : pool.Nodup) :
    Owns { heap, pool, next, goroutines := Function.update sys.goroutines g gr }
      (Function.update gs g own) (Function.update holds g h) := by
  constructor
  · intro g'
    by_cases e : g' = g
    · subst e; simpa using calls
    · simpa [Function.update_of_ne e] using sim.calls g'
  · intro g'
    by_cases e : g' = g
    · subst e; simpa using results
    · simpa [Function.update_of_ne e] using sim.results g'
  · intro g'
    by_cases e : g' = g
    · subst e; simpa using obeys
    · simpa [Function.update_of_ne e] using sim.obeys g'
  · intro g' held'
    by_cases e : g' = g
    · subst e
      obtain ⟨a, s, stream, notPooled, lt, -⟩ := held (by simpa using held')
      exact ⟨a, by simpa using s, by simpa using stream, notPooled, lt⟩
    · simp only [Function.update_of_ne e] at held' ⊢
      obtain ⟨a, s, stream, -, -⟩ := sim.held g' held'
      obtain ⟨same, notPooled, lt⟩ := frame g' e held' a s
      exact ⟨a, s, by rw [stream, same], notPooled, lt⟩
  · intro g₁ g₂ a ne held₁ held₂ s₁ s₂
    by_cases e₁ : g₁ = g
    · subst e₁
      have e₂ : g₂ ≠ g₁ := Ne.symm ne
      simp only [Function.update_of_ne e₂, Function.update_self] at held₁ held₂ s₁ s₂
      obtain ⟨a', s', -, -, -, others⟩ := held held₁
      rw [s'] at s₁
      cases s₁
      exact others g₂ e₂ held₂ s₂
    · by_cases e₂ : g₂ = g
      · subst e₂
        simp only [Function.update_of_ne e₁, Function.update_self] at held₁ held₂ s₁ s₂
        obtain ⟨a', s', -, -, -, others⟩ := held held₂
        rw [s'] at s₂
        cases s₂
        exact others g₁ e₁ held₁ s₁
      · simp only [Function.update_of_ne e₁, Function.update_of_ne e₂] at held₁ held₂ s₁ s₂
        exact sim.exclusive g₁ g₂ a ne held₁ held₂ s₁ s₂
  · exact pooled
  · exact nodup

/-- What a goroutine holds is its own stream, neither pooled nor held by another goroutine. -/
theorem Owns.owned (sim : Owns sys gs holds) {g a : Nat} (held : holds g = true)
    (s : (sys.goroutines g).s = some a) :
    (gs g).stream = some (sys.heap a) ∧ a ∉ sys.pool ∧ a < sys.next ∧
      ∀ g', g' ≠ g → holds g' = true → (sys.goroutines g').s ≠ some a := by
  obtain ⟨a', s', stream, notPooled, lt⟩ := sim.held g held
  rw [s] at s'
  cases s'
  exact ⟨stream, notPooled, lt, fun g' ne held' => sim.exclusive g g' a (Ne.symm ne) held held' s⟩

/-- `NewStream`: the goroutine now owns what `Get` returned. -/
theorem Owns.newStream (sim : Owns sys gs holds) {g : Nat} {b : Bytes} {inputLimit : Nat}
    {rest : List (Call α)} (pick : Option Nat)
    (calls : (gs g).calls = .newStream b inputLimit :: rest) :
    ∃ sys' gr, sys.step g pick = some sys' ∧ (gs g).step = some gr ∧
      Owns sys' (Function.update gs g gr) (Function.update holds g true) := by
  obtain ⟨fresh, alloc, nodup, sub, grows, distinct⟩ := poolGet_spec pick sim.nodup sim.pooled
  have callsSys : (sys.goroutines g).calls = .newStream b inputLimit :: rest :=
    (sim.calls g).trans calls
  refine ⟨_, _, by simp only [Pooled.step, callsSys]; rfl, by simp only [Own.step, calls]; rfl, ?_⟩
  set a := (poolGet sys.pool sys.next pick).1
  have obeys := sim.obeys g
  rw [calls, disciplined] at obeys
  refine sim.update rfl (sim.results g) obeys ?_ ?_ ?_ nodup
  · intro _
    refine ⟨a, rfl, by simp [a], fresh, alloc, ?_⟩
    -- another holder's stream is neither pooled nor new, so `Get` did not return it
    intro g' _ held' s'
    obtain ⟨-, notPooled, lt, -⟩ := sim.owned held' s'
    exact distinct a lt notPooled rfl
  · intro g' _ held' a' s'
    obtain ⟨-, notPooled, lt, -⟩ := sim.owned held' s'
    exact ⟨Function.update_of_ne (distinct a' lt notPooled) _ _,
      fun mem => notPooled (sub a' mem), Nat.lt_of_lt_of_le lt grows⟩
  · intro a' mem
    exact Nat.lt_of_lt_of_le (sim.pooled a' (sub a' mem)) grows

/-- `Discard`: the goroutine gives its stream back to the pool. -/
theorem Owns.discard (sim : Owns sys gs holds) {g : Nat} {rest : List (Call α)}
    (pick : Option Nat) (calls : (gs g).calls = .discard :: rest) :
    ∃ sys' gr, sys.step g pick = some sys' ∧ (gs g).step = some gr ∧
      Owns sys' (Function.update gs g gr) (Function.update holds g false) := by
  have obeys := sim.obeys g
  rw [calls, disciplined, Bool.and_eq_true] at obeys
  obtain ⟨held, obeys⟩ := obeys
  obtain ⟨a, s, -⟩ := sim.held g held
  obtain ⟨stream, notPooled, lt, others⟩ := sim.owned held s
  have callsSys : (sys.goroutines g).calls = .discard :: rest := (sim.calls g).trans calls
  refine ⟨_, _, by simp only [Pooled.step, callsSys, s]; rfl,
    by simp only [Own.step, calls, stream]; rfl, ?_⟩
  refine sim.update rfl (sim.results g) obeys nofun ?_ ?_
    (List.nodup_cons.mpr ⟨notPooled, sim.nodup⟩)
  · -- the pool gets `a` back, which no other goroutine holds
    intro g' ne held' a' s'
    obtain ⟨-, notPooled', lt', -⟩ := sim.owned held' s'
    have ne' : a' ≠ a := by
      rintro rfl
      exact others g' ne held' s'
    exact ⟨rfl, by simp [ne', notPooled'], lt'⟩
  · intro a' mem
    rcases List.mem_cons.mp mem with rfl | mem
    · exact lt
    · exact sim.pooled a' mem

/-- A stream operation: both systems run it on the same stream, and get stuck together. -/
theorem Owns.read (sim : Owns sys gs holds) {g : Nat} {op : StreamM α} {rest : List (Call α)}
    (pick : Option Nat) (calls : (gs g).calls = .read op :: rest) :
    (∃ sys' gr, sys.step g pick = some sys' ∧ (gs g).step = some gr ∧
      Owns sys' (Function.update gs g gr) (Function.update holds g true)) ∨
    (sys.step g pick = none ∧ (gs g).step = none) := by
  have obeys := sim.obeys g
  rw [calls, disciplined, Bool.and_eq_true] at obeys
  obtain ⟨held, obeys⟩ := obeys
  rw [held] at obeys
  obtain ⟨a, s, -⟩ := sim.held g held
  obtain ⟨stream, notPooled, lt, others⟩ := sim.owned held s
  have callsSys : (sys.goroutines g).calls = .read op :: rest := (sim.calls g).trans calls
  rcases go : op.go (sys.heap a) with _ | ⟨r, st⟩
  · exact .inr ⟨by simp [Pooled.step, callsSys, s, go], by simp [Own.step, calls, stream, go]⟩
  · refine .inl ⟨_, _, by simp [Pooled.step, callsSys, s, go]; rfl,
      by simp [Own.step, calls, stream, go]; rfl, ?_⟩
    refine sim.update rfl (by simp [sim.results g]) obeys ?_ ?_ sim.pooled sim.nodup
    · intro _
      exact ⟨a, rfl, by simp, notPooled, lt, others⟩
    · -- the operation wrote only to `a`, which no other goroutine holds
      intro g' ne held' a' s'
      obtain ⟨-, notPooled', lt', -⟩ := sim.owned held' s'
      have ne' : a' ≠ a := by
        rintro rfl
        exact others g' ne held' s'
      exact ⟨Function.update_of_ne ne' _ _, notPooled', lt'⟩

end Step

/-! ### Runs -/

/-- One call keeps the simulation, or gets stuck in both systems. -/
theorem Sim.step {sys : Pooled α} {gs : Nat → Own α} (sim : Sim sys gs) (g : Nat)
    (pick : Option Nat) :
    (∃ sys' gr, sys.step g pick = some sys' ∧ (gs g).step = some gr ∧
      Sim sys' (Function.update gs g gr)) ∨
    (sys.step g pick = none ∧ (gs g).step = none) := by
  obtain ⟨holds, sim⟩ := sim
  cases calls : (gs g).calls with
  | nil =>
    have callsSys : (sys.goroutines g).calls = [] := (sim.calls g).trans calls
    exact .inr ⟨by simp [Pooled.step, callsSys], by simp [Own.step, calls]⟩
  | cons call rest =>
    cases call with
    | newStream b inputLimit =>
      obtain ⟨sys', gr, stepSys, stepOwn, sim'⟩ := sim.newStream pick calls
      exact .inl ⟨sys', gr, stepSys, stepOwn, _, sim'⟩
    | discard =>
      obtain ⟨sys', gr, stepSys, stepOwn, sim'⟩ := sim.discard pick calls
      exact .inl ⟨sys', gr, stepSys, stepOwn, _, sim'⟩
    | read op =>
      rcases sim.read pick calls with ⟨sys', gr, stepSys, stepOwn, sim'⟩ | stuck
      · exact .inl ⟨sys', gr, stepSys, stepOwn, _, sim'⟩
      · exact .inr stuck

/-- Related systems give the same results along every schedule. -/
theorem Sim.run {sys : Pooled α} {gs : Nat → Own α} (sim : Sim sys gs) :
    ∀ sched : List (Nat × Option Nat),
      (sys.run sched).map Pooled.results = (Own.run gs (sched.map Prod.fst)).map Own.resultsOf
  | [] => by
    obtain ⟨_, sim⟩ := sim
    simp only [Pooled.run, List.map_nil, Own.run, Option.map_some, Option.some.injEq]
    funext g
    exact sim.results g
  | (g, pick) :: sched => by
    rcases sim.step g pick with ⟨sys', gr, stepSys, stepOwn, sim'⟩ | ⟨stepSys, stepOwn⟩
    · simp [Pooled.run, Own.run, stepSys, stepOwn, sim'.run sched]
    · simp [Pooled.run, Own.run, stepSys, stepOwn]

/-- Goroutines that use their stream only between its `NewStream` and its `Discard` get,
in every interleaving and whatever the pool returns, the results they get with streams
of their own. -/
theorem pooled_run_isolated (progs : List (List (Call α)))
    (obeys : ∀ calls ∈ progs, disciplined false calls = true)
    (sched : List (Nat × Option Nat)) :
    ((Pooled.init progs).run sched).map Pooled.results =
      (Own.run (Own.init progs) (sched.map Prod.fst)).map Own.resultsOf := by
  refine Sim.run ⟨fun _ => false, ?_⟩ sched
  constructor
  · intro g; rfl
  · intro g; rfl
  · intro g
    -- a goroutine beyond the list has no calls
    show disciplined false (progs.getD g []) = true
    rw [List.getD_eq_getElem?_getD]
    cases e : progs[g]? with
    | none => rfl
    | some calls => exact obeys calls (List.mem_of_getElem? e)
  · intro g held; cases held
  · intro g g' a _ held; cases held
  · intro a mem; cases mem
  · exact List.nodup_nil

/-! ### The callers -/

/-- `DecodeBytes(b, &v)` for a `v` of type `t`: `NewStream`, `s.Decode(val)` followed by the
check that the reader is empty, and the deferred `Discard`. -/
def decodeBytesCalls (fuel : Nat) (t : Ty) (b : Bytes) : List (Call Value) :=
  [.newStream b b.length,
   .read do
     let v ← makeDecoder fuel t
     if (← get).r.length > 0 then throw .ErrMoreThanOneValue
     pure v,
   .discard]

/-- Alone, the calls of `DecodeBytes` return what `DecodeBytes` returns. -/
theorem decodeBytesCalls_run (fuel : Nat) (t : Ty) (b : Bytes) :
    (Own.run (Own.init [decodeBytesCalls fuel t b]) [0, 0, 0]).map (Own.resultsOf · 0) =
      (DecodeBytes fuel t b).map ([·]) := by
  -- the decoder's outcome decides both runs: out of fuel, an error, or a value
  rcases go : (makeDecoder fuel t).go (NewStream b b.length) with _ | ⟨_ | v, st⟩
  all_goals simp [Own.run, Own.init, Own.step, decodeBytesCalls, DecodeBytes, go_bind, go,
    Own.resultsOf]
  -- a value: the check for trailing input
  split_ifs <;> rfl

/-- Two `DecodeBytes` calls. -/
def twoDecodes : List (List (Call Value)) :=
  [decodeBytesCalls 1 (.uint 64) [0x05], decodeBytesCalls 1 (.uint 64) [0x06]]

/-- The second `DecodeBytes` gets the stream the first one discarded. -/
theorem pooled_run_isolated_decodeBytes :
    (∀ calls ∈ twoDecodes, disciplined false calls = true) ∧
      ((Pooled.init twoDecodes).run
          [(0, none), (0, none), (0, none), (1, some 0), (1, none), (1, none)]).map
          Pooled.results =
        (Own.run (Own.init twoDecodes) [0, 0, 0, 1, 1, 1]).map Own.resultsOf := by
  have obeys : ∀ calls ∈ twoDecodes, disciplined false calls = true := by
    simp [twoDecodes, decodeBytesCalls, disciplined]
  exact ⟨obeys, pooled_run_isolated twoDecodes obeys _⟩

/-- `Record.DecodeRLP` (`p2p/enr`) once it has the raw record: `NewStream` over it, `Discard`,
then `s.List()` on the discarded stream, from which the rest of the record is read too. -/
def recordDecodeCalls (raw : Bytes) : List (Call Nat) :=
  [.newStream raw 0, .discard, .read Stream.List]

/-- The whisper handler of `powRequirementCode`: `NewStream` over the payload, `s.Uint()`,
`Discard`. -/
def powRequirementCalls (payload : Bytes) : List (Call Nat) :=
  [.newStream payload payload.length, .read Stream.Uint, .discard]

/-- A record `[""]` decoded while a whisper peer sends the payload `["", ""]`. -/
def recordRace : List (List (Call Nat)) :=
  [recordDecodeCalls [0xC1, 0x80], powRequirementCalls [0xC2, 0x80, 0x80]]

/-- The handler's `NewStream` gets the stream the record decoder has just discarded. -/
def recordRaceSchedule : List (Nat × Option Nat) :=
  [(0, none), (0, none), (1, some 0), (0, none), (1, none), (1, none)]

/-- In `recordRace` the record decoder reads a list of 2 bytes where its record holds a
list of 1, and the handler's `s.Uint()` returns 0 where its own stream reports that a list
is no integer. -/
theorem recordDecode_reads_foreign_input :
    ((Pooled.init recordRace).run recordRaceSchedule).map
        (fun sys => (sys.results 0, sys.results 1)) = some ([.ok 2], [.ok 0]) ∧
      (Own.run (Own.init recordRace) (recordRaceSchedule.map Prod.fst)).map
          (fun gs => (Own.resultsOf gs 0, Own.resultsOf gs 1)) =
        some ([.ok 1], [.error .ErrExpectedString]) :=
  ⟨rfl, rfl⟩

end Indigo.Rlp
