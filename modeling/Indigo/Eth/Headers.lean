import Indigo.Common.Types
import Indigo.Lib.TwosComplement

/-!
# Serving header queries

`GetBlockHeadersMsg` asks a peer for headers: from an origin given by hash or by number,
`Amount` of them, `Skip` blocks apart, towards the leaf or towards the genesis block. The
handler of the eth protocol (`eth/handler.go`) and that of the light protocol
(`les/handler.go`) gather them in the same loop: look up the next header, stop if it is
unknown, and advance the origin of the query. By hash, towards the genesis block the origin
moves to an ancestor found by `GetAncestor`, and towards the leaf to the canonical header
`Skip + 1` blocks higher whose ancestor at that distance is the current one. By number, the
origin's number moves by `Skip + 1` in `uint64` arithmetic.

The chain is read through `core.BlockChain`'s lookups (`Chain`), whose database is any
function. The loop of the eth handler stops at `MaxHeaderFetch` headers, that of the light
handler after its flow control rejected queries for more; both stop at `softResponseLimit`
bytes of estimated headers.

## Main results

- `handleGetBlockHeaders_length_le`: the eth handler serves at most `min(Amount,
  MaxHeaderFetch)` headers.
- `skip_max_serves_same_header`: with `Skip = 2^64 - 1` the step `Skip + 1` is zero, and a
  query by number is answered with one header as many times as asked.

## Proof strategy

Each loop is unfolded one round at a time (`ethGather`, `lesGather` are well-founded
recursions, on the headers still allowed and the bytes still allowed). The bound is a
functional induction; a stuck walk is an induction on the headers left to gather, with the
round computed by `Cursor.advance_number_stuck`.
-/

namespace Indigo.Eth

open Indigo.Lib

/-- `downloader.MaxHeaderFetch`, which `les` copies. -/
def MaxHeaderFetch : Nat := 192

/-- `softResponseLimit`: the target size of a reply. -/
def softResponseLimit : Nat := 2 * 1024 * 1024

/-- `estHeaderRlpSize`: the size a header is assumed to take in a reply. -/
def estHeaderRlpSize : Nat := 500

/-- A block header, as much of it as the handlers read: its number, its parent's hash and its
own hash (`Hash()`, the Keccak256 of its encoding). -/
structure Header where
  Number : Nat
  ParentHash : Hash
  Hash : Indigo.Hash
  deriving DecidableEq

/-- The reads of the local chain the handlers make, through `core.BlockChain`: the header
stored under a hash and a number, the number stored for a hash (`missingNumber` when there
is none), and the hash that is canonical at a number (the zero hash when there is none). -/
structure Chain where
  GetHeader : Hash → Nat → Option Header
  GetBlockNumber : Hash → Nat
  GetCanonicalHash : Nat → Hash

namespace Chain

variable (c : Chain)

/-- `GetHeaderByHash`: the header under the number stored for the hash. -/
def GetHeaderByHash (hash : Hash) : Option Header := c.GetHeader hash (c.GetBlockNumber hash)

/-- `GetHeaderByNumber`: the canonical header at a number. -/
def GetHeaderByNumber (number : Nat) : Option Header :=
  let hash := c.GetCanonicalHash number
  if hash = Hash.zero then none else c.GetHeader hash number

/-- The loop of `GetAncestor`: go up from a non-canonical header one parent at a time, each
costing one of `maxNonCanonical`, until the header is canonical, from where the ancestor is
read off the canonical chain. -/
def ancestorLoop (hash : Hash) (number : Nat) : Nat → Nat → (Hash × Nat) × Nat
  | 0, maxNonCanonical => ((hash, number), maxNonCanonical)
  | ancestor + 1, maxNonCanonical =>
    if c.GetCanonicalHash number = hash then
      let number := number - (ancestor + 1)
      ((c.GetCanonicalHash number, number), maxNonCanonical)
    else if maxNonCanonical = 0 then ((Hash.zero, 0), maxNonCanonical)
    else
      match c.GetHeader hash number with
      | none => ((Hash.zero, 0), maxNonCanonical - 1)
      | some header => ancestorLoop header.ParentHash (number - 1) ancestor (maxNonCanonical - 1)

/-- `GetAncestor`: the hash and number of the `ancestor`-th ancestor of a header, or the zero
hash; `maxNonCanonical` is passed by pointer, so what is left of it is returned too. -/
def GetAncestor (hash : Hash) (number ancestor maxNonCanonical : Nat) : (Hash × Nat) × Nat :=
  if ancestor > number then ((Hash.zero, 0), maxNonCanonical)
  else if ancestor = 1 then
    -- in this case it is cheaper to just read the header
    match c.GetHeader hash number with
    | some header => ((header.ParentHash, number - 1), maxNonCanonical)
    | none => ((Hash.zero, 0), maxNonCanonical)
  else c.ancestorLoop hash number ancestor maxNonCanonical

end Chain

/-- `hashOrNumber`: the origin of a query, by hash unless that is zero. -/
structure HashOrNumber where
  Hash : Indigo.Hash
  Number : Nat

/-- `getBlockHeadersData`, with `uint64` fields. -/
structure GetBlockHeadersData where
  Origin : HashOrNumber
  Amount : Nat
  Skip : Nat
  Reverse : Bool

/-- The variables of the handler's loop besides the headers gathered and their size: the
query, whose origin moves, whether the next lookup is the first, whether the next header is
unknown, and the budget of non-canonical steps of `GetAncestor`. -/
structure Cursor where
  query : GetBlockHeadersData
  first : Bool
  unknown : Bool
  maxNonCanonical : Nat

namespace Cursor

variable (c : Chain)

/-- Move the origin of the query. -/
def moveTo (cur : Cursor) (hash : Hash) (number : Nat) : Cursor :=
  { cur with query := { cur.query with Origin := ⟨hash, number⟩ } }

/-- Retrieve the next header satisfying the query. By hash, the first header is looked up by
its hash alone, and fixes the number of the origin. -/
def retrieve (hashMode : Bool) (cur : Cursor) : Option Header × Cursor :=
  if hashMode then
    if cur.first then
      let cur := { cur with first := false }
      match c.GetHeaderByHash cur.query.Origin.Hash with
      | some origin => (some origin, cur.moveTo cur.query.Origin.Hash origin.Number)
      | none => (none, cur)
    else (c.GetHeader cur.query.Origin.Hash cur.query.Origin.Number, cur)
  else (c.GetHeaderByNumber cur.query.Origin.Number, cur)

/-- Advance to the next header of the query from `origin`, the header just gathered;
`byHash` selects the traversal by hash. -/
def advance (byHash : Bool) (origin : Header) (cur : Cursor) : Cursor :=
  let query := cur.query
  if byHash ∧ query.Reverse then
    -- hash based traversal towards the genesis block
    let ancestor := (query.Skip + 1) % 2 ^ 64
    if ancestor = 0 then { cur with unknown := true }
    else
      let ((hash, number), maxNonCanonical) :=
        c.GetAncestor query.Origin.Hash query.Origin.Number ancestor cur.maxNonCanonical
      { cur.moveTo hash number with unknown := hash = Hash.zero, maxNonCanonical := maxNonCanonical }
  else if byHash then
    -- hash based traversal towards the leaf block
    let current := origin.Number
    let next := (current + query.Skip + 1) % 2 ^ 64
    -- the "skip overflow attack"
    if next ≤ current then { cur with unknown := true }
    else
      match c.GetHeaderByNumber next with
      | some header =>
        let nextHash := header.Hash
        let ((expOldHash, _), maxNonCanonical) :=
          c.GetAncestor nextHash next ((query.Skip + 1) % 2 ^ 64) cur.maxNonCanonical
        if expOldHash = query.Origin.Hash then
          { cur.moveTo nextHash next with maxNonCanonical := maxNonCanonical }
        else { cur with unknown := true, maxNonCanonical := maxNonCanonical }
      | none => { cur with unknown := true }
  else if query.Reverse then
    -- number based traversal towards the genesis block
    if query.Origin.Number ≥ (query.Skip + 1) % 2 ^ 64 then
      cur.moveTo query.Origin.Hash (query.Origin.Number - (query.Skip + 1) % 2 ^ 64)
    else { cur with unknown := true }
  else
    -- number based traversal towards the leaf block
    cur.moveTo query.Origin.Hash ((query.Origin.Number + (query.Skip + 1)) % 2 ^ 64)

end Cursor

/-! ### The eth handler -/

-- `more` bounds the recursion in `decreasing_by`, which the unused-variable linter does not see
set_option linter.unusedVariables false in
/-- The loop of the eth handler: gather headers until the query is done, a header is unknown,
`Amount` (an `int` conversion of the `uint64`) or `MaxHeaderFetch` headers are gathered, or
`softResponseLimit` bytes. -/
def ethGather (c : Chain) (hashMode : Bool) (cur : Cursor) (headers : List Header) (bytes : Nat) :
    List Header :=
  if more : !cur.unknown ∧ (headers.length : Int) < toSigned 64 cur.query.Amount ∧
      bytes < softResponseLimit ∧ headers.length < MaxHeaderFetch then
    match cur.retrieve c hashMode with
    | (none, _) => headers
    | (some origin, cur) =>
      ethGather c hashMode (cur.advance c hashMode origin) (headers ++ [origin]) (bytes + estHeaderRlpSize)
  else headers
termination_by MaxHeaderFetch - headers.length
decreasing_by
  simp only [List.length_append, List.length_singleton]
  omega

/-- The reply of the eth handler to `GetBlockHeadersMsg`. -/
def handleGetBlockHeaders (c : Chain) (query : GetBlockHeadersData) : List Header :=
  let hashMode := query.Origin.Hash ≠ Hash.zero
  ethGather c hashMode ⟨query, true, false, 100⟩ [] 0

/-! ### The light handler -/

set_option linter.unusedVariables false in
/-- The loop of the light handler: as the eth one, without the bound `MaxHeaderFetch`, and
choosing the traversal by whether the origin's hash is zero at the time of the step. -/
def lesGather (c : Chain) (hashMode : Bool) (cur : Cursor) (headers : List Header) (bytes : Nat) :
    List Header :=
  if more : !cur.unknown ∧ (headers.length : Int) < toSigned 64 cur.query.Amount ∧
      bytes < softResponseLimit then
    match cur.retrieve c hashMode with
    | (none, _) => headers
    | (some origin, cur) =>
      lesGather c hashMode (cur.advance c (cur.query.Origin.Hash ≠ Hash.zero) origin) (headers ++ [origin])
        (bytes + estHeaderRlpSize)
  else headers
termination_by softResponseLimit - bytes
decreasing_by
  simp only [estHeaderRlpSize]
  omega

/-- `errResp(ErrRequestRejected, "")`. -/
inductive LesError where
  | ErrRequestRejected

/-- The reply of the light handler to `GetBlockHeadersMsg`. `reject` turns a query down when
it asks for more than `MaxHeaderFetch` headers or when the flow control says so
(`throttled`: no client, or a buffer too low for its cost). -/
def lesHandleGetBlockHeaders (c : Chain) (throttled : Bool) (query : GetBlockHeadersData) :
    Except LesError (List Header) :=
  if throttled ∨ query.Amount > MaxHeaderFetch then .error .ErrRequestRejected
  else
    let hashMode := query.Origin.Hash ≠ Hash.zero
    .ok (lesGather c hashMode ⟨query, true, false, 100⟩ [] 0)

/-! ### What a step keeps -/

namespace Cursor

variable (c : Chain)

@[simp] theorem moveTo_Amount (cur : Cursor) (hash : Hash) (number : Nat) :
    (cur.moveTo hash number).query.Amount = cur.query.Amount := rfl

@[simp] theorem retrieve_Amount (hashMode : Bool) (cur : Cursor) :
    (cur.retrieve c hashMode).2.query.Amount = cur.query.Amount := by
  dsimp only [retrieve]
  split
  · split
    · split <;> rfl
    · rfl
  · rfl

@[simp] theorem advance_Amount (byHash : Bool) (origin : Header) (cur : Cursor) :
    (cur.advance c byHash origin).query.Amount = cur.query.Amount := by
  dsimp only [advance]
  repeat' split
  all_goals rfl

/-- By number, a step of `Skip + 1 ≡ 0` leaves the cursor where it is. -/
theorem advance_number_stuck (origin : Header) {cur : Cursor} (stuck : (cur.query.Skip + 1) % 2 ^ 64 = 0)
    (uint : cur.query.Origin.Number < 2 ^ 64) : cur.advance c false origin = cur := by
  have forward : (cur.query.Origin.Number + (cur.query.Skip + 1)) % 2 ^ 64 = cur.query.Origin.Number := by
    rw [Nat.add_mod, stuck, Nat.add_zero, Nat.mod_mod, Nat.mod_eq_of_lt uint]
  unfold advance
  simp only [Bool.false_eq_true, false_and, if_false, stuck, Nat.sub_zero, forward, ge_iff_le,
    Nat.zero_le, if_true]
  split <;> rfl

end Cursor

/-- Below `Amount` as an `int`, below `Amount`. -/
theorem lt_of_lt_toSigned {n a : Nat} (lt : (n : Int) < toSigned 64 a) : n < a := by
  unfold toSigned at lt
  split at lt <;> omega

/-! ### The eth handler -/

/-- However it walks, the loop stops at `Amount` and at `MaxHeaderFetch` headers. -/
theorem ethGather_length_le (c : Chain) (hashMode : Bool) (cur : Cursor) (headers : List Header) (bytes : Nat)
    (start : headers.length ≤ min cur.query.Amount MaxHeaderFetch) :
    (ethGather c hashMode cur headers bytes).length ≤ min cur.query.Amount MaxHeaderFetch := by
  fun_induction ethGather c hashMode cur headers bytes with
  | case1 cur headers bytes more _ stopped => exact start
  | case2 cur headers bytes more origin moved gathered ih =>
    -- one more header, below both bounds by the guard, and the same `Amount`
    have amount : (moved.advance c hashMode origin).query.Amount = cur.query.Amount := by
      rw [Cursor.advance_Amount, ← Cursor.retrieve_Amount c hashMode cur, gathered]
    have below := lt_of_lt_toSigned more.2.1
    rw [amount] at ih
    apply ih
    simp only [List.length_append, List.length_singleton]
    omega
  | case3 cur headers bytes stopped => exact start

theorem handleGetBlockHeaders_length_le (c : Chain) (query : GetBlockHeadersData) :
    (handleGetBlockHeaders c query).length ≤ min query.Amount MaxHeaderFetch :=
  ethGather_length_le c _ _ [] 0 (by simp)

/-- By number with `Skip + 1 ≡ 0`, the loop gathers the header at the origin again and again,
up to `Amount` or `MaxHeaderFetch` headers. -/
theorem ethGather_stuck (c : Chain) {cur : Cursor} {header : Header}
    (known : c.GetHeaderByNumber cur.query.Origin.Number = some header)
    (stuck : (cur.query.Skip + 1) % 2 ^ 64 = 0) (uint : cur.query.Origin.Number < 2 ^ 64)
    (amount : cur.query.Amount < 2 ^ 63) (going : cur.unknown = false) {k : Nat}
    (within : k ≤ min cur.query.Amount MaxHeaderFetch) :
    ethGather c false cur (List.replicate k header) (k * estHeaderRlpSize) =
      List.replicate (min cur.query.Amount MaxHeaderFetch) header := by
  have again : cur.retrieve c false = (some header, cur) := by simp [Cursor.retrieve, known]
  have signed : toSigned 64 cur.query.Amount = cur.query.Amount := by
    unfold toSigned
    rw [if_pos (show cur.query.Amount < 2 ^ (64 - 1) from amount)]
  simp only [MaxHeaderFetch] at within ⊢
  -- induction on the number of headers left to gather
  induction left : min cur.query.Amount 192 - k generalizing k with
  | zero =>
    have full : k = min cur.query.Amount 192 := by omega
    have stop : ¬(!cur.unknown ∧ ((List.replicate k header).length : Int) < toSigned 64 cur.query.Amount ∧
        k * estHeaderRlpSize < softResponseLimit ∧ (List.replicate k header).length < MaxHeaderFetch) := by
      intro more
      have below := more.2.1
      have fetched := more.2.2.2
      simp only [List.length_replicate, signed, MaxHeaderFetch] at below fetched
      omega
    rw [ethGather, dif_neg stop, full]
  | succ left ih =>
    have more : !cur.unknown ∧ ((List.replicate k header).length : Int) < toSigned 64 cur.query.Amount ∧
        k * estHeaderRlpSize < softResponseLimit ∧ (List.replicate k header).length < MaxHeaderFetch := by
      simp only [going, List.length_replicate, signed, MaxHeaderFetch, estHeaderRlpSize, softResponseLimit]
      refine ⟨rfl, ?_, ?_, ?_⟩ <;> omega
    rw [ethGather, dif_pos more]
    simp only [again, Cursor.advance_number_stuck c header stuck uint]
    have next := ih (k := k + 1) (by omega) (by omega)
    rwa [List.replicate_succ', Nat.succ_mul] at next

/-! ### The light handler -/

/-- The same in the loop of the light handler, up to `Amount` headers. -/
theorem lesGather_stuck (c : Chain) {cur : Cursor} {header : Header}
    (known : c.GetHeaderByNumber cur.query.Origin.Number = some header) (zeroHash : cur.query.Origin.Hash = Hash.zero)
    (stuck : (cur.query.Skip + 1) % 2 ^ 64 = 0) (uint : cur.query.Origin.Number < 2 ^ 64)
    (fetchable : cur.query.Amount ≤ MaxHeaderFetch) (going : cur.unknown = false) {k : Nat}
    (within : k ≤ cur.query.Amount) :
    lesGather c false cur (List.replicate k header) (k * estHeaderRlpSize) =
      List.replicate cur.query.Amount header := by
  have again : cur.retrieve c false = (some header, cur) := by simp [Cursor.retrieve, known]
  simp only [MaxHeaderFetch] at fetchable
  have signed : toSigned 64 cur.query.Amount = cur.query.Amount := by
    unfold toSigned
    rw [if_pos (show cur.query.Amount < 2 ^ (64 - 1) by norm_num; omega)]
  -- induction on the number of headers left to gather
  induction left : cur.query.Amount - k generalizing k with
  | zero =>
    have full : k = cur.query.Amount := by omega
    have stop : ¬(!cur.unknown ∧ ((List.replicate k header).length : Int) < toSigned 64 cur.query.Amount ∧
        k * estHeaderRlpSize < softResponseLimit) := by
      intro more
      have below := more.2.1
      simp only [List.length_replicate, signed] at below
      omega
    rw [lesGather, dif_neg stop, full]
  | succ left ih =>
    have more : !cur.unknown ∧ ((List.replicate k header).length : Int) < toSigned 64 cur.query.Amount ∧
        k * estHeaderRlpSize < softResponseLimit := by
      simp only [going, List.length_replicate, signed, estHeaderRlpSize, softResponseLimit]
      refine ⟨rfl, ?_, ?_⟩ <;> omega
    rw [lesGather, dif_pos more]
    simp only [again, zeroHash, ne_eq, not_true_eq_false, decide_false,
      Cursor.advance_number_stuck c header stuck uint]
    have next := ih (k := k + 1) (by omega) (by omega)
    rwa [List.replicate_succ', Nat.succ_mul] at next

/-! ### A step of zero -/

/-- With `Skip = 2^64 - 1` the step `Skip + 1` wraps to zero in `uint64`: both handlers answer
a query by number for at most `MaxHeaderFetch` headers from a known block with that block's
header, as many times as asked, in either direction. -/
theorem skip_max_serves_same_header (c : Chain) {number : Nat} {header : Header}
    (known : c.GetHeaderByNumber number = some header) (uint : number < 2 ^ 64) (reverse : Bool)
    {amount : Nat} (fetchable : amount ≤ MaxHeaderFetch) :
    handleGetBlockHeaders c ⟨⟨Hash.zero, number⟩, amount, 2 ^ 64 - 1, reverse⟩ =
        List.replicate amount header ∧
      lesHandleGetBlockHeaders c false ⟨⟨Hash.zero, number⟩, amount, 2 ^ 64 - 1, reverse⟩ =
        .ok (List.replicate amount header) := by
  have stuck : (2 ^ 64 - 1 + 1) % 2 ^ 64 = 0 := by norm_num
  have byNumber : decide (Hash.zero ≠ Hash.zero) = false := by simp
  have signed : amount < 2 ^ 63 := by simp only [MaxHeaderFetch] at fetchable; omega
  constructor
  · have served := @ethGather_stuck c ⟨⟨⟨Hash.zero, number⟩, amount, 2 ^ 64 - 1, reverse⟩, true, false, 100⟩
      header known stuck uint signed rfl 0 (Nat.zero_le _)
    rw [min_eq_left fetchable] at served
    simpa [handleGetBlockHeaders, byNumber] using served
  · have served := @lesGather_stuck c ⟨⟨⟨Hash.zero, number⟩, amount, 2 ^ 64 - 1, reverse⟩, true, false, 100⟩
      header known rfl stuck uint fetchable rfl 0 (Nat.zero_le _)
    simp only [lesHandleGetBlockHeaders, Bool.false_eq_true, false_or, if_neg (Nat.not_lt.mpr fetchable), byNumber]
    simpa using served

/-- A genesis header, with a hash of its own. -/
def genesis : Header := ⟨0, Hash.zero, ⟨List.replicate 32 2, by simp [HashLength]⟩⟩

/-- A chain whose every number is canonical with the genesis header. -/
def sameEverywhere : Chain where
  GetHeader _ _ := some genesis
  GetBlockNumber _ := 0
  GetCanonicalHash _ := genesis.Hash

theorem skip_max_serves_genesis_twice :
    sameEverywhere.GetHeaderByNumber 0 = some genesis ∧ 0 < 2 ^ 64 ∧ 2 ≤ MaxHeaderFetch ∧
      handleGetBlockHeaders sameEverywhere ⟨⟨Hash.zero, 0⟩, 2, 2 ^ 64 - 1, false⟩ =
        List.replicate 2 genesis ∧
      lesHandleGetBlockHeaders sameEverywhere false ⟨⟨Hash.zero, 0⟩, 2, 2 ^ 64 - 1, false⟩ =
        .ok (List.replicate 2 genesis) := by
  have known : sameEverywhere.GetHeaderByNumber 0 = some genesis := by
    simp [Chain.GetHeaderByNumber, sameEverywhere, genesis, Hash.zero]
  exact ⟨known, by norm_num, by decide,
    skip_max_serves_same_header sameEverywhere known (by norm_num) false (by decide)⟩

end Indigo.Eth
