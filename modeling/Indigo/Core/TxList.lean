import Mathlib.Data.List.AList
import Mathlib.Data.List.Sort
import Indigo.Lib.KeySorted

/-!
# The nonce-sorted transaction map

`txSortedMap` (`core/tx_list.go`) keeps one account's transactions three times over: in `items`,
a map from nonce to transaction; in `index`, a binary heap of the nonces; and in `cache`, the
transactions sorted by nonce, or `nil` when it has to be rebuilt. Each operation repairs the
three views in its own way.

The transactions are of any type with a nonce. The map is an `AList` keyed by nonce, and Go's
`range` over it runs through its entries in their order. The heap is the sorted list of its
nonces (`Indigo.Lib.heapInit`, `heapPush`): every read of it is of its least element, or of
the element at a position after `sort.Sort`. A callback is the list of the transactions it was
called with, in order.
-/

namespace Indigo.Core

open Indigo.Lib

/-- `txSortedMap`: the map, the heap of nonces, and the sorted cache (`none` for `nil`). -/
structure TxSortedMap (Tx : Type) where
  items : AList fun _ : Nat => Tx
  index : List Nat
  cache : Option (List Tx)

namespace TxSortedMap

variable {Tx : Type} (nonce : Tx → Nat)

/-- `newTxSortedMap`. -/
def newTxSortedMap : TxSortedMap Tx := ⟨∅, [], none⟩

/-- `Get`. -/
def Get (m : TxSortedMap Tx) (n : Nat) : Option Tx := m.items.lookup n

/-- `Len`. -/
def Len (m : TxSortedMap Tx) : Nat := m.items.entries.length

/-- `sort.Sort(types.TxByNonce(txs))`. -/
def sortByNonce (txs : List Tx) : List Tx := txs.mergeSort fun a b => decide (nonce a ≤ nonce b)

/-- The cache `ensureCache` leaves: the one there, or the map's transactions sorted by nonce. -/
def ensureCache (m : TxSortedMap Tx) : List Tx :=
  m.cache.getD (sortByNonce nonce (m.items.entries.map (·.2)))

/-- The heap rebuilt from the map's nonces, as `Filter`, `Remove`, `Ready` and `ForLast` do. -/
def rebuild (items : AList fun _ : Nat => Tx) : List Nat := heapInit items.keys

/-- Delete the transactions of `txs` from the map, by nonce. -/
def deleteAll (txs : List Tx) (items : AList fun _ : Nat => Tx) : AList fun _ : Nat => Tx :=
  txs.foldl (fun items tx => items.erase (nonce tx)) items

/-- `Put`: a new nonce goes on the heap; the cache is dropped. -/
def Put (m : TxSortedMap Tx) (tx : Tx) : TxSortedMap Tx :=
  { items := m.items.insert (nonce tx) tx
    index := if (m.items.lookup (nonce tx)).isNone then heapPush (nonce tx) m.index else m.index
    cache := none }

/-- The loop of `Forward`: pop the heap while its least nonce is below the threshold, deleting
and reporting each item. -/
def forwardLoop (threshold : Nat) :
    List Nat → (AList fun _ : Nat => Tx) → List Tx → List Nat × (AList fun _ : Nat => Tx) × List Tx
  | [], items, removed => ([], items, removed)
  | n :: index, items, removed =>
    if n < threshold then forwardLoop threshold index (items.erase n) (removed ++ (items.lookup n).toList)
    else (n :: index, items, removed)

/-- `Forward`: the transactions below the threshold, popped off the heap; the cache loses as many
from its front. -/
def Forward (m : TxSortedMap Tx) (threshold : Nat) : TxSortedMap Tx × List Tx :=
  let (index, items, removed) := forwardLoop threshold m.index m.items []
  ({ items, index, cache := m.cache.map fun cache => cache.drop (m.index.length - index.length) }, removed)

/-- `Filter` in strict mode: the cache is searched in order for the first match, which is
removed; every later transaction is invalidated. Returns the map, the removed and the invalid
transactions. -/
def filterStrict (m : TxSortedMap Tx) (filter : Tx → Bool) : TxSortedMap Tx × List Tx × List Tx :=
  let cache := ensureCache nonce m
  match cache.span (fun tx => !filter tx) with
  | (_, []) => ({ m with cache := some cache }, [], [])
  | (pre, tx :: post) =>
    let items := deleteAll nonce post (m.items.erase (nonce tx))
    ({ items, index := rebuild items, cache := some pre }, [tx], post)

/-- `Filter` otherwise: every match of the map is removed; if there was one, the heap is rebuilt
and the cache dropped. -/
def filterLoose (m : TxSortedMap Tx) (filter : Tx → Bool) : TxSortedMap Tx × List Tx :=
  let matched := (m.items.entries.filter fun entry => filter entry.2).map (·.2)
  if matched = [] then (m, [])
  else
    let items := deleteAll nonce matched m.items
    ({ items, index := rebuild items, cache := none }, matched)

/-- `Filter`: the map, the transactions passed to `removed`, and those passed to `invalid`. -/
def Filter (m : TxSortedMap Tx) (filter : Tx → Bool) (strict : Bool) : TxSortedMap Tx × List Tx × List Tx :=
  if strict then filterStrict nonce m filter
  else
    let (m, removed) := filterLoose nonce m filter
    (m, removed, [])

/-- The loop of `Cap`, from `size` down to `threshold + 1`: the item at `index[size-1]` of the
sorted heap is deleted and reported. A position past the heap would panic; the heap holds every
nonce of the map, so `getD` never falls back. -/
def capLoop (index : List Nat) (threshold : Nat) :
    Nat → (AList fun _ : Nat => Tx) → List Tx → (AList fun _ : Nat => Tx) × List Tx
  | 0, items, removed => (items, removed)
  | size + 1, items, removed =>
    if threshold < size + 1 then
      let key := index.getD size 0
      capLoop index threshold size (items.erase key) (removed ++ (items.lookup key).toList)
    else (items, removed)

/-- `Cap`: beyond `threshold` items, the highest nonces are dropped, from the top down. -/
def Cap (m : TxSortedMap Tx) (threshold : Nat) : TxSortedMap Tx × List Tx :=
  if m.items.entries.length ≤ threshold then (m, [])
  else
    -- resort the heap to drop the highest nonce'd transactions
    let index := heapInit m.index
    let (items, removed) := capLoop index threshold m.items.entries.length m.items []
    let drops := m.items.entries.length - threshold
    ({ items, index := heapInit (index.take threshold),
       cache := m.cache.map fun cache => cache.take (cache.length - drops) }, removed)

/-- `Remove`: whether the nonce was there, and the transactions invalidated in strict mode.
`sort.Search` finds the first cached transaction at or above the nonce. -/
def Remove (m : TxSortedMap Tx) (n : Nat) (strict : Bool) : TxSortedMap Tx × Bool × List Tx :=
  if (m.items.lookup n).isNone then (m, false, [])
  else
    let cache := ensureCache nonce m
    let items := m.items.erase n
    let i := cache.findIdx fun tx => decide (n ≤ nonce tx)
    if !strict then
      -- repair the cache and the heap: `copy` shifts the tail over position `i`, which holds
      -- the nonce, and the last slot is cut
      ({ items, index := m.index.erase n, cache := some (cache.eraseIdx i) }, true, [])
    else
      let items := deleteAll nonce (cache.drop (i + 1)) items
      ({ items, index := rebuild items, cache := some (cache.take i) }, true, cache.drop (i + 1))

/-- The heap loop of `Ready`: pop the least nonce while it is `next`, counting up. -/
def readyLoop : List Nat → Nat → (AList fun _ : Nat => Tx) → List Tx →
    List Nat × (AList fun _ : Nat => Tx) × List Tx
  | [], _, items, ready => ([], items, ready)
  | n :: index, next, items, ready =>
    if n = next then readyLoop index (next + 1) (items.erase next) (ready ++ (items.lookup next).toList)
    else (n :: index, items, ready)

/-- The cache loop of `Ready`: run through the cache while the nonces count up from `next`. At
the first gap the cache is cut to what follows (`some`); a loop that runs through the whole
cache leaves it as it was (`none`). -/
def readyCacheLoop : List Tx → Nat → (AList fun _ : Nat => Tx) → List Tx →
    Option (List Tx) × (AList fun _ : Nat => Tx) × List Tx
  | [], _, items, ready => (none, items, ready)
  | tx :: rest, next, items, ready =>
    if nonce tx ≠ next then (some (tx :: rest), items, ready)
    else readyCacheLoop rest (next + 1) (items.erase (nonce tx)) (ready ++ [tx])

/-- `Ready`: the consecutive run of nonces from the least one, if that is at most `start`.
`none` is the panic of `m.cache[0]` on an empty cache. -/
def Ready (m : TxSortedMap Tx) (start : Nat) : Option (TxSortedMap Tx × List Tx) :=
  match m.index with
  | [] => some (m, [])
  | least :: _ =>
    if least > start then some (m, [])
    else
      match m.cache with
      | none =>
        let (index, items, ready) := readyLoop m.index least m.items []
        some ({ m with items, index }, ready)
      | some [] => none
      | some (first :: rest) =>
        let (cut, items, ready) := readyCacheLoop nonce (first :: rest) (nonce first) m.items []
        some ({ items, index := rebuild items, cache := some (cut.getD (first :: rest)) }, ready)

/-- `Flatten`: the cache, built if it was not. -/
def Flatten (m : TxSortedMap Tx) : TxSortedMap Tx × List Tx :=
  ({ m with cache := some (ensureCache nonce m) }, ensureCache nonce m)

/-- `ForLast`: the last `n` transactions of the cache are removed and reported. -/
def ForLast (m : TxSortedMap Tx) (n : Nat) : TxSortedMap Tx × List Tx :=
  let cache := ensureCache nonce m
  let i := cache.length - n
  let items := deleteAll nonce (cache.drop i) m.items
  ({ items, index := rebuild items, cache := some (cache.take i) }, cache.drop i)

/-- `Last`: the highest-nonce transaction of the cache; `none` is the panic on an empty one. -/
def Last (m : TxSortedMap Tx) : Option (TxSortedMap Tx × Tx) :=
  (ensureCache nonce m).getLast?.map fun tx => ({ m with cache := some (ensureCache nonce m) }, tx)

end TxSortedMap

end Indigo.Core
