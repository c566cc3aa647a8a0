import Indigo.Core.TxListSpec

/-!
# Runs of the nonce-sorted map, and its stale cache

`Ready` on a cached map runs through the cache while the nonces count up, deleting each
transaction from the map, and cuts the cache only inside the loop, at the first gap
(`m.cache = m.cache[i:]`). When the whole cache is one run there is no gap: the map and the heap
end empty, and the cache still holds every transaction. Such a map is `Stale`. Every operation
keeps a stale map stale but `Put`, which drops the cache: until then `Flatten` and `Last` return
transactions the map no longer holds, and `Filter` and `ForLast` report them as removed, while
`Len` is `0`.

The heap and the map agree over every run all the same: each map reached from `newTxSortedMap`
represents a sorted list or is stale, so its heap holds each of its nonces once and in order,
each transaction sits under its own nonce, and the cache is `nil`, the sorted transactions, or
left over in an empty map.

## Main results

- `Ready_whole_run_stale_cache`: a `Ready` whose run is the whole cached list leaves a map whose
  `Len` is `0` and whose `Flatten` returns the list.
- `reachable_views`: over every run from a new map, the heap is the sorted list of the map's
  nonces, each transaction sits under its nonce, and the cache is `nil`, the sorted
  transactions, or what an empty map left behind.

## Proof strategy

A stale map holds the empty list (`Holds nonce m.items []`), so the lemmas of
`Indigo.Core.TxListSpec` at `L = []` say what each operation does to its map and its heap, and the
cache is followed by hand. `step_represents` and `step_stale` take one call from either kind of
map to one of the two kinds, and `run_consistent` is the induction over the calls.
-/

namespace Indigo.Core

open Indigo.Lib

namespace TxSortedMap

variable {Tx : Type} {nonce : Tx → Nat}

/-- A stale map: the map and the heap are empty, and the cache still holds `c`, sorted. -/
structure Stale (nonce : Tx → Nat) (m : TxSortedMap Tx) (c : List Tx) : Prop where
  sorted : KeySorted nonce c
  holds : Holds nonce m.items []
  index : m.index = []
  cache : m.cache = some c

/-! ### What each operation does to a stale map -/

section Stale

variable {m : TxSortedMap Tx} {c : List Tx}

theorem Stale.Len (stale : Stale nonce m c) : Len m = 0 :=
  stale.holds.length keySorted_nil

theorem Stale.entries (stale : Stale nonce m c) : m.items.entries = [] :=
  List.eq_nil_of_length_eq_zero stale.Len

theorem Stale.lookup (stale : Stale nonce m c) (n : Nat) : m.items.lookup n = none :=
  Option.eq_none_iff_forall_ne_some.2 fun tx found => List.not_mem_nil ((stale.holds n tx).1 found).1

theorem Stale.ensureCache (stale : Stale nonce m c) : ensureCache nonce m = c := by
  rw [TxSortedMap.ensureCache, stale.cache, Option.getD_some]

/-- An empty map with its heap rebuilt and a sorted cache is stale. -/
theorem stale_rebuild {items : AList fun _ : Nat => Tx} (holds : Holds nonce items [])
    (sorted : KeySorted nonce c) : Stale nonce ⟨items, rebuild items, some c⟩ c :=
  ⟨sorted, holds, holds.rebuild keySorted_nil, rfl⟩

/-- `Put` reads no cache: it makes a stale map hold the one transaction. -/
theorem Stale.Put (stale : Stale nonce m c) (tx : Tx) : Represents nonce (Put nonce m tx) [tx] :=
  Put_represents (m := { m with cache := none }) ⟨keySorted_nil, stale.holds, stale.index, .inl rfl⟩ tx

theorem Stale.Forward (stale : Stale nonce m c) (threshold : Nat) :
    Stale nonce (Forward m threshold).1 c ∧ (Forward m threshold).2 = [] := by
  simp only [TxSortedMap.Forward, stale.index, forwardLoop, stale.cache, Option.map_some, Nat.sub_self, List.drop_zero]
  exact ⟨⟨stale.sorted, stale.holds, rfl, rfl⟩, trivial⟩

/-- `Filter` in strict mode searches the stale cache, and reports its first match and what
follows as removed and invalid, none of which the map holds. -/
theorem Stale.Filter_strict (stale : Stale nonce m c) (filter : Tx → Bool) :
    Stale nonce (Filter nonce m filter true).1 (c.takeWhile fun tx => !filter tx) ∧
      (Filter nonce m filter true).2 =
        ((c.dropWhile fun tx => !filter tx).take 1, (c.dropWhile fun tx => !filter tx).drop 1) := by
  have whole := List.takeWhile_append_dropWhile (p := fun tx => !filter tx) (l := c)
  have sortedPre := stale.sorted.sublist (List.takeWhile_sublist (l := c) fun tx => !filter tx)
  simp only [TxSortedMap.Filter, if_true, filterStrict, stale.ensureCache, List.span_eq_takeWhile_dropWhile]
  cases rest : c.dropWhile fun tx => !filter tx with
  | nil =>
    rw [rest, List.append_nil] at whole
    rw [whole]
    exact ⟨⟨stale.sorted, stale.holds, stale.index, rfl⟩, rfl⟩
  | cons tx post =>
    exact ⟨stale_rebuild ((stale.holds.erase (nonce tx)).deleteAll_nil post) sortedPre, rfl⟩

/-- `Filter` otherwise looks in the empty map, and finds nothing. -/
theorem Stale.Filter_loose (stale : Stale nonce m c) (filter : Tx → Bool) :
    Filter nonce m filter false = (m, [], []) := by
  simp [TxSortedMap.Filter, filterLoose, stale.entries]

theorem Stale.Cap (stale : Stale nonce m c) (threshold : Nat) : Cap m threshold = (m, []) := by
  simp [TxSortedMap.Cap, stale.entries]

theorem Stale.Remove (stale : Stale nonce m c) (n : Nat) (strict : Bool) :
    Remove nonce m n strict = (m, false, []) := by
  simp [TxSortedMap.Remove, stale.lookup]

theorem Stale.Ready (stale : Stale nonce m c) (start : Nat) : Ready nonce m start = some (m, []) := by
  simp [TxSortedMap.Ready, stale.index]

/-- `Flatten` of a stale map returns its cache. -/
theorem Stale.Flatten (stale : Stale nonce m c) :
    Stale nonce (Flatten nonce m).1 c ∧ (Flatten nonce m).2 = c := by
  simp only [TxSortedMap.Flatten, stale.ensureCache]
  exact ⟨⟨stale.sorted, stale.holds, stale.index, rfl⟩, trivial⟩

/-- `ForLast` of a stale map reports the end of its cache. -/
theorem Stale.ForLast (stale : Stale nonce m c) (k : Nat) :
    Stale nonce (ForLast nonce m k).1 (c.take (c.length - k)) ∧
      (ForLast nonce m k).2 = c.drop (c.length - k) := by
  simp only [TxSortedMap.ForLast, stale.ensureCache]
  exact ⟨stale_rebuild (stale.holds.deleteAll_nil _) (stale.sorted.sublist (List.take_sublist _ _)), trivial⟩

/-- `Last` of a stale map returns the last transaction of its cache. -/
theorem Stale.Last (stale : Stale nonce m c) :
    (Last nonce m).map (·.2) = c.getLast? ∧ ∀ p ∈ Last nonce m, Stale nonce p.1 c := by
  simp only [TxSortedMap.Last, stale.ensureCache]
  refine ⟨by simp, fun p found => ?_⟩
  obtain ⟨tx, -, rfl⟩ := Option.mem_map.1 found
  exact ⟨stale.sorted, stale.holds, stale.index, rfl⟩

end Stale

/-! ### `Ready` over a whole cached run -/

section Ready

variable {m : TxSortedMap Tx} {L : List Tx} {start : Nat}

/-- A `Ready` whose run is the whole cached list empties the map and the heap, and leaves the
cache as it was: the loop cuts the cache only at a gap, and there is none. -/
theorem Ready_whole_run_stale (rep : Represents nonce m L) (cached : m.cache = some L)
    (whole : readyRun nonce start L = L) : ∃ m', Ready nonce m start = some (m', L) ∧ Stale nonce m' L := by
  cases L with
  | nil => exact ⟨m, by simp [Ready, rep.index], ⟨keySorted_nil, rep.holds, rep.index, cached⟩⟩
  | cons first rest =>
    have late : nonce first ≤ start := by
      by_contra early
      simp [readyRun, early] at whole
    have run : runFrom nonce (nonce first) (first :: rest) = first :: rest := by
      simpa [readyRun, late] using whole
    obtain ⟨items', loop, holds'⟩ := readyCacheLoop_eq (nonce first) [] rep.sorted rep.holds
    rw [run, List.drop_length] at holds'
    rw [run] at loop
    refine ⟨⟨items', rebuild items', some (first :: rest)⟩, ?_, stale_rebuild holds' rep.sorted⟩
    simp only [Ready, rep.index, List.map_cons, gt_iff_lt, Nat.not_lt.2 late, if_false, cached, loop,
      Nat.lt_irrefl, Option.getD_none, List.nil_append]

/-- A `Ready` whose run is the whole cached list leaves a map with no transactions whose
`Flatten` returns all of them. -/
theorem Ready_whole_run_stale_cache (rep : Represents nonce m L) (cached : m.cache = some L)
    (whole : readyRun nonce start L = L) (nonempty : L ≠ []) :
    ∃ m', Ready nonce m start = some (m', L) ∧ Len m' = 0 ∧ (Flatten nonce m').2 = L ∧
      (Flatten nonce m').2.length ≠ Len m' := by
  obtain ⟨m', ready, stale⟩ := Ready_whole_run_stale rep cached whole
  have flattened := stale.Flatten.2
  refine ⟨m', ready, stale.Len, flattened, ?_⟩
  rw [flattened, stale.Len]
  exact fun empty => nonempty (List.eq_nil_of_length_eq_zero empty)

/-- The transaction of nonce `0`, put into a new map and flattened, is ready from `0`: the run
is the whole cache, and `Flatten` returns it from a map of length `0`. -/
theorem Ready_whole_run_stale_cache_put_flatten :
    ∃ m', Ready id (Flatten id (Put id newTxSortedMap 0)).1 0 = some (m', [0]) ∧ Len m' = 0 ∧
      (Flatten id m').2 = [0] ∧ (Flatten id m').2.length ≠ Len m' :=
  have rep : Represents id (Flatten id (Put id newTxSortedMap 0)).1 [0] :=
    (Flatten_represents (Put_represents represents_new 0)).1
  Ready_whole_run_stale_cache rep (congrArg some (Flatten_represents (Put_represents represents_new 0)).2)
    (by decide) (by decide)

end Ready

/-! ### Runs -/

/-- A call of one of the map's methods, with its arguments. -/
inductive Op (Tx : Type) where
  | put (tx : Tx)
  | forward (threshold : Nat)
  | filter (filter : Tx → Bool) (strict : Bool)
  | cap (threshold : Nat)
  | remove (n : Nat) (strict : Bool)
  | ready (start : Nat)
  | flatten
  | forLast (n : Nat)
  | last

/-- The map a call leaves; `none` where it panics. -/
def step (nonce : Tx → Nat) (m : TxSortedMap Tx) : Op Tx → Option (TxSortedMap Tx)
  | .put tx => some (Put nonce m tx)
  | .forward threshold => some (Forward m threshold).1
  | .filter filter strict => some (Filter nonce m filter strict).1
  | .cap threshold => some (Cap m threshold).1
  | .remove n strict => some (Remove nonce m n strict).1
  | .ready start => (Ready nonce m start).map (·.1)
  | .flatten => some (Flatten nonce m).1
  | .forLast n => some (ForLast nonce m n).1
  | .last => (Last nonce m).map (·.1)

/-- A sequence of calls; `none` if one of them panics. -/
def run (nonce : Tx → Nat) (m : TxSortedMap Tx) : List (Op Tx) → Option (TxSortedMap Tx)
  | [] => some m
  | op :: ops => (step nonce m op).bind fun m' => run nonce m' ops

/-- What every reachable map is: one that represents a sorted list, or a stale one. -/
def Consistent (nonce : Tx → Nat) (m : TxSortedMap Tx) : Prop :=
  (∃ L, Represents nonce m L) ∨ ∃ c, Stale nonce m c

section Run

variable {m m' : TxSortedMap Tx} {L c : List Tx} {op : Op Tx}

/-- One call from a map that represents a list: only a `Ready` over the whole cache leaves a
stale map. -/
theorem step_represents (rep : Represents nonce m L) (stepped : step nonce m op = some m') :
    Consistent nonce m' := by
  cases op with
  | put tx =>
    cases stepped
    exact .inl ⟨_, Put_represents rep tx⟩
  | forward threshold =>
    cases stepped
    exact .inl ⟨_, (Forward_represents rep threshold).1⟩
  | filter filter strict =>
    cases stepped
    cases strict
    · exact .inl ⟨_, (Filter_loose_represents rep filter).1⟩
    · exact .inl ⟨_, (Filter_strict_represents rep filter).1⟩
  | cap threshold =>
    cases stepped
    exact .inl ⟨_, (Cap_represents rep threshold).1⟩
  | remove n strict =>
    cases stepped
    by_cases listed : ∃ tx ∈ L, nonce tx = n
    · obtain ⟨tx, mem, rfl⟩ := listed
      cases strict
      · exact .inl ⟨_, (Remove_loose_represents rep mem).1⟩
      · exact .inl ⟨_, (Remove_strict_represents rep mem).1⟩
    · rw [Remove_absent rep (fun tx mem same => listed ⟨tx, mem, same⟩)]
      exact .inl ⟨L, rep⟩
  | ready start =>
    by_cases fresh : m.cache = none ∨ (readyRun nonce start L).length < L.length
    · obtain ⟨m'', ready, rep'⟩ := Ready_represents rep start fresh
      simp only [step, ready, Option.map_some, Option.some.injEq] at stepped
      subst stepped
      exact .inl ⟨_, rep'⟩
    · -- the cache is the list, and the run is all of it
      have cached : m.cache = some L := rep.cache.resolve_left (not_or.1 fresh).1
      have whole : readyRun nonce start L = L := readyRun_eq_self (Nat.not_lt.1 (not_or.1 fresh).2)
      obtain ⟨m'', ready, stale⟩ := Ready_whole_run_stale rep cached whole
      simp only [step, ready, Option.map_some, Option.some.injEq] at stepped
      subst stepped
      exact .inr ⟨L, stale⟩
  | flatten =>
    cases stepped
    exact .inl ⟨_, (Flatten_represents rep).1⟩
  | forLast k =>
    cases stepped
    exact .inl ⟨_, (ForLast_represents rep k).1⟩
  | last =>
    obtain ⟨p, found, rfl⟩ := Option.map_eq_some_iff.1 stepped
    exact .inl ⟨L, (Last_represents rep).2 p found⟩

/-- One call from a stale map: it stays stale, or `Put` makes it represent one transaction. -/
theorem step_stale (stale : Stale nonce m c) (stepped : step nonce m op = some m') :
    Consistent nonce m' := by
  cases op with
  | put tx =>
    cases stepped
    exact .inl ⟨_, stale.Put tx⟩
  | forward threshold =>
    cases stepped
    exact .inr ⟨_, (stale.Forward threshold).1⟩
  | filter filter strict =>
    cases stepped
    cases strict
    · rw [stale.Filter_loose filter]
      exact .inr ⟨c, stale⟩
    · exact .inr ⟨_, (stale.Filter_strict filter).1⟩
  | cap threshold =>
    cases stepped
    rw [stale.Cap threshold]
    exact .inr ⟨c, stale⟩
  | remove n strict =>
    cases stepped
    rw [stale.Remove n strict]
    exact .inr ⟨c, stale⟩
  | ready start =>
    simp only [step, stale.Ready start, Option.map_some, Option.some.injEq] at stepped
    subst stepped
    exact .inr ⟨c, stale⟩
  | flatten =>
    cases stepped
    exact .inr ⟨_, stale.Flatten.1⟩
  | forLast k =>
    cases stepped
    exact .inr ⟨_, (stale.ForLast k).1⟩
  | last =>
    obtain ⟨p, found, rfl⟩ := Option.map_eq_some_iff.1 stepped
    exact .inr ⟨c, stale.Last.2 p found⟩

theorem step_consistent (consistent : Consistent nonce m) (stepped : step nonce m op = some m') :
    Consistent nonce m' := by
  rcases consistent with ⟨L, rep⟩ | ⟨c, stale⟩
  · exact step_represents rep stepped
  · exact step_stale stale stepped

/-- Every run keeps a map consistent. -/
theorem run_consistent {ops : List (Op Tx)} (consistent : Consistent nonce m)
    (ran : run nonce m ops = some m') : Consistent nonce m' := by
  induction ops generalizing m with
  | nil =>
    cases ran
    exact consistent
  | cons op ops ih =>
    obtain ⟨m'', stepped, rest⟩ := Option.bind_eq_some_iff.1 ran
    exact ih (step_consistent consistent stepped) rest

/-- The heap of a consistent map is the increasing list of the map's nonces. -/
theorem Consistent.index (consistent : Consistent nonce m) :
    m.index.Perm m.items.keys ∧ m.index.Pairwise (· < ·) := by
  rcases consistent with ⟨L, rep⟩ | ⟨c, stale⟩
  · rw [rep.index]
    exact ⟨(rep.holds.keys_perm rep.sorted).symm, keySorted_iff_map.1 rep.sorted⟩
  · rw [stale.index]
    exact ⟨(stale.holds.keys_perm keySorted_nil).symm, List.Pairwise.nil⟩

/-- Every transaction of a consistent map sits under its own nonce. -/
theorem Consistent.lookup (consistent : Consistent nonce m) {n : Nat} {tx : Tx}
    (found : m.items.lookup n = some tx) : nonce tx = n := by
  rcases consistent with ⟨L, rep⟩ | ⟨c, stale⟩
  · exact ((rep.holds n tx).1 found).2
  · rw [stale.lookup n] at found
    cases found

/-- The cache of a consistent map is `nil`, or the map's transactions sorted by nonce, unless the
map is empty. -/
theorem Consistent.cache (consistent : Consistent nonce m) :
    m.cache = none ∨ m.cache = some (sortByNonce nonce (m.items.entries.map (·.2))) ∨ m.items.entries = [] := by
  rcases consistent with ⟨L, rep⟩ | ⟨c, stale⟩
  · rw [rep.holds.sortByNonce rep.sorted]
    rcases rep.cache with none | cached
    · exact .inl none
    · exact .inr (.inl cached)
  · exact .inr (.inr stale.entries)

/-- Over every run from a new map the heap holds the map's nonces once each, in increasing
order, every transaction sits under its own nonce, and the cache is `nil`, the map's
transactions sorted by nonce, or left over in an empty map. -/
theorem reachable_views {ops : List (Op Tx)} (ran : run nonce newTxSortedMap ops = some m) :
    (m.index.Perm m.items.keys ∧ m.index.Pairwise (· < ·)) ∧
      (∀ n tx, m.items.lookup n = some tx → nonce tx = n) ∧
      (m.cache = none ∨ m.cache = some (sortByNonce nonce (m.items.entries.map (·.2))) ∨
        m.items.entries = []) := by
  have consistent := run_consistent (.inl ⟨[], represents_new⟩) ran
  exact ⟨consistent.index, fun _ _ found => consistent.lookup found, consistent.cache⟩

/-- Two transactions put into a new map and flattened. -/
theorem reachable_views_put_flatten :
    ∃ m, run id newTxSortedMap [.put 0, .put 1, .flatten] = some m ∧
      (m.index.Perm m.items.keys ∧ m.index.Pairwise (· < ·)) ∧
      (∀ n tx, m.items.lookup n = some tx → id tx = n) ∧
      (m.cache = none ∨ m.cache = some (sortByNonce id (m.items.entries.map (·.2))) ∨
        m.items.entries = []) :=
  have ran : run id newTxSortedMap [.put 0, .put 1, .flatten] =
      some (Flatten id (Put id (Put id newTxSortedMap 0) 1)).1 := rfl
  ⟨_, ran, reachable_views ran⟩

end Run

end TxSortedMap

end Indigo.Core
