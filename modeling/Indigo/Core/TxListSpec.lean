import Indigo.Core.TxList
import Mathlib.Data.List.GetD
import Mathlib.Data.List.TakeDrop

/-!
# What each operation of the nonce-sorted map does

The three views of a `txSortedMap` agree when they all hold one list `L` of transactions sorted
by nonce (`Represents`): the map holds `L`, each transaction under its nonce, the heap holds
the nonces of `L`, and the cache is `L` or `nil`. Each operation is shown to take a map that
represents `L` to one that represents the list its contract names, and to report exactly the
transactions its contract names, except one.

`Ready` with a cache runs through it while the nonces count up, and cuts the cache at the first
gap. When the run covers the whole cache there is no gap, and the cache is left as it was
(`Indigo.Core.TxListRun`): `Ready_represents` asks for no cache or a run that stops early.

## Main results

- `Put_represents`, `Forward_represents`, `Cap_represents`, `Flatten_represents`,
  `ForLast_represents`, `Last_represents`: the list each operation leaves, and what it reports.
- `Filter_strict_represents`, `Filter_loose_represents`: the first match and every later
  transaction, or every match.
- `Remove_absent`, `Remove_loose_represents`, `Remove_strict_represents`: the nonce alone, or it
  and every higher one.
- `Ready_represents`: the run of nonces counting up from the least one.

## Proof strategy

`Holds nonce items L` says what the map holds in terms of `L` alone, so that every update of the
map (`erase`, `insert`, `deleteAll`) is one lemma about `L`. The heap and the cache are then
determined by `L`: a sorted list is fixed by its elements (`KeySorted.eq_of_mem_iff`), so
`rebuild` and `ensureCache` give the nonces of `L` and `L` itself. Each loop is proved by
induction on `L`, with the map holding what is left of it.
-/

namespace Indigo.Core

open Indigo.Lib

namespace TxSortedMap

variable {Tx : Type} {nonce : Tx → Nat}

/-! ### The map holds a list -/

/-- The map holds the transactions of `L`, each under its nonce. -/
def Holds (nonce : Tx → Nat) (items : AList fun _ : Nat => Tx) (L : List Tx) : Prop :=
  ∀ n tx, items.lookup n = some tx ↔ tx ∈ L ∧ nonce tx = n

/-- The three views agree on `L`, sorted by nonce: the map holds `L`, the heap its nonces, and
the cache is `L` or `nil`. -/
structure Represents (nonce : Tx → Nat) (m : TxSortedMap Tx) (L : List Tx) : Prop where
  sorted : KeySorted nonce L
  holds : Holds nonce m.items L
  index : m.index = L.map nonce
  cache : m.cache = none ∨ m.cache = some L

section Holds

variable {items : AList fun _ : Nat => Tx} {L L' : List Tx}

theorem holds_empty : Holds nonce (∅ : AList fun _ : Nat => Tx) [] := by
  intro n tx
  simp

theorem Holds.lookup_of_mem (holds : Holds nonce items L) {tx : Tx} (mem : tx ∈ L) :
    items.lookup (nonce tx) = some tx :=
  (holds _ _).2 ⟨mem, rfl⟩

/-- What the map holds depends only on the elements of the list. -/
theorem Holds.of_mem_iff (holds : Holds nonce items L) (same : ∀ tx, tx ∈ L ↔ tx ∈ L') :
    Holds nonce items L' := by
  intro n tx
  rw [holds, same]

/-- Deleting the nonces of `B` deletes exactly those. -/
theorem lookup_deleteAll (B : List Tx) (items : AList fun _ : Nat => Tx) (n : Nat) :
    (TxSortedMap.deleteAll nonce B items).lookup n = if n ∈ B.map nonce then none else items.lookup n := by
  induction B generalizing items with
  | nil => simp [TxSortedMap.deleteAll]
  | cons b B ih =>
    simp only [TxSortedMap.deleteAll, List.foldl_cons] at ih ⊢
    rw [ih]
    by_cases same : n = nonce b
    · subst same
      simp
    · simp [same, AList.lookup_erase_ne same]

/-- Deleting the nonces of `B` from a map that holds `A` and `B`, which share no nonce, leaves
`A`. -/
theorem Holds.deleteAll {A B : List Tx} (holds : Holds nonce items (A ++ B))
    (apart : ∀ a ∈ A, ∀ b ∈ B, nonce a ≠ nonce b) : Holds nonce (TxSortedMap.deleteAll nonce B items) A := by
  intro n tx
  rw [lookup_deleteAll]
  split
  · rename_i deleted
    obtain ⟨b, mb, rfl⟩ := List.mem_map.1 deleted
    simp only [reduceCtorEq, false_iff, not_and]
    exact fun ma same => apart tx ma b mb same
  · rename_i kept
    rw [holds, List.mem_append]
    constructor
    · rintro ⟨ma | mb, rfl⟩
      · exact ⟨ma, rfl⟩
      · exact absurd (List.mem_map_of_mem mb) kept
    · rintro ⟨ma, rfl⟩
      exact ⟨.inl ma, rfl⟩

/-- Deleting from an empty map leaves it empty. -/
theorem Holds.deleteAll_nil (holds : Holds nonce items []) (B : List Tx) :
    Holds nonce (TxSortedMap.deleteAll nonce B items) [] := by
  intro n tx
  rw [lookup_deleteAll]
  split
  · simp
  · exact holds n tx

/-- Deleting a nonce deletes the transactions of that nonce. -/
theorem Holds.erase (holds : Holds nonce items L) (k : Nat) :
    Holds nonce (items.erase k) (L.filter fun b => decide (nonce b ≠ k)) := by
  intro n tx
  by_cases same : n = k
  · subst same
    simp only [AList.lookup_erase, reduceCtorEq, false_iff, List.mem_filter, decide_eq_true_eq]
    exact fun ⟨⟨_, other⟩, key⟩ => other key
  · rw [AList.lookup_erase_ne same, holds, List.mem_filter, decide_eq_true_eq]
    constructor
    · rintro ⟨mem, rfl⟩
      exact ⟨⟨mem, same⟩, rfl⟩
    · rintro ⟨⟨mem, -⟩, key⟩
      exact ⟨mem, key⟩

/-- Deleting the nonce of the head of a sorted list leaves the rest. -/
theorem Holds.erase_head {tx : Tx} (holds : Holds nonce items (tx :: L)) (sorted : KeySorted nonce (tx :: L)) :
    Holds nonce (items.erase (nonce tx)) L := by
  have moved : Holds nonce items (L ++ [tx]) := holds.of_mem_iff fun a => by simp [or_comm]
  have apart : ∀ a ∈ L, ∀ b ∈ [tx], nonce a ≠ nonce b := by
    intro a ma b mb
    rw [List.mem_singleton.1 mb]
    exact Nat.ne_of_gt ((keySorted_cons.1 sorted).1 a ma)
  exact moved.deleteAll apart

/-- The nonces of the map are those of the list. -/
theorem Holds.mem_keys (holds : Holds nonce items L) (n : Nat) : n ∈ items.keys ↔ n ∈ L.map nonce := by
  rw [← AList.mem_keys, ← AList.lookup_isSome, Option.isSome_iff_exists, List.mem_map]
  constructor
  · rintro ⟨tx, found⟩
    exact ⟨tx, ((holds n tx).1 found).1, ((holds n tx).1 found).2⟩
  · rintro ⟨tx, mem, rfl⟩
    exact ⟨tx, holds.lookup_of_mem mem⟩

/-- The transactions of the map are those of the list. -/
theorem Holds.mem_values (holds : Holds nonce items L) (tx : Tx) :
    tx ∈ items.entries.map (·.2) ↔ tx ∈ L := by
  rw [List.mem_map]
  constructor
  · rintro ⟨⟨n, tx⟩, entry, rfl⟩
    exact ((holds n tx).1 (AList.mem_lookup_iff.2 entry)).1
  · intro mem
    exact ⟨⟨nonce tx, tx⟩, AList.mem_lookup_iff.1 (holds.lookup_of_mem mem), rfl⟩

/-- The map's nonces are those of the list, each once. -/
theorem Holds.keys_perm (holds : Holds nonce items L) (sorted : KeySorted nonce L) :
    items.keys.Perm (L.map nonce) :=
  (List.perm_ext_iff_of_nodup (AList.keys_nodup items) sorted.nodup_map).2 holds.mem_keys

/-- The heap rebuilt from the map holds the nonces of the list, in order. -/
theorem Holds.rebuild (holds : Holds nonce items L) (sorted : KeySorted nonce L) :
    TxSortedMap.rebuild items = L.map nonce :=
  heapInit_eq (holds.keys_perm sorted) (keySorted_iff_map.1 sorted)

/-- The map has as many entries as the list. -/
theorem Holds.length (holds : Holds nonce items L) (sorted : KeySorted nonce L) :
    items.entries.length = L.length := by
  rw [← List.length_map (f := nonce), ← (holds.keys_perm sorted).length_eq, AList.keys, List.keys,
    List.length_map]

/-- The map's transactions are the list's, in the map's order. -/
theorem Holds.values_perm (holds : Holds nonce items L) (sorted : KeySorted nonce L) :
    (items.entries.map (·.2)).Perm L := by
  -- two entries with one transaction are one: its nonce is their key
  have nodup : (items.entries.map (·.2)).Nodup := by
    refine List.Nodup.map_on (fun ⟨n, a⟩ ea ⟨k, b⟩ eb same => ?_) items.nodupKeys.nodup
    have keyA := ((holds n a).1 (AList.mem_lookup_iff.2 ea)).2
    have keyB := ((holds k b).1 (AList.mem_lookup_iff.2 eb)).2
    simp only at same
    subst same
    rw [← keyA, ← keyB]
  exact (List.perm_ext_iff_of_nodup nodup sorted.nodup).2 holds.mem_values

/-- Sorting the map's transactions gives the list. -/
theorem Holds.sortByNonce (holds : Holds nonce items L) (sorted : KeySorted nonce L) :
    TxSortedMap.sortByNonce nonce (items.entries.map (·.2)) = L :=
  mergeSort_eq_of_keySorted (holds.values_perm sorted) sorted

end Holds

section Represents

variable {m : TxSortedMap Tx} {L : List Tx}

theorem represents_new : Represents nonce newTxSortedMap ([] : List Tx) where
  sorted := keySorted_nil
  holds := holds_empty
  index := rfl
  cache := .inl rfl

/-- `ensureCache` builds the list, or finds it. -/
theorem Represents.ensureCache (rep : Represents nonce m L) : ensureCache nonce m = L := by
  rcases rep.cache with none | cached
  · rw [TxSortedMap.ensureCache, none, Option.getD_none, rep.holds.sortByNonce rep.sorted]
  · rw [TxSortedMap.ensureCache, cached, Option.getD_some]

theorem Represents.Len (rep : Represents nonce m L) : Len m = L.length :=
  rep.holds.length rep.sorted

end Represents

/-! ### `Put` and `Forward` -/

/-- The list with `tx` in place of the transaction of its nonce, if any. -/
def putList (nonce : Tx → Nat) (tx : Tx) (L : List Tx) : List Tx :=
  L.filter (fun b => decide (nonce b < nonce tx)) ++ tx :: L.filter fun b => decide (nonce tx < nonce b)

section PutForward

variable {m : TxSortedMap Tx} {L : List Tx}

theorem mem_putList {tx a : Tx} :
    a ∈ putList nonce tx L ↔ a = tx ∨ a ∈ L ∧ nonce a ≠ nonce tx := by
  simp only [putList, List.mem_append, List.mem_filter, List.mem_cons, decide_eq_true_eq]
  constructor
  · rintro (⟨mem, below⟩ | rfl | ⟨mem, above⟩)
    · exact .inr ⟨mem, Nat.ne_of_lt below⟩
    · exact .inl rfl
    · exact .inr ⟨mem, Nat.ne_of_gt above⟩
  · rintro (rfl | ⟨mem, other⟩)
    · exact .inr (.inl rfl)
    · rcases Nat.lt_or_gt_of_ne other with below | above
      · exact .inl ⟨mem, below⟩
      · exact .inr (.inr ⟨mem, above⟩)

theorem keySorted_putList (sorted : KeySorted nonce L) (tx : Tx) : KeySorted nonce (putList nonce tx L) := by
  refine List.pairwise_append.2 ⟨sorted.filter _, keySorted_cons.2 ⟨fun b mb => ?_, sorted.filter _⟩, ?_⟩
  · simpa using (List.mem_filter.1 mb).2
  · intro a ma b mb
    have below : nonce a < nonce tx := by simpa using (List.mem_filter.1 ma).2
    rcases List.mem_cons.1 mb with rfl | mb
    · exact below
    · exact Nat.lt_trans below (by simpa using (List.mem_filter.1 mb).2)

/-- `Put` leaves the list with `tx` in place of the transaction of its nonce. -/
theorem Put_represents (rep : Represents nonce m L) (tx : Tx) :
    Represents nonce (Put nonce m tx) (putList nonce tx L) := by
  have sorted := keySorted_putList rep.sorted tx
  refine ⟨sorted, fun n a => ?_, ?_, .inl rfl⟩
  · -- the new transaction under its nonce, the others as they were
    by_cases same : n = nonce tx
    · subst same
      simp only [Put, AList.lookup_insert, Option.some.injEq, mem_putList]
      constructor
      · rintro rfl
        exact ⟨.inl rfl, rfl⟩
      · rintro ⟨rfl | ⟨-, other⟩, key⟩
        · rfl
        · exact absurd key other
    · simp only [Put, AList.lookup_insert_ne same, rep.holds n a, mem_putList]
      constructor
      · rintro ⟨mem, rfl⟩
        exact ⟨.inr ⟨mem, same⟩, rfl⟩
      · rintro ⟨rfl | ⟨mem, -⟩, key⟩
        · exact absurd key.symm same
        · exact ⟨mem, key⟩
  · -- the heap gains the nonce if it is new
    have nonces : ∀ k, k ∈ (putList nonce tx L).map nonce ↔ k = nonce tx ∨ k ∈ L.map nonce := by
      intro k
      simp only [List.mem_map, mem_putList]
      constructor
      · rintro ⟨a, rfl | ⟨mem, -⟩, rfl⟩
        · exact .inl rfl
        · exact .inr ⟨a, mem, rfl⟩
      · rintro (rfl | ⟨a, mem, rfl⟩)
        · exact ⟨tx, .inl rfl, rfl⟩
        · by_cases other : nonce a = nonce tx
          · exact ⟨tx, .inl rfl, other.symm⟩
          · exact ⟨a, .inr ⟨mem, other⟩, rfl⟩
    simp only [Put]
    split
    · rename_i fresh
      have absent : nonce tx ∉ L.map nonce := by
        rw [← rep.holds.mem_keys, ← AList.mem_keys, ← AList.lookup_isSome]
        simpa using fresh
      refine heapPush_eq (rep.index ▸ keySorted_iff_map.1 rep.sorted) ?_ (keySorted_iff_map.1 sorted)
      rw [rep.index]
      refine (List.perm_ext_iff_of_nodup (List.nodup_cons.2 ⟨absent, rep.sorted.nodup_map⟩)
        sorted.nodup_map).2 fun k => ?_
      rw [nonces, List.mem_cons]
    · rename_i present
      have listed : nonce tx ∈ L.map nonce := by
        rw [← rep.holds.mem_keys, ← AList.mem_keys, ← AList.lookup_isSome]
        exact Option.isSome_iff_ne_none.2 (by simpa using present)
      rw [rep.index]
      refine (@KeySorted.eq_of_mem_iff Nat id _ _ (keySorted_iff_map.1 rep.sorted)
        (keySorted_iff_map.1 sorted) fun k => ?_)
      rw [nonces]
      constructor
      · exact .inr
      · rintro (rfl | mem)
        · exact listed
        · exact mem

/-- The loop of `Forward` pops the prefix below the threshold. -/
theorem forwardLoop_eq (threshold : Nat) :
    ∀ {L : List Tx} {items : AList fun _ : Nat => Tx} (acc : List Tx), KeySorted nonce L → Holds nonce items L →
      ∃ items', forwardLoop threshold (L.map nonce) items acc =
          ((L.dropWhile fun tx => decide (nonce tx < threshold)).map nonce, items',
            acc ++ L.takeWhile fun tx => decide (nonce tx < threshold)) ∧
        Holds nonce items' (L.dropWhile fun tx => decide (nonce tx < threshold))
  | [], items, acc, _, holds => ⟨items, by simp [forwardLoop], holds⟩
  | tx :: L, items, acc, sorted, holds => by
    by_cases below : nonce tx < threshold
    · -- popped: the map loses the head, and the loop goes on with the rest
      obtain ⟨items', loop, holds'⟩ :=
        forwardLoop_eq threshold (acc ++ [tx]) (keySorted_cons.1 sorted).2 (holds.erase_head sorted)
      refine ⟨items', ?_, by simpa [below] using holds'⟩
      simp only [List.map_cons, forwardLoop, below, if_true, holds.lookup_of_mem List.mem_cons_self,
        Option.toList_some, loop]
      simp [below]
    · exact ⟨items, by simp [forwardLoop, below], by simpa [below] using holds⟩

/-- `Forward` removes the transactions below the threshold, in nonce order. -/
theorem Forward_represents (rep : Represents nonce m L) (threshold : Nat) :
    Represents nonce (Forward m threshold).1 (L.filter fun tx => decide (threshold ≤ nonce tx)) ∧
      (Forward m threshold).2 = L.filter fun tx => decide (nonce tx < threshold) := by
  obtain ⟨items', loop, holds'⟩ := forwardLoop_eq threshold [] rep.sorted rep.holds
  rw [rep.sorted.takeWhile_lt, rep.sorted.dropWhile_lt] at loop
  rw [rep.sorted.dropWhile_lt] at holds'
  -- the cache loses the popped prefix from its front
  have front : ∀ {T D : List Tx}, T ++ D = L → L.drop (L.length - D.length) = D := by
    rintro T D rfl
    rw [List.length_append, Nat.add_sub_cancel, List.drop_left]
  have split := List.takeWhile_append_dropWhile (p := fun tx => decide (nonce tx < threshold)) (l := L)
  rw [rep.sorted.takeWhile_lt, rep.sorted.dropWhile_lt] at split
  simp only [Forward, rep.index, loop, List.nil_append, List.length_map]
  refine ⟨⟨rep.sorted.filter _, holds', rfl, ?_⟩, trivial⟩
  rcases rep.cache with none | cached
  · exact .inl (by rw [none]; rfl)
  · exact .inr (by rw [cached, Option.map_some, front split])

end PutForward

/-! ### `Cap` -/

section Cap

variable {m : TxSortedMap Tx} {L : List Tx}

/-- The loop of `Cap` deletes the transactions from position `size - 1` down to `threshold`. -/
theorem capLoop_eq (sorted : KeySorted nonce L) (threshold : Nat) :
    ∀ size (items : AList fun _ : Nat => Tx) (acc : List Tx), threshold ≤ size → size ≤ L.length →
      Holds nonce items (L.take size) →
      ∃ items', capLoop (L.map nonce) threshold size items acc =
          (items', acc ++ ((L.take size).drop threshold).reverse) ∧ Holds nonce items' (L.take threshold)
  | 0, items, acc, low, _, holds => by
    obtain rfl : threshold = 0 := Nat.le_zero.1 low
    exact ⟨items, by simp [capLoop], holds⟩
  | size + 1, items, acc, low, high, holds => by
    by_cases above : threshold < size + 1
    · -- the item at `size` goes, and the loop goes on below it
      have inside : size < L.length := by omega
      have split : L.take (size + 1) = L.take size ++ [L[size]] := (List.take_append_getElem inside).symm
      have apart : ∀ a ∈ L.take size, ∀ b ∈ [L[size]], nonce a ≠ nonce b := by
        have sortedTake : KeySorted nonce (L.take size ++ [L[size]]) :=
          split ▸ sorted.sublist (List.take_sublist _ _)
        exact fun a ma b mb => Nat.ne_of_lt ((List.pairwise_append.1 sortedTake).2.2 a ma b mb)
      have erased : Holds nonce (items.erase (nonce L[size])) (L.take size) :=
        (split ▸ holds : Holds nonce items (L.take size ++ [L[size]])).deleteAll apart
      obtain ⟨items', loop, holds'⟩ :=
        capLoop_eq sorted threshold size _ (acc ++ [L[size]]) (by omega) (by omega) erased
      have found : items.lookup (nonce L[size]) = some L[size] :=
        holds.lookup_of_mem (split ▸ List.mem_append_right _ (List.mem_singleton_self _))
      refine ⟨items', ?_, holds'⟩
      rw [capLoop, if_pos above]
      dsimp only
      rw [List.getD_eq_getElem _ _ (by simpa using inside), List.getElem_map, found,
        Option.toList_some, loop, split, List.drop_append_of_le_length (by simp; omega)]
      simp
    · obtain rfl : threshold = size + 1 := by omega
      exact ⟨items, by simp [capLoop], holds⟩

/-- `Cap` keeps the `threshold` lowest nonces, and reports the others from the top down. -/
theorem Cap_represents (rep : Represents nonce m L) (threshold : Nat) :
    Represents nonce (Cap m threshold).1 (L.take threshold) ∧ (Cap m threshold).2 = (L.drop threshold).reverse := by
  have length := rep.holds.length rep.sorted
  unfold Cap
  split
  · rename_i under
    rw [length] at under
    rw [List.take_of_length_le under, List.drop_of_length_le under]
    exact ⟨rep, rfl⟩
  · rename_i large
    rw [length] at large
    have heap : heapInit m.index = L.map nonce :=
      heapInit_eq (by rw [rep.index]) (keySorted_iff_map.1 rep.sorted)
    obtain ⟨items', loop, holds'⟩ := capLoop_eq rep.sorted threshold L.length m.items []
      (by omega) (Nat.le_refl _) (by rw [List.take_length]; exact rep.holds)
    rw [List.take_length] at loop
    have sortedTake := rep.sorted.sublist (List.take_sublist threshold L)
    simp only [heap, length, loop, List.nil_append]
    refine ⟨⟨sortedTake, holds', ?_, ?_⟩, trivial⟩
    · rw [← List.map_take]
      exact heapInit_eq (List.Perm.refl _) (keySorted_iff_map.1 sortedTake)
    · rcases rep.cache with none | cached
      · exact .inl (by rw [none]; rfl)
      · refine .inr ?_
        rw [cached, Option.map_some, show L.length - (L.length - threshold) = threshold by omega]

end Cap

/-! ### `Remove` and `Filter` -/

section RemoveFilter

variable {m : TxSortedMap Tx} {L : List Tx}

/-- Deleting the nonces of a part of a sorted list, in any order, leaves the rest. -/
theorem Holds.deleteAll_filter {items : AList fun _ : Nat => Tx} (holds : Holds nonce items L)
    (sorted : KeySorted nonce L) (p : Tx → Bool) {B : List Tx} (part : ∀ tx, tx ∈ B ↔ tx ∈ L.filter p) :
    Holds nonce (TxSortedMap.deleteAll nonce B items) (L.filter fun tx => !p tx) := by
  have moved : Holds nonce items (L.filter (fun tx => !p tx) ++ B) :=
    holds.of_mem_iff fun tx => by
      simp only [List.mem_append, part, List.mem_filter, Bool.not_eq_true']
      cases p tx <;> simp
  refine moved.deleteAll fun a ma b mb same => ?_
  rw [part] at mb
  have a_eq_b := sorted.eq_of_key_eq (List.mem_filter.1 ma).1 (List.mem_filter.1 mb).1 same
  have kept := (List.mem_filter.1 ma).2
  rw [a_eq_b, (List.mem_filter.1 mb).2] at kept
  cases kept

/-- Without its nonce, `Remove` changes nothing and reports `false`. -/
theorem Remove_absent (rep : Represents nonce m L) {n : Nat} (absent : ∀ tx ∈ L, nonce tx ≠ n) (strict : Bool) :
    Remove nonce m n strict = (m, false, []) := by
  have none : m.items.lookup n = none := by
    rcases found : m.items.lookup n with _ | tx
    · rfl
    · exact absurd ((rep.holds n tx).1 found).2 (absent tx ((rep.holds n tx).1 found).1)
  simp [Remove, none]

/-- `Remove` of the nonce of `tx`, not strict: only `tx` goes. -/
theorem Remove_loose_represents (rep : Represents nonce m L) {tx : Tx} (mem : tx ∈ L) :
    Represents nonce (Remove nonce m (nonce tx) false).1 (L.filter fun b => decide (nonce b ≠ nonce tx)) ∧
      (Remove nonce m (nonce tx) false).2 = (true, []) := by
  have present : (m.items.lookup (nonce tx)).isNone = false := by simp [rep.holds.lookup_of_mem mem]
  have result : Remove nonce m (nonce tx) false =
      ({ items := m.items.erase (nonce tx), index := m.index.erase (nonce tx),
         cache := some (L.eraseIdx (L.findIdx fun b => decide (nonce tx ≤ nonce b))) }, true, []) := by
    simp [Remove, present, rep.ensureCache]
  have heap : m.index.erase (nonce tx) = (L.filter fun b => decide (nonce b ≠ nonce tx)).map nonce := by
    rw [rep.index, List.Nodup.erase_eq_filter rep.sorted.nodup_map, List.filter_map]
    congr 2
    funext b
    by_cases same : nonce b = nonce tx <;> simp [same]
  rw [result]
  exact ⟨⟨rep.sorted.filter _, rep.holds.erase _, heap, .inr (by rw [rep.sorted.eraseIdx_findIdx mem])⟩, rfl⟩

/-- `Remove` of the nonce of `tx`, strict: `tx` goes, and every higher nonce is invalidated. -/
theorem Remove_strict_represents (rep : Represents nonce m L) {tx : Tx} (mem : tx ∈ L) :
    Represents nonce (Remove nonce m (nonce tx) true).1 (L.filter fun b => decide (nonce b < nonce tx)) ∧
      (Remove nonce m (nonce tx) true).2 = (true, L.filter fun b => decide (nonce tx < nonce b)) := by
  have present : (m.items.lookup (nonce tx)).isNone = false := by simp [rep.holds.lookup_of_mem mem]
  -- the higher nonces are deleted from what `erase` left
  have others := rep.holds.erase (nonce tx)
  have sortedOthers := rep.sorted.filter fun b => decide (nonce b ≠ nonce tx)
  have higher : (L.filter fun b => decide (nonce b ≠ nonce tx)).filter (fun b => decide (nonce tx < nonce b)) =
      L.filter fun b => decide (nonce tx < nonce b) := by
    rw [List.filter_filter]
    congr 1
    funext b
    by_cases lt : nonce tx < nonce b <;> simp [lt, Nat.ne_of_gt]
  have lower : (L.filter fun b => decide (nonce b ≠ nonce tx)).filter (fun b => !decide (nonce tx < nonce b)) =
      L.filter fun b => decide (nonce b < nonce tx) := by
    rw [List.filter_filter]
    congr 1
    funext b
    by_cases lt : nonce b < nonce tx
    · simp [lt, Nat.ne_of_lt lt, Nat.not_lt.2 (Nat.le_of_lt lt)]
    · by_cases eq : nonce b = nonce tx
      · simp [eq]
      · simp [lt, eq]
        omega
  have left := others.deleteAll_filter sortedOthers (fun b => decide (nonce tx < nonce b)) fun _ => Iff.rfl
  rw [higher, lower] at left
  have result : Remove nonce m (nonce tx) true =
      ({ items := deleteAll nonce (L.filter fun b => decide (nonce tx < nonce b)) (m.items.erase (nonce tx)),
         index := rebuild (deleteAll nonce (L.filter fun b => decide (nonce tx < nonce b)) (m.items.erase (nonce tx))),
         cache := some (L.filter fun b => decide (nonce b < nonce tx)) },
        true, L.filter fun b => decide (nonce tx < nonce b)) := by
    simp [Remove, present, rep.ensureCache, rep.sorted.drop_findIdx_succ mem, take_findIdx_le rep.sorted]
  have sortedLower := rep.sorted.filter fun b => decide (nonce b < nonce tx)
  rw [result]
  exact ⟨⟨sortedLower, left, left.rebuild sortedLower, .inr rfl⟩, rfl⟩

/-- `Filter` in strict mode keeps the transactions before the first match, and reports the
match as removed and every later transaction as invalid. -/
theorem Filter_strict_represents (rep : Represents nonce m L) (filter : Tx → Bool) :
    Represents nonce (Filter nonce m filter true).1 (L.takeWhile fun tx => !filter tx) ∧
      (Filter nonce m filter true).2 =
        ((L.dropWhile fun tx => !filter tx).take 1, (L.dropWhile fun tx => !filter tx).drop 1) := by
  have whole := List.takeWhile_append_dropWhile (p := fun tx => !filter tx) (l := L)
  simp only [Filter, if_true, filterStrict, rep.ensureCache, List.span_eq_takeWhile_dropWhile]
  generalize L.takeWhile (fun tx => !filter tx) = pre at whole ⊢
  cases rest : L.dropWhile fun tx => !filter tx with
  | nil =>
    rw [rest, List.append_nil] at whole
    subst whole
    exact ⟨⟨rep.sorted, rep.holds, rep.index, .inr rfl⟩, rfl⟩
  | cons tx post =>
    rw [rest] at whole
    subst whole
    -- the match and what follows it are deleted, which leaves what comes before
    have sortedPre := rep.sorted.sublist (List.sublist_append_left pre (tx :: post))
    have apart : ∀ a ∈ pre ++ post, ∀ b ∈ [tx], nonce a ≠ nonce b := by
      intro a ma b mb
      rw [List.mem_singleton.1 mb]
      have pairs := List.pairwise_append.1 rep.sorted
      rcases List.mem_append.1 ma with ma | ma
      · exact Nat.ne_of_lt (pairs.2.2 a ma tx List.mem_cons_self)
      · exact Nat.ne_of_gt ((keySorted_cons.1 pairs.2.1).1 a ma)
    have erased : Holds nonce (m.items.erase (nonce tx)) (pre ++ post) :=
      (rep.holds.of_mem_iff fun a => by simp only [List.mem_append, List.mem_cons]; tauto).deleteAll apart
    have apartPost : ∀ a ∈ pre, ∀ b ∈ post, nonce a ≠ nonce b := fun a ma b mb =>
      Nat.ne_of_lt ((List.pairwise_append.1 rep.sorted).2.2 a ma b (List.mem_cons_of_mem tx mb))
    have left := erased.deleteAll apartPost
    exact ⟨⟨sortedPre, left, left.rebuild sortedPre, .inr rfl⟩, rfl⟩

/-- `Filter` otherwise removes every match, reported in the map's order. -/
theorem Filter_loose_represents (rep : Represents nonce m L) (filter : Tx → Bool) :
    Represents nonce (Filter nonce m filter false).1 (L.filter fun tx => !filter tx) ∧
      (Filter nonce m filter false).2.1.Perm (L.filter filter) ∧ (Filter nonce m filter false).2.2 = [] := by
  have matched : ((m.items.entries.filter fun entry => filter entry.2).map (·.2)).Perm (L.filter filter) := by
    have reorder : (m.items.entries.filter fun entry => filter entry.2).map (·.2) =
        (m.items.entries.map (·.2)).filter filter := by
      rw [List.filter_map]
      rfl
    rw [reorder]
    exact (rep.holds.values_perm rep.sorted).filter filter
  simp only [Filter, Bool.false_eq_true, if_false, filterLoose]
  split
  · -- nothing matched: the list has no match either
    rename_i nothing
    rw [nothing] at matched
    have none : L.filter filter = [] := List.Perm.nil_eq matched |>.symm
    have all : (L.filter fun tx => !filter tx) = L :=
      List.filter_eq_self.2 fun tx mem => by
        have := List.filter_eq_nil_iff.1 none tx mem
        simpa using this
    rw [all, none]
    exact ⟨rep, List.Perm.refl _, trivial⟩
  · -- the matches are deleted and the heap rebuilt from what is left
    have left := rep.holds.deleteAll_filter rep.sorted filter fun tx => matched.mem_iff
    have sortedLeft := rep.sorted.filter fun tx => !filter tx
    exact ⟨⟨sortedLeft, left, left.rebuild sortedLeft, .inl rfl⟩, matched, trivial⟩

end RemoveFilter

/-! ### `Ready`, `Flatten`, `ForLast` and `Last` -/

/-- The run `Ready` takes from a sorted list: the nonces counting up from the least, when that is
at most `start`. -/
def readyRun (nonce : Tx → Nat) (start : Nat) : List Tx → List Tx
  | [] => []
  | first :: rest => if nonce first ≤ start then runFrom nonce (nonce first) (first :: rest) else []

section Ready

variable {m : TxSortedMap Tx} {L : List Tx}

/-- The run is a prefix of the list... -/
theorem readyRun_append_drop (start : Nat) (L : List Tx) :
    readyRun nonce start L ++ L.drop (readyRun nonce start L).length = L := by
  cases L with
  | nil => rfl
  | cons first rest =>
    simp only [readyRun]
    split
    · exact runFrom_append_drop _ _
    · rfl

/-- ...so a run as long as the list is the list. -/
theorem readyRun_eq_self {start : Nat} (long : L.length ≤ (readyRun nonce start L).length) :
    readyRun nonce start L = L := by
  have whole : readyRun nonce start L ++ L.drop (readyRun nonce start L).length = L :=
    readyRun_append_drop start L
  rwa [List.drop_of_length_le long, List.append_nil] at whole

/-- The heap loop of `Ready` pops the run of nonces counting up from `next`. -/
theorem readyLoop_eq :
    ∀ {L : List Tx} {items : AList fun _ : Nat => Tx} (next : Nat) (acc : List Tx),
      KeySorted nonce L → Holds nonce items L →
      ∃ items', readyLoop (L.map nonce) next items acc =
          ((L.drop (runFrom nonce next L).length).map nonce, items', acc ++ runFrom nonce next L) ∧
        Holds nonce items' (L.drop (runFrom nonce next L).length)
  | [], items, next, acc, _, holds => ⟨items, by simp [readyLoop, runFrom], holds⟩
  | tx :: L, items, next, acc, sorted, holds => by
    by_cases here : nonce tx = next
    · -- popped: the map loses the head, and the loop goes on from the next nonce
      subst here
      obtain ⟨items', loop, holds'⟩ :=
        readyLoop_eq (nonce tx + 1) (acc ++ [tx]) (keySorted_cons.1 sorted).2 (holds.erase_head sorted)
      refine ⟨items', ?_, by simpa [runFrom] using holds'⟩
      simp only [List.map_cons, readyLoop, if_true, holds.lookup_of_mem List.mem_cons_self,
        Option.toList_some, loop, runFrom]
      simp
    · exact ⟨items, by simp [readyLoop, runFrom, here], by simpa [runFrom, here] using holds⟩

/-- The cache loop of `Ready` takes the run from `next`; it cuts the cache to what follows only
if something does. -/
theorem readyCacheLoop_eq :
    ∀ {L : List Tx} {items : AList fun _ : Nat => Tx} (next : Nat) (acc : List Tx),
      KeySorted nonce L → Holds nonce items L →
      ∃ items', readyCacheLoop nonce L next items acc =
          (if (runFrom nonce next L).length < L.length then some (L.drop (runFrom nonce next L).length)
            else none, items', acc ++ runFrom nonce next L) ∧
        Holds nonce items' (L.drop (runFrom nonce next L).length)
  | [], items, next, acc, _, holds => ⟨items, by simp [readyCacheLoop, runFrom], holds⟩
  | tx :: L, items, next, acc, sorted, holds => by
    by_cases here : nonce tx = next
    · subst here
      obtain ⟨items', loop, holds'⟩ :=
        readyCacheLoop_eq (nonce tx + 1) (acc ++ [tx]) (keySorted_cons.1 sorted).2 (holds.erase_head sorted)
      refine ⟨items', ?_, by simpa [runFrom] using holds'⟩
      simp only [readyCacheLoop, ne_eq, not_true_eq_false, if_false, loop, runFrom, if_true]
      simp
    · exact ⟨items, by simp [readyCacheLoop, runFrom, here], by simpa [runFrom, here] using holds⟩

/-- `Ready` takes the run from the least nonce, unless it runs through a cached list: then the
cache is left as it was (`Ready_whole_run_stale`). -/
theorem Ready_represents (rep : Represents nonce m L) (start : Nat)
    (fresh : m.cache = none ∨ (readyRun nonce start L).length < L.length) :
    ∃ m', Ready nonce m start = some (m', readyRun nonce start L) ∧
      Represents nonce m' (L.drop (readyRun nonce start L).length) := by
  cases L with
  | nil => exact ⟨m, by simp [Ready, rep.index, readyRun], rep⟩
  | cons first rest =>
    by_cases late : nonce first ≤ start
    · have run : readyRun nonce start (first :: rest) = runFrom nonce (nonce first) (first :: rest) := by
        simp [readyRun, late]
      rw [run]
      have sortedRest := rep.sorted.sublist (List.drop_sublist
        (runFrom nonce (nonce first) (first :: rest)).length (first :: rest))
      rcases rep.cache with none | cached
      · -- the heap loop
        obtain ⟨items', loop, holds'⟩ := readyLoop_eq (nonce first) [] rep.sorted rep.holds
        rw [List.map_cons] at loop
        refine ⟨{ m with items := items', index := _ }, ?_, ⟨sortedRest, holds', rfl, .inl none⟩⟩
        simp only [Ready, rep.index, List.map_cons, gt_iff_lt, Nat.not_lt.2 late, if_false, none, loop,
          List.nil_append]
      · -- the cache loop, which stops before the end of the cache
        have short : (runFrom nonce (nonce first) (first :: rest)).length < rest.length + 1 := by
          rcases fresh with none | short
          · rw [cached] at none
            cases none
          · simpa [run] using short
        obtain ⟨items', loop, holds'⟩ := readyCacheLoop_eq (nonce first) [] rep.sorted rep.holds
        refine ⟨⟨items', rebuild items', some ((first :: rest).drop (runFrom nonce (nonce first) (first :: rest)).length)⟩,
          ?_, ⟨sortedRest, holds', holds'.rebuild sortedRest, .inr rfl⟩⟩
        simp only [Ready, rep.index, List.map_cons, gt_iff_lt, Nat.not_lt.2 late, if_false, cached,
          loop, List.length_cons, short, if_true, Option.getD_some, List.nil_append]
    · have early : readyRun nonce start (first :: rest) = [] := by simp [readyRun, late]
      refine ⟨m, ?_, by rw [early]; exact rep⟩
      simp only [Ready, rep.index, List.map_cons, gt_iff_lt, Nat.lt_of_not_le late, if_true, early]

/-- `Flatten` returns the list, and caches it. -/
theorem Flatten_represents (rep : Represents nonce m L) :
    Represents nonce (Flatten nonce m).1 L ∧ (Flatten nonce m).2 = L := by
  simp only [Flatten, rep.ensureCache]
  exact ⟨⟨rep.sorted, rep.holds, rep.index, .inr rfl⟩, trivial⟩

/-- `ForLast` removes and reports the last `k` transactions of the list. -/
theorem ForLast_represents (rep : Represents nonce m L) (k : Nat) :
    Represents nonce (ForLast nonce m k).1 (L.take (L.length - k)) ∧
      (ForLast nonce m k).2 = L.drop (L.length - k) := by
  have pairs := List.pairwise_append.1 ((List.take_append_drop (L.length - k) L).symm ▸ rep.sorted)
  have apart : ∀ a ∈ L.take (L.length - k), ∀ b ∈ L.drop (L.length - k), nonce a ≠ nonce b :=
    fun a ma b mb => Nat.ne_of_lt (pairs.2.2 a ma b mb)
  have left := (rep.holds.of_mem_iff fun tx => by rw [List.take_append_drop]).deleteAll apart
  simp only [ForLast, rep.ensureCache]
  exact ⟨⟨pairs.1, left, left.rebuild pairs.1, .inr rfl⟩, trivial⟩

/-- `Last` returns the last transaction of the list, and caches the list; on an empty list it
panics. -/
theorem Last_represents (rep : Represents nonce m L) :
    (Last nonce m).map (·.2) = L.getLast? ∧ ∀ p ∈ Last nonce m, Represents nonce p.1 L := by
  simp only [Last, rep.ensureCache]
  refine ⟨by simp, fun p found => ?_⟩
  obtain ⟨tx, -, rfl⟩ := Option.mem_map.1 found
  exact ⟨rep.sorted, rep.holds, rep.index, .inr rfl⟩

end Ready

end TxSortedMap

end Indigo.Core
