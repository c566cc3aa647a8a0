import Indigo.Discover.Invariant

/-!
# Random nodes from the table

`Table.ReadRandomNodes` fills a buffer with nodes of the table: it gathers the entries of the
non-empty buckets, shuffles the buckets, and then takes the head of one bucket after the other,
round robin, dropping a bucket once it is empty. The count it returns is the loop index plus
one. That is right when the loop stops because the buckets ran out, at the index of the last
node written; when the buffer fills first, the loop stops with the index at `len(buf)`, and
the count is one more than the nodes written.

`rand.Intn` of the shuffle is the argument `rand`, its value at the loop index taken modulo
the bound. The buffer is its length; the model returns the nodes written to it, in order.

## Main results

- `fill_eq`: while the buckets hold more nodes than the buffer has places left, the loop
  writes one node per place and returns the index at the end of the buffer, plus one.
- `ReadRandomNodes_overcounts`: a table with more entries than the buffer gets `len(buf) + 1`
  back, with `len(buf)` nodes written.

## Proof strategy

The loop takes one node per round from a list of non-empty buckets; the number of nodes left
in the buckets drops by one each round, which is the measure of `fill_eq`. The shuffle only
permutes the buckets (`shuffle_perm`), so the count of nodes is the table's.
-/

namespace Indigo.Discover

/-- The swap `buckets[i], buckets[j] = buckets[j], buckets[i]`. -/
def swap {α : Type} (l : List α) (i j : Nat) : List α :=
  match l[i]?, l[j]? with
  | some a, some b => (l.set i b).set j a
  | _, _ => l

/-- The shuffle of `ReadRandomNodes`, from the index `i` down to `1`: bucket `i` is swapped
with bucket `rand.Intn(len(buckets))`. -/
def shuffle (rand : Nat → Nat) : Nat → List (List Node) → List (List Node)
  | 0, buckets => buckets
  | i + 1, buckets => shuffle rand i (swap buckets (i + 1) (rand (i + 1) % buckets.length))

/-- The fill loop of `ReadRandomNodes`, with `left` places of the buffer still to go from index
`i`: the head of bucket `j` is written, the bucket loses it, an emptied bucket is cut out of
the list, and the loop stops once no bucket is left. The count returned is `i + 1`. `none` is
the panic of an index out of range, which the loop never reaches (`fill_eq`). -/
def fill : (left : Nat) → (i j : Nat) → List (List Node) → List Node → Option (Nat × List Node)
  | 0, i, _, _, written => some (i + 1, written)
  | left + 1, i, j, buckets, written =>
    match buckets[j]? with
    | some (n :: b) =>
      let buckets := if b = [] then buckets.eraseIdx j else buckets.set j b
      if buckets = [] then some (i + 1, written ++ [n])
      else fill left (i + 1) ((j + 1) % buckets.length) buckets (written ++ [n])
    | _ => none

/-- `ReadRandomNodes`, for a buffer of `bufLen` places: the count it returns and the nodes it
writes. -/
def ReadRandomNodes (tab : Table) (initDone : Bool) (rand : Nat → Nat) (bufLen : Nat) :
    Option (Nat × List Node) :=
  if !initDone then some (0, [])
  else
    -- Find all non-empty buckets and get a fresh slice of their entries.
    let buckets := (tab.buckets.toList.map (·.entries)).filter (· ≠ [])
    if buckets = [] then some (0, [])
    else fill bufLen 0 0 (shuffle rand (buckets.length - 1) buckets) []

/-! ### The count of nodes in a list of buckets -/

/-- The number of nodes in a list of buckets. -/
def nodeCount (buckets : List (List Node)) : Nat := (buckets.map List.length).sum

@[simp] theorem nodeCount_nil : nodeCount [] = 0 := rfl

@[simp] theorem nodeCount_cons (b : List Node) (buckets : List (List Node)) :
    nodeCount (b :: buckets) = b.length + nodeCount buckets := by
  simp [nodeCount]

theorem nodeCount_perm {l l' : List (List Node)} (p : l.Perm l') : nodeCount l = nodeCount l' :=
  (p.map List.length).sum_eq

/-- Overwriting bucket `n` changes the count by the difference of the two buckets. -/
theorem nodeCount_set {l : List (List Node)} {n : Nat} (h : n < l.length) (b : List Node) :
    nodeCount (l.set n b) + l[n].length = nodeCount l + b.length := by
  have set_perm := nodeCount_perm (List.set_perm_cons_eraseIdx h b)
  have erase_perm := nodeCount_perm (List.getElem_cons_eraseIdx_perm h)
  simp only [nodeCount_cons] at set_perm erase_perm
  omega

theorem nodeCount_eraseIdx {l : List (List Node)} {n : Nat} (h : n < l.length) :
    nodeCount (l.eraseIdx n) + l[n].length = nodeCount l := by
  have erase_perm := nodeCount_perm (List.getElem_cons_eraseIdx_perm h)
  simp only [nodeCount_cons] at erase_perm
  omega

/-- The empty buckets add nothing to the count. -/
theorem nodeCount_filter (l : List (List Node)) : nodeCount (l.filter (· ≠ [])) = nodeCount l := by
  induction l with
  | nil => rfl
  | cons b l ih =>
    rw [List.filter_cons]
    split
    · rw [nodeCount_cons, nodeCount_cons, ih]
    · next empty =>
      have : b = [] := by simpa using empty
      rw [nodeCount_cons, ih, this, List.length_nil, Nat.zero_add]

/-! ### The shuffle -/

/-- A list of buckets none of which is empty. -/
def AllNonEmpty (buckets : List (List Node)) : Prop := ∀ b ∈ buckets, b ≠ []

theorem swap_length {α : Type} (l : List α) (i j : Nat) : (swap l i j).length = l.length := by
  unfold swap
  split <;> simp

theorem swap_nodeCount (l : List (List Node)) (i j : Nat) : nodeCount (swap l i j) = nodeCount l := by
  unfold swap
  split
  · next a b hi hj =>
    obtain ⟨i_lt, rfl⟩ := List.getElem?_eq_some_iff.mp hi
    obtain ⟨j_lt, rfl⟩ := List.getElem?_eq_some_iff.mp hj
    -- after the first write, bucket `j` holds `l[j]` again, whether or not `i = j`
    have j_lt' : j < (l.set i l[j]).length := by simpa using j_lt
    have at_j : (l.set i l[j])[j] = l[j] := by
      rw [List.getElem_set]
      split <;> simp_all
    have first := nodeCount_set i_lt l[j]
    have second := nodeCount_set j_lt' l[i]
    rw [at_j] at second
    omega
  · rfl

theorem swap_allNonEmpty {l : List (List Node)} (ne : AllNonEmpty l) (i j : Nat) :
    AllNonEmpty (swap l i j) := by
  unfold swap
  split
  · next a b hi hj =>
    intro x mem
    rcases List.mem_or_eq_of_mem_set mem with mem | rfl
    · rcases List.mem_or_eq_of_mem_set mem with mem | rfl
      · exact ne x mem
      · exact ne x (List.mem_of_getElem? hj)
    · exact ne x (List.mem_of_getElem? hi)
  · exact ne

/-- What `fill` needs of the shuffled buckets: none empty, the same count and number as
before. -/
theorem shuffle_spec (rand : Nat → Nat) (i : Nat) {buckets : List (List Node)}
    (ne : AllNonEmpty buckets) :
    AllNonEmpty (shuffle rand i buckets) ∧
      nodeCount (shuffle rand i buckets) = nodeCount buckets ∧
      (shuffle rand i buckets).length = buckets.length := by
  induction i generalizing buckets with
  | zero => exact ⟨ne, rfl, rfl⟩
  | succ i ih =>
    obtain ⟨ne', count, len⟩ := ih (swap_allNonEmpty ne (i + 1) (rand (i + 1) % buckets.length))
    simp only [shuffle]
    exact ⟨ne', count.trans (swap_nodeCount ..), len.trans (swap_length ..)⟩

/-! ### The fill loop -/

section Fill

variable {buckets : List (List Node)} {j : Nat} {n : Node} {b : List Node}

-- the lemmas of this section compute `fill` by `simp`
attribute [local simp] fill

/-- One round of the loop: the buckets after the head of bucket `j` is taken. -/
theorem take_head_spec (ne : AllNonEmpty buckets) (j_lt : j < buckets.length)
    (at_j : buckets[j] = n :: b) :
    AllNonEmpty (if b = [] then buckets.eraseIdx j else buckets.set j b) ∧
      nodeCount (if b = [] then buckets.eraseIdx j else buckets.set j b) + 1 = nodeCount buckets := by
  by_cases last : b = []
  · subst last
    have count := nodeCount_eraseIdx j_lt
    rw [at_j] at count
    refine ⟨fun x mem => ne x (List.mem_of_mem_eraseIdx mem), ?_⟩
    simpa using count
  · have count := nodeCount_set j_lt b
    rw [at_j] at count
    simp only [if_neg last]
    refine ⟨fun x mem => ?_, by simp at count; omega⟩
    rcases List.mem_or_eq_of_mem_set mem with mem | rfl
    · exact ne x mem
    · exact last

/-- While the buckets hold more nodes than the places left, the loop writes one node to each
place and stops at the end of the buffer with the count one past it. -/
theorem fill_eq (left : Nat) :
    ∀ (i j : Nat) (buckets : List (List Node)) (written : List Node),
      AllNonEmpty buckets → j < buckets.length → left < nodeCount buckets →
      ∃ taken, fill left i j buckets written = some (i + left + 1, written ++ taken) ∧
        taken.length = left := by
  induction left with
  | zero => intro i j buckets written _ _ _; exact ⟨[], by simp⟩
  | succ left ih =>
    intro i j buckets written ne j_lt more
    obtain ⟨n, b, at_j⟩ : ∃ n b, buckets[j] = n :: b :=
      List.exists_cons_of_ne_nil (ne _ (List.getElem_mem j_lt))
    obtain ⟨ne', count⟩ := take_head_spec ne j_lt at_j
    -- the buckets left cannot all be gone: they still hold `left + 1 - 1` nodes or more
    have rest_ne : (if b = [] then buckets.eraseIdx j else buckets.set j b) ≠ [] := by
      intro gone
      rw [gone] at count
      simp at count
      omega
    obtain ⟨taken, run, len⟩ := ih (i + 1) _ _ (written ++ [n]) ne'
      (Nat.mod_lt _ (List.length_pos_of_ne_nil rest_ne)) (by omega)
    refine ⟨n :: taken, ?_, by simp [len]⟩
    simp only [fill, List.getElem?_eq_getElem j_lt, at_j, if_neg rest_ne]
    rw [run]
    simp [Nat.add_right_comm, Nat.add_assoc]

/-- Once the places left are as many as the nodes or more, the loop takes every node and
stops at the break, with the count the number of nodes written. -/
theorem fill_exhausts (left : Nat) :
    ∀ (i j : Nat) (buckets : List (List Node)) (written : List Node),
      AllNonEmpty buckets → buckets ≠ [] → j < buckets.length → nodeCount buckets ≤ left →
      ∃ taken, fill left i j buckets written = some (i + nodeCount buckets, written ++ taken) ∧
        taken.length = nodeCount buckets := by
  induction left with
  | zero =>
    intro i j buckets written ne some_bucket j_lt fewer
    -- a non-empty bucket holds a node, so there is no place for none
    have pos : 0 < buckets[j].length := List.length_pos_of_ne_nil (ne _ (List.getElem_mem j_lt))
    have count := nodeCount_set j_lt []
    simp at count
    omega
  | succ left ih =>
    intro i j buckets written ne some_bucket j_lt fewer
    obtain ⟨n, b, at_j⟩ : ∃ n b, buckets[j] = n :: b :=
      List.exists_cons_of_ne_nil (ne _ (List.getElem_mem j_lt))
    obtain ⟨ne', count⟩ := take_head_spec ne j_lt at_j
    simp only [fill, List.getElem?_eq_getElem j_lt, at_j]
    by_cases gone : (if b = [] then buckets.eraseIdx j else buckets.set j b) = []
    · -- the break: the node just written was the last one
      rw [gone] at count
      simp only [nodeCount_nil, Nat.zero_add] at count
      refine ⟨[n], ?_, by simp [← count]⟩
      rw [if_pos gone, ← count]
    · obtain ⟨taken, run, len⟩ := ih (i + 1) _ _ (written ++ [n]) ne' gone
        (Nat.mod_lt _ (List.length_pos_of_ne_nil gone)) (by omega)
      refine ⟨n :: taken, ?_, by simp [len]; omega⟩
      rw [if_neg gone, run]
      simp only [List.append_assoc, List.singleton_append, Option.some.injEq, Prod.mk.injEq, and_true]
      omega

/-- Whatever the buckets, the loop writes as many nodes as the count it returns says, or one
per place when the count is larger. -/
theorem length_fill (left : Nat) :
    ∀ (i j : Nat) (buckets : List (List Node)) (written : List Node) (c : Nat) (w : List Node),
      fill left i j buckets written = some (c, w) →
        i < c ∧ w.length = written.length + min (c - i) left := by
  induction left with
  | zero =>
    intro i j buckets written c w run
    simp only [fill, Option.some.injEq, Prod.mk.injEq] at run
    obtain ⟨rfl, rfl⟩ := run
    omega
  | succ left ih =>
    intro i j buckets written c w run
    simp only [fill] at run
    split at run
    · next n b _ =>
      generalize (if b = [] then buckets.eraseIdx j else buckets.set j b) = rest at run
      split at run
      · -- the break after the last node
        simp only [Option.some.injEq, Prod.mk.injEq] at run
        obtain ⟨rfl, rfl⟩ := run
        simp only [List.length_append, List.length_singleton]
        omega
      · obtain ⟨lt, len⟩ := ih _ _ _ _ c w run
        simp only [List.length_append, List.length_singleton] at len
        omega
    · cases run

end Fill

/-- The number of nodes in the table. -/
def Table.entryCount (tab : Table) : Nat := (tab.buckets.toList.map (·.entries.length)).sum

/-- With more entries in the table than places in the buffer, `ReadRandomNodes` fills the
buffer and reports one node more than it wrote. -/
theorem ReadRandomNodes_overcounts (tab : Table) (rand : Nat → Nat) (bufLen : Nat)
    (more : bufLen < tab.entryCount) :
    ∃ written, ReadRandomNodes tab true rand bufLen = some (bufLen + 1, written) ∧
      written.length = bufLen := by
  generalize gathered : (tab.buckets.toList.map (·.entries)).filter (· ≠ []) = buckets
  have ne : AllNonEmpty buckets := by
    rw [← gathered]
    intro b mem
    simpa using (List.mem_filter.mp mem).2
  have count : nodeCount buckets = tab.entryCount := by
    rw [← gathered, nodeCount_filter]
    simp [nodeCount, Table.entryCount, Function.comp_def]
  have some_nodes : buckets ≠ [] := by
    intro gone
    rw [gone] at count
    simp at count
    omega
  obtain ⟨ne', shuffled_count, shuffled_len⟩ := shuffle_spec rand (buckets.length - 1) ne
  obtain ⟨written, run, len⟩ := fill_eq bufLen 0 0 _ [] ne'
    (by rw [shuffled_len]; exact List.length_pos_of_ne_nil some_nodes)
    (by rw [shuffled_count, count]; exact more)
  refine ⟨written, ?_, len⟩
  simp only [ReadRandomNodes, Bool.not_true, Bool.false_eq_true, if_false]
  rw [gathered, if_neg some_nodes, run, Nat.zero_add, List.nil_append]

/-- Two nodes added to a new table and a buffer of one place: `ReadRandomNodes` writes one node
and returns `2`. -/
theorem ReadRandomNodes_overcounts_two :
    1 < ((newTable exampleSelf).run [.add (subnetNode 4 1), .add (subnetNode 5 2)]).entryCount ∧
      ∃ written, ReadRandomNodes ((newTable exampleSelf).run [.add (subnetNode 4 1),
          .add (subnetNode 5 2)]) true (fun _ => 0) 1 = some (2, written) ∧ written.length = 1 :=
  ⟨by decide, ReadRandomNodes_overcounts _ (fun _ => 0) 1 (by decide)⟩

/-- With no more entries than places, `ReadRandomNodes` writes every entry and reports as many. -/
theorem ReadRandomNodes_exhausts (tab : Table) (rand : Nat → Nat) (bufLen : Nat)
    (fewer : tab.entryCount ≤ bufLen) :
    ∃ written, ReadRandomNodes tab true rand bufLen = some (tab.entryCount, written) ∧
      written.length = tab.entryCount := by
  generalize gathered : (tab.buckets.toList.map (·.entries)).filter (· ≠ []) = buckets
  have ne : AllNonEmpty buckets := by
    rw [← gathered]
    intro b mem
    simpa using (List.mem_filter.mp mem).2
  have count : nodeCount buckets = tab.entryCount := by
    rw [← gathered, nodeCount_filter]
    simp [nodeCount, Table.entryCount, Function.comp_def]
  simp only [ReadRandomNodes, Bool.not_true, Bool.false_eq_true, if_false]
  rw [gathered]
  by_cases empty : buckets = []
  · -- an empty table: nothing is written
    rw [if_pos empty]
    rw [empty] at count
    exact ⟨[], by simp [← count]⟩
  · obtain ⟨ne', shuffled_count, shuffled_len⟩ := shuffle_spec rand (buckets.length - 1) ne
    have shuffled_ne : shuffle rand (buckets.length - 1) buckets ≠ [] := by
      rw [← List.length_pos_iff, shuffled_len]
      exact List.length_pos_of_ne_nil empty
    obtain ⟨written, run, len⟩ := fill_exhausts bufLen 0 0 _ [] ne' shuffled_ne
      (List.length_pos_of_ne_nil shuffled_ne) (by rw [shuffled_count, count]; exact fewer)
    rw [shuffled_count, count] at run len
    refine ⟨written, ?_, len⟩
    rw [if_neg empty, run, Nat.zero_add, List.nil_append]

/-- Whatever the table holds, `ReadRandomNodes` writes as many nodes as it reports, or the whole
buffer when it reports more. -/
theorem length_ReadRandomNodes {tab : Table} {initDone : Bool} {rand : Nat → Nat} {bufLen n : Nat}
    {written : List Node} (read : ReadRandomNodes tab initDone rand bufLen = some (n, written)) :
    written.length = min n bufLen := by
  unfold ReadRandomNodes at read
  split at read
  · simp only [Option.some.injEq, Prod.mk.injEq] at read
    obtain ⟨rfl, rfl⟩ := read
    simp
  · dsimp only at read
    split at read
    · simp only [Option.some.injEq, Prod.mk.injEq] at read
      obtain ⟨rfl, rfl⟩ := read
      simp
    · simpa using (length_fill bufLen 0 0 _ [] n written read).2

end Indigo.Discover
