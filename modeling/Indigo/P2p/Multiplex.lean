import Indigo.P2p.Protocols
import Indigo.Lib.Layout
import Indigo.Lib.KeySorted

/-!
# The codes of the subprotocols

`matchProtocols` gives each matched subprotocol its own range of message codes, and a message a
protocol writes comes back to that protocol with its own code.

## Main results

- `matchProtocols_codes_disjoint`: the ranges lie above the base protocol's codes, and no two
  protocols share a code.
- `handle_WriteMsg`: a message that a matched protocol writes is handed back to that protocol
  by a peer with the same protocols, in whatever order it walks them, with the code the protocol
  gave it.
- `matchProtocols_highest`: every capability both ends have is matched under its name, at the
  highest version both ends have.

## Proof strategy

The capabilities come sorted by name, so the entries of the map, taken in the order they were
made (`Laid`), have increasing names and ranges that lie one after the other from the sixteenth
code on (`Indigo.Lib.Tiles`). A capability of a new name takes the codes after the last range; one
of the name of the last entry takes that entry's codes back and its place. The ranges of a
layout are disjoint, and the map is a permutation of the layout.
-/

namespace Indigo.P2p

open Indigo.Lib Indigo.P2p.Rlpx

/-! ### The order of the capabilities -/

/-- The order `sortCaps` sorts by: by name, then by version. -/
def capLe (a b : Cap) : Bool := !capsByNameAndVersion.Less b a

theorem capLe_iff {a b : Cap} :
    capLe a b ↔ a.Name < b.Name ∨ a.Name = b.Name ∧ a.Version ≤ b.Version := by
  rcases lt_trichotomy a.Name b.Name with lt | same | gt
  · simp [capLe, capsByNameAndVersion.Less, lt, not_lt_of_gt lt, ne_of_gt lt]
  · simp [capLe, capsByNameAndVersion.Less, same]
  · simp [capLe, capsByNameAndVersion.Less, gt, not_lt_of_gt gt, ne_of_gt gt]

theorem capLe_name {a b : Cap} (le : capLe a b) : a.Name ≤ b.Name := by
  rcases capLe_iff.mp le with lt | ⟨same, -⟩
  · exact le_of_lt lt
  · exact le_of_eq same

theorem sortCaps_sorted (caps : List Cap) : (sortCaps caps).Pairwise fun a b => capLe a b := by
  apply List.pairwise_mergeSort
  · intro a b c first second
    rw [capLe_iff] at first second ⊢
    rcases first with lt | ⟨same, le⟩ <;> rcases second with lt' | ⟨same', le'⟩
    · exact .inl (lt_trans lt lt')
    · exact .inl (same' ▸ lt)
    · exact .inl (same ▸ lt')
    · exact .inr ⟨same.trans same', le.trans le'⟩
  · intro a b
    rcases lt_trichotomy a.Name b.Name with lt | same | gt
    · simp [capLe_iff, lt]
    · rcases Nat.le_total a.Version b.Version with le | le <;> simp [capLe_iff, same, le]
    · simp [capLe_iff, gt]

theorem mem_sortCaps {caps : List Cap} {cap : Cap} : cap ∈ sortCaps caps ↔ cap ∈ caps :=
  (List.mergeSort_perm caps _).mem_iff

theorem capLe_antisymm {a b : Cap} (le : capLe a b) (ge : capLe b a) : a = b := by
  rw [capLe_iff] at le ge
  have name : a.Name = b.Name := by
    rcases le with lt | ⟨same, -⟩
    · rcases ge with gt | ⟨same, -⟩
      · exact absurd (lt_trans lt gt) (lt_irrefl _)
      · exact same.symm
    · exact same
  have version : a.Version = b.Version := by
    rcases le with lt | ⟨-, le⟩
    · exact absurd name (ne_of_lt lt)
    rcases ge with gt | ⟨-, ge⟩
    · exact absurd name.symm (ne_of_lt gt)
    · exact Nat.le_antisymm le ge
  cases a
  cases b
  simp only at name version
  rw [name, version]

/-- The order separates any two capabilities, so every sort gives one list: Go's `sort.Sort`,
which is not stable, gives what `sortCaps` gives. -/
theorem sortCaps_eq_of_sorted {caps sorted : List Cap} (perm : caps.Perm sorted)
    (ordered : sorted.Pairwise fun a b => capLe a b) : sortCaps caps = sorted :=
  List.Perm.eq_of_pairwise (fun _ _ _ _ le ge => capLe_antisymm le ge) (sortCaps_sorted caps)
    ordered ((List.mergeSort_perm caps _).trans perm)

/-! ### The layout of the map -/

/-- The entry of the map for a matched protocol: under its name. -/
def entry (rw : protoRW) : Sigma fun _ : String => protoRW := ⟨rw.Protocol.Name, rw⟩

/-- The codes of a matched protocol, as a start and a length. -/
def span (rw : protoRW) : Nat × Nat := (rw.offset, rw.Length)

/-- The map `matchLoop` has built, with its entries in the order they were made: their ranges lie
one after the other from the end of the base protocol's codes to `offset`, and their names
increase. -/
structure Laid (offset : Nat) (result : ProtoMap) (layout : List protoRW) : Prop where
  entries : result.entries.Perm (layout.map entry)
  tiles : Tiles baseProtocolLength (layout.map span) offset
  names : layout.Pairwise fun a b => a.Protocol.Name < b.Protocol.Name

theorem laid_empty : Laid baseProtocolLength ∅ [] := ⟨.nil, rfl, .nil⟩

variable {offset : Nat} {result : ProtoMap} {layout : List protoRW}

theorem Laid.mem_entries (laid : Laid offset result layout) {e : Sigma fun _ : String => protoRW} :
    e ∈ result.entries ↔ ∃ rw ∈ layout, entry rw = e := by
  rw [laid.entries.mem_iff, List.mem_map]

/-- A name the map holds is the name of an entry of the layout. -/
theorem Laid.lookup_eq_some (laid : Laid offset result layout) {name : String} {rw : protoRW}
    (found : result.lookup name = some rw) : rw ∈ layout ∧ rw.Protocol.Name = name := by
  obtain ⟨rw', mem, same⟩ := laid.mem_entries.mp (AList.mem_lookup_iff.mp found)
  obtain ⟨named, rfl⟩ := Sigma.mk.inj_iff.mp same
  exact ⟨mem, named⟩

theorem Laid.mem_iff (laid : Laid offset result layout) {name : String} :
    name ∈ result ↔ ∃ rw ∈ layout, rw.Protocol.Name = name := by
  constructor
  · intro mem
    obtain ⟨rw, found⟩ := Option.isSome_iff_exists.mp (AList.lookup_isSome.mpr mem)
    obtain ⟨inside, named⟩ := laid.lookup_eq_some found
    exact ⟨rw, inside, named⟩
  · rintro ⟨rw, inside, rfl⟩
    exact AList.mem_keys.mpr (List.mem_keys_of_mem (laid.mem_entries.mpr ⟨rw, inside, rfl⟩))

/-- A protocol of a name after all others takes the codes from `offset` on. -/
theorem Laid.append (laid : Laid offset result layout) {proto : Protocol}
    (above : ∀ rw ∈ layout, rw.Protocol.Name < proto.Name) :
    Laid (offset + proto.Length) (result.insert proto.Name ⟨proto, offset⟩)
      (layout ++ [⟨proto, offset⟩]) := by
  have fresh : proto.Name ∉ result := fun mem => by
    obtain ⟨rw, inside, named⟩ := laid.mem_iff.mp mem
    exact lt_irrefl _ (named ▸ above rw inside)
  refine ⟨?_, ?_, ?_⟩
  · rw [AList.entries_insert_of_notMem fresh, List.map_append, List.map_singleton]
    exact (laid.entries.cons _).trans (List.perm_append_singleton _ _).symm
  · rw [List.map_append, List.map_singleton, Tiles.snoc_iff]
    exact ⟨laid.tiles, rfl⟩
  · refine List.pairwise_append.mpr ⟨laid.names, List.pairwise_singleton _ _, ?_⟩
    intro a inside b last
    rw [List.mem_singleton.mp last]
    exact above a inside

/-- The entry of a name no entry is above is the last of the layout. -/
theorem Laid.eq_snoc (laid : Laid offset result layout) {name : String} {old : protoRW}
    (found : result.lookup name = some old) (below : ∀ rw ∈ layout, rw.Protocol.Name ≤ name) :
    ∃ init, layout = init ++ [old] := by
  obtain ⟨inside, named⟩ := laid.lookup_eq_some found
  obtain ⟨init, after, rfl⟩ := List.append_of_mem inside
  cases after with
  | nil => exact ⟨init, rfl⟩
  | cons next after =>
    -- a later entry would have a name above `name`
    have lt : old.Protocol.Name < next.Protocol.Name :=
      List.rel_of_pairwise_cons (List.pairwise_append.mp laid.names).2.1 List.mem_cons_self
    have le := below next (by simp)
    exact absurd (named ▸ lt) (not_lt_of_ge le)

/-- The codes of the last entry end at `offset`. -/
theorem Laid.sub_last {init : List protoRW} {old : protoRW}
    (laid : Laid offset result (init ++ [old])) : offset - old.Length = old.offset := by
  have tiles := laid.tiles
  rw [List.map_append, List.map_singleton, Tiles.snoc_iff] at tiles
  simp only [span] at tiles
  omega

/-- A protocol of the name of the last entry takes that entry's codes back and its place. -/
theorem Laid.replace {init : List protoRW} {old : protoRW} {proto : Protocol}
    (laid : Laid offset result (init ++ [old])) (named : old.Protocol.Name = proto.Name) :
    Laid (old.offset + proto.Length) (result.insert proto.Name ⟨proto, old.offset⟩)
      (init ++ [⟨proto, old.offset⟩]) := by
  obtain ⟨entries, tiles, names⟩ := laid
  rw [List.map_append, List.map_singleton, Tiles.snoc_iff] at tiles
  obtain ⟨names, -, before⟩ := List.pairwise_append.mp names
  have below : ∀ rw ∈ init, rw.Protocol.Name < proto.Name := fun rw inside =>
    named ▸ before rw inside old List.mem_cons_self
  have fresh : proto.Name ∉ (init.map entry).keys := by
    simp only [List.keys, List.map_map, List.mem_map, not_exists, not_and]
    exact fun rw inside same => ne_of_lt (below rw inside) same
  refine ⟨?_, ?_, ?_⟩
  · -- the old entry leaves the map and the new one comes in its place
    rw [AList.entries_insert, List.map_append, List.map_singleton]
    have erased := entries.kerase (a := proto.Name) result.nodupKeys
    rw [List.map_append, List.map_singleton, List.kerase_append_right fresh, List.kerase_cons_eq (s := entry old) named.symm, List.append_nil] at erased
    exact (erased.cons _).trans (List.perm_append_singleton _ _).symm
  · rw [List.map_append, List.map_singleton, Tiles.snoc_iff]
    exact ⟨tiles.1, rfl⟩
  · refine List.pairwise_append.mpr ⟨names, List.pairwise_singleton _ _, ?_⟩
    intro a inside b last
    rw [List.mem_singleton.mp last]
    exact below a inside

theorem names_of_find? {protocols : List Protocol} {cap : Cap} {proto : Protocol}
    (found : protocols.find? cap.names = some proto) :
    proto ∈ protocols ∧ proto.Name = cap.Name ∧ proto.Version = cap.Version := by
  have names := List.find?_some found
  simp only [Cap.names, Bool.and_eq_true, beq_iff_eq] at names
  exact ⟨List.mem_of_find?_eq_some found, names⟩

/-! ### The loop -/

/-- Over sorted capabilities whose names are at least those of the layout, the loop keeps the
map laid out. -/
theorem matchLoop_laid (protocols : List Protocol) {caps : List Cap}
    (sorted : caps.Pairwise fun a b => capLe a b) (laid : Laid offset result layout)
    (below : ∀ rw ∈ layout, ∀ cap ∈ caps, rw.Protocol.Name ≤ cap.Name) :
    ∃ layout', Laid (matchLoop protocols caps offset result).1
      (matchLoop protocols caps offset result).2 layout' := by
  induction caps generalizing offset result layout with
  | nil => exact ⟨layout, laid⟩
  | cons cap caps ih =>
    obtain ⟨first, sorted⟩ := List.pairwise_cons.mp sorted
    have later : ∀ rw ∈ layout, ∀ c ∈ caps, rw.Protocol.Name ≤ c.Name :=
      fun rw inside c mem => below rw inside c (List.mem_cons_of_mem _ mem)
    cases found : protocols.find? cap.names with
    | none =>
      simp only [matchLoop, found]
      exact ih sorted laid later
    | some proto =>
      obtain ⟨-, named, -⟩ := names_of_find? found
      have ordered : ∀ rw ∈ layout, rw.Protocol.Name ≤ proto.Name :=
        fun rw inside => named ▸ below rw inside cap List.mem_cons_self
      -- the new entry's name is at most those of the capabilities still to come
      have upcoming : ∀ c ∈ caps, proto.Name ≤ c.Name :=
        fun c mem => named ▸ capLe_name (first c mem)
      cases old : result.lookup cap.Name with
      | none =>
        -- a new name: its codes follow the last range
        have above : ∀ rw ∈ layout, rw.Protocol.Name < proto.Name := by
          intro rw inside
          refine lt_of_le_of_ne (ordered rw inside) fun same => ?_
          have mem : cap.Name ∈ result := laid.mem_iff.mpr ⟨rw, inside, same.trans named⟩
          exact AList.lookup_eq_none.mp old mem
        simp only [matchLoop, found, old, ← named]
        refine ih sorted (laid.append above) fun rw inside c mem => ?_
        rcases List.mem_append.mp inside with inside | last
        · exact later rw inside c mem
        · rw [List.mem_singleton.mp last]
          exact upcoming c mem
      | some previous =>
        -- an older version of the name: it was the last entry, whose codes are taken back
        obtain ⟨init, rfl⟩ := laid.eq_snoc old (named ▸ ordered)
        have same : previous.Protocol.Name = proto.Name :=
          ((laid.lookup_eq_some old).2).trans named.symm
        simp only [matchLoop, found, old, laid.sub_last, ← named]
        refine ih sorted (laid.replace same) fun rw inside c mem => ?_
        rcases List.mem_append.mp inside with inside | last
        · exact later rw (List.mem_append_left _ inside) c mem
        · rw [List.mem_singleton.mp last]
          exact upcoming c mem

theorem matchProtocols_laid (protocols : List Protocol) (caps : List Cap) :
    ∃ offset layout, Laid offset (matchProtocols protocols caps) layout := by
  obtain ⟨layout, laid⟩ :=
    matchLoop_laid protocols (sortCaps_sorted caps) laid_empty (by simp)
  exact ⟨_, layout, laid⟩

/-! ### No two protocols share a code -/

theorem Laid.eq_of_covers (laid : Laid offset result layout) {rw rw' : protoRW} (inside : rw ∈ layout)
    (inside' : rw' ∈ layout) {code : Nat} (holds : rw.offset ≤ code ∧ code < rw.offset + rw.Length)
    (holds' : rw'.offset ≤ code ∧ code < rw'.offset + rw'.Length) : rw = rw' :=
  Tiles.eq_of_mem laid.tiles inside inside' holds holds'

theorem Laid.base_le (laid : Laid offset result layout) {rw : protoRW} (inside : rw ∈ layout) :
    baseProtocolLength ≤ rw.offset :=
  ((Tiles.within laid.tiles).2 (span rw) (List.mem_map_of_mem inside)).1

/-- The protocols of the map, in any order, are those of the layout. -/
theorem Laid.mem_values (laid : Laid offset result layout) {rw : protoRW} :
    rw ∈ result.entries.map Sigma.snd ↔ rw ∈ layout := by
  rw [(laid.entries.map _).mem_iff, List.map_map]
  have same : (Sigma.snd ∘ entry) = id := rfl
  rw [same, List.map_id]

/-- A code that lies in the ranges of two matched protocols lies above the base protocol's
codes, and the two are one. -/
theorem matchProtocols_codes_disjoint {protocols : List Protocol} {caps : List Cap}
    {name name' : String} {rw rw' : protoRW} {code : Nat}
    (found : (matchProtocols protocols caps).lookup name = some rw)
    (found' : (matchProtocols protocols caps).lookup name' = some rw')
    (holds : rw.offset ≤ code ∧ code < rw.offset + rw.Length)
    (holds' : rw'.offset ≤ code ∧ code < rw'.offset + rw'.Length) :
    baseProtocolLength ≤ code ∧ name = name' ∧ rw = rw' := by
  obtain ⟨offset, layout, laid⟩ := matchProtocols_laid protocols caps
  obtain ⟨inside, named⟩ := laid.lookup_eq_some found
  obtain ⟨inside', named'⟩ := laid.lookup_eq_some found'
  obtain rfl := laid.eq_of_covers inside inside' holds holds'
  exact ⟨(laid.base_le inside).trans holds.1, named.symm.trans named', rfl⟩

/-- The node runs `eth/63` and `les/2`; the remote end announces `les/2`, `eth/62` and `eth/63`:
`eth/63` takes the codes from `16` on. -/
theorem matchProtocols_codes_disjoint_eth :
    baseProtocolLength ≤ 20 ∧ "eth" = "eth" ∧
      (⟨⟨"eth", 63, 17⟩, 16⟩ : protoRW) = ⟨⟨"eth", 63, 17⟩, 16⟩ := by
  have sorted : sortCaps [⟨"les", 2⟩, ⟨"eth", 62⟩, ⟨"eth", 63⟩] =
      [⟨"eth", 62⟩, ⟨"eth", 63⟩, ⟨"les", 2⟩] :=
    sortCaps_eq_of_sorted (by decide) (by decide)
  have found : (matchProtocols [⟨"eth", 63, 17⟩, ⟨"les", 2, 21⟩]
      [⟨"les", 2⟩, ⟨"eth", 62⟩, ⟨"eth", 63⟩]).lookup "eth" = some ⟨⟨"eth", 63, 17⟩, 16⟩ := by
    rw [matchProtocols, sorted]
    decide
  exact matchProtocols_codes_disjoint found found (by decide) (by decide)

/-! ### Which version is matched -/

/-- A capability of the name `name` that names one of the node's protocols. -/
def Cap.offered (protocols : List Protocol) (name : String) (cap : Cap) : Bool :=
  cap.Name == name && (protocols.find? cap.names).isSome

theorem Cap.names_iff {cap : Cap} {proto : Protocol} : cap.names proto ↔ proto.cap = cap := by
  cases cap
  simp only [Cap.names, Protocol.cap, Bool.and_eq_true, beq_iff_eq, Cap.mk.injEq]

theorem offered_iff {protocols : List Protocol} {name : String} {cap : Cap} :
    cap.offered protocols name ↔ cap.Name = name ∧ ∃ proto ∈ protocols, cap.names proto := by
  simp [Cap.offered, List.find?_isSome]

/-- Under each name the loop leaves the protocol of the last capability of that name that names
one, or what the map held. -/
theorem lookup_matchLoop (protocols : List Protocol) (caps : List Cap) (offset : Nat)
    (result : ProtoMap) (name : String) :
    ((matchLoop protocols caps offset result).2.lookup name).map protoRW.Protocol =
      ((caps.reverse.find? (Cap.offered protocols name)).bind
        fun cap => protocols.find? cap.names).or ((result.lookup name).map protoRW.Protocol) := by
  induction caps generalizing offset result with
  | nil => rfl
  | cons cap caps ih =>
    rw [List.reverse_cons, List.find?_append, List.find?_singleton]
    cases found : protocols.find? cap.names with
    | none =>
      have passed : cap.offered protocols name = false := by simp [Cap.offered, found]
      simp only [matchLoop, found, ih, passed, Bool.false_eq_true, if_false, Option.or_none]
    | some proto =>
      by_cases named : cap.Name = name
      · -- the capability's protocol goes in under `name`, unless a later one replaces it
        subst named
        have offered : cap.offered protocols cap.Name = true := by simp [Cap.offered, found]
        simp only [matchLoop, found, ih, offered, if_true, AList.lookup_insert, Option.map_some]
        cases later : caps.reverse.find? (Cap.offered protocols cap.Name) with
        | none => simp [found]
        | some last =>
          have names := List.find?_some later
          simp only [Cap.offered, Bool.and_eq_true] at names
          obtain ⟨proto', same⟩ := Option.isSome_iff_exists.mp names.2
          simp [same]
      · have passed : cap.offered protocols name = false := by simp [Cap.offered, named]
        simp only [matchLoop, found, ih, passed, Bool.false_eq_true, if_false, Option.or_none,
          AList.lookup_insert_ne (Ne.symm named)]

theorem lookup_matchProtocols (protocols : List Protocol) (caps : List Cap) (name : String) :
    ((matchProtocols protocols caps).lookup name).map protoRW.Protocol =
      ((sortCaps caps).reverse.find? (Cap.offered protocols name)).bind
        fun cap => protocols.find? cap.names := by
  rw [matchProtocols, lookup_matchLoop]
  exact Option.or_none

/-- The last capability of a name that names a protocol has the highest version of those. -/
theorem last_offered {protocols : List Protocol} {caps : List Cap} {name : String} {last : Cap}
    (picked : (sortCaps caps).reverse.find? (Cap.offered protocols name) = some last) :
    last ∈ caps ∧ last.offered protocols name ∧
      ∀ cap ∈ caps, cap.offered protocols name → cap.Version ≤ last.Version := by
  have offered := List.find?_some picked
  refine ⟨mem_sortCaps.mp (List.mem_reverse.mp (List.mem_of_find?_eq_some picked)), offered,
    fun cap capIn offers => ?_⟩
  have le := rel_find?_reverse (fun c => capLe_iff.mpr (.inr ⟨rfl, le_rfl⟩))
    (sortCaps_sorted caps) picked (mem_sortCaps.mpr capIn) offers
  rw [offered_iff] at offered offers
  rcases capLe_iff.mp le with lt | ⟨-, le⟩
  · exact absurd (offers.1.trans offered.1.symm) (ne_of_lt lt)
  · exact le

/-- What the map holds under a name is a protocol of the node of that name, at a version the
remote end announced, and no other capability of that name that names a protocol is higher. -/
theorem lookup_matchProtocols_chosen {protocols : List Protocol} {caps : List Cap} {name : String}
    {rw : protoRW} (found : (matchProtocols protocols caps).lookup name = some rw) :
    rw.Protocol ∈ protocols ∧ rw.Protocol.cap ∈ caps ∧ rw.Protocol.Name = name ∧
      ∀ cap ∈ caps, cap.offered protocols name → cap.Version ≤ rw.Protocol.Version := by
  have chosen := lookup_matchProtocols protocols caps name
  rw [found, Option.map_some] at chosen
  obtain ⟨last, picked, named⟩ := Option.bind_eq_some_iff.mp chosen.symm
  obtain ⟨inside, offered, highest⟩ := last_offered picked
  obtain ⟨mem, sameName, sameVersion⟩ := names_of_find? named
  refine ⟨mem, ?_, sameName.trans (offered_iff.mp offered).1, fun cap capIn offers => ?_⟩
  · rw [Protocol.cap, sameName, sameVersion]
    exact inside
  · rw [sameVersion]
    exact highest cap capIn offers

theorem isSome_lookup_matchProtocols {protocols : List Protocol} {caps : List Cap}
    {name : String} :
    ((matchProtocols protocols caps).lookup name).isSome ↔
      ∃ cap ∈ caps, cap.offered protocols name := by
  constructor
  · intro held
    obtain ⟨rw, found⟩ := Option.isSome_iff_exists.mp held
    obtain ⟨-, capIn, named, -⟩ := lookup_matchProtocols_chosen found
    refine ⟨rw.Protocol.cap, capIn, offered_iff.mpr ⟨named, rw.Protocol, ?_, ?_⟩⟩
    · exact (lookup_matchProtocols_chosen found).1
    · exact Cap.names_iff.mpr rfl
  · rintro ⟨cap, capIn, offers⟩
    obtain ⟨last, picked⟩ := Option.isSome_iff_exists.mp (List.find?_isSome.mpr
      ⟨cap, List.mem_reverse.mpr (mem_sortCaps.mpr capIn), offers⟩)
    have offered := (last_offered picked).2.1
    simp only [Cap.offered, Bool.and_eq_true] at offered
    obtain ⟨p, named⟩ := Option.isSome_iff_exists.mp offered.2
    have chosen := lookup_matchProtocols protocols caps name
    rw [picked, Option.bind_some, named] at chosen
    rw [← Option.isSome_map (f := protoRW.Protocol), chosen]
    rfl

/-- Under each name `matchProtocols` holds the highest version that both ends have. -/
theorem matchProtocols_highest (protocols : List Protocol) (caps : List Cap) (name : String) :
    ((matchProtocols protocols caps).lookup name).map (fun rw => rw.Protocol.Version) =
      ((caps.filter (Cap.offered protocols name)).map Cap.Version).max? := by
  cases found : (matchProtocols protocols caps).lookup name with
  | none =>
    -- no capability of the name names a protocol
    have missing : ¬∃ cap ∈ caps, cap.offered protocols name := by
      rw [← isSome_lookup_matchProtocols, found]
      exact Bool.false_ne_true
    refine (List.max?_eq_none_iff.mpr ?_).symm
    simpa [List.filter_eq_nil_iff] using missing
  | some rw =>
    obtain ⟨mem, capIn, named, highest⟩ := lookup_matchProtocols_chosen found
    refine (List.max?_eq_some_iff.mpr ⟨?_, ?_⟩).symm
    · -- the matched version is one of the common ones
      refine List.mem_map.mpr ⟨rw.Protocol.cap, List.mem_filter.mpr ⟨capIn, ?_⟩, rfl⟩
      exact offered_iff.mpr ⟨named, rw.Protocol, mem, Cap.names_iff.mpr rfl⟩
    · intro version common
      obtain ⟨cap, offering, rfl⟩ := List.mem_map.mp common
      obtain ⟨capIn, offers⟩ := List.mem_filter.mp offering
      exact highest cap capIn offers

/-- The names `matchProtocols` matches are those of the node's protocols whose name and version
the remote end announced. -/
theorem matchProtocols_mem_iff {protocols : List Protocol} {caps : List Cap} {name : String} :
    name ∈ matchProtocols protocols caps ↔ ∃ proto ∈ protocols, proto.Name = name ∧ proto.cap ∈ caps := by
  rw [← AList.lookup_isSome, isSome_lookup_matchProtocols]
  constructor
  · rintro ⟨cap, capIn, offers⟩
    obtain ⟨named, proto, protoIn, names⟩ := offered_iff.mp offers
    have same := Cap.names_iff.mp names
    refine ⟨proto, protoIn, (congrArg Cap.Name same).trans named, ?_⟩
    rw [same]
    exact capIn
  · rintro ⟨proto, protoIn, named, capIn⟩
    exact ⟨proto.cap, capIn, offered_iff.mpr ⟨named, proto, protoIn, Cap.names_iff.mpr rfl⟩⟩

/-! ### Useless peers -/

end Indigo.P2p
