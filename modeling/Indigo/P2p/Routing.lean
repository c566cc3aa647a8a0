import Indigo.P2p.Multiplex

/-!
# Messages between the subprotocols of two peers

Each end of a connection builds its map with `matchProtocols`, from its own protocols and the
capabilities the other end announced, which are the other end's protocols (`Protocol.cap`, as
`Server.Start` builds `ourHandshake.Caps`). A protocol writes a message with its code shifted
into its range, and the other end's `Peer.handle` hands it to the protocol whose range holds the
code.

## Main results

- `handle_WriteMsg`: when the protocols that both ends have under one name and version are the
  same, a message a matched protocol writes at one end is handed at the other end to the same
  protocol, at the same codes, with the code it was written with; in whatever order the other
  end walks its map.

## Proof strategy

Both ends match each common name at the highest version both have, so their maps hold the same
protocol under every name (`lookup_agree`). The layout of a map lists its protocols by name, and
the lengths of the protocols then fix the codes (`Indigo.Lib.Tiles.eq_of_lengths`): the two
maps are one (`matchProtocols_agree`), and the code a protocol writes lies in the range of no
other protocol of either map.
-/

namespace Indigo.P2p

open Indigo.Lib Indigo.P2p.Rlpx

variable {offset offset' : Nat} {result result' : ProtoMap} {layout layout' : List protoRW}

/-! ### A layout is fixed by the protocols of its map -/

theorem Laid.lookup_of_mem (laid : Laid offset result layout) {rw : protoRW} (inside : rw ∈ layout) :
    result.lookup rw.Protocol.Name = some rw :=
  AList.mem_lookup_iff.mpr (laid.mem_entries.mpr ⟨rw, inside, rfl⟩)

theorem Laid.mem_protocols (laid : Laid offset result layout) {proto : Protocol} :
    proto ∈ layout.map protoRW.Protocol ↔
      (result.lookup proto.Name).map protoRW.Protocol = some proto := by
  constructor
  · intro mem
    obtain ⟨rw, inside, rfl⟩ := List.mem_map.mp mem
    rw [laid.lookup_of_mem inside]
    rfl
  · intro found
    obtain ⟨rw, found, rfl⟩ := Option.map_eq_some_iff.mp found
    exact List.mem_map_of_mem (laid.lookup_eq_some found).1

theorem Laid.protocols_sorted (laid : Laid offset result layout) :
    (layout.map protoRW.Protocol).Pairwise fun a b => a.Name < b.Name :=
  List.pairwise_map.mpr laid.names

theorem layout_ext {xs ys : List protoRW} (protocols : xs.map protoRW.Protocol = ys.map protoRW.Protocol)
    (spans : xs.map span = ys.map span) : xs = ys := by
  induction xs generalizing ys with
  | nil => exact (List.map_eq_nil_iff.mp protocols.symm).symm
  | cons x xs ih =>
    cases ys with
    | nil => simp at protocols
    | cons y ys =>
      simp only [List.map_cons, List.cons.injEq] at protocols spans
      obtain ⟨px, ox⟩ := x
      obtain ⟨py, oy⟩ := y
      simp only [span, Prod.mk.injEq] at spans protocols
      rw [protocols.1, spans.1.1, ih protocols.2 spans.2]

/-- Two maps laid out that hold the same protocol under every name have one layout. -/
theorem Laid.eq_of_protocols (laid : Laid offset result layout) (laid' : Laid offset' result' layout')
    (same : ∀ name, (result.lookup name).map protoRW.Protocol =
      (result'.lookup name).map protoRW.Protocol) : layout = layout' := by
  -- the layouts list the same protocols, in the order of their names
  have protocols : layout.map protoRW.Protocol = layout'.map protoRW.Protocol := by
    refine List.Perm.eq_of_pairwise (fun a b _ _ lt gt => absurd (lt_trans lt gt) (lt_irrefl _))
      laid.protocols_sorted laid'.protocols_sorted ?_
    refine (List.perm_ext_iff_of_nodup ?_ ?_).mpr fun proto => ?_
    · exact laid.protocols_sorted.imp fun lt same => ne_of_lt lt (congrArg Protocol.Name same)
    · exact laid'.protocols_sorted.imp fun lt same => ne_of_lt lt (congrArg Protocol.Name same)
    · rw [laid.mem_protocols, laid'.mem_protocols, same]
  -- from one start, the same lengths give the same codes
  have spans : layout.map span = layout'.map span := by
    refine Tiles.eq_of_lengths laid.tiles laid'.tiles ?_
    have lengths := congrArg (List.map Protocol.Length) protocols
    have length_span : (Prod.snd ∘ span) = (Protocol.Length ∘ protoRW.Protocol) := rfl
    rw [List.map_map, List.map_map] at lengths ⊢
    rw [length_span]
    exact lengths
  exact layout_ext protocols spans

/-! ### Both ends build the same map -/

section Agree

variable {ours theirs : List Protocol}

/-- What one end matches under a name, the other end matches too, when the protocols both ends
have of one name and version are the same. -/
theorem lookup_agree_of_some (agree : ∀ p ∈ ours, ∀ q ∈ theirs, p.cap = q.cap → p = q)
    {name : String} {rw : protoRW}
    (found : (matchProtocols ours (theirs.map Protocol.cap)).lookup name = some rw) :
    ((matchProtocols theirs (ours.map Protocol.cap)).lookup name).map protoRW.Protocol =
      some rw.Protocol := by
  obtain ⟨mine, announced, named, highest⟩ := lookup_matchProtocols_chosen found
  -- the other end has the very protocol this end matched
  obtain ⟨q, qIn, qCap⟩ := List.mem_map.mp announced
  have shared : rw.Protocol ∈ theirs := agree _ mine q qIn qCap.symm ▸ qIn
  have held : ((matchProtocols theirs (ours.map Protocol.cap)).lookup name).isSome :=
    isSome_lookup_matchProtocols.mpr ⟨rw.Protocol.cap, List.mem_map_of_mem mine,
      offered_iff.mpr ⟨named, rw.Protocol, shared, Cap.names_iff.mpr rfl⟩⟩
  obtain ⟨rw', found'⟩ := Option.isSome_iff_exists.mp held
  obtain ⟨mine', announced', named', highest'⟩ := lookup_matchProtocols_chosen found'
  obtain ⟨q', qIn', qCap'⟩ := List.mem_map.mp announced'
  have shared' : rw'.Protocol ∈ ours := (agree q' qIn' _ mine' qCap').symm ▸ qIn'
  -- each end's version is at most the other's
  have le : rw'.Protocol.Version ≤ rw.Protocol.Version :=
    highest rw'.Protocol.cap (List.mem_map_of_mem mine')
      (offered_iff.mpr ⟨named', rw'.Protocol, shared', Cap.names_iff.mpr rfl⟩)
  have ge : rw.Protocol.Version ≤ rw'.Protocol.Version :=
    highest' rw.Protocol.cap (List.mem_map_of_mem mine)
      (offered_iff.mpr ⟨named, rw.Protocol, shared, Cap.names_iff.mpr rfl⟩)
  have same : rw.Protocol.cap = rw'.Protocol.cap := by
    rw [Protocol.cap, Protocol.cap, named, named', Nat.le_antisymm ge le]
  rw [found', Option.map_some, agree _ mine _ mine' same]

/-- Both ends hold the same protocol under every name. -/
theorem lookup_agree (agree : ∀ p ∈ ours, ∀ q ∈ theirs, p.cap = q.cap → p = q) (name : String) :
    ((matchProtocols ours (theirs.map Protocol.cap)).lookup name).map protoRW.Protocol =
      ((matchProtocols theirs (ours.map Protocol.cap)).lookup name).map protoRW.Protocol := by
  have agree' : ∀ p ∈ theirs, ∀ q ∈ ours, p.cap = q.cap → p = q :=
    fun p pIn q qIn same => (agree q qIn p pIn same.symm).symm
  cases found : (matchProtocols ours (theirs.map Protocol.cap)).lookup name with
  | some rw => rw [lookup_agree_of_some agree found, Option.map_some]
  | none =>
    cases found' : (matchProtocols theirs (ours.map Protocol.cap)).lookup name with
    | none => rfl
    | some rw' =>
      -- the other end's match would be this end's too
      have back := lookup_agree_of_some agree' found'
      rw [found, Option.map_none] at back
      exact absurd back (Option.some_ne_none _).symm

/-- Both ends build the same map: the same protocols under the same names, at the same codes. -/
theorem matchProtocols_agree (agree : ∀ p ∈ ours, ∀ q ∈ theirs, p.cap = q.cap → p = q) :
    (matchProtocols ours (theirs.map Protocol.cap)).entries.Perm
      (matchProtocols theirs (ours.map Protocol.cap)).entries := by
  obtain ⟨_, layout, laid⟩ := matchProtocols_laid ours (theirs.map Protocol.cap)
  obtain ⟨_, layout', laid'⟩ := matchProtocols_laid theirs (ours.map Protocol.cap)
  obtain rfl := laid.eq_of_protocols laid' (lookup_agree agree)
  exact laid.entries.trans laid'.entries.symm

end Agree

/-! ### Routing -/

/-- `getProto` finds the one running protocol whose range holds the code. -/
theorem getProto_of_unique {running : List protoRW} {code : Nat} {rw : protoRW}
    (inside : rw ∈ running) (holds : rw.offset ≤ code ∧ code < rw.offset + rw.Length)
    (unique : ∀ p ∈ running, p.offset ≤ code ∧ code < p.offset + p.Length → p = rw) :
    getProto running code = .ok rw := by
  unfold getProto
  cases found : running.find? fun proto =>
      decide (proto.offset ≤ code ∧ code < proto.offset + proto.Length) with
  | none =>
    have missed := List.find?_eq_none.mp found rw inside
    simp [holds] at missed
  | some p =>
    have covers := List.find?_some found
    rw [unique p (List.mem_of_find?_eq_some found) (of_decide_eq_true covers)]

/-- A peer that runs a laid-out map, walked in any order, hands a message whose code lies in a
protocol's range to that protocol. -/
theorem handle_of_laid (laid : Laid offset result layout) {running : List protoRW}
    (walk : running.Perm (result.entries.map Sigma.snd)) {rw : protoRW} (inside : rw ∈ layout)
    {msg : Msg} (handled : msg.Code < rw.Length) :
    Peer.handle running { msg with Code := msg.Code + rw.offset } =
      .ok (.delivered rw { msg with Code := msg.Code + rw.offset }) := by
  have running_iff : ∀ p, p ∈ running ↔ p ∈ layout := fun p => walk.mem_iff.trans laid.mem_values
  have base := laid.base_le inside
  have holds : rw.offset ≤ msg.Code + rw.offset ∧ msg.Code + rw.offset < rw.offset + rw.Length :=
    ⟨Nat.le_add_left _ _, by omega⟩
  have routed : getProto running (msg.Code + rw.offset) = .ok rw :=
    getProto_of_unique ((running_iff rw).mpr inside) holds fun p mem covers =>
      laid.eq_of_covers ((running_iff p).mp mem) inside covers holds
  -- the shifted code is above the base protocol's, so it is not `pingMsg` or `discMsg`
  simp only [baseProtocolLength] at base
  simp only [Peer.handle, pingMsg, discMsg, baseProtocolLength, routed]
  rw [if_neg (by omega), if_neg (by omega), if_neg (by omega)]

/-- A message a matched protocol writes at one end is handed at the other end to the same
protocol, with the code it was written with, whatever the order the other end walks its map in. -/
theorem handle_WriteMsg {ours theirs : List Protocol}
    (agree : ∀ p ∈ ours, ∀ q ∈ theirs, p.cap = q.cap → p = q) {running : List protoRW}
    (walk : running.Perm ((matchProtocols theirs (ours.map Protocol.cap)).entries.map Sigma.snd))
    {name : String} {rw : protoRW}
    (found : (matchProtocols ours (theirs.map Protocol.cap)).lookup name = some rw)
    {msg : Msg} (handled : msg.Code < rw.Length) :
    ∃ sent, rw.WriteMsg msg = .ok sent ∧ Peer.handle running sent = .ok (.delivered rw sent) ∧
      rw.ReadMsg sent = msg := by
  obtain ⟨_, layout, laid⟩ := matchProtocols_laid theirs (ours.map Protocol.cap)
  have found' : (matchProtocols theirs (ours.map Protocol.cap)).lookup name = some rw :=
    (AList.perm_lookup (matchProtocols_agree agree)).symm.trans found
  refine ⟨{ msg with Code := msg.Code + rw.offset }, ?_,
    handle_of_laid laid walk (laid.lookup_eq_some found').1 handled, ?_⟩
  · simp [protoRW.WriteMsg, Nat.not_le.mpr handled]
  · simp [protoRW.ReadMsg]

/-- One end runs `eth/63` and `les/2`, the other `eth/62` and `eth/63`: a message of code `5` that
`eth/63` writes at the first end reaches `eth/63` at the other. -/
theorem handle_WriteMsg_eth :
    ∃ sent, protoRW.WriteMsg ⟨⟨"eth", 63, 17⟩, 16⟩ ⟨5, 2, [7, 8]⟩ = .ok sent ∧
      Peer.handle ((matchProtocols [⟨"eth", 62, 8⟩, ⟨"eth", 63, 17⟩]
        ([⟨"eth", 63, 17⟩, ⟨"les", 2, 21⟩].map Protocol.cap)).entries.map Sigma.snd) sent =
        .ok (.delivered ⟨⟨"eth", 63, 17⟩, 16⟩ sent) ∧
      protoRW.ReadMsg ⟨⟨"eth", 63, 17⟩, 16⟩ sent = ⟨5, 2, [7, 8]⟩ := by
  have sorted : sortCaps ([⟨"eth", 62, 8⟩, ⟨"eth", 63, 17⟩].map Protocol.cap) =
      [⟨"eth", 62⟩, ⟨"eth", 63⟩] :=
    sortCaps_eq_of_sorted (by decide) (by decide)
  have found : (matchProtocols [⟨"eth", 63, 17⟩, ⟨"les", 2, 21⟩]
      ([⟨"eth", 62, 8⟩, ⟨"eth", 63, 17⟩].map Protocol.cap)).lookup "eth" =
        some ⟨⟨"eth", 63, 17⟩, 16⟩ := by
    rw [matchProtocols, sorted]
    decide
  exact handle_WriteMsg (by decide) (List.Perm.refl _) found (by decide)

end Indigo.P2p
