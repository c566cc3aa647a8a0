import Mathlib.Data.List.AList
import Indigo.Discover.Random
import Indigo.Lib.Heap

/-!
# The dial scheduler

`dialstate` of `p2p/dial.go` decides, each time `Server.run` asks, which nodes to dial: the
static nodes, a bootnode when there are no peers at all, nodes read at random from the discovery
table and the results of discovery lookups, and it launches a lookup when it runs short. It
remembers the nodes it is dialing (`dialing`) and, in a heap ordered by expiry (`hist`), the
nodes dialed in the last thirty seconds.

Go's maps are association lists with distinct keys (`AList`); the model iterates a map in the
order of its entries, where Go picks an order at random. The heap is `container/heap` as
`Indigo.Lib.Heap` keeps it. Times and durations are nanoseconds. The table is seen through the
two methods the dialer calls: its node `Self()` is the field `self`, and what `ReadRandomNodes`
writes into the buffer and returns is an argument of `newTasks`. The buffer `randomNodes` is a
slice of `maxDynDials / 2` pointers, `none` for nil: reading a nil entry, or one past the end,
panics, and `newTasks` returns `none`.

`newTasks` is cut into its phases, each a function on `Round`, the state with the tasks made so
far and the count `needDynDials`.
-/

namespace Indigo.P2p

open Indigo.Discover Indigo.Netutil Indigo.Lib

/-- `connFlag`: a set of bits. -/
abbrev ConnFlag := Nat

/-- `dynDialedConn`, `1 << 0`. -/
def dynDialedConn : ConnFlag := 1

/-- `staticDialedConn`, `1 << 1`. -/
def staticDialedConn : ConnFlag := 2

/-- `c.is(f)`: `c.flags & f != 0`. -/
def ConnFlag.is (flags f : ConnFlag) : Bool := flags &&& f != 0

/-- `time.Time` and `time.Duration`, in nanoseconds. -/
abbrev Time := Int

abbrev Duration := Int

/-- `time.Second`. -/
def Second : Duration := 1000000000

/-- `dialHistoryExpiration`. -/
def dialHistoryExpiration : Duration := 30 * Second

/-- `fallbackInterval`. -/
def fallbackInterval : Duration := 20 * Second

/-- A Go map from node IDs. -/
abbrev IDMap (β : Type) := AList fun _ : NodeID => β

/-- The connected peers, each by the flags of its connection. -/
abbrev Peers := IDMap ConnFlag

/-! ### The dial history -/

/-- `pastDial`. -/
structure PastDial where
  id : NodeID
  exp : Time
deriving DecidableEq

/-- `dialHistory`, a heap by expiry. -/
abbrev DialHistory := List PastDial

namespace DialHistory

/-- `Less`: `h[i].exp.Before(h[j].exp)`. -/
def Less (a b : PastDial) : Bool := decide (a.exp < b.exp)

/-- `add`: `heap.Push(h, pastDial{id, exp})`. -/
def add (h : DialHistory) (id : NodeID) (exp : Time) : DialHistory := Heap.push Less h ⟨id, exp⟩

/-- `remove`: the first entry of `id`, by `heap.Remove`. -/
def remove (h : DialHistory) (id : NodeID) : Bool × DialHistory :=
  match h.findIdx? (·.id == id) with
  | some i => (true, (Heap.remove Less h i).1)
  | none => (false, h)

/-- `contains`: any entry of `id`, expired or not. -/
def contains (h : DialHistory) (id : NodeID) : Bool := h.any (·.id == id)

theorem length_pop (h : DialHistory) : (Heap.pop Less h).1.length = h.length - 1 := by
  rw [Heap.pop, Heap.popLast, List.length_dropLast, (Heap.down_perm Less _ 0 _).length_eq,
    Heap.length_swap]

/-- The loop of `expire` for at most `n` rounds: the root `h.min()` is popped while it expired
before `now`. Each round pops an entry, so `h.length` rounds are enough (`expireLoop_root`). -/
def expireLoop : Nat → DialHistory → Time → DialHistory
  | 0, h, _ => h
  | n + 1, h, now =>
    match h with
    | [] => []
    | d :: rest => if d.exp < now then expireLoop n (Heap.pop Less (d :: rest)).1 now else d :: rest

/-- `expire`. -/
def expire (h : DialHistory) (now : Time) : DialHistory := expireLoop h.length h now

/-- With a round for each entry, the loop ends on its own test: the root it leaves, if any, has
not expired. -/
theorem expireLoop_root (now : Time) :
    ∀ (n : Nat) (h : DialHistory), h.length ≤ n → ∀ d ∈ (expireLoop n h now).head?, now ≤ d.exp
  | 0, h, fits, d, root => by
    have empty : h = [] := List.eq_nil_of_length_eq_zero (by omega)
    subst empty
    cases root
  | n + 1, [], _, d, root => by cases root
  | n + 1, e :: rest, fits, d, root => by
    simp only [expireLoop] at root
    split at root
    · apply expireLoop_root now n _ _ d root
      rw [length_pop]
      exact Nat.sub_le_of_le_add fits
    · next fresh =>
      simp only [List.head?_cons, Option.mem_def, Option.some.injEq] at root
      subst root
      exact le_of_not_gt fresh

end DialHistory

/-! ### The dialer -/

/-- `dialTask`, with what the scheduler reads of it: the flags of the connection and the node. -/
structure DialTask where
  flags : ConnFlag
  dest : Node
deriving DecidableEq

/-- The tasks `newTasks` makes: `dialTask`; `discoverTask`, with the results its lookup fills
in; `waitExpireTask`. -/
inductive Task where
  | dial (t : DialTask)
  | discover (results : List Node)
  | waitExpire (d : Duration)
deriving DecidableEq

/-- `dialstate`. -/
structure DialState where
  maxDynDials : Nat
  /-- `ntab.Self()`. -/
  self : Node
  netrestrict : Option Netlist
  lookupRunning : Bool
  dialing : IDMap ConnFlag
  lookupBuf : List Node
  randomNodes : Vector (Option Node) (maxDynDials / 2)
  static : IDMap DialTask
  hist : DialHistory
  /-- `start`, `none` for the zero time. -/
  start : Option Time
  bootnodes : List Node

/-- The errors of `checkDial`. -/
inductive DialError where
  | errSelf
  | errAlreadyDialing
  | errAlreadyConnected
  | errRecentlyDialed
  | errNotWhitelisted
deriving DecidableEq

/-- `s.netrestrict != nil && !s.netrestrict.Contains(ip)`. -/
def outsideNetrestrict (netrestrict : Option Netlist) (ip : IP) : Bool :=
  match netrestrict with
  | some l => !l.Contains ip
  | none => false

/-- `checkDial`. -/
def checkDial (s : DialState) (n : Node) (peers : Peers) : Option DialError :=
  if n.ID ∈ s.dialing then some .errAlreadyDialing
  else if n.ID ∈ peers then some .errAlreadyConnected
  else if n.ID = s.self.ID then some .errSelf
  else if outsideNetrestrict s.netrestrict n.IP then some .errNotWhitelisted
  else if s.hist.contains n.ID then some .errRecentlyDialed
  else none

/-- `addStatic`: a new task overwrites the node's entry. -/
def addStatic (s : DialState) (n : Node) : DialState :=
  { s with static := s.static.insert n.ID ⟨staticDialedConn, n⟩ }

/-- `removeStatic`: the task goes, and with it the node's entry in the history. -/
def removeStatic (s : DialState) (n : Node) : DialState :=
  { s with static := s.static.erase n.ID, hist := (s.hist.remove n.ID).2 }

/-- `newDialState`. -/
def newDialState (static bootnodes : List Node) (self : Node) (maxdyn : Nat)
    (netrestrict : Option Netlist) : DialState :=
  static.foldl addStatic
    { maxDynDials := maxdyn, self, netrestrict, lookupRunning := false, dialing := ∅,
      lookupBuf := [], randomNodes := Vector.replicate (maxdyn / 2) none, static := ∅, hist := [],
      start := none, bootnodes }

/-- `taskDone`: a dial goes into the history for thirty seconds and stops dialing; a lookup
hands over its results. -/
def taskDone (s : DialState) (t : Task) (now : Time) : DialState :=
  match t with
  | .dial t =>
    { s with hist := s.hist.add t.dest.ID (now + dialHistoryExpiration),
             dialing := s.dialing.erase t.dest.ID }
  | .discover results => { s with lookupRunning := false, lookupBuf := s.lookupBuf ++ results }
  | .waitExpire _ => s

/-! ### `newTasks` -/

/-- What `newTasks` carries through its phases: the state, the tasks made so far and
`needDynDials`. -/
structure Round where
  s : DialState
  newtasks : List Task
  needDynDials : Int

/-- The closure `addDial`: a candidate that `checkDial` passes is marked as dialing with `flag`
and gets a task. -/
def addDial (peers : Peers) (flag : ConnFlag) (n : Node) (r : Round) : Bool × Round :=
  if checkDial r.s n peers = none then
    (true, { r with s := { r.s with dialing := r.s.dialing.insert n.ID flag },
                    newtasks := r.newtasks ++ [.dial ⟨flag, n⟩] })
  else (false, r)

/-- `if addDial(dynDialedConn, n) { needDynDials-- }`, as the bootnode, random and lookup phases
write it. -/
def dialDynamic (peers : Peers) (n : Node) (r : Round) : Round :=
  let dialed := addDial peers dynDialedConn n r
  if dialed.1 then { dialed.2 with needDynDials := dialed.2.needDynDials - 1 } else dialed.2

/-- `needDynDials--` for each entry of a map whose flags have `dynDialedConn`. -/
def countDown (entries : List (Σ _ : NodeID, ConnFlag)) (need : Int) : Int :=
  entries.foldl (fun need e => if ConnFlag.is e.2 dynDialedConn then need - 1 else need) need

/-- The loop over `s.static`: a static node that is itself or outside the whitelist is removed,
one that passes `checkDial` is dialed with its own task. -/
def dialStatics (peers : Peers) : List (Σ _ : NodeID, DialTask) → Round → Round
  | [], r => r
  | ⟨id, t⟩ :: rest, r =>
    match checkDial r.s t.dest peers with
    | some .errNotWhitelisted | some .errSelf =>
      dialStatics peers rest { r with s := { r.s with static := r.s.static.erase t.dest.ID } }
    | none =>
      dialStatics peers rest
        { r with s := { r.s with dialing := r.s.dialing.insert id t.flags },
                 newtasks := r.newtasks ++ [.dial t] }
    | some _ => dialStatics peers rest r

/-- The fallback to a bootnode, rotated to the back of the list, when there are no peers, dials
are needed and `fallbackInterval` has passed since `start`. -/
def dialBootnode (peers : Peers) (now start : Time) (r : Round) : Round :=
  match r.s.bootnodes with
  | b :: rest =>
    if peers.entries.isEmpty ∧ 0 < r.needDynDials ∧ fallbackInterval < now - start then
      dialDynamic peers b { r with s := { r.s with bootnodes := rest ++ [b] } }
    else r
  | [] => r

/-- `ReadRandomNodes(buf)` writes its nodes over the front of the buffer. -/
def writeFront {k : Nat} (buf : Vector (Option Node) k) (written : List Node) :
    Vector (Option Node) k :=
  Vector.ofFn fun i => if h : i.val < written.length then some written[i.val] else buf[i]

/-- The loop `for i := 0; i < randomCandidates && i < n; i++` over the positions `is` of the
buffer: a nil entry, or a position past the end, panics. -/
def dialRandom {k : Nat} (peers : Peers) (buf : Vector (Option Node) k) :
    List Nat → Round → Option Round
  | [], r => some r
  | i :: is, r =>
    match buf[i]? with
    | some (some n) => dialRandom peers buf is (dialDynamic peers n r)
    | _ => none

/-- Half of the dynamic dials needed, `needDynDials / 2` in Go's truncating division, from the
nodes `ReadRandomNodes` read: `random` is the count it returns and the nodes it writes. -/
def dialRandomNodes (peers : Peers) (random : Nat × List Node) (r : Round) : Option Round :=
  if 0 < r.needDynDials.tdiv 2 then
    let buf := writeFront r.s.randomNodes random.2
    dialRandom peers buf (List.range (min (r.needDynDials.tdiv 2).toNat random.1))
      { r with s := { r.s with randomNodes := buf } }
  else some r

/-- The loop over the lookup results while dynamic dials are needed; it returns how many results
it tried. -/
def dialLookup (peers : Peers) : List Node → Round → Nat × Round
  | [], r => (0, r)
  | n :: rest, r =>
    if 0 < r.needDynDials then
      let tried := dialLookup peers rest (dialDynamic peers n r)
      (tried.1 + 1, tried.2)
    else (0, r)

/-- The lookup phase: the results tried are cut off the buffer. -/
def dialLookupBuf (peers : Peers) (r : Round) : Round :=
  let tried := dialLookup peers r.s.lookupBuf r
  { tried.2 with s := { tried.2.s with lookupBuf := r.s.lookupBuf.drop tried.1 } }

/-- A discovery lookup, if the buffer holds fewer results than dials are needed and none runs. -/
def launchLookup (r : Round) : Round :=
  if (r.s.lookupBuf.length : Int) < r.needDynDials ∧ !r.s.lookupRunning then
    { r with s := { r.s with lookupRunning := true }, newtasks := r.newtasks ++ [.discover []] }
  else r

/-- A timer to the next expiry of the history, if nothing runs and nothing else was made. -/
def waitExpire (nRunning : Int) (now : Time) (r : Round) : Round :=
  if nRunning = 0 ∧ r.newtasks.isEmpty then
    match r.s.hist with
    | d :: _ => { r with newtasks := r.newtasks ++ [.waitExpire (d.exp - now)] }
    | [] => r
  else r

/-- `newTasks`: the state after the call and the tasks made, or `none` for a panic. -/
def newTasks (s : DialState) (nRunning : Int) (peers : Peers) (now : Time)
    (random : Nat × List Node) : Option (DialState × List Task) := do
  let start := s.start.getD now
  -- Compute number of dynamic dials necessary at this point.
  let need := countDown s.dialing.entries (countDown peers.entries s.maxDynDials)
  -- Expire the dial history on every invocation.
  let r : Round := ⟨{ s with start := some start, hist := s.hist.expire now }, [], need⟩
  let r := dialStatics peers r.s.static.entries r
  let r := dialBootnode peers now start r
  let r ← dialRandomNodes peers random r
  let r := launchLookup (dialLookupBuf peers r)
  let r := waitExpire nRunning now r
  return (r.s, r.newtasks)

/-! ### The tasks a state accounts for -/

/-- The dial tasks among `ts`. -/
def dialTasks (ts : List Task) : List DialTask :=
  ts.filterMap fun t => match t with
    | .dial t => some t
    | _ => none

/-- The entries of the dialing map that the dial tasks among `ts` stand for. -/
def keyed (ts : List Task) : List (Σ _ : NodeID, ConnFlag) :=
  (dialTasks ts).map fun t => ⟨t.dest.ID, t.flags⟩

/-- The entries whose flags have `dynDialedConn`. -/
def dynCount (entries : List (Σ _ : NodeID, ConnFlag)) : Nat :=
  (entries.filter fun e => ConnFlag.is e.2 dynDialedConn).length

/-- The discovery lookups among `ts`. -/
def lookups (ts : List Task) : Nat :=
  ts.countP fun t => match t with
    | .discover _ => true
    | _ => false

@[simp] theorem dialTasks_nil : dialTasks [] = [] := rfl

@[simp] theorem dialTasks_append (ts us : List Task) :
    dialTasks (ts ++ us) = dialTasks ts ++ dialTasks us := List.filterMap_append

@[simp] theorem dialTasks_dial (t : DialTask) : dialTasks [.dial t] = [t] := rfl

@[simp] theorem dialTasks_discover (results : List Node) : dialTasks [.discover results] = [] := rfl

@[simp] theorem dialTasks_waitExpire (d : Duration) : dialTasks [.waitExpire d] = [] := rfl

@[simp] theorem mem_dialTasks {t : DialTask} {ts : List Task} : t ∈ dialTasks ts ↔ Task.dial t ∈ ts := by
  simp only [dialTasks, List.mem_filterMap]
  constructor
  · rintro ⟨u, mem, found⟩
    cases u <;> simp_all
  · exact fun mem => ⟨_, mem, rfl⟩

@[simp] theorem keyed_nil : keyed [] = [] := rfl

@[simp] theorem keyed_append (ts us : List Task) : keyed (ts ++ us) = keyed ts ++ keyed us := by
  simp [keyed]

@[simp] theorem lookups_append (ts us : List Task) : lookups (ts ++ us) = lookups ts + lookups us :=
  List.countP_append

@[simp] theorem lookups_dial (t : DialTask) : lookups [.dial t] = 0 := rfl

@[simp] theorem lookups_discover (results : List Node) : lookups [.discover results] = 1 := rfl

@[simp] theorem lookups_waitExpire (d : Duration) : lookups [.waitExpire d] = 0 := rfl

@[simp] theorem dynCount_nil : dynCount [] = 0 := rfl

@[simp] theorem dynCount_append (l l' : List (Σ _ : NodeID, ConnFlag)) :
    dynCount (l ++ l') = dynCount l + dynCount l' := by
  simp [dynCount]

theorem dynCount_perm {l l' : List (Σ _ : NodeID, ConnFlag)} (p : l.Perm l') :
    dynCount l = dynCount l' :=
  (p.filter _).length_eq

/-- `countDown` takes one off for each entry with `dynDialedConn`. -/
theorem countDown_eq (entries : List (Σ _ : NodeID, ConnFlag)) (need : Int) :
    countDown entries need = need - dynCount entries := by
  induction entries generalizing need with
  | nil => simp [countDown]
  | cons e rest ih =>
    have step := ih (if ConnFlag.is e.2 dynDialedConn then need - 1 else need)
    simp only [countDown, List.foldl_cons] at step ⊢
    rw [step]
    by_cases dyn : ConnFlag.is e.2 dynDialedConn
    · simp [dynCount, dyn]
      omega
    · simp [dynCount, dyn]

/-- What `checkDial` checks of a node apart from the two maps: it is not the local node, the
whitelist admits it, and the history holds no entry of it. -/
structure Cleared (s : DialState) (n : Node) : Prop where
  not_self : n.ID ≠ s.self.ID
  whitelisted : outsideNetrestrict s.netrestrict n.IP = false
  not_recent : s.hist.contains n.ID = false

theorem checkDial_eq_none {s : DialState} {n : Node} {peers : Peers} :
    checkDial s n peers = none ↔ n.ID ∉ s.dialing ∧ n.ID ∉ peers ∧ Cleared s n := by
  unfold checkDial
  constructor
  · intro pass
    split_ifs at pass with dialing connected self outside recent
    exact ⟨dialing, connected, self, by simpa using outside, by simpa using recent⟩
  · rintro ⟨dialing, connected, ⟨self, whitelisted, recent⟩⟩
    simp [dialing, connected, self, whitelisted, recent]

/-- The fields `Cleared` reads, which no phase of `newTasks` writes. -/
structure Kept (s s' : DialState) : Prop where
  maxDynDials_eq : s'.maxDynDials = s.maxDynDials
  self_eq : s'.self = s.self
  netrestrict_eq : s'.netrestrict = s.netrestrict
  hist_eq : s'.hist = s.hist

theorem Kept.refl (s : DialState) : Kept s s := ⟨rfl, rfl, rfl, rfl⟩

theorem Kept.trans {s s' s'' : DialState} (k : Kept s s') (k' : Kept s' s'') : Kept s s'' :=
  ⟨k'.maxDynDials_eq.trans k.maxDynDials_eq, k'.self_eq.trans k.self_eq,
    k'.netrestrict_eq.trans k.netrestrict_eq, k'.hist_eq.trans k.hist_eq⟩

theorem Kept.cleared_iff {s s' : DialState} (k : Kept s s') {n : Node} :
    Cleared s' n ↔ Cleared s n := by
  constructor
  · rintro ⟨self, whitelisted, recent⟩
    exact ⟨k.self_eq ▸ self, k.netrestrict_eq ▸ whitelisted, k.hist_eq ▸ recent⟩
  · rintro ⟨self, whitelisted, recent⟩
    exact ⟨k.self_eq ▸ self, k.netrestrict_eq ▸ whitelisted, k.hist_eq ▸ recent⟩

/-- The static tasks: each under its node's ID, with `staticDialedConn`. -/
def StaticOK (static : IDMap DialTask) : Prop :=
  ∀ e ∈ static.entries, e.2.dest.ID = e.1 ∧ e.2.flags = staticDialedConn

theorem StaticOK.erase {static : IDMap DialTask} (ok : StaticOK static) (id : NodeID) :
    StaticOK (static.erase id) :=
  fun e mem => ok e ((List.kerase_sublist id static.entries).subset mem)

theorem StaticOK.insert {static : IDMap DialTask} (ok : StaticOK static) (n : Node) :
    StaticOK (static.insert n.ID ⟨staticDialedConn, n⟩) := by
  intro e mem
  rw [AList.entries_insert] at mem
  rcases List.mem_cons.mp mem with rfl | mem
  · exact ⟨rfl, rfl⟩
  · exact ok e ((List.kerase_sublist _ _).subset mem)

/-! ### The phases of `newTasks` -/

/-- `r` with a dial task `t` made and its node marked as dialing with the task's flags. -/
def Round.dial (r : Round) (t : DialTask) : Round :=
  { r with s := { r.s with dialing := r.s.dialing.insert t.dest.ID t.flags },
           newtasks := r.newtasks ++ [.dial t] }

/-- What holds of each round of a call of `newTasks` with `peers`, on a state whose tasks in
flight are `inflight` and which needed `need₀` dynamic dials: the dialing map stands for the
tasks in flight and those made; each task made passed `checkDial`; and the dynamic dials made
are those `needDynDials` lost. -/
structure RoundOK (s₀ : DialState) (peers : Peers) (inflight : List Task) (need₀ : Int)
    (r : Round) : Prop where
  kept : Kept s₀ r.s
  dialing_perm : r.s.dialing.entries.Perm (keyed (inflight ++ r.newtasks))
  static_ok : StaticOK r.s.static
  lookup : lookups (inflight ++ r.newtasks) = if r.s.lookupRunning then 1 else 0
  issued : ∀ t ∈ dialTasks r.newtasks, t.dest.ID ∉ peers ∧ Cleared s₀ t.dest
  count : (dynCount (keyed r.newtasks) : Int) + r.needDynDials = need₀

section Rounds

variable {s₀ : DialState} {peers : Peers} {inflight : List Task} {need₀ : Int} {r : Round}

/-- A dial that passed `checkDial`, with `needDynDials` down by one for a dynamic dial. -/
theorem RoundOK.dial (ok : RoundOK s₀ peers inflight need₀ r) (t : DialTask)
    (pass : checkDial r.s t.dest peers = none) :
    RoundOK s₀ peers inflight need₀
      { r.dial t with needDynDials := r.needDynDials - dynCount [⟨t.dest.ID, t.flags⟩] } := by
  obtain ⟨dialing, connected, cleared⟩ := checkDial_eq_none.mp pass
  refine ⟨ok.kept.trans ⟨rfl, rfl, rfl, rfl⟩, ?_, ok.static_ok, ?_, ?_, ?_⟩
  · -- the new entry goes in front, the new task at the end
    have entries : (r.dial t).s.dialing.entries = ⟨t.dest.ID, t.flags⟩ :: r.s.dialing.entries :=
      AList.entries_insert_of_notMem dialing
    have tasks : keyed (inflight ++ (r.dial t).newtasks) =
        keyed (inflight ++ r.newtasks) ++ [⟨t.dest.ID, t.flags⟩] := by
      simp [Round.dial, keyed]
    show (r.dial t).s.dialing.entries.Perm (keyed (inflight ++ (r.dial t).newtasks))
    rw [entries, tasks]
    exact ((List.perm_cons _).mpr ok.dialing_perm).trans (List.perm_append_singleton _ _).symm
  · show lookups (inflight ++ (r.newtasks ++ [.dial t])) = if r.s.lookupRunning then 1 else 0
    rw [← List.append_assoc, lookups_append, lookups_dial, Nat.add_zero]
    exact ok.lookup
  · intro u mem
    simp only [Round.dial, dialTasks_append, dialTasks_dial, List.mem_append,
      List.mem_singleton] at mem
    rcases mem with mem | rfl
    · exact ok.issued u mem
    · exact ⟨connected, ok.kept.cleared_iff.mp cleared⟩
  · have count := ok.count
    have new : keyed [Task.dial t] = [⟨t.dest.ID, t.flags⟩] := rfl
    show (dynCount (keyed (r.newtasks ++ [.dial t])) : Int) +
      (r.needDynDials - dynCount [⟨t.dest.ID, t.flags⟩]) = need₀
    rw [keyed_append, new, dynCount_append, Nat.cast_add]
    omega

/-- A phase that writes nothing `RoundOK` reads keeps it. -/
theorem RoundOK.of_same (ok : RoundOK s₀ peers inflight need₀ r) {r' : Round} (kept : Kept r.s r'.s)
    (dialing : r'.s.dialing = r.s.dialing) (static : r'.s.static = r.s.static)
    (running : r'.s.lookupRunning = r.s.lookupRunning) (newtasks : r'.newtasks = r.newtasks)
    (need : r'.needDynDials = r.needDynDials) : RoundOK s₀ peers inflight need₀ r' := by
  refine ⟨ok.kept.trans kept, ?_, ?_, ?_, ?_, ?_⟩
  · rw [dialing, newtasks]
    exact ok.dialing_perm
  · rw [static]
    exact ok.static_ok
  · rw [newtasks, running]
    exact ok.lookup
  · rw [newtasks]
    exact ok.issued
  · rw [newtasks, need]
    exact ok.count

theorem dialDynamic_eq (peers : Peers) (n : Node) (r : Round) :
    dialDynamic peers n r =
      if checkDial r.s n peers = none then
        { r.dial ⟨dynDialedConn, n⟩ with needDynDials := r.needDynDials - 1 }
      else r := by
  simp only [dialDynamic, addDial]
  split <;> rfl

theorem RoundOK.dialDynamic (ok : RoundOK s₀ peers inflight need₀ r) (n : Node) :
    RoundOK s₀ peers inflight need₀ (dialDynamic peers n r) := by
  rw [dialDynamic_eq]
  split
  · next pass =>
    have dialed := ok.dial ⟨dynDialedConn, n⟩ pass
    have dyn : dynCount [⟨n.ID, dynDialedConn⟩] = 1 := by
      simp [dynCount, dynDialedConn, ConnFlag.is]
    rw [dyn, Nat.cast_one] at dialed
    exact dialed
  · exact ok

theorem needDynDials_dialDynamic (peers : Peers) (n : Node) (r : Round) :
    r.needDynDials - 1 ≤ (dialDynamic peers n r).needDynDials ∧
      (dialDynamic peers n r).needDynDials ≤ r.needDynDials := by
  rw [dialDynamic_eq]
  split
  · exact ⟨le_rfl, by simp⟩
  · omega

theorem RoundOK.dialStatics (ok : RoundOK s₀ peers inflight need₀ r)
    (entries : List (Σ _ : NodeID, DialTask))
    (static : ∀ e ∈ entries, e.2.dest.ID = e.1 ∧ e.2.flags = staticDialedConn) :
    RoundOK s₀ peers inflight need₀ (dialStatics peers entries r) := by
  induction entries generalizing r with
  | nil => exact ok
  | cons e rest ih =>
    obtain ⟨id, t⟩ := e
    have rest_static := fun e mem => static e (List.mem_cons_of_mem _ mem)
    obtain ⟨id_eq, flags_eq⟩ := static ⟨id, t⟩ List.mem_cons_self
    simp only at id_eq flags_eq
    cases pass : checkDial r.s t.dest peers with
    | none =>
      -- a static dial, which `needDynDials` does not count
      simp only [dialStatics, pass]
      have dialed := ok.dial t pass
      have not_dyn : dynCount [⟨t.dest.ID, t.flags⟩] = 0 := by
        simp [dynCount, flags_eq, staticDialedConn, dynDialedConn, ConnFlag.is]
      rw [not_dyn, Nat.cast_zero, Int.sub_zero] at dialed
      rw [← id_eq]
      exact ih dialed rest_static
    | some err =>
      cases err
      case errSelf | errNotWhitelisted =>
        simp only [dialStatics, pass]
        exact ih ⟨ok.kept.trans ⟨rfl, rfl, rfl, rfl⟩, ok.dialing_perm, ok.static_ok.erase _,
          ok.lookup, ok.issued, ok.count⟩ rest_static
      all_goals
        simp only [dialStatics, pass]
        exact ih ok rest_static

theorem needDynDials_dialStatics (peers : Peers) :
    ∀ (entries : List (Σ _ : NodeID, DialTask)) (r : Round),
      (dialStatics peers entries r).needDynDials = r.needDynDials
  | [], _ => rfl
  | ⟨id, t⟩ :: rest, r => by
    have step := needDynDials_dialStatics peers rest
    cases pass : checkDial r.s t.dest peers with
    | none => simp only [dialStatics, pass, step]
    | some err => cases err <;> simp only [dialStatics, pass, step]

theorem RoundOK.dialBootnode (ok : RoundOK s₀ peers inflight need₀ r) (now start : Time) :
    RoundOK s₀ peers inflight need₀ (dialBootnode peers now start r) := by
  unfold Indigo.P2p.dialBootnode
  split
  · split
    · -- the rotation writes only `bootnodes`
      apply RoundOK.dialDynamic
      exact ok.of_same ⟨rfl, rfl, rfl, rfl⟩ rfl rfl rfl rfl rfl
    · exact ok
  · exact ok

theorem RoundOK.dialRandom {k : Nat} {buf : Vector (Option Node) k} {is : List Nat} {r' : Round}
    (ok : RoundOK s₀ peers inflight need₀ r) (run : dialRandom peers buf is r = some r') :
    RoundOK s₀ peers inflight need₀ r' := by
  induction is generalizing r with
  | nil =>
    cases run
    exact ok
  | cons i is ih =>
    simp only [dialRandom] at run
    split at run
    · exact ih (ok.dialDynamic _) run
    · cases run

theorem RoundOK.dialRandomNodes {random : Nat × List Node} {r' : Round}
    (ok : RoundOK s₀ peers inflight need₀ r) (run : dialRandomNodes peers random r = some r') :
    RoundOK s₀ peers inflight need₀ r' := by
  unfold Indigo.P2p.dialRandomNodes at run
  split at run
  · -- the read writes only the buffer
    dsimp only at run
    have read : RoundOK s₀ peers inflight need₀
        { r with s := { r.s with randomNodes := writeFront r.s.randomNodes random.2 } } :=
      ok.of_same ⟨rfl, rfl, rfl, rfl⟩ rfl rfl rfl rfl rfl
    exact read.dialRandom run
  · cases run
    exact ok

theorem RoundOK.dialLookup (ok : RoundOK s₀ peers inflight need₀ r) (ns : List Node) :
    RoundOK s₀ peers inflight need₀ (dialLookup peers ns r).2 := by
  induction ns generalizing r with
  | nil => exact ok
  | cons n rest ih =>
    simp only [Indigo.P2p.dialLookup]
    split
    · exact ih (ok.dialDynamic n)
    · exact ok

theorem RoundOK.dialLookupBuf (ok : RoundOK s₀ peers inflight need₀ r) :
    RoundOK s₀ peers inflight need₀ (dialLookupBuf peers r) :=
  (ok.dialLookup r.s.lookupBuf).of_same ⟨rfl, rfl, rfl, rfl⟩ rfl rfl rfl rfl rfl

theorem RoundOK.launchLookup (ok : RoundOK s₀ peers inflight need₀ r) :
    RoundOK s₀ peers inflight need₀ (launchLookup r) := by
  unfold Indigo.P2p.launchLookup
  split
  · next launch =>
    -- no lookup runs, so none is in flight or made so far
    have idle : r.s.lookupRunning = false := by simpa using launch.2
    have no_dial : keyed [Task.discover []] = [] := rfl
    refine ⟨ok.kept.trans ⟨rfl, rfl, rfl, rfl⟩, ?_, ok.static_ok, ?_, ?_, ?_⟩
    · show r.s.dialing.entries.Perm (keyed (inflight ++ (r.newtasks ++ [.discover []])))
      rw [← List.append_assoc, keyed_append, no_dial, List.append_nil]
      exact ok.dialing_perm
    · show lookups (inflight ++ (r.newtasks ++ [.discover []])) = 1
      rw [← List.append_assoc, lookups_append, lookups_discover, ok.lookup, idle]
      rfl
    · simpa using ok.issued
    · show (dynCount (keyed (r.newtasks ++ [.discover []])) : Int) + r.needDynDials = need₀
      rw [keyed_append, no_dial, List.append_nil]
      exact ok.count
  · exact ok

theorem RoundOK.waitExpire (ok : RoundOK s₀ peers inflight need₀ r) (nRunning : Int) (now : Time) :
    RoundOK s₀ peers inflight need₀ (waitExpire nRunning now r) := by
  unfold Indigo.P2p.waitExpire
  split
  · split
    · next d _ _ =>
      have no_dial : keyed [Task.waitExpire (d.exp - now)] = [] := rfl
      refine ⟨ok.kept, ?_, ok.static_ok, ?_, ?_, ?_⟩
      · show r.s.dialing.entries.Perm (keyed (inflight ++ (r.newtasks ++ [.waitExpire (d.exp - now)])))
        rw [← List.append_assoc, keyed_append, no_dial, List.append_nil]
        exact ok.dialing_perm
      · show lookups (inflight ++ (r.newtasks ++ [.waitExpire (d.exp - now)])) =
          if r.s.lookupRunning then 1 else 0
        rw [← List.append_assoc, lookups_append, lookups_waitExpire, Nat.add_zero]
        exact ok.lookup
      · simpa using ok.issued
      · show (dynCount (keyed (r.newtasks ++ [.waitExpire (d.exp - now)])) : Int) +
          r.needDynDials = need₀
        rw [keyed_append, no_dial, List.append_nil]
        exact ok.count
    · exact ok
  · exact ok

end Rounds

/-! ### How far `needDynDials` goes down -/

/-- `needDynDials` went down from `need` to `need'`, and below zero only if it started there. -/
def Lowered (need need' : Int) : Prop := min need 0 ≤ need' ∧ need' ≤ need

theorem Lowered.refl (need : Int) : Lowered need need := ⟨min_le_left _ _, le_rfl⟩

theorem Lowered.trans {a b c : Int} (ab : Lowered a b) (bc : Lowered b c) : Lowered a c := by
  unfold Lowered at *
  omega

/-- Half of `need` in Go's truncating division is positive only for `need` two or more, where
it is the floor. -/
theorem tdiv_two_of_pos {need : Int} (half : 0 < need.tdiv 2) :
    2 ≤ need ∧ need.tdiv 2 = need / 2 := by
  have nonneg : 0 ≤ need := by
    by_contra negative
    have rounded := Int.tdiv_eq_ediv (a := need) (b := 2)
    rw [show Int.sign 2 = 1 from rfl] at rounded
    split at rounded <;> omega
  have halved := Int.tdiv_eq_ediv_of_nonneg (b := 2) nonneg
  omega

/-- One dynamic dial made while one was needed. -/
theorem lowered_dialDynamic {peers : Peers} {n : Node} {r : Round} (needed : 0 < r.needDynDials) :
    Lowered r.needDynDials (dialDynamic peers n r).needDynDials := by
  have bounds := needDynDials_dialDynamic peers n r
  unfold Lowered
  omega

theorem lowered_dialBootnode (peers : Peers) (now start : Time) (r : Round) :
    Lowered r.needDynDials (dialBootnode peers now start r).needDynDials := by
  unfold dialBootnode
  split
  · split
    · next fallback => exact lowered_dialDynamic (r := { r with s := _ }) fallback.2.1
    · exact Lowered.refl _
  · exact Lowered.refl _

/-- The random loop makes at most one dial per position. -/
theorem needDynDials_dialRandom {k : Nat} (peers : Peers) (buf : Vector (Option Node) k) :
    ∀ (is : List Nat) (r r' : Round), dialRandom peers buf is r = some r' →
      r.needDynDials - is.length ≤ r'.needDynDials ∧ r'.needDynDials ≤ r.needDynDials
  | [], r, r', run => by
    cases run
    simp
  | i :: is, r, r', run => by
    simp only [dialRandom] at run
    split at run
    · next n _ =>
      have step := needDynDials_dialDynamic peers n r
      have rest := needDynDials_dialRandom peers buf is _ r' run
      simp only [List.length_cons, Nat.cast_add, Nat.cast_one]
      omega
    · cases run

/-- The random phase makes at most `needDynDials / 2` dials. -/
theorem lowered_dialRandomNodes {peers : Peers} {random : Nat × List Node} {r r' : Round}
    (run : dialRandomNodes peers random r = some r') :
    Lowered r.needDynDials r'.needDynDials := by
  unfold dialRandomNodes at run
  split at run
  · next half =>
    dsimp only at run
    have bounds := needDynDials_dialRandom peers _ _ _ r' run
    dsimp only at bounds
    have halved := tdiv_two_of_pos half
    rw [List.length_range] at bounds
    unfold Lowered
    omega
  · cases run
    exact Lowered.refl _

theorem lowered_dialLookup (peers : Peers) :
    ∀ (ns : List Node) (r : Round), Lowered r.needDynDials (dialLookup peers ns r).2.needDynDials
  | [], r => Lowered.refl _
  | n :: rest, r => by
    simp only [dialLookup]
    split
    · next needed =>
      exact (lowered_dialDynamic needed).trans (lowered_dialLookup peers rest _)
    · exact Lowered.refl _

theorem lowered_dialLookupBuf (peers : Peers) (r : Round) :
    Lowered r.needDynDials (dialLookupBuf peers r).needDynDials :=
  lowered_dialLookup peers r.s.lookupBuf r

theorem needDynDials_launchLookup (r : Round) : (launchLookup r).needDynDials = r.needDynDials := by
  unfold launchLookup
  split <;> rfl

theorem needDynDials_waitExpire (nRunning : Int) (now : Time) (r : Round) :
    (waitExpire nRunning now r).needDynDials = r.needDynDials := by
  unfold waitExpire
  split
  · split <;> rfl
  · rfl

/-! ### The random phase reads only what it wrote -/

/-- With fewer than two dynamic dials needed, the random phase reads nothing. -/
theorem dialRandomNodes_of_le (peers : Peers) (random : Nat × List Node) {r : Round}
    (few : r.needDynDials.tdiv 2 ≤ 0) : dialRandomNodes peers random r = some r := by
  unfold dialRandomNodes
  rw [if_neg (by omega)]

theorem getElem?_writeFront {k : Nat} (buf : Vector (Option Node) k) {written : List Node} {i : Nat}
    (inside : i < written.length) (fits : i < k) :
    (writeFront buf written)[i]? = some (some written[i]) := by
  simp [writeFront, fits, inside]

theorem dialRandom_isSome {k : Nat} (peers : Peers) (buf : Vector (Option Node) k) :
    ∀ (is : List Nat) (r : Round), (∀ i ∈ is, ∃ n, buf[i]? = some (some n)) →
      ∃ r', dialRandom peers buf is r = some r'
  | [], r, _ => ⟨r, rfl⟩
  | i :: is, r, filled => by
    obtain ⟨n, at_i⟩ := filled i List.mem_cons_self
    simp only [dialRandom, at_i]
    exact dialRandom_isSome peers buf is _ fun j mem => filled j (List.mem_cons_of_mem _ mem)

/-- With a table that writes as many nodes as it reports, or the whole buffer, the random phase
never reads a nil entry: it reads at most `needDynDials / 2` places, which the buffer has. -/
theorem dialRandomNodes_isSome (peers : Peers) {random : Nat × List Node} (r : Round)
    (reads : random.2.length = min random.1 (r.s.maxDynDials / 2))
    (below : r.needDynDials ≤ r.s.maxDynDials) :
    ∃ r', dialRandomNodes peers random r = some r' := by
  unfold dialRandomNodes
  split
  · next half =>
    apply dialRandom_isSome
    intro i mem
    have halved := tdiv_two_of_pos half
    have i_lt : i < min (r.needDynDials.tdiv 2).toNat random.1 := List.mem_range.mp mem
    have fits : i < r.s.maxDynDials / 2 := by omega
    exact ⟨_, getElem?_writeFront _ (by omega) fits⟩
  · exact ⟨r, rfl⟩

end Indigo.P2p
