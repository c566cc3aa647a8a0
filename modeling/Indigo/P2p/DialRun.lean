import Indigo.P2p.Dial

/-!
# The dial scheduler over whole runs

`Server.run` drives the dialer: it asks `newTasks` for tasks, runs them, and reports each one
done through `taskDone`; between two calls it adds and removes static nodes. A task issued and
not yet reported done is in flight. `Dialer` is the dialer's state with the tasks in flight, and
`Step` is one event of `Server.run`: a call of `newTasks`, with any peers, any time and what the
discovery table, whatever it holds, reads at random; the report of a task in flight, a lookup
with any results; `addStatic` and `removeStatic` of any node.

`Accounts` is what the state says of the tasks in flight: the dialing map holds exactly their
nodes and flags, the history holds none of their nodes, none of them is the local node or outside
the whitelist, and a lookup is in flight exactly when `lookupRunning` says so. It holds of
`newDialState` and each event keeps it, so it holds of every state a run reaches.

## Main results

- `newTasks_spec`: a call keeps `Accounts`, each dial it makes passed `checkDial` against the
  peers it was given, and it makes a dynamic dial only while dynamic dials in flight and dynamic
  peers are fewer than `maxDynDials`.
- `newTasks_isSome`: with what the table writes, a call never panics.
- `Step.accounts`, `Reachable.accounts`: the invariant over runs.
-/

namespace Indigo.P2p

open Indigo.Discover Indigo.Netutil Indigo.Lib

/-! ### The history -/

namespace DialHistory

theorem contains_add (h : DialHistory) (id : NodeID) (exp : Time) (id' : NodeID) :
    (h.add id exp).contains id' = (h.contains id' || id == id') := by
  rw [contains, add, (Heap.push_perm Less h ⟨id, exp⟩).any_eq, List.any_append]
  simp [contains]

theorem contains_of_contains_remove {h : DialHistory} {id id' : NodeID}
    (kept : (h.remove id).2.contains id' = true) : h.contains id' = true := by
  unfold remove at kept
  split at kept
  · obtain ⟨d, mem, same⟩ := List.any_eq_true.mp kept
    exact List.any_eq_true.mpr ⟨d, Heap.mem_of_mem_remove Less mem, same⟩
  · exact kept

theorem contains_of_contains_expireLoop {now : Time} {id : NodeID} :
    ∀ (n : Nat) (h : DialHistory), (expireLoop n h now).contains id = true → h.contains id = true
  | 0, h, kept => kept
  | n + 1, [], kept => kept
  | n + 1, d :: rest, kept => by
    simp only [expireLoop] at kept
    split at kept
    · obtain ⟨e, mem, same⟩ := List.any_eq_true.mp (contains_of_contains_expireLoop n _ kept)
      exact List.any_eq_true.mpr ⟨e, Heap.mem_of_mem_pop Less mem, same⟩
    · exact kept

theorem contains_of_contains_expire {h : DialHistory} {now : Time} {id : NodeID}
    (kept : (h.expire now).contains id = true) : h.contains id = true :=
  contains_of_contains_expireLoop h.length h kept

end DialHistory

/-! ### What a state says of the tasks in flight -/

/-- The dialer's state accounts for the tasks `inflight` it issued and has not heard back from:
the dialing map holds exactly the nodes and flags of the dials among them, each of which is
`Cleared`; the static tasks are well keyed; and a lookup is in flight exactly when
`lookupRunning` is set. -/
structure Accounts (s : DialState) (inflight : List Task) : Prop where
  dialing_perm : s.dialing.entries.Perm (keyed inflight)
  static_ok : StaticOK s.static
  lookup : lookups inflight = if s.lookupRunning then 1 else 0
  cleared : ∀ t ∈ dialTasks inflight, Cleared s t.dest

section Accounts

variable {s : DialState} {inflight : List Task}

theorem Accounts.nodupKeys (acc : Accounts s inflight) : (keyed inflight).NodupKeys :=
  (List.perm_nodupKeys acc.dialing_perm).mp s.dialing.nodupKeys

/-- No two dials in flight are to the same node. -/
theorem Accounts.nodup (acc : Accounts s inflight) :
    ((dialTasks inflight).map (·.dest.ID)).Nodup := by
  have keys := acc.nodupKeys
  simpa [List.NodupKeys, keyed, List.keys, Function.comp_def] using keys

theorem keyed_perm {l l' : List Task} (p : l.Perm l') : (keyed l).Perm (keyed l') :=
  (p.filterMap _).map _

theorem lookups_perm {l l' : List Task} (p : l.Perm l') : lookups l = lookups l' :=
  p.countP_eq _

theorem dialTasks_perm {l l' : List Task} (p : l.Perm l') : (dialTasks l).Perm (dialTasks l') :=
  p.filterMap _

/-- Reporting the dial `t` done takes its entry, and only its, off the entries the dials stand
for. -/
theorem kerase_keyed {t : DialTask} :
    ∀ {l : List Task}, (keyed l).NodupKeys → Task.dial t ∈ l →
      (keyed l).kerase t.dest.ID = keyed (l.erase (.dial t))
  | u :: rest, nodup, mem => by
    by_cases same : u = .dial t
    · subst same
      simp [keyed, dialTasks, List.kerase_cons_eq]
    · have mem_rest : Task.dial t ∈ rest := (List.mem_cons.mp mem).resolve_left (Ne.symm same)
      have nodup_rest : (keyed rest).NodupKeys := by
        cases u <;> simp_all [keyed, dialTasks, List.nodupKeys_cons]
      have ih := kerase_keyed nodup_rest mem_rest
      rw [List.erase_cons_tail (by simpa using same)]
      cases u with
      | dial v =>
        -- the other dial is to another node, since the keys are distinct
        have other : t.dest.ID ≠ v.dest.ID := by
          intro eq
          have key_mem : t.dest.ID ∈ (keyed rest).keys := by
            simp only [keyed, List.keys, List.map_map, List.mem_map]
            exact ⟨t, mem_dialTasks.mpr mem_rest, rfl⟩
          simp only [keyed, dialTasks, List.filterMap_cons, List.map_cons,
            List.nodupKeys_cons] at nodup
          exact nodup.1 (eq ▸ key_mem)
        simp only [keyed, dialTasks, List.filterMap_cons, List.map_cons] at ih ⊢
        rw [List.kerase_cons_ne other, ih]
      | discover results => simpa [keyed, dialTasks] using ih
      | waitExpire d => simpa [keyed, dialTasks] using ih

/-- The node of a dial reported done is not the node of any dial left in flight. -/
theorem Accounts.not_mem_erase (acc : Accounts s inflight) {t : DialTask}
    (running : Task.dial t ∈ inflight) {u : DialTask}
    (left : u ∈ dialTasks (inflight.erase (.dial t))) : u.dest.ID ≠ t.dest.ID := by
  intro same
  have key : u.dest.ID ∈ (keyed (inflight.erase (.dial t))).keys := by
    simp only [keyed, List.keys, List.map_map, List.mem_map]
    exact ⟨u, left, rfl⟩
  rw [← kerase_keyed acc.nodupKeys running, same] at key
  exact List.notMem_keys_kerase _ acc.nodupKeys key

/-! ### The events of `Server.run` -/

theorem Accounts.dialDone (acc : Accounts s inflight) {t : DialTask}
    (running : Task.dial t ∈ inflight) (now : Time) :
    Accounts (taskDone s (.dial t) now) (inflight.erase (.dial t)) := by
  have count := lookups_perm (List.perm_cons_erase running)
  refine ⟨?_, acc.static_ok, ?_, ?_⟩
  · -- the dialing map loses the node's entry, the only one of it
    show (s.dialing.entries.kerase t.dest.ID).Perm (keyed (inflight.erase (.dial t)))
    rw [← kerase_keyed acc.nodupKeys running]
    exact List.Perm.kerase s.dialing.nodupKeys acc.dialing_perm
  · rw [← List.singleton_append, lookups_append, lookups_dial, Nat.zero_add] at count
    rw [← count]
    exact acc.lookup
  · intro u left
    have cleared := acc.cleared u (mem_dialTasks.mpr (List.mem_of_mem_erase (mem_dialTasks.mp left)))
    refine ⟨cleared.not_self, cleared.whitelisted, ?_⟩
    -- the history gains the node done, which no dial left in flight is to
    show (s.hist.add t.dest.ID (now + dialHistoryExpiration)).contains u.dest.ID = false
    rw [DialHistory.contains_add, cleared.not_recent, Bool.false_or]
    simpa using (acc.not_mem_erase running left).symm

theorem Accounts.discoverDone (acc : Accounts s inflight)
    (running : Task.discover [] ∈ inflight) (results : List Node) (now : Time) :
    Accounts (taskDone s (.discover results) now) (inflight.erase (.discover [])) := by
  have split := List.perm_cons_erase running
  have count := lookups_perm split
  rw [← List.singleton_append, lookups_append, lookups_discover] at count
  have no_dial : keyed (Task.discover [] :: inflight.erase (.discover [])) =
      keyed (inflight.erase (.discover [])) := rfl
  refine ⟨acc.dialing_perm.trans (no_dial ▸ keyed_perm split), acc.static_ok, ?_, ?_⟩
  · -- the lookup in flight is the one `lookupRunning` stood for
    have running_one := acc.lookup
    rw [count] at running_one
    show lookups (inflight.erase (.discover [])) = if false = true then 1 else 0
    split at running_one <;> simp only [Bool.false_eq_true, if_false] <;> omega
  · intro u left
    have cleared := acc.cleared u (mem_dialTasks.mpr (List.mem_of_mem_erase (mem_dialTasks.mp left)))
    exact ⟨cleared.not_self, cleared.whitelisted, cleared.not_recent⟩

theorem Accounts.waitDone (acc : Accounts s inflight) {d : Duration}
    (running : Task.waitExpire d ∈ inflight) (now : Time) :
    Accounts (taskDone s (.waitExpire d) now) (inflight.erase (.waitExpire d)) := by
  have split := List.perm_cons_erase running
  have count := lookups_perm split
  rw [← List.singleton_append, lookups_append, lookups_waitExpire, Nat.zero_add] at count
  have no_dial : keyed (Task.waitExpire d :: inflight.erase (.waitExpire d)) =
      keyed (inflight.erase (.waitExpire d)) := rfl
  refine ⟨acc.dialing_perm.trans (no_dial ▸ keyed_perm split), acc.static_ok, count ▸ acc.lookup, ?_⟩
  intro u left
  exact acc.cleared u (mem_dialTasks.mpr (List.mem_of_mem_erase (mem_dialTasks.mp left)))

theorem Accounts.addStatic (acc : Accounts s inflight) (n : Node) :
    Accounts (addStatic s n) inflight := by
  refine ⟨acc.dialing_perm, acc.static_ok.insert n, acc.lookup, fun t mem => ?_⟩
  have cleared := acc.cleared t mem
  exact ⟨cleared.not_self, cleared.whitelisted, cleared.not_recent⟩

theorem Accounts.removeStatic (acc : Accounts s inflight) (n : Node) :
    Accounts (removeStatic s n) inflight := by
  refine ⟨acc.dialing_perm, acc.static_ok.erase n.ID, acc.lookup, fun t mem => ?_⟩
  have cleared := acc.cleared t mem
  refine ⟨cleared.not_self, cleared.whitelisted, ?_⟩
  -- the history only loses entries
  show (s.hist.remove n.ID).2.contains t.dest.ID = false
  cases kept : (s.hist.remove n.ID).2.contains t.dest.ID
  · rfl
  · have := DialHistory.contains_of_contains_remove kept
    rw [cleared.not_recent] at this
    cases this

/-! ### A call of `newTasks` -/

/-- The state `newTasks` works on: `start` set on the first call, and the history expired. -/
def startState (s : DialState) (now : Time) : DialState :=
  { s with start := some (s.start.getD now), hist := s.hist.expire now }

/-- `needDynDials` as `newTasks` first computes it, from the peers and the dialing map. -/
def initialNeed (s : DialState) (peers : Peers) : Int :=
  countDown s.dialing.entries (countDown peers.entries s.maxDynDials)

/-- The round `newTasks` starts from. -/
def firstRound (s : DialState) (peers : Peers) (now : Time) : Round :=
  ⟨startState s now, [], initialNeed s peers⟩

/-- The phases of `newTasks`: the only one that can fail is the random one. -/
theorem newTasks_eq_some {nRunning : Int} {peers : Peers} {now : Time} {random : Nat × List Node}
    {s' : DialState} {tasks : List Task} :
    newTasks s nRunning peers now random = some (s', tasks) ↔
      ∃ r, dialRandomNodes peers random (dialBootnode peers now (s.start.getD now)
          (dialStatics peers s.static.entries (firstRound s peers now))) = some r ∧
        (waitExpire nRunning now (launchLookup (dialLookupBuf peers r))).s = s' ∧
        (waitExpire nRunning now (launchLookup (dialLookupBuf peers r))).newtasks = tasks := by
  simp only [newTasks, bind, Option.bind_eq_some_iff, pure, Option.some.injEq, Prod.mk.injEq]
  rfl

theorem Cleared.startState {n : Node} (cleared : Cleared s n) (now : Time) :
    Cleared (startState s now) n := by
  refine ⟨cleared.not_self, cleared.whitelisted, ?_⟩
  -- expiring only takes entries off the history
  show (s.hist.expire now).contains n.ID = false
  cases kept : (s.hist.expire now).contains n.ID
  · rfl
  · have := DialHistory.contains_of_contains_expire kept
    rw [cleared.not_recent] at this
    cases this

theorem initialNeed_eq (s : DialState) (peers : Peers) :
    initialNeed s peers = s.maxDynDials - dynCount peers.entries - dynCount s.dialing.entries := by
  rw [initialNeed, countDown_eq, countDown_eq]

theorem Accounts.roundOK_firstRound (acc : Accounts s inflight) (peers : Peers) (now : Time) :
    RoundOK (startState s now) peers inflight (initialNeed s peers) (firstRound s peers now) := by
  refine ⟨Kept.refl _, ?_, acc.static_ok, ?_, by simp [firstRound], by simp [firstRound]⟩
  · simpa [firstRound, startState] using acc.dialing_perm
  · show lookups (inflight ++ []) = if s.lookupRunning then 1 else 0
    rw [List.append_nil]
    exact acc.lookup

/-- The last round of a call of `newTasks`, as the phases leave it. -/
theorem newTasks_round (acc : Accounts s inflight) {nRunning : Int} {peers : Peers} {now : Time}
    {random : Nat × List Node} {s' : DialState} {tasks : List Task}
    (run : newTasks s nRunning peers now random = some (s', tasks)) :
    ∃ r : Round, RoundOK (startState s now) peers inflight (initialNeed s peers) r ∧
      Lowered (initialNeed s peers) r.needDynDials ∧ r.s = s' ∧ r.newtasks = tasks := by
  obtain ⟨r, random_run, final_s, final_tasks⟩ := newTasks_eq_some.mp run
  have random := (((acc.roundOK_firstRound peers now).dialStatics s.static.entries acc.static_ok).dialBootnode now
    (s.start.getD now)).dialRandomNodes random_run
  refine ⟨_, (random.dialLookupBuf.launchLookup).waitExpire nRunning now, ?_, final_s, final_tasks⟩
  -- only the bootnode, random and lookup phases lower `needDynDials`
  have boot := lowered_dialBootnode peers now (s.start.getD now)
    (dialStatics peers s.static.entries (firstRound s peers now))
  rw [needDynDials_dialStatics] at boot
  rw [needDynDials_waitExpire, needDynDials_launchLookup]
  exact (boot.trans (lowered_dialRandomNodes random_run)).trans (lowered_dialLookupBuf peers r)

/-- A call of `newTasks` keeps `Accounts`; each dial it makes is to a node that is not a peer,
not the local node, inside the whitelist and not in the history it expired; and it makes
dynamic dials only while dynamic dials in flight and dynamic peers are under `maxDynDials`. -/
theorem newTasks_spec (acc : Accounts s inflight) {nRunning : Int} {peers : Peers} {now : Time}
    {random : Nat × List Node} {s' : DialState} {tasks : List Task}
    (run : newTasks s nRunning peers now random = some (s', tasks)) :
    Accounts s' (inflight ++ tasks) ∧
      (∀ t ∈ dialTasks tasks, t.dest.ID ∉ peers ∧ Cleared s' t.dest) ∧
      (dynCount (keyed (inflight ++ tasks)) : Int) + dynCount peers.entries ≤
        max (s.maxDynDials : Int) (dynCount (keyed inflight) + dynCount peers.entries) := by
  obtain ⟨r, ok, lowered, rfl, rfl⟩ := newTasks_round acc run
  have issued : ∀ t ∈ dialTasks r.newtasks, t.dest.ID ∉ peers ∧ Cleared r.s t.dest :=
    fun t mem => ⟨(ok.issued t mem).1, ok.kept.cleared_iff.mpr (ok.issued t mem).2⟩
  refine ⟨⟨ok.dialing_perm, ok.static_ok, ok.lookup, ?_⟩, issued, ?_⟩
  · intro t mem
    rw [dialTasks_append, List.mem_append] at mem
    rcases mem with old | new
    · exact ok.kept.cleared_iff.mpr ((acc.cleared t old).startState now)
    · exact (issued t new).2
  · -- the dynamic dials made are what `needDynDials` lost, which it had to spare
    have count := ok.count
    have dialing := dynCount_perm acc.dialing_perm
    unfold Lowered at lowered
    rw [initialNeed_eq] at count lowered
    rw [keyed_append, dynCount_append]
    push_cast
    omega

/-- With what the table writes, as many nodes as it reports or the whole buffer, a call of
`newTasks` never panics. -/
theorem newTasks_isSome (acc : Accounts s inflight) (nRunning : Int) (peers : Peers) (now : Time)
    {random : Nat × List Node} (reads : random.2.length = min random.1 (s.maxDynDials / 2)) :
    ∃ result, newTasks s nRunning peers now random = some result := by
  have boot := ((acc.roundOK_firstRound peers now).dialStatics s.static.entries acc.static_ok).dialBootnode now (s.start.getD now)
  have lowered := lowered_dialBootnode peers now (s.start.getD now)
    (dialStatics peers s.static.entries (firstRound s peers now))
  rw [needDynDials_dialStatics] at lowered
  -- `needDynDials` starts at most `maxDynDials` and only goes down
  have below : initialNeed s peers ≤ s.maxDynDials := by
    rw [initialNeed_eq]
    omega
  have maxDynDials_eq := boot.kept.maxDynDials_eq
  obtain ⟨r, random_run⟩ := dialRandomNodes_isSome peers
    (dialBootnode peers now (s.start.getD now) (dialStatics peers s.static.entries (firstRound s peers now)))
    (by rw [maxDynDials_eq]; exact reads)
    (by rw [maxDynDials_eq]; exact lowered.2.trans below)
  exact ⟨_, newTasks_eq_some.mpr ⟨r, random_run, rfl, rfl⟩⟩

/-- What no event writes: the bound on dynamic dials, the local node and the whitelist. -/
def DialState.config (s : DialState) : Nat × Node × Option Netlist :=
  (s.maxDynDials, s.self, s.netrestrict)

theorem newTasks_config (acc : Accounts s inflight) {nRunning : Int} {peers : Peers} {now : Time}
    {random : Nat × List Node} {s' : DialState} {tasks : List Task}
    (run : newTasks s nRunning peers now random = some (s', tasks)) : s'.config = s.config := by
  obtain ⟨r, ok, -, rfl, -⟩ := newTasks_round acc run
  simp only [DialState.config, ok.kept.maxDynDials_eq, ok.kept.self_eq, ok.kept.netrestrict_eq]
  rfl

theorem Accounts.foldl_addStatic (static : List Node) (acc : Accounts s inflight) :
    Accounts (static.foldl P2p.addStatic s) inflight := by
  induction static generalizing s with
  | nil => exact acc
  | cons n rest ih => exact ih (acc.addStatic n)

end Accounts

theorem config_foldl_addStatic (static : List Node) (s : DialState) :
    (static.foldl addStatic s).config = s.config := by
  induction static generalizing s with
  | nil => rfl
  | cons n rest ih => exact ih (addStatic s n)

/-- The dialer starts accounting for no task. -/
theorem accounts_newDialState (static bootnodes : List Node) (self : Node) (maxdyn : Nat)
    (netrestrict : Option Netlist) :
    Accounts (newDialState static bootnodes self maxdyn netrestrict) [] := by
  apply Accounts.foldl_addStatic
  refine ⟨List.Perm.refl _, ?_, rfl, by simp⟩
  intro e mem
  cases mem

/-! ### Runs -/

/-- The dialer inside `Server.run`: its state, and the tasks it issued that were not reported
done yet, running or queued. -/
structure Dialer where
  s : DialState
  inflight : List Task

/-- One event of `Server.run`. A call of `newTasks` takes any peers and any time, and the nodes
the discovery table, whatever it holds, reads into the buffer; a lookup comes back with any
results. -/
inductive Step : Dialer → Dialer → Prop
  | newTasks {d : Dialer} {s' : DialState} {tasks : List Task} (nRunning : Int) (peers : Peers)
      (now : Time) (tab : Table) (initDone : Bool) (rand : Nat → Nat) (random : Nat × List Node)
      (read : ReadRandomNodes tab initDone rand (d.s.maxDynDials / 2) = some random)
      (run : newTasks d.s nRunning peers now random = some (s', tasks)) :
      Step d ⟨s', d.inflight ++ tasks⟩
  | dialDone {d : Dialer} (t : DialTask) (now : Time) (running : Task.dial t ∈ d.inflight) :
      Step d ⟨taskDone d.s (.dial t) now, d.inflight.erase (.dial t)⟩
  | discoverDone {d : Dialer} (results : List Node) (now : Time)
      (running : Task.discover [] ∈ d.inflight) :
      Step d ⟨taskDone d.s (.discover results) now, d.inflight.erase (.discover [])⟩
  | waitDone {d : Dialer} (w : Duration) (now : Time) (running : Task.waitExpire w ∈ d.inflight) :
      Step d ⟨taskDone d.s (.waitExpire w) now, d.inflight.erase (.waitExpire w)⟩
  | addStatic {d : Dialer} (n : Node) : Step d ⟨addStatic d.s n, d.inflight⟩
  | removeStatic {d : Dialer} (n : Node) : Step d ⟨removeStatic d.s n, d.inflight⟩

/-- The dialers a run of `Server.run` reaches from `newDialState`. -/
def Reachable (static bootnodes : List Node) (self : Node) (maxdyn : Nat)
    (netrestrict : Option Netlist) (d : Dialer) : Prop :=
  Relation.ReflTransGen Step ⟨newDialState static bootnodes self maxdyn netrestrict, []⟩ d

/-- Each event keeps `Accounts` and the configuration. -/
theorem Step.accounts {d d' : Dialer} (step : Step d d') (acc : Accounts d.s d.inflight) :
    Accounts d'.s d'.inflight ∧ d'.s.config = d.s.config := by
  cases step with
  | newTasks nRunning peers now tab initDone rand random read run =>
    exact ⟨(newTasks_spec acc run).1, newTasks_config acc run⟩
  | dialDone t now running => exact ⟨acc.dialDone running now, rfl⟩
  | discoverDone results now running => exact ⟨acc.discoverDone running results now, rfl⟩
  | waitDone w now running => exact ⟨acc.waitDone running now, rfl⟩
  | addStatic n => exact ⟨acc.addStatic n, rfl⟩
  | removeStatic n => exact ⟨acc.removeStatic n, rfl⟩

/-- Every dialer a run reaches accounts for its tasks in flight, with the configuration it
started with. -/
theorem Reachable.accounts {static bootnodes : List Node} {self : Node} {maxdyn : Nat}
    {netrestrict : Option Netlist} {d : Dialer}
    (reach : Reachable static bootnodes self maxdyn netrestrict d) :
    Accounts d.s d.inflight ∧ d.s.config = (maxdyn, self, netrestrict) := by
  induction reach with
  | refl =>
    exact ⟨accounts_newDialState static bootnodes self maxdyn netrestrict,
      config_foldl_addStatic static _⟩
  | tail _ step ih =>
    obtain ⟨acc, config⟩ := step.accounts ih.1
    exact ⟨acc, config.trans ih.2⟩

/-! ### Safety -/

/-- The dial scheduler over every run: the dials in flight are to distinct nodes, none to the local
node, none outside the whitelist and none to a node with an entry in the history; at most one
lookup is in flight; and a call of `newTasks`, whatever the peers, the time and the table, does not
panic, dials only nodes that are not peers, not the local node, inside the whitelist and without
an entry in the history it expired, and makes a dynamic dial only while the dynamic dials in
flight and the dynamic peers are under `maxDynDials`. -/
theorem dial_scheduler_safety {static bootnodes : List Node} {self : Node} {maxdyn : Nat}
    {netrestrict : Option Netlist} {d : Dialer}
    (reach : Reachable static bootnodes self maxdyn netrestrict d) :
    ((dialTasks d.inflight).map (·.dest.ID)).Nodup ∧
      (∀ t ∈ dialTasks d.inflight, t.dest.ID ≠ self.ID ∧
        outsideNetrestrict netrestrict t.dest.IP = false ∧ d.s.hist.contains t.dest.ID = false) ∧
      lookups d.inflight ≤ 1 ∧
      ∀ (nRunning : Int) (peers : Peers) (now : Time) (tab : Table) (initDone : Bool)
        (rand : Nat → Nat) (random : Nat × List Node),
        ReadRandomNodes tab initDone rand (maxdyn / 2) = some random →
        ∃ s' tasks, newTasks d.s nRunning peers now random = some (s', tasks) ∧
          (∀ t ∈ dialTasks tasks, t.dest.ID ∉ peers ∧ t.dest.ID ≠ self.ID ∧
            outsideNetrestrict netrestrict t.dest.IP = false ∧ s'.hist.contains t.dest.ID = false) ∧
          (dynCount (keyed (d.inflight ++ tasks)) : Int) + dynCount peers.entries ≤
            max (maxdyn : Int) (dynCount (keyed d.inflight) + dynCount peers.entries) := by
  obtain ⟨acc, config⟩ := reach.accounts
  simp only [DialState.config, Prod.mk.injEq] at config
  obtain ⟨maxDynDials_eq, self_eq, netrestrict_eq⟩ := config
  refine ⟨acc.nodup, ?_, ?_, ?_⟩
  · intro t mem
    have cleared := acc.cleared t mem
    exact ⟨self_eq ▸ cleared.not_self, netrestrict_eq ▸ cleared.whitelisted, cleared.not_recent⟩
  · rw [acc.lookup]
    split <;> omega
  · intro nRunning peers now tab initDone rand random read
    -- the table writes as many nodes as it reports, or the whole buffer
    have reads : random.2.length = min random.1 (d.s.maxDynDials / 2) := by
      rw [maxDynDials_eq]
      exact length_ReadRandomNodes read
    obtain ⟨⟨s', tasks⟩, run⟩ := newTasks_isSome acc nRunning peers now reads
    obtain ⟨-, issued, bound⟩ := newTasks_spec acc run
    have config' := newTasks_config acc run
    simp only [DialState.config, Prod.mk.injEq] at config'
    refine ⟨s', tasks, run, fun t mem => ?_, maxDynDials_eq ▸ bound⟩
    obtain ⟨peer, cleared⟩ := issued t mem
    refine ⟨peer, ?_, ?_, cleared.not_recent⟩
    · rw [← self_eq, ← config'.2.1]
      exact cleared.not_self
    · rw [← netrestrict_eq, ← config'.2.2]
      exact cleared.whitelisted

/-- The dialer of the examples, with one dynamic dial, after three events: a call of
`newTasks` that launches a lookup, the lookup coming back with `exampleNode`, and a call of
`newTasks` that dials it. -/
def dialingDialer : Dialer :=
  let d₀ : Dialer := ⟨newDialState [] [] exampleSelf 1 none, []⟩
  let w₁ := waitExpire 0 0 (launchLookup (dialLookupBuf ∅
    (dialBootnode ∅ 0 0 (dialStatics ∅ [] (firstRound d₀.s ∅ 0)))))
  let d₂ : Dialer :=
    ⟨taskDone w₁.s (.discover [exampleNode]) 0, (d₀.inflight ++ w₁.newtasks).erase (.discover [])⟩
  let w₃ := waitExpire 0 0 (launchLookup (dialLookupBuf ∅
    (dialBootnode ∅ 0 0 (dialStatics ∅ d₂.s.static.entries (firstRound d₂.s ∅ 0)))))
  ⟨w₃.s, d₂.inflight ++ w₃.newtasks⟩

theorem reachable_dialingDialer : Reachable [] [] exampleSelf 1 none dialingDialer := by
  let d₀ : Dialer := ⟨newDialState [] [] exampleSelf 1 none, []⟩
  -- the first call launches a lookup
  let r₁ := dialBootnode ∅ 0 0 (dialStatics ∅ [] (firstRound d₀.s ∅ 0))
  let w₁ := waitExpire 0 0 (launchLookup (dialLookupBuf ∅ r₁))
  have step₁ : Step d₀ ⟨w₁.s, d₀.inflight ++ w₁.newtasks⟩ :=
    Step.newTasks 0 ∅ 0 (newTable exampleSelf) false (fun _ => 0) (0, []) rfl
      (newTasks_eq_some.mpr ⟨r₁, dialRandomNodes_of_le ∅ (0, []) (by decide), rfl, rfl⟩)
  -- the lookup finds `exampleNode`
  let d₂ : Dialer :=
    ⟨taskDone w₁.s (.discover [exampleNode]) 0, (d₀.inflight ++ w₁.newtasks).erase (.discover [])⟩
  have step₂ : Step ⟨w₁.s, d₀.inflight ++ w₁.newtasks⟩ d₂ :=
    Step.discoverDone [exampleNode] 0 (by decide)
  -- the second call dials it
  let r₃ := dialBootnode ∅ 0 0 (dialStatics ∅ d₂.s.static.entries (firstRound d₂.s ∅ 0))
  let w₃ := waitExpire 0 0 (launchLookup (dialLookupBuf ∅ r₃))
  have step₃ : Step d₂ ⟨w₃.s, d₂.inflight ++ w₃.newtasks⟩ :=
    Step.newTasks 0 ∅ 0 (newTable exampleSelf) false (fun _ => 0) (0, []) rfl
      (newTasks_eq_some.mpr ⟨r₃, dialRandomNodes_of_le ∅ (0, []) (by decide), rfl, rfl⟩)
  exact ((Relation.ReflTransGen.refl.tail step₁).tail step₂).tail step₃

/-- A third call of `newTasks` by `dialingDialer`, with the dialed node connected and one task
running, before its dial is reported done. -/
theorem dial_scheduler_safety_dialing :
    Reachable [] [] exampleSelf 1 none dialingDialer ∧
      ∃ s' tasks, newTasks dialingDialer.s 1 (AList.singleton exampleNode.ID dynDialedConn) 0
          (0, []) = some (s', tasks) ∧
        (∀ t ∈ dialTasks tasks, t.dest.ID ∉ (AList.singleton exampleNode.ID dynDialedConn : Peers) ∧
          t.dest.ID ≠ exampleSelf.ID ∧ outsideNetrestrict none t.dest.IP = false ∧
          s'.hist.contains t.dest.ID = false) ∧
        (dynCount (keyed (dialingDialer.inflight ++ tasks)) : Int) +
            dynCount (AList.singleton exampleNode.ID dynDialedConn : Peers).entries ≤
          max ((1 : Nat) : Int) (dynCount (keyed dialingDialer.inflight) +
            dynCount (AList.singleton exampleNode.ID dynDialedConn : Peers).entries) :=
  ⟨reachable_dialingDialer, (dial_scheduler_safety reachable_dialingDialer).2.2.2 1
    (AList.singleton exampleNode.ID dynDialedConn) 0 (newTable exampleSelf) false (fun _ => 0)
    (0, []) rfl⟩

/-- A dialer with one dynamic dial: a lookup, whose result `exampleNode` is dialed, and then a call
of `newTasks` with `exampleNode` connected by that dial, before the dial is reported done. The dial
to the connected peer stays in flight, and the dynamic dial and the dynamic peer it became are
two, over `maxDynDials = 1`. -/
theorem dial_inflight_connected_peer :
    ∃ d : Dialer, Reachable [] [] exampleSelf 1 none d ∧
      Task.dial ⟨dynDialedConn, exampleNode⟩ ∈ d.inflight ∧
      ∃ s' tasks, newTasks d.s 1 (AList.singleton exampleNode.ID dynDialedConn) 0 (0, []) =
          some (s', tasks) ∧
        exampleNode.ID ∈ (AList.singleton exampleNode.ID dynDialedConn : Peers) ∧
        Task.dial ⟨dynDialedConn, exampleNode⟩ ∈ d.inflight ++ tasks ∧
        1 < dynCount (keyed (d.inflight ++ tasks)) +
          dynCount (AList.singleton exampleNode.ID dynDialedConn : Peers).entries := by
  have dialed : Task.dial ⟨dynDialedConn, exampleNode⟩ ∈ dialingDialer.inflight := by decide
  -- a third call, with the node connected, while the dial is in flight
  obtain ⟨⟨s', tasks⟩, run⟩ := @newTasks_isSome _ _ reachable_dialingDialer.accounts.1 1
    (AList.singleton exampleNode.ID dynDialedConn) 0 (0, []) (by simp)
  refine ⟨_, reachable_dialingDialer, dialed, s', tasks, run, by decide,
    List.mem_append_left _ dialed, ?_⟩
  have one : dynCount (keyed dialingDialer.inflight) = 1 := by decide
  have peer : dynCount (AList.singleton exampleNode.ID dynDialedConn : Peers).entries = 1 := by
    decide
  rw [keyed_append, dynCount_append, one, peer]
  omega

end Indigo.P2p
