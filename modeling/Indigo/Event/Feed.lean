import Indigo.Lib.Slice
import Indigo.Lib.Except
import Mathlib.Data.List.Count
import Mathlib.Data.List.Basic

/-!
# The event feed

A `Feed` (`event/feed.go`) delivers every value sent to it to all the channels subscribed to
it. The model is the feed together with the goroutines that call into it, as a state machine
whose steps are the atomic actions of those goroutines:

- `Subscribe`, under `f.mu`, appends a send case to the inbox;
- `Unsubscribe` runs `remove`: under `f.mu` it deletes the channel from the inbox if it is
  there; otherwise it blocks in a select between handing the channel to a running send over
  `f.removeSub` and taking the free send lock to delete it from `f.sendCases` itself;
- `SendCtx` takes the send lock, moves the inbox to the end of `f.sendCases` and loops: a fast
  path tries every channel without blocking, and `reflect.Select` waits on the channels, on
  `f.removeSub` and on a timer.

What the runtime and the receivers decide (whether a `TrySend` goes through, which ready case
`reflect.Select` picks, when the timer fires) is an `Answer` given to the step.

`cases` and `f.sendCases` are Go slices (`Indigo.Lib.Slice`). `cases` starts as a copy in an
array of its own, with the timer case after the channels; the `removeSub` branch makes it a
reslice of `f.sendCases`, and from then on the two see one array. Between sends nothing reads
`f.sendCases` past its length, so there the feed holds it as a list. Within a send, everything
read lies in the first `len(f.sendCases)` places of the array as the send found it, since
`cases` never gets longer than one more than that.

## Main results

- `World.step`, `World.run`: the feed and its callers as a state machine.
- `send_without_removal_meets_spec`: a send whose select never receives from `f.removeSub`
  does what a send is for (`SendSpec`): the value reaches every subscribed channel once, or
  the channels it has not reached when the timer fires are dropped, and it returns how many it
  reached. `Sending.Undisturbed` is the invariant of its loop, kept by every other answer
  (`Sending.Undisturbed.answer`) and carried along the loop by `Sending.Breaks.meets`.
- `Sending.receive_absent`: a channel received from a `remove` that `f.sendCases` no longer
  holds makes the send call `delete(-1)`.
- `unsubscribe_after_timeout_panics`: an `Unsubscribe` of a channel that an earlier send
  dropped at its timeout makes a blocked send call `delete(-1)`, which panics.
- `unsubscribe_during_send_keeps_other`: an `Unsubscribe` during a blocked send leaves the
  unsubscribed channel in `f.sendCases` and drops another, still subscribed, in its place.

## Proof strategy

`Sending.Undisturbed` says what holds between two answers of a send that no `remove` has
reached: `f.sendCases` is as the send found it, and the channels reached and the cases still in
`cases` together are the subscribed channels and the timer. One lemma per branch of the loop
keeps it (`fastFrom`, `deliver`), two read the spec off it at the two `break`s (`meets_done`,
`meets_timeout`), and `Breaks.meets` carries it along the answers by induction. Reached and
pending channels are compared by counting each case (`Undisturbed.pending`).
-/

namespace Indigo.Event

open Indigo.Lib

variable {Chan Val Ty : Type}

/-- A select case of the feed: receiving from `f.removeSub`, receiving from the running send's
`timer.C`, or sending to a subscribed channel. Each has a channel of its own, so comparing two
cases compares their channels. -/
inductive SelectCase (Chan : Type) where
  | removeSub
  | timer
  | send (ch : Chan)
  deriving DecidableEq, Repr

/-- `cas.Dir == reflect.SelectSend`. -/
def SelectCase.isSend : SelectCase Chan → Bool
  | .send _ => true
  | _ => false

/-- `caseList`. -/
abbrev CaseList (Chan : Type) := List (SelectCase Chan)

/-- The runtime panics the feed can run into. -/
inductive RuntimeError where
  | indexOutOfRange
  | sliceBoundsOutOfRange
  deriving DecidableEq, Repr

/-- What a call into the feed panics with. For `Subscribe` the types of a `feedTypeError` are
the channel types `chantyp` and `chan<- etype`, given here by their element types. -/
inductive Panic (Ty : Type) where
  | errBadChannel
  | feedTypeError (op : String) (got : Ty) (want : Option Ty)
  | runtime (err : RuntimeError)
  deriving DecidableEq, Repr

namespace CaseList

variable [DecidableEq Chan]

/-- `find`: the index of the first case on the channel of `cas`, or `-1`. -/
def find (cs : CaseList Chan) (cas : SelectCase Chan) : Int :=
  if cas ∈ cs then cs.idxOf cas else -1

/-- `delete` on a case list alone in its array (the inbox, and `f.sendCases` between sends):
`append(cs[:index], cs[index+1:]...)` panics unless `0 ≤ index < len(cs)`. -/
def delete (cs : CaseList Chan) (index : Int) : Except RuntimeError (CaseList Chan) :=
  if 0 ≤ index ∧ index < cs.length then .ok (cs.eraseIdx index.toNat)
  else .error .sliceBoundsOutOfRange

end CaseList

/-- The reflected type of a value given to `Subscribe`: whether it is a channel, whether one
can send on it, and its element type. -/
structure ChanType (Ty : Type) where
  isChan : Bool
  canSend : Bool
  elem : Ty

/-- What `Subscribe` and `Send` read of the dynamic types of their arguments. -/
structure Reflect (Chan Val Ty : Type) where
  chanType : Chan → ChanType Ty
  typeOf : Val → Ty

/-- The fields of a `Feed` after `init`. `f.sendCases` starts with the `removeSub` case; while a
send runs it belongs to that send (`Sending`). -/
structure Feed (Chan Ty : Type) where
  sendCases : CaseList Chan
  inbox : CaseList Chan
  etype : Option Ty

namespace Feed

variable [DecidableEq Chan] [DecidableEq Ty]

/-- The feed as `init` leaves it. -/
def init : Feed Chan Ty := ⟨[.removeSub], [], none⟩

/-- `typecheck`: the first type fixes the feed's, and after that only it passes. -/
def typecheck (f : Feed Chan Ty) (typ : Ty) : Bool × Feed Chan Ty :=
  match f.etype with
  | none => (true, { f with etype := some typ })
  | some etype => (decide (etype = typ), f)

/-- `Subscribe`: the channel's send case joins the inbox, for the next send to add to
`f.sendCases`. -/
def Subscribe (r : Reflect Chan Val Ty) (f : Feed Chan Ty) (channel : Chan) :
    Except (Panic Ty) (Feed Chan Ty) :=
  let chantyp := r.chanType channel
  if !chantyp.isChan || !chantyp.canSend then .error .errBadChannel
  else
    match f.typecheck chantyp.elem with
    | (true, f) => .ok { f with inbox := f.inbox ++ [.send channel] }
    | (false, f) => .error (.feedTypeError "Subscribe" chantyp.elem f.etype)

/-- `remove` up to its select, under `f.mu`: a channel still in the inbox is deleted from it
(`some`); any other goes on to the select (`none`). -/
def remove (f : Feed Chan Ty) (channel : Chan) : Except RuntimeError (Option (Feed Chan Ty)) :=
  let index := f.inbox.find (.send channel)
  if index ≠ -1 then (f.inbox.delete index).map fun inbox => some { f with inbox }
  else .ok none

/-- The select of `remove` when it takes the free send lock: delete the channel from
`f.sendCases` if it is there. -/
def removeLocked (f : Feed Chan Ty) (channel : Chan) : Except RuntimeError (Feed Chan Ty) :=
  let i := f.sendCases.find (.send channel)
  if i ≠ -1 then (f.sendCases.delete i).map fun sendCases => { f with sendCases }
  else .ok f

end Feed

/-- The arrays a running send works on: `f.sendCases`'s and the one it makes for `cases`. -/
inductive Arr where
  | sendCases
  | cases
  deriving DecidableEq, Repr

/-- Where the loop of `SendCtx` is: on the fast path about to try `cases[i]`, or blocked in
`reflect.Select`. -/
inductive Pc where
  | fast (i : Nat)
  | select
  deriving DecidableEq, Repr

/-- The state of a running `SendCtx`, which holds the send lock. -/
structure Sending (Chan Val : Type) where
  rvalue : Val
  heap : Heap Arr (SelectCase Chan)
  sendCases : Slice Arr
  cases : Slice Arr
  nsent : Nat
  /-- The channels that took the value so far, in order: what the receivers see. -/
  delivered : List Chan
  pc : Pc

/-- Where a step of the loop leads: on round the loop, or out of it by one of its two `break`s,
the one after the fast path (`done`) or the one at the timeout (`timedOut`). -/
inductive Loop (Chan Val : Type) where
  | next (s : Sending Chan Val)
  | done (s : Sending Chan Val)
  | timedOut (s : Sending Chan Val)

/-- What `TrySend` or `reflect.Select` returned: whether the try went through, the channel a
blocked `remove` sent over `f.removeSub`, or the index of another chosen case. -/
inductive Answer (Chan : Type) where
  | trySend (accepted : Bool)
  | receive (channel : Chan)
  | select (chosen : Nat)
  deriving DecidableEq, Repr

/-- The answer is a receive from `f.removeSub`. -/
def Answer.isReceive : Answer Chan → Bool
  | .receive _ => true
  | _ => false

/-- `firstSubSendCase`: `sendCases[0]` is the `removeSub` case. -/
def firstSubSendCase : Nat := 1

/-- `minSelectCaseN`: `removeSub` and the timer. -/
def minSelectCaseN : Nat := firstSubSendCase + 1

/-- `deactivate`: swap the case at `index` with the last one and cut it off. -/
def CaseList.deactivate (heap : Heap Arr (SelectCase Chan)) (cs : Slice Arr) (index : Nat) :
    Option (Heap Arr (SelectCase Chan) × Slice Arr) :=
  cs.swapRemove heap index

/-- The first send case of `cs` at index `i` or after. -/
def nextSend (cs : CaseList Chan) (i : Nat) : Option Nat :=
  ((cs.drop i).findIdx? SelectCase.isSend).map (· + i)

namespace Sending

variable [DecidableEq Chan]

/-- The fast path from index `i` on: the next send case to try, or, when none is left, the test
after the fast path, which breaks when only `removeSub` and the timer are left and else
blocks in the select. -/
def fastFrom (s : Sending Chan Val) (i : Nat) : Loop Chan Val :=
  match nextSend (s.cases.view s.heap) i with
  | some j => .next { s with pc := .fast j }
  | none => if s.cases.len = minSelectCaseN then .done s else .next { s with pc := .select }

/-- The value went to the channel of `cases[i]`: count it and deactivate the case. -/
def deliver (s : Sending Chan Val) (i : Nat) (ch : Chan) : Except RuntimeError (Sending Chan Val) :=
  match CaseList.deactivate s.heap s.cases i with
  | some (heap, cases) =>
    .ok { s with heap, cases, nsent := s.nsent + 1, delivered := s.delivered ++ [ch] }
  | none => .error .indexOutOfRange

/-- The fast path's `TrySend` on `cases[i]`. After a delivery, `i--` and `i++` try index `i`
again, where the last case now is. -/
def trySend (s : Sending Chan Val) (i : Nat) (accepted : Bool) :
    Option (Except RuntimeError (Loop Chan Val)) :=
  match (s.cases.view s.heap)[i]? with
  | some (.send ch) =>
    if accepted then some ((s.deliver i ch).map (·.fastFrom i)) else some (.ok (s.fastFrom (i + 1)))
  | _ => none

/-- `reflect.Select` chose `removeSub` and received a blocked `remove`'s channel: delete it from
`f.sendCases`, and if it was at an index within `cases`, make `cases` the first
`len(cases) - 1` cases of the array of `f.sendCases`. -/
def receive (s : Sending Chan Val) (channel : Chan) : Except RuntimeError (Loop Chan Val) :=
  let index := CaseList.find (s.sendCases.view s.heap) (.send channel)
  match s.sendCases.removeAt s.heap index with
  | none => .error .sliceBoundsOutOfRange
  | some (heap, sendCases) =>
    if 0 ≤ index ∧ index < s.cases.len then
      match sendCases.reslice heap (s.cases.len - 1) with
      | some cases => .ok ({ s with heap, sendCases, cases }.fastFrom firstSubSendCase)
      | none => .error .sliceBoundsOutOfRange
    else .ok ({ s with heap, sendCases }.fastFrom firstSubSendCase)

/-- One round of the timeout loop: delete the channel of `cases[i]` from `f.sendCases` if it is
there. `cases` may see the array of `f.sendCases`, so `cases[i]` is read after the deletions of
the rounds before. -/
def dropCase (s : Sending Chan Val) (i : Nat) : Except RuntimeError (Sending Chan Val) :=
  match (s.cases.view s.heap)[i]? with
  | none => .error .indexOutOfRange
  | some cas =>
    let idx := CaseList.find (s.sendCases.view s.heap) cas
    if idx ≠ -1 then
      match s.sendCases.removeAt s.heap idx with
      | some (heap, sendCases) => .ok { s with heap, sendCases }
      | none => .error .sliceBoundsOutOfRange
    else .ok s

/-- The timeout branch: for `i` from `1` to `len(cases) - 1`, drop the channel of `cases[i]`. -/
def timeout (s : Sending Chan Val) : Except RuntimeError (Sending Chan Val) :=
  (List.range' 1 (s.cases.len - 1)).foldlM dropCase s

/-- `reflect.Select` chose case `chosen ≥ 1`: the timer, or a channel that took the value. -/
def selectCase (s : Sending Chan Val) (chosen : Nat) :
    Option (Except RuntimeError (Loop Chan Val)) :=
  match (s.cases.view s.heap)[chosen]? with
  | some .timer => some (s.timeout.map .timedOut)
  | some (.send ch) => some ((s.deliver chosen ch).map (·.fastFrom firstSubSendCase))
  | _ => none

/-- The loop's step on an answer, where the loop is: `none` when that answer cannot come now. -/
def answer (s : Sending Chan Val) : Answer Chan → Option (Except RuntimeError (Loop Chan Val))
  | .trySend accepted =>
    match s.pc with
    | .fast i => s.trySend i accepted
    | .select => none
  | .receive channel =>
    match s.pc with
    | .select =>
      if (s.cases.view s.heap)[0]? = some .removeSub then some (s.receive channel) else none
    | .fast _ => none
  | .select chosen =>
    match s.pc with
    | .select => if chosen = 0 then none else s.selectCase chosen
    | .fast _ => none

end Sending

/-- The loop, given the answers in order, leaves through one of its `break`s after the last:
`timedOut` tells which. -/
inductive Loop.Breaks [DecidableEq Chan] :
    Loop Chan Val → List (Answer Chan) → Bool → Sending Chan Val → Prop
  | done (s : Sending Chan Val) : Breaks (.done s) [] false s
  | timedOut (s : Sending Chan Val) : Breaks (.timedOut s) [] true s
  | next {s : Sending Chan Val} {a : Answer Chan} {l : Loop Chan Val} {as : List (Answer Chan)}
      {timedOut : Bool} {s' : Sending Chan Val} :
      s.answer a = some (.ok l) → Breaks l as timedOut s' → Breaks (.next s) (a :: as) timedOut s'

/-- The arrays of a send that has just copied `f.sendCases` into `cases` and put the timer
case after it. -/
def sendHeap (sendCases : CaseList Chan) : Heap Arr (SelectCase Chan)
  | .sendCases => sendCases
  | .cases => sendCases ++ [.timer]

/-- The loop of `SendCtx` as it starts, on `f.sendCases` with the inbox added. -/
def startLoop [DecidableEq Chan] (sendCases : CaseList Chan) (value : Val) : Loop Chan Val :=
  Sending.fastFrom
    { rvalue := value, heap := sendHeap sendCases, sendCases := ⟨.sendCases, sendCases.length⟩,
      cases := ⟨.cases, sendCases.length + 1⟩, nsent := 0, delivered := [],
      pc := .fast firstSubSendCase }
    firstSubSendCase

/-- The feed and the goroutines that use it. -/
structure World (Chan Val Ty : Type) where
  feed : Feed Chan Ty
  /-- The send that holds the send lock, if any. -/
  sending : Option (Sending Chan Val)
  /-- The subscriptions not yet unsubscribed, by channel. -/
  subs : List Chan
  /-- The `remove`s blocked in their select, by channel. -/
  removing : List Chan
  /-- Every send that returned: its value, the channels it reached and its result. -/
  returned : List (Val × List Chan × Nat)

/-- What a goroutine does next: a `Subscribe`; the first `Unsubscribe` of a subscription; a
blocked `remove` taking the free send lock; a `Send` taking the free send lock; an answer to
the running send. -/
inductive Action (Chan Val : Type) where
  | subscribe (channel : Chan)
  | unsubscribe (channel : Chan)
  | removeLocked (channel : Chan)
  | send (value : Val)
  | answer (a : Answer Chan)

namespace World

variable [DecidableEq Chan] [DecidableEq Ty]

/-- No send, no subscription. -/
def init : World Chan Val Ty := ⟨Feed.init, none, [], [], []⟩

/-- The running send goes on, or breaks: then `f.sendCases` is what its slice sees, the send
lock is handed off and the send returns `nsent`. -/
def proceed (w : World Chan Val Ty) : Loop Chan Val → World Chan Val Ty
  | .next s => { w with sending := some s }
  | .done s | .timedOut s =>
    { w with
      feed := { w.feed with sendCases := s.sendCases.view s.heap }
      sending := none
      returned := w.returned ++ [(s.rvalue, s.delivered, s.nsent)] }

/-- `SendCtx` with the send lock taken: under `f.mu` the inbox moves to the end of
`f.sendCases`; a value of another type than the feed's hands the lock back and panics. -/
def SendCtx (r : Reflect Chan Val Ty) (w : World Chan Val Ty) (value : Val) :
    Except (Panic Ty) (World Chan Val Ty) :=
  let feed := { w.feed with sendCases := w.feed.sendCases ++ w.feed.inbox, inbox := [] }
  match feed.typecheck (r.typeOf value) with
  | (false, feed) => .error (.feedTypeError "Send" (r.typeOf value) feed.etype)
  | (true, feed) => .ok ({ w with feed }.proceed (startLoop feed.sendCases value))

/-- A `receive` answer takes its channel from a `remove` blocked in its select. -/
def handOver (w : World Chan Val Ty) : Answer Chan → Option (World Chan Val Ty)
  | .receive channel =>
    if channel ∈ w.removing then some { w with removing := w.removing.erase channel } else none
  | _ => some w

/-- One step of one goroutine: `none` when it cannot take that step now. -/
def step (r : Reflect Chan Val Ty) (w : World Chan Val Ty) :
    Action Chan Val → Option (Except (Panic Ty) (World Chan Val Ty))
  | .subscribe channel =>
    some ((w.feed.Subscribe r channel).map fun feed => { w with feed, subs := w.subs ++ [channel] })
  | .unsubscribe channel =>
    if channel ∈ w.subs then
      some (((w.feed.remove channel).mapError .runtime).map fun
        | some feed => { w with feed, subs := w.subs.erase channel }
        | none => { w with subs := w.subs.erase channel, removing := w.removing ++ [channel] })
    else none
  | .removeLocked channel =>
    if channel ∈ w.removing ∧ w.sending.isNone then
      some (((w.feed.removeLocked channel).mapError .runtime).map fun feed =>
        { w with feed, removing := w.removing.erase channel })
    else none
  | .send value => if w.sending.isNone then some (w.SendCtx r value) else none
  | .answer a => do
    let s ← w.sending
    let w ← w.handOver a
    let l ← s.answer a
    pure ((l.mapError .runtime).map w.proceed)

/-- The goroutines take the steps in order, up to the first panic; `none` when one of them
cannot take its step. -/
def run (r : Reflect Chan Val Ty) (w : World Chan Val Ty) :
    List (Action Chan Val) → Option (Except (Panic Ty) (World Chan Val Ty))
  | [] => some (.ok w)
  | a :: as =>
    match w.step r a with
    | some (.ok w) => run r w as
    | other => other

end World

/-! ### Sends that no `remove` interrupts -/

namespace CaseList
variable [DecidableEq Chan]

theorem find_of_not_mem {cs : CaseList Chan} {cas : SelectCase Chan} (absent : cas ∉ cs) :
    cs.find cas = -1 := by
  simp only [find, absent, if_false]

theorem find_of_mem {cs : CaseList Chan} {cas : SelectCase Chan} (present : cas ∈ cs) :
    cs.find cas = cs.idxOf cas := by
  simp only [find, present, if_true]

theorem find_ne_neg_one {cs : CaseList Chan} {cas : SelectCase Chan} :
    cs.find cas ≠ -1 ↔ cas ∈ cs := by
  by_cases present : cas ∈ cs
  · simp only [find_of_mem present, present, iff_true]
    omega
  · simp only [find_of_not_mem present, present, ne_eq, not_true_eq_false]

end CaseList

/-- Removing the case that `find` finds in a slice erases it from the view. -/
theorem removeAt_find [DecidableEq Chan] {heap : Heap Arr (SelectCase Chan)} {s : Slice Arr}
    {cas : SelectCase Chan} (fits : s.Fits heap) (present : cas ∈ s.view heap) :
    ∃ heap' s', s.removeAt heap (CaseList.find (s.view heap) cas) = some (heap', s') ∧
      s'.array = s.array ∧ s'.view heap' = (s.view heap).erase cas ∧ s'.Fits heap' ∧
      ∀ a ≠ s.array, heap' a = heap a := by
  have within := List.idxOf_lt_length_of_mem present
  have length : (s.view heap).length = s.len := by
    unfold Slice.Fits at fits
    simp only [Slice.view, List.length_take]
    omega
  rw [CaseList.find_of_mem present]
  have inRange : (s.removeAt heap ((s.view heap).idxOf cas)).isSome :=
    Slice.removeAt_isSome (by omega) (by omega)
  obtain ⟨⟨heap', s'⟩, removed⟩ := Option.isSome_iff_exists.mp inRange
  obtain ⟨same, erased⟩ := Slice.view_removeAt removed fits
  refine ⟨heap', s', removed, same, ?_, Slice.fits_removeAt removed fits,
    fun a other => Slice.removeAt_ne removed other⟩
  rw [erased, Int.toNat_natCast, List.eraseIdx_idxOf_eq_erase]

namespace Sending
variable [DecidableEq Chan]

/-- A round of the timeout loop reads `cases[i]` and erases it from `f.sendCases`, which is in
an array of its own. -/
theorem dropCase_erase {s s' : Sending Chan Val} {i : Nat}
    (apart : s.cases.array ≠ s.sendCases.array) (fits : s.sendCases.Fits s.heap)
    (dropped : s.dropCase i = .ok s') :
    ∃ cas heap sendCases, (s.cases.view s.heap)[i]? = some cas ∧
      s' = { s with heap, sendCases } ∧ sendCases.array = s.sendCases.array ∧
      sendCases.view heap = (s.sendCases.view s.heap).erase cas ∧ sendCases.Fits heap ∧
      heap s.cases.array = s.heap s.cases.array := by
  unfold dropCase at dropped
  rcases read : (s.cases.view s.heap)[i]? with _ | cas
  · simp only [read, reduceCtorEq] at dropped
  simp only [read] at dropped
  by_cases present : cas ∈ s.sendCases.view s.heap
  · obtain ⟨heap, sendCases, removed, same, erased, fits', frame⟩ := removeAt_find fits present
    rw [if_pos (CaseList.find_ne_neg_one.mpr present), removed] at dropped
    cases dropped
    exact ⟨cas, heap, sendCases, rfl, rfl, same, erased, fits', frame _ apart⟩
  · rw [if_neg (by simpa only [ne_eq, not_not] using CaseList.find_of_not_mem present)] at dropped
    cases dropped
    exact ⟨cas, s.heap, s.sendCases, rfl, rfl, rfl, (List.erase_of_not_mem present).symm, fits, rfl⟩

/-- The timeout loop over indices `is` erases from `f.sendCases` the cases it reads. -/
theorem foldlM_dropCase : ∀ (is : List Nat) {s s' : Sending Chan Val},
    s.cases.array ≠ s.sendCases.array → s.sendCases.Fits s.heap →
    is.foldlM dropCase s = .ok s' →
    ∃ heap sendCases, s' = { s with heap, sendCases } ∧
      sendCases.view heap =
        (is.filterMap ((s.cases.view s.heap)[·]?)).foldl List.erase (s.sendCases.view s.heap)
  | [], s, s', _, _, folded => by
    cases folded
    exact ⟨s.heap, s.sendCases, rfl, rfl⟩
  | i :: is, s, s', apart, fits, folded => by
    rw [List.foldlM_cons] at folded
    obtain ⟨s₁, dropped, rest⟩ := bind_eq_ok.mp folded
    obtain ⟨cas, heap₁, sendCases₁, read, rfl, same, erased, fits₁, frame⟩ :=
      dropCase_erase apart fits dropped
    have apart₁ : s.cases.array ≠ sendCases₁.array := same ▸ apart
    obtain ⟨heap, sendCases, rfl, later⟩ := foldlM_dropCase is apart₁ fits₁ rest
    -- the first round leaves the array of `cases` as it was
    have casesView : s.cases.view heap₁ = s.cases.view s.heap := by
      simp only [Slice.view, frame]
    refine ⟨heap, sendCases, rfl, ?_⟩
    dsimp only at later
    rw [later, casesView, erased, List.filterMap_cons, read, List.foldl_cons]


end Sending

theorem SelectCase.send_injective : Function.Injective (SelectCase.send : Chan → SelectCase Chan) :=
  fun _ _ same => SelectCase.send.inj same

section Counting

variable [DecidableEq Chan]

@[simp] theorem count_map_send_send (l : List Chan) (ch : Chan) :
    (l.map SelectCase.send).count (.send ch) = l.count ch :=
  List.count_map_of_injective _ _ SelectCase.send_injective _

@[simp] theorem count_map_send_removeSub (l : List Chan) :
    (l.map SelectCase.send).count .removeSub = 0 :=
  List.count_eq_zero.mpr (by simp)

@[simp] theorem count_map_send_timer (l : List Chan) : (l.map SelectCase.send).count .timer = 0 :=
  List.count_eq_zero.mpr (by simp)

end Counting

theorem filterMap_range'_getElem? {α : Type} (l : List α) :
    ∀ (k n : Nat), (List.range' k n).filterMap (l[·]?) = (l.drop k).take n
  | _, 0 => by simp
  | k, n + 1 => by
    rw [List.range'_succ, List.filterMap_cons, filterMap_range'_getElem? l (k + 1) n]
    rcases Nat.lt_or_ge k l.length with inside | past
    · rw [List.getElem?_eq_getElem inside, List.drop_eq_getElem_cons inside, List.take_succ_cons]
    · rw [List.getElem?_eq_none past, List.drop_eq_nil_of_le past, List.drop_eq_nil_of_le (by omega)]
      simp

section Spec

variable [DecidableEq Chan]

/-- What a send is for, as the feed's documentation has it: the value reaches every channel
subscribed when the send began, each once, except that those it has not reached when the timer
fires are dropped from the feed and the others stay; the send returns how many it reached. -/
structure SendSpec (subs delivered : List Chan) (nsent : Nat) (kept : List Chan) (timedOut : Bool) :
    Prop where
  reached : ∃ dropped, (delivered ++ dropped).Perm subs ∧ kept = subs.diff dropped ∧
    (timedOut = false → dropped = [])
  counted : nsent = delivered.length

end Spec

namespace Sending

/-- A send that no `remove` has interrupted: `f.sendCases` is as the send found it, `removeSub`
followed by the channels `subs`; `cases` is in its own array and holds `removeSub` first and
then, in some order, the timer and the channels the value has not reached. -/
structure Undisturbed (subs : List Chan) (s : Sending Chan Val) : Prop where
  sendCases : s.sendCases = ⟨.sendCases, subs.length + 1⟩
  sendArray : s.heap .sendCases = .removeSub :: subs.map .send
  own : s.cases.array = .cases
  fits : s.cases.Fits s.heap
  first : (s.cases.view s.heap)[0]? = some .removeSub
  split : (s.delivered.map SelectCase.send ++ (s.cases.view s.heap).tail).Perm
    (subs.map SelectCase.send ++ [SelectCase.timer])
  counted : s.nsent = s.delivered.length
  onPath : ∀ i, s.pc = .fast i → 1 ≤ i

variable [DecidableEq Chan]

/-- What a send that has left its loop has done: `SendSpec`, with `f.sendCases` holding
`removeSub` and then the channels that stay. -/
def Meets (subs : List Chan) (timedOut : Bool) (s : Sending Chan Val) : Prop :=
  ∃ kept, s.sendCases.view s.heap = .removeSub :: kept.map .send ∧
    SendSpec subs s.delivered s.nsent kept timedOut

/-- Where an undisturbed send is after a step: still undisturbed in the loop, or out of it having
done what a send is for. -/
def Proceeds (subs : List Chan) : Loop Chan Val → Prop
  | .next s => Undisturbed subs s
  | .done s => Meets subs false s
  | .timedOut s => Meets subs true s

namespace Undisturbed

variable {subs : List Chan} {s : Sending Chan Val}

omit [DecidableEq Chan] in
theorem view_length (u : Undisturbed subs s) : (s.cases.view s.heap).length = s.cases.len := by
  have fits := u.fits
  unfold Slice.Fits at fits
  simp only [Slice.view, List.length_take]
  omega

omit [DecidableEq Chan] in
theorem sendView (u : Undisturbed subs s) :
    s.sendCases.view s.heap = .removeSub :: subs.map .send := by
  simp only [Slice.view, u.sendCases, u.sendArray]
  rw [List.take_of_length_le (by simp)]

omit [DecidableEq Chan] in
theorem view_cons (u : Undisturbed subs s) :
    s.cases.view s.heap = .removeSub :: (s.cases.view s.heap).tail := by
  have first := u.first
  revert first
  cases s.cases.view s.heap with
  | nil => simp
  | cons c rest => simp only [List.getElem?_cons_zero, Option.some.injEq, List.tail_cons]; rintro rfl; rfl

omit [DecidableEq Chan] in
theorem withPc (u : Undisturbed subs s) {pc : Pc} (onPath : ∀ i, pc = .fast i → 1 ≤ i) :
    Undisturbed subs { s with pc } :=
  ⟨u.sendCases, u.sendArray, u.own, u.fits, u.first, u.split, u.counted, onPath⟩

/-- Counting each case on both sides of `split`: the cases still to go are the timer and the
channels of `subs` the value has not reached, and those it reached are among `subs`. -/
theorem pending (u : Undisturbed subs s) :
    (s.cases.view s.heap).tail.Perm (.timer :: (subs.diff s.delivered).map .send) ∧
      (s.delivered ++ subs.diff s.delivered).Perm subs := by
  have counts := List.perm_iff_count.mp u.split
  have reached : ∀ ch, s.delivered.count ch ≤ subs.count ch := fun ch => by
    have := counts (.send ch)
    simp only [List.count_append, count_map_send_send, List.count_singleton, beq_iff_eq,
      reduceCtorEq, if_false] at this
    omega
  refine ⟨List.perm_iff_count.mpr fun c => ?_, List.perm_iff_count.mpr fun ch => ?_⟩
  · have count := counts c
    -- no `removeSub` is left, one timer is, and the channels not reached are
    cases c with
    | removeSub => simpa [List.count_append] using count
    | timer => simpa [List.count_append, List.count_cons] using count
    | send ch =>
      simp [List.count_append, List.count_diff] at count ⊢
      omega
  · have := reached ch
    simp only [List.count_append, List.count_diff]
    omega


/-- When only two cases are left, they are `removeSub` and the timer: the value reached every
channel, and `f.sendCases` is as the send found it. -/
theorem meets_done (u : Undisturbed subs s) (two : s.cases.len = minSelectCaseN) :
    Meets subs false s := by
  obtain ⟨rest, reached⟩ := u.pending
  have left : (s.cases.view s.heap).tail.length = 1 := by
    rw [List.length_tail, u.view_length, two]
    rfl
  have none : subs.diff s.delivered = [] := by
    have same := rest.length_eq
    rw [left, List.length_cons, List.length_map] at same
    exact List.eq_nil_of_length_eq_zero (by omega)
  refine ⟨subs, u.sendView, ⟨⟨[], ?_, (List.diff_nil subs).symm, fun _ => rfl⟩, u.counted⟩⟩
  simpa only [none] using reached

/-- The timeout drops from `f.sendCases` exactly the channels the value has not reached. -/
theorem meets_timeout (u : Undisturbed subs s) {s' : Sending Chan Val}
    (timed : s.timeout = .ok s') : Meets subs true s' := by
  obtain ⟨rest, reached⟩ := u.pending
  have apart : s.cases.array ≠ s.sendCases.array := by
    rw [u.own, u.sendCases]
    exact Arr.noConfusion
  have fits : s.sendCases.Fits s.heap := by
    unfold Slice.Fits
    rw [u.sendCases, u.sendArray]
    simp
  obtain ⟨heap, sendCases, rfl, kept⟩ := foldlM_dropCase _ apart fits timed
  -- the timeout loop reads the cases of `cases` after `removeSub`, each erased once
  rw [← u.view_length, filterMap_range'_getElem?, List.drop_one,
    List.take_of_length_le (by simp), ← List.diff_eq_foldl, u.sendView, List.Perm.diff_left _ rest,
    List.diff_cons, List.erase_of_not_mem (by simp), List.cons_diff_of_not_mem (by simp),
    ← List.map_diff SelectCase.send_injective] at kept
  exact ⟨subs.diff (subs.diff s.delivered), kept,
    ⟨⟨subs.diff s.delivered, reached, rfl, fun never => by cases never⟩, u.counted⟩⟩

omit [DecidableEq Chan] in
/-- Delivering to the channel of `cases[i]`, past `removeSub`, moves it from the cases still to
go to the channels reached. -/
theorem deliver (u : Undisturbed subs s) {i : Nat} {ch : Chan} {s' : Sending Chan Val}
    (read : (s.cases.view s.heap)[i]? = some (.send ch)) (start : 1 ≤ i)
    (delivered : s.deliver i ch = .ok s') : Undisturbed subs s' := by
  unfold Sending.deliver at delivered
  rcases deactivated : CaseList.deactivate s.heap s.cases i with _ | ⟨heap, cases⟩
  · simp only [deactivated, reduceCtorEq] at delivered
  simp only [deactivated, Except.ok.injEq] at delivered
  subst delivered
  have removed : s.cases.swapRemove s.heap i = some (heap, cases) := deactivated
  obtain ⟨same, len⟩ := Slice.swapRemove_array removed
  have inside : i < s.cases.len := u.view_length ▸ (List.getElem?_eq_some_iff.mp read).1
  have other : Arr.sendCases ≠ s.cases.array := by
    rw [u.own]
    exact Arr.noConfusion
  -- `removeSub` stays first: the swap moves only places `i` and `len - 1`, both past it
  have first : (cases.view heap)[0]? = some .removeSub := by
    rw [← u.first, Slice.view, Slice.view, List.getElem?_take_of_lt (by omega),
      List.getElem?_take_of_lt (by omega), same,
      Slice.getElem?_swapRemove removed (by omega) (by omega)]
  have shrunk := Slice.view_swapRemove_perm removed
  rw [u.view_cons, ← Nat.sub_add_cancel start, List.eraseIdx_cons_succ] at shrunk
  have after : cases.view heap = .removeSub :: (cases.view heap).tail := by
    revert first
    cases cases.view heap with
    | nil => simp
    | cons c rest => simp only [List.getElem?_cons_zero, Option.some.injEq]; rintro rfl; rfl
  rw [after] at shrunk
  -- the case delivered to comes out of the cases still to go
  have picked : (s.cases.view s.heap).tail[i - 1]? = some (.send ch) := by
    rw [List.getElem?_tail, Nat.sub_add_cancel start]
    exact read
  obtain ⟨inTail, picked⟩ := List.getElem?_eq_some_iff.mp picked
  refine ⟨u.sendCases, (Slice.swapRemove_ne removed other).trans u.sendArray, same.trans u.own,
    Slice.fits_swapRemove removed, first, ?_, by simp [u.counted], u.onPath⟩
  calc ((s.delivered ++ [ch]).map SelectCase.send ++ (cases.view heap).tail)
      = s.delivered.map SelectCase.send ++ (.send ch :: (cases.view heap).tail) := by simp
    List.Perm _ (s.delivered.map SelectCase.send ++
        (.send ch :: (s.cases.view s.heap).tail.eraseIdx (i - 1))) :=
      ((List.Perm.cons_inv shrunk).cons _).append_left _
    List.Perm _ (s.delivered.map SelectCase.send ++ (s.cases.view s.heap).tail) :=
      (picked ▸ List.getElem_cons_eraseIdx_perm inTail).append_left _
    List.Perm _ (subs.map SelectCase.send ++ [SelectCase.timer]) := u.split

omit [DecidableEq Chan] in
theorem nextSend_ge {cs : CaseList Chan} {i j : Nat} (found : nextSend cs i = some j) : i ≤ j := by
  unfold nextSend at found
  obtain ⟨k, -, rfl⟩ := Option.map_eq_some_iff.mp found
  omega

/-- The fast path from an index past `removeSub` keeps the send undisturbed, or leaves the loop
by the `break` after it. -/
theorem fastFrom (u : Undisturbed subs s) {i : Nat} (start : 1 ≤ i) :
    Proceeds subs (s.fastFrom i) := by
  unfold Sending.fastFrom
  rcases found : nextSend (s.cases.view s.heap) i with _ | j
  · by_cases two : s.cases.len = minSelectCaseN
    · rw [if_pos two]
      exact u.meets_done two
    · rw [if_neg two]
      exact u.withPc fun _ never => by cases never
  · exact u.withPc fun k same => by
      cases same
      exact Nat.le_trans start (nextSend_ge found)

/-- Every answer other than a receive from `f.removeSub` keeps the send undisturbed, or takes it
out of the loop having done what a send is for. -/
theorem answer (u : Undisturbed subs s) {a : Answer Chan} {l : Loop Chan Val}
    (notReceive : a.isReceive = false) (stepped : s.answer a = some (.ok l)) : Proceeds subs l := by
  cases a with
  | trySend accepted =>
    rcases pc : s.pc with i | _
    · have start := u.onPath i pc
      simp only [Sending.answer, pc, Sending.trySend] at stepped
      rcases read : (s.cases.view s.heap)[i]? with _ | _ | _ | ch
      all_goals simp only [read, reduceCtorEq] at stepped
      cases accepted
      · -- the receiver was not ready: on to the next index
        simp only [Bool.false_eq_true, if_false, Option.some.injEq, Except.ok.injEq] at stepped
        subst stepped
        exact u.fastFrom (by omega)
      · -- it took the value: try index `i` again, where the last case now is
        simp only [if_true, Option.some.injEq, map_eq_ok] at stepped
        obtain ⟨s', delivered, rfl⟩ := stepped
        exact (u.deliver read start delivered).fastFrom start
    · simp [Sending.answer, pc] at stepped
  | receive channel => simp [Answer.isReceive] at notReceive
  | select chosen =>
    rcases pc : s.pc with i | _
    · simp [Sending.answer, pc] at stepped
    · simp only [Sending.answer, pc] at stepped
      by_cases zero : chosen = 0
      · simp [zero] at stepped
      simp only [zero, if_false, Sending.selectCase] at stepped
      rcases read : (s.cases.view s.heap)[chosen]? with _ | _ | _ | ch
      all_goals simp only [read, reduceCtorEq, Option.some.injEq, map_eq_ok] at stepped
      · -- the timer fired
        obtain ⟨s', timed, rfl⟩ := stepped
        exact u.meets_timeout timed
      · -- a channel took the value
        obtain ⟨s', delivered, rfl⟩ := stepped
        exact (u.deliver read (by omega) delivered).fastFrom (Nat.le_refl _)

end Undisturbed

/-- The send as it starts, on `removeSub` and the channels `subs`, is undisturbed. -/
theorem startLoop_proceeds (subs : List Chan) (value : Val) :
    Proceeds subs (startLoop (.removeSub :: subs.map .send) value) := by
  apply Undisturbed.fastFrom _ (Nat.le_refl _)
  refine ⟨by simp, rfl, rfl, by simp [Slice.Fits, sendHeap], rfl, ?_, rfl,
    fun i started => by cases started; exact Nat.le_refl _⟩
  simp only [Slice.view, sendHeap, List.map_nil, List.nil_append, List.length_cons,
    List.length_map, List.cons_append, List.take_succ_cons, List.tail_cons]
  rw [List.take_of_length_le (by simp)]

/-- Along answers none of which is a receive from `f.removeSub`, a loop that proceeds leaves
having done what a send is for. -/
theorem Breaks.meets {subs : List Chan} {l : Loop Chan Val} {answers : List (Answer Chan)}
    {timedOut : Bool} {s : Sending Chan Val} (breaks : l.Breaks answers timedOut s)
    (noReceive : ∀ a ∈ answers, a.isReceive = false) (proceeds : Proceeds subs l) :
    Meets subs timedOut s := by
  induction breaks with
  | done s => exact proceeds
  | timedOut s => exact proceeds
  | next stepped _ rest =>
    exact rest (fun a listed => noReceive a (List.mem_cons_of_mem _ listed))
      (Undisturbed.answer proceeds (noReceive _ List.mem_cons_self) stepped)

end Sending

/-- A send that gets no channel from a `remove` over `f.removeSub` does what a send is for: the
channels subscribed when it took the send lock each got the value once, or were dropped at the
timeout, the others stay in `f.sendCases`, and it returns how many it reached. -/
theorem send_without_removal_meets_spec [DecidableEq Chan] {subs : List Chan} {value : Val}
    {answers : List (Answer Chan)} {timedOut : Bool} {s : Sending Chan Val}
    (noReceive : ∀ a ∈ answers, a.isReceive = false)
    (breaks : (startLoop (.removeSub :: subs.map .send) value).Breaks answers timedOut s) :
    ∃ kept, s.sendCases.view s.heap = .removeSub :: kept.map .send ∧
      SendSpec subs s.delivered s.nsent kept timedOut :=
  Sending.Breaks.meets breaks noReceive (Sending.startLoop_proceeds subs value)

/-- A send of 7 to channels 1 and 2: 1 takes it on the fast path, 2 is full, and in the select
the timer fires, so 2 is dropped. -/
theorem send_without_removal_reaches_one :
    ∃ s : Sending Nat Nat, (startLoop [.removeSub, .send 1, .send 2] 7).Breaks
        [.trySend true, .trySend false, .select 1] true s ∧
      ∃ kept, s.sendCases.view s.heap = .removeSub :: kept.map .send ∧
        SendSpec [1, 2] s.delivered s.nsent kept true := by
  have breaks : (startLoop [.removeSub, .send 1, .send 2] 7).Breaks
      [.trySend true, .trySend false, .select 1] true _ :=
    .next rfl (.next rfl (.next rfl (.timedOut _)))
  exact ⟨_, breaks, send_without_removal_meets_spec (by decide) breaks⟩

/-! ### What a `remove` that reaches a send does -/

/-- A channel that `f.sendCases` no longer holds, received from a `remove`, makes the send call
`delete(-1)`, which panics. -/
theorem Sending.receive_absent [DecidableEq Chan] {s : Sending Chan Val} {channel : Chan}
    (absent : .send channel ∉ s.sendCases.view s.heap) :
    s.receive channel = .error .sliceBoundsOutOfRange := by
  unfold Sending.receive
  rw [CaseList.find_of_not_mem absent]
  have never : s.sendCases.removeAt s.heap (-1) = none := by
    simp [Slice.removeAt]
  simp only [never]

/-- Channels and values are numbers, and all of them have the one type. -/
def unitReflect : Reflect Nat Nat Unit := ⟨fun _ => ⟨true, true, ()⟩, fun _ => ()⟩

/-- Channel 1 subscribes; a send of 7 finds it full, times out and drops it. Channel 2
subscribes; a send of 8 finds it full and blocks in its select. Channel 1's subscription is
then unsubscribed: its `remove` does not find 1 in the inbox and hands it to the blocked send,
which finds it nowhere in `f.sendCases` and calls `delete(-1)`. -/
theorem unsubscribe_after_timeout_panics :
    World.run unitReflect World.init
        [.subscribe 1, .send 7, .answer (.trySend false), .answer (.select 2), .subscribe 2,
          .send 8, .answer (.trySend false), .unsubscribe 1, .answer (.receive 1)] =
      some (.error (.runtime .sliceBoundsOutOfRange)) := rfl

/-- Channels 1 and 2 subscribe; a send of 7 finds both full and blocks. Channel 2 is
unsubscribed and its `remove` hands it to the send, which deletes it from `f.sendCases` and
makes `cases` the first three places of that array: `removeSub`, 1 and the 2 left past the new
end; the timer is gone. Channel 1 then takes the value; deactivating it swaps 2 into the view of
`f.sendCases` and 1 out of it, and the send returns, having tried 2 once more. From then on the
feed delivers to 2, whose subscription is gone, and never to 1, whose subscription is live: the
next send of 8 reaches 2 alone. -/
theorem unsubscribe_during_send_keeps_other :
    ∃ w, World.run unitReflect World.init
        [.subscribe 1, .subscribe 2, .send 7, .answer (.trySend false), .answer (.trySend false),
          .unsubscribe 2, .answer (.receive 2), .answer (.trySend true), .answer (.trySend false),
          .send 8, .answer (.trySend true)] = some (.ok w) ∧
      w.subs = [1] ∧ w.returned = [(7, [1], 1), (8, [2], 1)] :=
  ⟨_, rfl, rfl, rfl⟩

end Indigo.Event
