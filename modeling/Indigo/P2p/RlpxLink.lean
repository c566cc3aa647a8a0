import Indigo.P2p.RlpxFrames
import Indigo.Lib.Channel

/-!
# Two peers on one connection

The two ends of an RLPx connection each hold an `rlpxFrameRW` and share one TCP stream each
way: what one end writes, the other reads, in the order written. `Link` is that system, each
end's frame codec and the bytes each end has written that the other has not yet read, and an
end acts on it with `WriteMsg` or `ReadMsg` (`Link.step`).

## Main results

- `answers_Link`: from ends in agreement with idle streams, as the handshake leaves them, the
  link gives the same answers over every run as a reliable FIFO connection (`Fifo.step`) that
  takes the messages whose frame body fits in a 24-bit size.
- `received_Link_prefix`: what an end reads is the first of the messages the other end wrote,
  in the order written: none lost, none duplicated, none reordered.

## Proof strategy

The simulation relation (`Carries`) says that each stream holds the frames of the messages in
flight that way (`Pending`). A write appends a frame and a read takes the first. An end's write
moves only its egress stream and MAC and its read only its ingress ones, so each direction's
frames stay as they are while the ends act in the other direction (`Pending.of_egress`,
`Pending.of_ingress`).
-/

namespace Indigo.P2p.Rlpx

open Indigo.Lib

/-- The two ends of a connection: each end's frame codec, and the bytes each end has written
that the other has not yet read. -/
structure Link where
  rw : End → FrameRW
  pipe : End → Bytes

section Link

variable (c : Ciphers) (sn : Snappy)

/-- An end writes a message with `WriteMsg`, or reads one with `ReadMsg` from what the other end
wrote. A write that fails has written nothing, since `WriteMsg` checks before it writes; a read
that fails is an end that found no whole frame to read. -/
def Link.step (l : Link) : Action Msg → Seen Msg × Link
  | .send e m =>
    match WriteMsg c sn (l.rw e) m with
    | .ok (rw, out) =>
      (.sent true, ⟨Function.update l.rw e rw, Function.update l.pipe e (l.pipe e ++ out)⟩)
    | .error _ => (.sent false, l)
  | .recv e =>
    match ReadMsg c sn (l.rw e) (l.pipe e.other) with
    | .ok (m, rw, rest) =>
      (.received (some m), ⟨Function.update l.rw e rw, Function.update l.pipe e.other rest⟩)
    | .error _ => (.received none, l)

/-- The messages a connection whose ends compress as `snappy` carries: those whose frame body
fits in a 24-bit size. -/
def accepts (snappy : Bool) (m : Msg) : Bool :=
  decide ((frameBody sn snappy m).length ≤ maxUint24)

/-- Each stream holds the frames of the messages in flight that way, and both ends compress as
`snappy`. -/
def Carries (snappy : Bool) (l : Link) (q : End → List Msg) : Prop :=
  ∀ e, Pending c sn (l.rw e.other) (l.pipe e) (q e) (l.rw e) ∧ (l.rw e).snappy = snappy

end Link

/-- The link after the handshake: both ends at the start of their keystreams, the egress MAC of
each the ingress MAC of the other, no compression, and nothing written yet. -/
def Link.new (initiatorMAC recipientMAC : Bytes) : Link where
  rw
    | .initiator => newRLPXFrameRW initiatorMAC recipientMAC
    | .recipient => newRLPXFrameRW recipientMAC initiatorMAC
  pipe _ := []

/-- What the ends do: send messages as their senders build them, and receive. -/
def Sendable : Action Msg → Prop
  | .send _ m => m.Fits
  | .recv _ => True

section Simulation

variable {c : Ciphers} {sn : Snappy} {snappy : Bool} {l : Link} {q : End → List Msg}

theorem carries_send {e : End} {m : Msg} (fits : m.Fits) (carries : Carries c sn snappy l q) :
    (Link.step c sn l (.send e m)).1 = (Fifo.step (accepts sn snappy) q (.send e m)).1 ∧
      Carries c sn snappy (Link.step c sn l (.send e m)).2
        (Fifo.step (accepts sn snappy) q (.send e m)).2 := by
  obtain ⟨pending, compress⟩ := carries e
  cases written : WriteMsg c sn (l.rw e) m with
  | error err =>
    -- a refused message leaves both the link and the queues as they were
    have large := (WriteMsg_error fits written).2
    rw [compress] at large
    simp [Link.step, Fifo.step, written, accepts, Nat.not_le.mpr large, carries]
  | ok result =>
    obtain ⟨w', out⟩ := result
    have fit := (WriteMsg_ok fits written).1
    have egress := WriteMsg_egress fits written
    rw [compress] at fit
    simp only [Link.step, Fifo.step, written, accepts, decide_eq_true fit, if_true]
    refine ⟨trivial, fun e' => ?_⟩
    rcases End.eq_or_eq_other e e' with rfl | rfl
    · -- the written direction gains the frame
      simp only [Function.update_self, Function.update_of_ne (End.other_ne e')]
      refine ⟨pending.write fits written, ?_⟩
      rw [egress]
      exact compress
    · -- the writer is the reader of the other direction, whose ingress the write leaves
      simp only [End.other_other, Function.update_self, Function.update_of_ne (End.other_ne e)]
      obtain ⟨other, compressOther⟩ := carries e.other
      rw [End.other_other] at other
      refine ⟨other.of_ingress ?_ ?_ ?_, compressOther⟩ <;> rw [egress]

theorem carries_recv {e : End} (carries : Carries c sn snappy l q) :
    (Link.step c sn l (.recv e)).1 = (Fifo.step (accepts sn snappy) q (.recv e)).1 ∧
      Carries c sn snappy (Link.step c sn l (.recv e)).2
        (Fifo.step (accepts sn snappy) q (.recv e)).2 := by
  obtain ⟨pending, compress⟩ := carries e.other
  rw [End.other_other] at pending
  cases inflight : q e.other with
  | nil =>
    -- nothing in flight: the stream is empty and the read finds nothing
    rw [inflight] at pending
    obtain ⟨empty, -⟩ := pending.empty
    simp [Link.step, Fifo.step, inflight, empty, ReadMsg_nil, carries]
  | cons m rest =>
    rw [inflight] at pending
    obtain ⟨dec, ingressMAC, rest', read, pending'⟩ := pending.read
    simp only [Link.step, Fifo.step, inflight, read]
    refine ⟨trivial, fun e' => ?_⟩
    rcases End.eq_or_eq_other e e' with rfl | rfl
    · -- the reader's own direction: its egress is as it was
      simp only [Function.update_self, Function.update_of_ne (End.other_ne e'),
        Function.update_of_ne (End.other_ne e').symm]
      obtain ⟨own, compressOwn⟩ := carries e'
      exact ⟨own.of_egress rfl rfl rfl, compressOwn⟩
    · -- the direction read from loses its first frame
      simp only [End.other_other, Function.update_self, Function.update_of_ne (End.other_ne e)]
      exact ⟨pending', compress⟩

/-- `Carries` is a simulation of the FIFO connection by the link. -/
theorem carries_simulation :
    Simulation (Link.step c sn) (Fifo.step (accepts sn snappy)) Sendable (Carries c sn snappy) := by
  intro l q action sendable carries
  cases action with
  | send e m => exact carries_send sendable carries
  | recv e => exact carries_recv carries

/-- Ends in agreement with idle streams carry nothing. -/
theorem carries_idle (start : ∀ e, l.pipe e = [] ∧ Synced (l.rw e) (l.rw e.other) ∧
    (l.rw e).snappy = snappy) : Carries c sn snappy l (fun _ => []) := by
  intro e
  obtain ⟨empty, sync, compress⟩ := start e
  rw [empty]
  exact ⟨.synced sync, compress⟩

end Simulation

section Link

variable {c : Ciphers} {sn : Snappy} {snappy : Bool} {l : Link}

/-- From ends in agreement with idle streams, the link answers every run of actions as a
reliable FIFO connection does. -/
theorem answers_Link (start : ∀ e, l.pipe e = [] ∧ Synced (l.rw e) (l.rw e.other) ∧
      (l.rw e).snappy = snappy)
    {actions : List (Action Msg)} (sendable : ∀ a ∈ actions, Sendable a) :
    answers (Link.step c sn) l actions =
      answers (Fifo.step (accepts sn snappy)) (fun _ => []) actions :=
  (carries_simulation.answers_eq (carries_idle start) sendable).1

/-- The initiator sends a message of the code `0x10`, and the recipient receives it. -/
theorem answers_Link_hello :
    answers (Link.step zeroCiphers storedSnappy) (Link.new [1] [2])
        [.send .initiator ⟨16, 2, [7, 8]⟩, .recv .recipient] =
      answers (Fifo.step (accepts storedSnappy false)) (fun _ => [])
        [.send .initiator ⟨16, 2, [7, 8]⟩, .recv .recipient] :=
  answers_Link (fun e => by cases e <;> exact ⟨rfl, ⟨rfl, rfl, rfl⟩, rfl⟩) fun a mem => by
    simp only [List.mem_cons, List.not_mem_nil, or_false] at mem
    rcases mem with rfl | rfl
    · exact show Msg.Fits _ from ⟨by norm_num, rfl, by decide⟩
    · trivial

/-- From ends in agreement with idle streams, an end reads the first of the messages the other
end wrote, in the order written. -/
theorem received_Link_prefix (start : ∀ e, l.pipe e = [] ∧ Synced (l.rw e) (l.rw e.other) ∧
      (l.rw e).snappy = snappy)
    {actions : List (Action Msg)} (sendable : ∀ a ∈ actions, Sendable a) (e : End) :
    received e.other (actions.zip (answers (Link.step c sn) l actions)) <+:
      accepted (accepts sn snappy) e actions := by
  rw [(carries_simulation.answers_eq (carries_idle start) sendable).1]
  exact Fifo.received_prefix e actions

/-- What the recipient receives of the initiator's message is a prefix of what it sent. -/
theorem received_Link_prefix_hello :
    received End.initiator.other ([.send .initiator ⟨16, 2, [7, 8]⟩, .recv .recipient].zip
        (answers (Link.step zeroCiphers storedSnappy) (Link.new [1] [2])
          [.send .initiator ⟨16, 2, [7, 8]⟩, .recv .recipient])) <+:
      accepted (accepts storedSnappy false) .initiator
        [.send .initiator ⟨16, 2, [7, 8]⟩, .recv .recipient] :=
  received_Link_prefix (fun e => by cases e <;> exact ⟨rfl, ⟨rfl, rfl, rfl⟩, rfl⟩)
    (fun a mem => by
      simp only [List.mem_cons, List.not_mem_nil, or_false] at mem
      rcases mem with rfl | rfl
      · exact show Msg.Fits _ from ⟨by norm_num, rfl, by decide⟩
      · trivial) .initiator

end Link

end Indigo.P2p.Rlpx
