import Mathlib.Data.List.AList
import Mathlib.Data.String.Basic
import Indigo.P2p.Rlpx

/-!
# Subprotocols on one connection

A peer runs several subprotocols (`eth`, `les`, …) over one RLPx connection. `matchProtocols`
of `p2p/peer.go` matches the node's protocols against the capabilities the remote end announced
and gives each matched protocol a range of message codes above the sixteen of the base protocol:
the capabilities are sorted by name and version, and each match takes the next `Length` codes,
after giving back the codes of an older version of the same name. `protoRW.WriteMsg` shifts a
protocol's message code into its range, `Peer.handle` hands a message read from the connection
to the protocol whose range holds its code (`getProto`), and `protoRW.ReadMsg` shifts the code
back.

Go's map from names to `protoRW` is an `AList`; `getProto` walks the map in whatever order it is
given, where Go picks one at random. `sort.Sort` is `List.mergeSort` on the same order: the order
is total and two capabilities it does not separate are equal, so every sort gives the same list.
Offsets and codes are `uint64`, here `Nat`: they are sums of the node's own protocol lengths.
The channels and goroutines that carry messages to the protocols are left out: a message is
handed to its protocol (`Handled.delivered`).
-/

namespace Indigo.P2p

open Indigo.P2p.Rlpx

/-- `baseProtocolLength`: the codes of the base protocol. -/
def baseProtocolLength : Nat := 16

/-- `discMsg`. -/
def discMsg : Nat := 0x01

/-- `pingMsg`. -/
def pingMsg : Nat := 0x02

/-- `Cap`: a protocol a peer announces, by name and version. -/
structure Cap where
  Name : String
  Version : Nat
  deriving DecidableEq, Repr

/-- `Protocol`, with the fields matching reads. -/
structure Protocol where
  Name : String
  Version : Nat
  Length : Nat
  deriving DecidableEq, Repr

/-- `Protocol.cap`. -/
def Protocol.cap (p : Protocol) : Cap := ⟨p.Name, p.Version⟩

/-- `capsByNameAndVersion.Less`. -/
def capsByNameAndVersion.Less (a b : Cap) : Bool :=
  decide (a.Name < b.Name) || (a.Name == b.Name && decide (a.Version < b.Version))

/-- `sort.Sort(capsByNameAndVersion(caps))`. -/
def sortCaps (caps : List Cap) : List Cap :=
  caps.mergeSort fun a b => !capsByNameAndVersion.Less b a

/-- `protoRW`: a matched protocol and the first of its message codes on the connection. -/
structure protoRW where
  Protocol : Protocol
  offset : Nat
  deriving DecidableEq, Repr

/-- `rw.Length`, the promoted field. -/
def protoRW.Length (rw : protoRW) : Nat := rw.Protocol.Length

/-- The matched protocols by name: Go's `map[string]*protoRW`. -/
abbrev ProtoMap := AList fun _ : String => protoRW

/-- A capability names a protocol of that name and version. -/
def Cap.names (cap : Cap) (proto : Protocol) : Bool :=
  proto.Name == cap.Name && proto.Version == cap.Version

/-- The loop of `matchProtocols` over the sorted capabilities, from the offset and the map it
has built: each capability takes the first protocol it names. -/
def matchLoop (protocols : List Protocol) : List Cap → Nat → ProtoMap → Nat × ProtoMap
  | [], offset, result => (offset, result)
  | cap :: caps, offset, result =>
    match protocols.find? cap.names with
    | none => matchLoop protocols caps offset result
    | some proto =>
      -- if an old protocol version matched, revert it
      let offset := match result.lookup cap.Name with
        | some old => offset - old.Length
        | none => offset
      matchLoop protocols caps (offset + proto.Length) (result.insert cap.Name ⟨proto, offset⟩)

/-- `matchProtocols`. -/
def matchProtocols (protocols : List Protocol) (caps : List Cap) : ProtoMap :=
  (matchLoop protocols (sortCaps caps) baseProtocolLength ∅).2

/-- The codes of `peerError`. -/
inductive PeerErrorCode
  | errInvalidMsgCode
  | errInvalidMsg
  deriving DecidableEq, Repr

/-- `errorToString`. -/
def errorToString : PeerErrorCode → String
  | .errInvalidMsgCode => "invalid message code"
  | .errInvalidMsg => "invalid message"

/-- `peerError`. -/
structure peerError where
  code : PeerErrorCode
  message : String
  deriving DecidableEq, Repr

/-- `newPeerError` with a format that prints `detail`. -/
def newPeerError (code : PeerErrorCode) (detail : String) : peerError :=
  ⟨code, errorToString code ++ ": " ++ detail⟩

/-- `Peer.getProto` over the running protocols, in the order the map is walked. -/
def getProto (running : List protoRW) (code : Nat) : Except peerError protoRW :=
  match running.find? fun proto =>
      decide (proto.offset ≤ code ∧ code < proto.offset + proto.Length) with
  | some proto => .ok proto
  | none => .error (newPeerError .errInvalidMsgCode (toString code))

/-- `protoRW.WriteMsg`: the message as it goes to the connection, its code shifted into the
protocol's range. -/
def protoRW.WriteMsg (rw : protoRW) (msg : Msg) : Except peerError Msg :=
  if msg.Code ≥ rw.Length then .error (newPeerError .errInvalidMsgCode "not handled")
  else .ok { msg with Code := msg.Code + rw.offset }

/-- `protoRW.ReadMsg` of a message the peer handed to the protocol: its code shifted back. -/
def protoRW.ReadMsg (rw : protoRW) (msg : Msg) : Msg :=
  { msg with Code := msg.Code - rw.offset }

/-- What `Peer.handle` does with a message read from the connection. -/
inductive Handled
  /-- `pingMsg`: discarded, and a `pongMsg` sent back. -/
  | pong
  /-- `discMsg`: the remote end leaves, with the reason in the payload. -/
  | disconnect (payload : Bytes)
  /-- Another message of the base protocol, discarded. -/
  | discarded
  /-- A subprotocol message, handed to the protocol whose range holds its code. -/
  | delivered (proto : protoRW) (msg : Msg)

/-- `Peer.handle`, over the running protocols in the order the map is walked. -/
def Peer.handle (running : List protoRW) (msg : Msg) : Except String Handled :=
  if msg.Code = pingMsg then .ok .pong
  else if msg.Code = discMsg then .ok (.disconnect msg.Payload)
  else if msg.Code < baseProtocolLength then .ok .discarded
  else
    match getProto running msg.Code with
    | .ok proto => .ok (.delivered proto msg)
    | .error _ => .error ("msg code out of range: " ++ toString msg.Code)

end Indigo.P2p
