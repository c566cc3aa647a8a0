import Indigo.Rlp.Decode
import Indigo.Lib.StreamCipher

/-!
# RLPx frames

`rlpxFrameRW` of `p2p/rlpx.go` carries the messages of a peer connection once the encryption
handshake has agreed on secrets. `WriteMsg` writes a message as a frame: a 16-byte header with
the frame's size, encrypted and followed by its MAC, then the frame (the RLP code of the message
and its payload, compressed with snappy once both peers speak version 5, padded to 16 bytes),
encrypted, and the frame's MAC. `ReadMsg` checks and decrypts a frame and gives back the message.

Both ends encrypt with AES in counter mode under the shared AES secret and a zero IV, so an
`enc` or `dec` stream is its position in one keystream (`Indigo.Lib.xorKeyStream`). A MAC is a
Keccak-256 hash that has been written some bytes, so its state is those bytes: the egress hash
of one end starts as the ingress hash of the other. The primitives are parameters
(`Ciphers`, and `Snappy` with the contract of `github.com/golang/snappy`).

The connection is a byte pipe: what one end writes, the other reads. `ReadMsg` reads from it
what it holds; when it holds too little, `io.ReadFull` fails. A failed `ReadMsg` ends the
connection, since the peer's read loop returns on any error, so the model does not keep the
state it leaves.
-/

namespace Indigo.P2p.Rlpx

open Indigo.Lib Indigo.Rlp

/-- `maxUint24`, `^uint32(0) >> 8`. -/
def maxUint24 : Nat := 2 ^ 24 - 1

/-- `zeroHeader`: the header data after the frame size. -/
def zeroHeader : Bytes := [0xC2, 0x80, 0x80]

/-- The errors of `snappy.DecodedLen` and `snappy.Decode`. -/
inductive SnappyError
  /-- `snappy.ErrCorrupt`. -/
  | ErrCorrupt
  /-- `snappy.ErrTooLarge`. -/
  | ErrTooLarge
  deriving DecidableEq, Repr

/-- The errors of the frame codec. -/
inductive Error
  /-- `errPlainMessageTooLarge`, `"message length >= 16MB"`. -/
  | errPlainMessageTooLarge
  /-- `"message size overflows uint24"`. -/
  | sizeOverflow
  /-- `io.EOF`: `io.ReadFull` read nothing. -/
  | EOF
  /-- `io.ErrUnexpectedEOF`: `io.ReadFull` read some bytes, not all. -/
  | ErrUnexpectedEOF
  /-- `"bad header MAC"`. -/
  | badHeaderMAC
  /-- `"bad frame MAC"`. -/
  | badFrameMAC
  /-- The error of `rlp.Decode` on the message code. -/
  | rlp (e : Rlp.Error)
  /-- The error of `snappy.DecodedLen` or `snappy.Decode`. -/
  | snappy (e : SnappyError)
  deriving DecidableEq, Repr

/-- `Msg`, with its payload as the bytes its reader holds. -/
structure Msg where
  Code : Nat
  Size : Nat
  Payload : Bytes
  deriving DecidableEq, Repr

/-- The primitives keyed by the secrets: the keystream of AES in counter mode under the AES
secret with a zero IV, AES under the MAC secret on one block (`macCipher.Encrypt`), and the
32-byte sum of a Keccak-256 hash that was written the given bytes. -/
structure Ciphers where
  keystream : Nat → UInt8
  encrypt : Bytes → Bytes
  keccak : Bytes → Bytes
  length_encrypt : ∀ src, (encrypt src).length = 16
  length_keccak : ∀ written, (keccak written).length = 32

/-- `snappy.Encode`, `snappy.DecodedLen` and `snappy.Decode`, with their contract: what is
encoded decodes back, and `Encode` writes at most `MaxEncodedLen` bytes. -/
structure Snappy where
  Encode : Bytes → Bytes
  DecodedLen : Bytes → Except SnappyError Nat
  Decode : Bytes → Except SnappyError Bytes
  DecodedLen_Encode : ∀ src, DecodedLen (Encode src) = .ok src.length
  Decode_Encode : ∀ src, Decode (Encode src) = .ok src
  length_Encode : ∀ src, (Encode src).length ≤ 32 + src.length + src.length / 6

/-- `rlpxFrameRW`: the positions of the egress and ingress streams in the keystream, what the
egress and ingress MAC hashes were written, and whether messages are compressed. -/
structure FrameRW where
  enc : Nat
  dec : Nat
  egressMAC : Bytes
  ingressMAC : Bytes
  snappy : Bool
  deriving DecidableEq, Repr

/-- `newRLPXFrameRW`: both streams at the start of the keystream, the MAC hashes of the
secrets, and no compression until the protocol handshake turns it on. -/
def newRLPXFrameRW (egressMAC ingressMAC : Bytes) : FrameRW :=
  ⟨0, 0, egressMAC, ingressMAC, false⟩

/-- `putInt24`. -/
def putInt24 (v : Nat) : Bytes := [(v >>> 16).toUInt8, (v >>> 8).toUInt8, v.toUInt8]

/-- `readInt24`. -/
def readInt24 (b : Bytes) : Nat :=
  (b.getD 2 0).toNat ||| (b.getD 1 0).toNat <<< 8 ||| (b.getD 0 0).toNat <<< 16

/-- `io.ReadFull` from the connection: `n` bytes and what it still holds. -/
def readFull (n : Nat) (conn : Bytes) : Except Error (Bytes × Bytes) :=
  if n ≤ conn.length then .ok (conn.take n, conn.drop n)
  else if conn = [] then .error .EOF
  else .error .ErrUnexpectedEOF

/-- `rlp.Decode(content, &msg.Code)` on a `bytes.Reader`: the code, and what the reader holds
after it. -/
def decodeCode (content : Bytes) : Except Error (Nat × Bytes) :=
  match (wrapped (Stream.uint 64)).go (NewStream content 0) with
  | some (.ok code, s) => .ok (code, s.r)
  | some (.error e, _) => .error (.rlp e)
  -- `uint` spends no fuel
  | none => .error (.rlp .EOF)

section Frames

variable (c : Ciphers) (sn : Snappy)

/-- `updateMAC`: the hash written the seed XORed with the encryption of its sum, and the first
16 bytes of its new sum. -/
def updateMAC (mac seed : Bytes) : Bytes × Bytes :=
  let aesbuf := List.zipWith (· ^^^ ·) (c.encrypt (c.keccak mac)) seed
  let mac := mac ++ aesbuf
  (mac, (c.keccak mac).take 16)

/-- `rlpxFrameRW.WriteMsg`: the state after the message, and the bytes written to the
connection. The checks come before anything is written. -/
def WriteMsg (rw : FrameRW) (msg : Msg) : Except Error (FrameRW × Bytes) := do
  let ptype := match EncodeToBytes (.uint msg.Code) with
    | .ok b => b
    | .error _ => []
  -- if snappy is enabled, compress message now
  let (size, payload) ← if rw.snappy then do
      if msg.Size > maxUint24 then throw .errPlainMessageTooLarge
      let payload := sn.Encode msg.Payload
      pure (payload.length % 2 ^ 32, payload)
    else pure (msg.Size, msg.Payload)
  -- write header: `fsize` is a `uint32`
  let fsize := (ptype.length + size) % 2 ^ 32
  if fsize > maxUint24 then throw .sizeOverflow
  let header := xorKeyStream c.keystream rw.enc (putInt24 fsize ++ zeroHeader ++ List.replicate 10 0)
  -- write header MAC
  let (egressMAC, headMAC) := updateMAC c rw.egressMAC header
  -- the code, the payload and the padding go through the tee, which encrypts them with the
  -- stream where the header left it and writes them to the connection and the MAC
  let padding := if fsize % 16 > 0 then List.replicate (16 - fsize % 16) 0 else []
  let frame := xorKeyStream c.keystream (rw.enc + 16) (ptype ++ payload ++ padding)
  let egressMAC := egressMAC ++ frame
  -- write frame MAC
  let (egressMAC, mac) := updateMAC c egressMAC (c.keccak egressMAC)
  pure ({ rw with enc := rw.enc + 16 + frame.length, egressMAC },
    header ++ headMAC ++ frame ++ mac)

/-- `rlpxFrameRW.ReadMsg` from the bytes the connection holds: the message, the state after it
and what the connection still holds. -/
def ReadMsg (rw : FrameRW) (conn : Bytes) : Except Error (Msg × FrameRW × Bytes) := do
  -- read the header
  let (headbuf, conn) ← readFull 32 conn
  -- verify header mac
  let (ingressMAC, shouldMAC) := updateMAC c rw.ingressMAC (headbuf.take 16)
  if shouldMAC ≠ headbuf.drop 16 then throw .badHeaderMAC
  let fsize := readInt24 (xorKeyStream c.keystream rw.dec (headbuf.take 16))
  -- read the frame content, its size rounded up to 16 bytes
  let rsize := if fsize % 16 > 0 then fsize + (16 - fsize % 16) else fsize
  let (framebuf, conn) ← readFull rsize conn
  -- read and validate frame MAC
  let ingressMAC := ingressMAC ++ framebuf
  let fmacseed := c.keccak ingressMAC
  let (frameMAC, conn) ← readFull 16 conn
  let (ingressMAC, shouldMAC) := updateMAC c ingressMAC fmacseed
  if shouldMAC ≠ frameMAC then throw .badFrameMAC
  -- decrypt frame content
  let framebuf := xorKeyStream c.keystream (rw.dec + 16) framebuf
  let rw := { rw with dec := rw.dec + 16 + rsize, ingressMAC }
  -- decode message code; the sizes below are under `2^24` and fit a `uint32`
  let (code, content) ← decodeCode (framebuf.take fsize)
  -- if snappy is enabled, verify and decompress message
  if rw.snappy then
    let size ← (sn.DecodedLen content).mapError .snappy
    if size > maxUint24 then throw .errPlainMessageTooLarge
    let payload ← (sn.Decode content).mapError .snappy
    pure (⟨code, size, payload⟩, rw, conn)
  else pure (⟨code, content.length, content⟩, rw, conn)

end Frames

end Indigo.P2p.Rlpx
