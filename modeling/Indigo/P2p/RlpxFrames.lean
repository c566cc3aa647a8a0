import Indigo.P2p.Rlpx
import Indigo.Rlp.Uint
import Indigo.Lib.Except

/-!
# What a frame carries

Two ends of an RLPx connection agree once the handshake is done: the reader at one end
decrypts where the writer at the other encrypts, and its ingress MAC has been written what the
writer's egress MAC was (`Synced`). This module shows that the frame codec then carries every
message across unchanged, one frame after the other.

## Main results

- `WriteMsg_eq`: on a message whose code, size and payload agree (`Msg.Fits`), `WriteMsg`
  writes the frame of its body (`sealFrame`) when the body fits in a 24-bit size, and fails
  with the size overflow otherwise; nothing else of the writer changes.
- `ReadMsg_WriteMsg`: a reader synced with the writer reads the message back from what the
  writer wrote, whatever follows it on the connection, and ends synced with the writer.
- `Pending.read`, `Pending.write`: the frames on a connection are the messages written and not
  yet read, in order (`Pending`); a write appends one, a read takes the first.

## Proof strategy

`WriteMsg` is its checks, then `sealFrame`, the frame of a body whose header declares `fsize`
bytes. `ReadMsg` on a sealed frame is run step by step with the pieces of the frame named:
the header decrypts to the size (`readInt24_putInt24`), both MACs are the writer's because the
MAC states agree, and the frame decrypts to the body and its padding (`xorKeyStream_xorKeyStream`),
whose code `rlp.Decode` reads back (`decodeCode_encode`).
-/

namespace Indigo.P2p.Rlpx

open Indigo.Lib Indigo.Rlp

/-! ### The pieces of a frame -/

/-- `rlp.Decode` of the message code reads its canonical encoding and leaves what follows. -/
theorem decodeCode_encode {n : Nat} (bound : n < 2 ^ 64) (rest : Bytes) :
    decodeCode ((Item.str (beBytes n)).encode ++ rest) = .ok (n, rest) := by
  have reads : (NewStream ((Item.str (beBytes n)).encode ++ rest) 0).r =
      (Item.str (beBytes n)).encode ++ rest := rfl
  obtain ⟨s', read, left⟩ := Stream.go_uint_encode bound (Stream.top_NewStream _) rfl reads
  unfold decodeCode
  rw [wrapped, go_bind, go_result, read]
  simp [left]

/-- The three bytes of a 24-bit size, read back. -/
theorem readInt24_putInt24 {v : Nat} (small : v < 2 ^ 24) (rest : Bytes) :
    readInt24 (putInt24 v ++ rest) = v := by
  have low : v % 256 < 2 ^ 8 := Nat.mod_lt _ (by norm_num)
  have middle : ((v >>> 8) % 256) <<< 8 + v % 256 < 2 ^ 16 := by
    rw [Nat.shiftLeft_eq]
    omega
  simp only [readInt24, putInt24, List.cons_append, List.getD_cons_succ, List.getD_cons_zero,
    toNat_toUInt8]
  -- the three bytes do not overlap, so the bitwise or is a sum
  rw [Nat.or_comm (v % 256), ← Nat.shiftLeft_add_eq_or_of_lt low, Nat.or_comm,
    ← Nat.shiftLeft_add_eq_or_of_lt middle]
  simp only [Nat.shiftLeft_eq, Nat.shiftRight_eq_div_pow]
  omega

theorem readFull_of_length {bs : Bytes} {n : Nat} (length : bs.length = n) (rest : Bytes) :
    readFull n (bs ++ rest) = .ok (bs, rest) := by
  subst length
  simp [readFull]

theorem readFull_ok {n : Nat} {conn bs rest : Bytes} (read : readFull n conn = .ok (bs, rest)) :
    bs.length = n ∧ conn = bs ++ rest := by
  unfold readFull at read
  split at read
  case isTrue enough =>
    cases read
    exact ⟨by simp [enough], (List.take_append_drop n conn).symm⟩
  case isFalse => split at read <;> cases read

/-- A size read from three bytes is below `2^24`. -/
theorem readInt24_lt (b : Bytes) : readInt24 b < 2 ^ 24 := by
  have low : (b.getD 2 0).toNat < 2 ^ 24 := by have := (b.getD 2 0).toNat_lt; omega
  have middle : (b.getD 1 0).toNat <<< 8 < 2 ^ 24 := by
    have := (b.getD 1 0).toNat_lt
    rw [Nat.shiftLeft_eq]
    omega
  have high : (b.getD 0 0).toNat <<< 16 < 2 ^ 24 := by
    have := (b.getD 0 0).toNat_lt
    rw [Nat.shiftLeft_eq]
    omega
  exact Nat.or_lt_two_pow (Nat.or_lt_two_pow low middle) high

/-- A message as its senders build it: a code of 64 bits, and a payload of the declared size,
below `2^24` bytes. -/
structure Msg.Fits (m : Msg) : Prop where
  code : m.Code < 2 ^ 64
  size : m.Size = m.Payload.length
  small : m.Size ≤ maxUint24

section Frames

variable (c : Ciphers) (sn : Snappy)

/-- The frame `WriteMsg` writes for a body, whose header declares `fsize` bytes, and the state
after it. -/
def sealFrame (w : FrameRW) (fsize : Nat) (body : Bytes) : FrameRW × Bytes :=
  let header := xorKeyStream c.keystream w.enc (putInt24 fsize ++ zeroHeader ++ List.replicate 10 0)
  let (egressMAC, headMAC) := updateMAC c w.egressMAC header
  let padding := if fsize % 16 > 0 then List.replicate (16 - fsize % 16) 0 else []
  let frame := xorKeyStream c.keystream (w.enc + 16) (body ++ padding)
  let egressMAC := egressMAC ++ frame
  let (egressMAC, mac) := updateMAC c egressMAC (c.keccak egressMAC)
  ({ w with enc := w.enc + 16 + frame.length, egressMAC }, header ++ headMAC ++ frame ++ mac)

/-- The body of the frame of a message: its code, then its payload, compressed with snappy on. -/
def frameBody (snappy : Bool) (m : Msg) : Bytes :=
  (Item.str (beBytes m.Code)).encode ++ (if snappy then sn.Encode m.Payload else m.Payload)

variable {c sn} {w w' r : FrameRW} {m : Msg} {out : Bytes}

theorem length_updateMAC_snd (mac seed : Bytes) : (updateMAC c mac seed).2.length = 16 := by
  simp [updateMAC, c.length_keccak]

theorem length_sealFrame_snd (w : FrameRW) (fsize : Nat) (body : Bytes) :
    body.length ≤ (sealFrame c w fsize body).2.length := by
  simp only [sealFrame, List.length_append, length_xorKeyStream]
  omega

/-! ### What `WriteMsg` writes -/

/-- `WriteMsg` on a message as its senders build it: the size check on the frame body, then the
frame. -/
theorem WriteMsg_eq (fits : m.Fits) :
    WriteMsg c sn w m =
      if (frameBody sn w.snappy m).length > maxUint24 then .error .sizeOverflow
      else .ok (sealFrame c w (frameBody sn w.snappy m).length (frameBody sn w.snappy m)) := by
  have short := length_encode_beBytes fits.code
  have small := fits.small
  have sized := fits.size
  unfold maxUint24 at small
  unfold WriteMsg
  rw [encodeToBytes_uint fits.code]
  dsimp only
  split
  case isTrue snappy =>
    -- the compressed payload is at most `MaxEncodedLen` bytes, so its size does not wrap
    have encoded := sn.length_Encode m.Payload
    have nowrap : ((Item.str (beBytes m.Code)).encode.length +
        (sn.Encode m.Payload).length % 2 ^ 32) % 2 ^ 32 = (frameBody sn w.snappy m).length := by
      rw [frameBody, snappy, if_pos rfl, List.length_append, Nat.mod_eq_of_lt (by omega),
        Nat.mod_eq_of_lt (by omega)]
    rw [ite_throw_bind, if_neg (by unfold maxUint24; omega), pure_bind]
    dsimp only
    rw [nowrap, ite_throw_bind, frameBody, if_pos snappy]
    rfl
  case isFalse plain =>
    have nowrap : ((Item.str (beBytes m.Code)).encode.length + m.Size) % 2 ^ 32 =
        (frameBody sn w.snappy m).length := by
      rw [frameBody, if_neg plain, List.length_append, ← sized, Nat.mod_eq_of_lt (by omega)]
    rw [pure_bind]
    dsimp only
    rw [nowrap, ite_throw_bind, frameBody, if_neg plain]
    rfl

/-- What `WriteMsg` accepts: the frame of the body of the message, which takes at most
`maxUint24` bytes. -/
theorem WriteMsg_ok (fits : m.Fits) (written : WriteMsg c sn w m = .ok (w', out)) :
    (frameBody sn w.snappy m).length ≤ maxUint24 ∧
      (w', out) = sealFrame c w (frameBody sn w.snappy m).length (frameBody sn w.snappy m) := by
  rw [WriteMsg_eq fits] at written
  split at written
  case isTrue => cases written
  case isFalse fit => exact ⟨Nat.le_of_not_gt fit, (Except.ok.inj written).symm⟩

/-- What `WriteMsg` refuses: a message whose frame body does not fit in a 24-bit size. -/
theorem WriteMsg_error (fits : m.Fits) {e : Error} (failed : WriteMsg c sn w m = .error e) :
    e = .sizeOverflow ∧ (frameBody sn w.snappy m).length > maxUint24 := by
  rw [WriteMsg_eq fits] at failed
  split at failed
  case isTrue large => exact ⟨(Except.error.inj failed).symm, large⟩
  case isFalse => cases failed

/-- `WriteMsg` moves the egress stream and MAC only. -/
theorem WriteMsg_egress (fits : m.Fits) (written : WriteMsg c sn w m = .ok (w', out)) :
    w' = { w with enc := w'.enc, egressMAC := w'.egressMAC } := by
  obtain ⟨-, sealed⟩ := WriteMsg_ok fits written
  unfold sealFrame at sealed
  obtain ⟨rfl, -⟩ := Prod.mk.inj sealed
  rfl

/-! ### What `ReadMsg` reads -/

/-- A writer and the reader at the other end of its connection agree: the reader decrypts
where the writer encrypts, its ingress MAC has been written what the writer's egress MAC was,
and both compress or neither does. -/
structure Synced (w r : FrameRW) : Prop where
  stream : w.enc = r.dec
  mac : w.egressMAC = r.ingressMAC
  snappy : w.snappy = r.snappy

theorem ReadMsg_sealFrame (sync : Synced w r) (fits : m.Fits)
    (fit : (frameBody sn w.snappy m).length ≤ maxUint24)
    (sealed : sealFrame c w (frameBody sn w.snappy m).length (frameBody sn w.snappy m) = (w', out))
    (rest : Bytes) :
    ReadMsg c sn r (out ++ rest) =
      .ok (m, { r with dec := w'.enc, ingressMAC := w'.egressMAC }, rest) := by
  unfold sealFrame at sealed
  dsimp only at sealed
  -- name the pieces of the frame: the header, and the padded body, each encrypted
  generalize framed : frameBody sn w.snappy m = body at sealed fit
  generalize decryptsHeader : xorKeyStream c.keystream w.enc
    (putInt24 body.length ++ zeroHeader ++ List.replicate 10 0) = header at sealed
  generalize decryptsFrame : xorKeyStream c.keystream (w.enc + 16)
    (body ++ if body.length % 16 > 0 then List.replicate (16 - body.length % 16) 0 else []) = frame
    at sealed
  obtain ⟨rfl, rfl⟩ := Prod.mk.inj sealed
  have length_header : header.length = 16 := by
    rw [← decryptsHeader]
    simp [putInt24, zeroHeader]
  have size : readInt24 (xorKeyStream c.keystream r.dec header) = body.length := by
    unfold maxUint24 at fit
    rw [← sync.stream, ← decryptsHeader, xorKeyStream_xorKeyStream, List.append_assoc,
      readInt24_putInt24 (by omega)]
  have length_frame : frame.length =
      if body.length % 16 > 0 then body.length + (16 - body.length % 16) else body.length := by
    rw [← decryptsFrame, length_xorKeyStream]
    split <;> simp
  have decrypted : (xorKeyStream c.keystream (r.dec + 16) frame).take body.length = body := by
    rw [← sync.stream, ← decryptsFrame, xorKeyStream_xorKeyStream, List.take_left]
  have decoded : decodeCode body =
      .ok (m.Code, if w.snappy then sn.Encode m.Payload else m.Payload) := by
    rw [← framed, frameBody, decodeCode_encode fits.code]
  unfold ReadMsg
  -- the header and its MAC, which the reader computes as the writer did
  rw [show ∀ a b c d e : Bytes, a ++ b ++ c ++ d ++ e = (a ++ b) ++ (c ++ (d ++ e)) by simp,
    readFull_of_length (by simp [length_header, length_updateMAC_snd]), ok_bind]
  dsimp only
  rw [List.take_left' length_header, List.drop_left' length_header, ← sync.mac, if_neg (by simp),
    size, readFull_of_length length_frame, ok_bind]
  dsimp only
  -- the frame MAC
  rw [readFull_of_length (length_updateMAC_snd _ _), ok_bind]
  dsimp only
  rw [if_neg (by simp), decrypted, decoded, ok_bind]
  dsimp only
  rw [← sync.snappy, ← sync.stream, ← length_frame]
  obtain ⟨code, size, payload⟩ := m
  obtain rfl : size = payload.length := fits.size
  have small : ¬maxUint24 < payload.length := Nat.not_lt.mpr fits.small
  cases w.snappy
  case true => simp [sn.DecodedLen_Encode, sn.Decode_Encode, Except.mapError, ok_bind, small]
  case false => rfl

/-- `ReadMsg` on a connection that holds nothing. -/
theorem ReadMsg_nil : ReadMsg c sn r [] = .error .EOF := rfl

/-- A read takes at most a header, a frame of `2^24` bytes with its padding, and a MAC. -/
theorem ReadMsg_consumes {r' : FrameRW} {conn rest : Bytes} {msg : Msg}
    (read : ReadMsg c sn r conn = .ok (msg, r', rest)) :
    ∃ frame, conn = frame ++ rest ∧ frame.length < 48 + 2 ^ 24 + 16 := by
  unfold ReadMsg at read
  obtain ⟨⟨headbuf, conn₁⟩, header, read⟩ := bind_eq_ok.mp read
  dsimp only at read
  rw [ite_throw_bind] at read
  split at read
  case isTrue => cases read
  obtain ⟨⟨framebuf, conn₂⟩, body, read⟩ := bind_eq_ok.mp read
  dsimp only at read
  obtain ⟨⟨frameMAC, conn₃⟩, mac, read⟩ := bind_eq_ok.mp read
  dsimp only at read
  rw [ite_throw_bind] at read
  split at read
  case isTrue => cases read
  obtain ⟨⟨code, content⟩, -, read⟩ := bind_eq_ok.mp read
  dsimp only at read
  -- every way to succeed from here returns what the connection held after the frame MAC
  have last : rest = conn₃ := by
    split at read
    case isTrue =>
      obtain ⟨size, -, read⟩ := bind_eq_ok.mp read
      rw [ite_throw_bind] at read
      split at read
      case isTrue => cases read
      case isFalse =>
        obtain ⟨payload, -, read⟩ := bind_eq_ok.mp read
        cases read
        rfl
    case isFalse =>
      cases read
      rfl
  obtain ⟨length_head, rfl⟩ := readFull_ok header
  obtain ⟨length_body, rfl⟩ := readFull_ok body
  obtain ⟨length_mac, rfl⟩ := readFull_ok mac
  have size := readInt24_lt (xorKeyStream c.keystream r.dec (headbuf.take 16))
  refine ⟨headbuf ++ framebuf ++ frameMAC, by simp [last], ?_⟩
  simp only [List.length_append, length_head, length_body, length_mac]
  split <;> omega

/-- Primitives with a zero keystream and hashes of zeros, to run the codec on. -/
def zeroCiphers : Ciphers where
  keystream _ := 0
  encrypt _ := List.replicate 16 0
  keccak _ := List.replicate 32 0
  length_encrypt _ := by simp
  length_keccak _ := by simp

/-- A compression that stores its input as it is. -/
def storedSnappy : Snappy where
  Encode src := src
  DecodedLen src := .ok src.length
  Decode src := .ok src
  DecodedLen_Encode _ := rfl
  Decode_Encode _ := rfl
  length_Encode _ := by omega

/-- A reader synced with the writer reads back the message the writer wrote, whatever follows
on the connection, and moves its ingress stream and MAC to where the writer's egress are. -/
theorem ReadMsg_WriteMsg (sync : Synced w r) (fits : m.Fits)
    (written : WriteMsg c sn w m = .ok (w', out)) (rest : Bytes) :
    ReadMsg c sn r (out ++ rest) =
      .ok (m, { r with dec := w'.enc, ingressMAC := w'.egressMAC }, rest) := by
  obtain ⟨fit, sealed⟩ := WriteMsg_ok fits written
  exact ReadMsg_sealFrame sync fits fit sealed.symm rest

/-- The recipient reads the initiator's first frame, of the code `0x10` and two bytes. -/
theorem ReadMsg_WriteMsg_hello :
    ReadMsg zeroCiphers storedSnappy (newRLPXFrameRW [2] [1])
        ((sealFrame zeroCiphers (newRLPXFrameRW [1] [2]) 3 [16, 7, 8]).2 ++ []) =
      .ok (⟨16, 2, [7, 8]⟩, { newRLPXFrameRW [2] [1] with
        dec := (sealFrame zeroCiphers (newRLPXFrameRW [1] [2]) 3 [16, 7, 8]).1.enc,
        ingressMAC := (sealFrame zeroCiphers (newRLPXFrameRW [1] [2]) 3 [16, 7, 8]).1.egressMAC },
        []) :=
  have fits : Msg.Fits ⟨16, 2, [7, 8]⟩ := ⟨by norm_num, rfl, by decide⟩
  have body : frameBody storedSnappy false ⟨16, 2, [7, 8]⟩ = [16, 7, 8] := by
    simp [frameBody, beBytes_of_lt (show 0 < 16 by norm_num) (by norm_num), encode_str_single]
  have sync : Synced (newRLPXFrameRW [1] [2]) (newRLPXFrameRW [2] [1]) := ⟨rfl, rfl, rfl⟩
  ReadMsg_WriteMsg sync fits (by rw [WriteMsg_eq fits, newRLPXFrameRW, body]; rfl) []

end Frames

/-! ### The frames on a connection -/

section Pending

variable (c : Ciphers) (sn : Snappy)

/-- The frames on a connection from a writer to a reader: reading them one after the other
gives the messages `q` in order, and leaves the reader synced with the writer at `w`. -/
inductive Pending : FrameRW → Bytes → List Msg → FrameRW → Prop
  | synced {r w : FrameRW} : Synced w r → Pending r [] [] w
  | frame {r w₀ w₁ w : FrameRW} {m : Msg} {out pipe : Bytes} {q : List Msg} :
      m.Fits → Synced w₀ r → WriteMsg c sn w₀ m = .ok (w₁, out) →
      Pending { r with dec := w₁.enc, ingressMAC := w₁.egressMAC } pipe q w →
      Pending r (out ++ pipe) (m :: q) w

variable {c sn} {w w' r : FrameRW} {m : Msg} {out pipe : Bytes} {q : List Msg}

theorem Pending.empty (pending : Pending c sn r pipe [] w) : pipe = [] ∧ Synced w r := by
  cases pending with
  | synced sync => exact ⟨rfl, sync⟩

/-- A read takes the first frame, and moves the reader's ingress stream and MAC only. -/
theorem Pending.read (pending : Pending c sn r pipe (m :: q) w) :
    ∃ dec ingressMAC rest,
      ReadMsg c sn r pipe = .ok (m, { r with dec, ingressMAC }, rest) ∧
      Pending c sn { r with dec, ingressMAC } rest q w := by
  cases pending with
  | frame fits sync written inner =>
    obtain ⟨fit, sealed⟩ := WriteMsg_ok fits written
    exact ⟨_, _, _, ReadMsg_sealFrame sync fits fit sealed.symm _, inner⟩

/-- A write appends a frame. -/
theorem Pending.write (pending : Pending c sn r pipe q w) (fits : m.Fits)
    (written : WriteMsg c sn w m = .ok (w', out)) : Pending c sn r (pipe ++ out) (q ++ [m]) w' := by
  induction pending with
  | synced sync =>
    -- the new frame is the only one, and reading it syncs the reader with the writer
    have snappy : w'.snappy = _ := congrArg FrameRW.snappy (WriteMsg_egress fits written)
    rw [List.nil_append, List.nil_append, ← List.append_nil out]
    exact .frame fits sync written (.synced ⟨rfl, rfl, snappy.trans sync.snappy⟩)
  | frame fits₀ sync₀ written₀ _ ih =>
    rw [List.append_assoc, List.cons_append]
    exact .frame fits₀ sync₀ written₀ (ih written)

/-- The frames depend on the writer's egress stream and MAC only, which its own reads leave. -/
theorem Pending.of_egress (pending : Pending c sn r pipe q w) {v : FrameRW} (enc : v.enc = w.enc)
    (egressMAC : v.egressMAC = w.egressMAC) (snappy : v.snappy = w.snappy) :
    Pending c sn r pipe q v := by
  induction pending with
  | synced sync =>
    exact .synced ⟨enc.trans sync.stream, egressMAC.trans sync.mac, snappy.trans sync.snappy⟩
  | frame fits sync written _ ih => exact .frame fits sync written (ih enc egressMAC snappy)

/-- The frames depend on the reader's ingress stream and MAC only, which its own writes
leave. -/
theorem Pending.of_ingress (pending : Pending c sn r pipe q w) {u : FrameRW} (dec : u.dec = r.dec)
    (ingressMAC : u.ingressMAC = r.ingressMAC) (snappy : u.snappy = r.snappy) :
    Pending c sn u pipe q w := by
  induction pending generalizing u with
  | synced sync =>
    exact .synced ⟨sync.stream.trans dec.symm, sync.mac.trans ingressMAC.symm,
      sync.snappy.trans snappy.symm⟩
  | frame fits sync written _ ih =>
    exact .frame fits ⟨sync.stream.trans dec.symm, sync.mac.trans ingressMAC.symm,
      sync.snappy.trans snappy.symm⟩ written (ih rfl rfl snappy)

end Pending

/-! ### The size of a plain frame -/

section Wrap

variable {c : Ciphers} {sn : Snappy}

/-- The frame size of a plain message is a `uint32` sum: a payload of just under `2^32` bytes
wraps it to `fsize`, which passes the `maxUint24` check, and `WriteMsg` writes a frame whose
header declares `fsize` bytes. -/
theorem WriteMsg_wrapped {w : FrameRW} {m : Msg} {fsize : Nat} (plain : w.snappy = false)
    (code : m.Code < 2 ^ 64) (sized : m.Size = m.Payload.length) (uint32 : m.Size < 2 ^ 32)
    (wraps : (frameBody sn false m).length = 2 ^ 32 + fsize) :
    WriteMsg c sn w m = .ok (sealFrame c w fsize (frameBody sn false m)) := by
  have short := length_encode_beBytes code
  have length_body : (frameBody sn false m).length =
      (Item.str (beBytes m.Code)).encode.length + m.Size := by
    rw [frameBody, if_neg Bool.false_ne_true, List.length_append, sized]
  have wrapped : ((Item.str (beBytes m.Code)).encode.length + m.Size) % 2 ^ 32 = fsize := by
    omega
  unfold WriteMsg
  rw [encodeToBytes_uint code]
  dsimp only
  rw [if_neg (by simp [plain]), pure_bind]
  dsimp only
  rw [wrapped, ite_throw_bind, if_neg (by unfold maxUint24; omega)]
  rfl

/-- A read takes less than a frame of `2^24` bytes, so none ends where a longer frame ends. -/
theorem ReadMsg_ne_of_long {w : FrameRW} {fsize : Nat} {body : Bytes}
    (long : 48 + 2 ^ 24 + 16 ≤ body.length) (r : FrameRW) (next : Bytes) (msg : Msg)
    (r' : FrameRW) :
    ReadMsg c sn r ((sealFrame c w fsize body).2 ++ next) ≠ .ok (msg, r', next) := by
  intro read
  obtain ⟨frame, whole, short⟩ := ReadMsg_consumes read
  have longer : body.length ≤ (sealFrame c w fsize body).2.length :=
    length_sealFrame_snd w fsize body
  rw [List.append_cancel_right whole] at longer
  omega

/-- The frame size of a plain message is a `uint32` sum: a payload of just under `2^32` bytes
wraps it to `fsize`, below the size of the code. `WriteMsg` then writes a frame whose header
declares `fsize` bytes, and no read of the frame ends where the frame does. -/
theorem WriteMsg_size_wraps {w : FrameRW} {m : Msg} {fsize : Nat} (plain : w.snappy = false)
    (code : m.Code < 2 ^ 64) (sized : m.Size = m.Payload.length) (uint32 : m.Size < 2 ^ 32)
    (wraps : (frameBody sn false m).length = 2 ^ 32 + fsize) :
    WriteMsg c sn w m = .ok (sealFrame c w fsize (frameBody sn false m)) ∧
      ∀ r next msg r', ReadMsg c sn r ((sealFrame c w fsize (frameBody sn false m)).2 ++ next) ≠
        .ok (msg, r', next) :=
  ⟨WriteMsg_wrapped plain code sized uint32 wraps, ReadMsg_ne_of_long (by omega)⟩

/-- A payload of `2^32 - 1` bytes under the code `0` wraps the frame size to `0`. -/
theorem WriteMsg_size_wraps_zero :
    WriteMsg zeroCiphers storedSnappy (newRLPXFrameRW [] [])
        ⟨0, 2 ^ 32 - 1, List.replicate (2 ^ 32 - 1) 0⟩ =
      .ok (sealFrame zeroCiphers (newRLPXFrameRW [] []) 0
        (frameBody storedSnappy false ⟨0, 2 ^ 32 - 1, List.replicate (2 ^ 32 - 1) 0⟩)) ∧
    ∀ r next msg r', ReadMsg zeroCiphers storedSnappy r
      ((sealFrame zeroCiphers (newRLPXFrameRW [] []) 0
        (frameBody storedSnappy false ⟨0, 2 ^ 32 - 1, List.replicate (2 ^ 32 - 1) 0⟩)).2 ++ next) ≠
        .ok (msg, r', next) :=
  WriteMsg_size_wraps rfl (show 0 < 2 ^ 64 by norm_num) List.length_replicate.symm
    (show 2 ^ 32 - 1 < 2 ^ 32 by norm_num) (by
      rw [show frameBody storedSnappy false ⟨0, 2 ^ 32 - 1, List.replicate (2 ^ 32 - 1) 0⟩ =
        (Item.str (beBytes 0)).encode ++ List.replicate (2 ^ 32 - 1) 0 from rfl,
        List.length_append, List.length_replicate, beBytes_zero]
      rfl)

/-- A message of the first subprotocol code, `0x10`, with a payload of `2^32 - 1` bytes. -/
def oversizedMsg : Msg := ⟨0x10, 2 ^ 32 - 1, List.replicate (2 ^ 32 - 1) 0⟩

theorem length_frameBody_oversizedMsg :
    (frameBody storedSnappy false oversizedMsg).length = 2 ^ 32 + 0 := by
  rw [show frameBody storedSnappy false oversizedMsg =
    (Item.str (beBytes 0x10)).encode ++ List.replicate (2 ^ 32 - 1) 0 from rfl,
    List.length_append, List.length_replicate]
  rfl

/-- `WriteMsg` takes a message whose frame is far above `maxUint24` bytes: it writes the
frame with a size of `0`, and the other end cannot read the message back. -/
theorem WriteMsg_accepts_oversized :
    maxUint24 < (frameBody storedSnappy false oversizedMsg).length ∧
      WriteMsg zeroCiphers storedSnappy (newRLPXFrameRW [] []) oversizedMsg =
        .ok (sealFrame zeroCiphers (newRLPXFrameRW [] []) 0
          (frameBody storedSnappy false oversizedMsg)) ∧
      ∀ r next msg r', ReadMsg zeroCiphers storedSnappy r
        ((sealFrame zeroCiphers (newRLPXFrameRW [] []) 0
          (frameBody storedSnappy false oversizedMsg)).2 ++ next) ≠ .ok (msg, r', next) := by
  have body := length_frameBody_oversizedMsg
  refine ⟨?_, ?_, ReadMsg_ne_of_long (by rw [body]; norm_num)⟩
  · rw [body]
    unfold maxUint24
    norm_num
  · exact WriteMsg_wrapped rfl (by unfold oversizedMsg; norm_num) List.length_replicate.symm
      (by unfold oversizedMsg; norm_num) body

end Wrap

end Indigo.P2p.Rlpx
