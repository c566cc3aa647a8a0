import Indigo.Rlp.Value

/-!
# The writer and the reader of an encode buffer

Besides `toBytes`, an `encbuf` leaves `rlp/encode.go` in two more ways: `toWriter` hands
the string data and the list headers to an `io.Writer` piece by piece (`Encode`), and
`encReader` hands out the same pieces, cut to the callers' buffers, through a resumable
`Read` (`EncodeToReader`).

The reader is specified against the bytes it has left (`EncReader.rest`): the pieces
`toWriter` would still write from its cursors on, after the rest of a piece cut by the
last read. One `Read` takes a prefix of them.

## Main results

- `Wf.writer`: every writer keeps the list headers in the order of their offsets, within
  the string data.
- `toWriter_flatten`: on such a buffer the writes put together are `toBytes`.
- `Read_spec`: a read into `room` bytes returns `rest.take room`, reports `io.EOF` exactly
  when that is all, and leaves `rest.drop room`.
- `encoders_agree`: `EncodeToBytes`, the writes of `Encode` and everything read from
  `EncodeToReader`, with any buffer sizes, are the canonical encoding.

## Proof strategy

The writes are a loop over the headers (`writes`), which is also the abstraction of the
reader's cursors; `next` pops the first of its pieces (`next_none`, `next_some`), and
`Read_spec` follows the recursion of `Read`.
-/

namespace Indigo.Rlp

namespace Encbuf

/-- The loop of `toWriter` from string position `strpos`: one `out.Write` for the string
data before a header, when there is any, one for the header, and one for the data after
the last header. The writer takes each write in full, so `n` is its length. -/
def writes (str : Bytes) : List Listhead → Nat → List Bytes
  | [], strpos => if strpos < str.length then [str.drop strpos] else []
  | head :: heads, strpos =>
    if head.offset - strpos > 0 then
      let data := (str.drop strpos).take (head.offset - strpos)
      data :: head.encode :: writes str heads (strpos + data.length)
    else head.encode :: writes str heads strpos

/-- `encbuf.toWriter`, into a writer that accepts every write: the writes it receives. -/
def toWriter (w : Encbuf) : List Bytes := writes w.str w.lheads 0

/-! ### The buffers the writers build -/

/-- The list headers are in the order of their offsets. -/
def Sorted (w : Encbuf) : Prop := (w.lheads.map Listhead.offset).Pairwise (· ≤ ·)

/-- What writing keeps of a buffer: the headers in order, none beyond the string data. -/
structure Wf (w : Encbuf) : Prop where
  bounded : w.Bounded
  sorted : w.Sorted

theorem wf_empty : empty.Wf :=
  ⟨by simp [Bounded, empty], by simp [Sorted, empty]⟩

/-- `Wf` reads only the offsets and the length of the string data. -/
theorem Wf.of_offsets {w v : Encbuf} (wf : w.Wf)
    (offsets : v.lheads.map Listhead.offset = w.lheads.map Listhead.offset)
    (grows : w.str.length ≤ v.str.length) : v.Wf := by
  refine ⟨fun h member => ?_, by simpa [Sorted, offsets] using wf.sorted⟩
  have listed : h.offset ∈ w.lheads.map Listhead.offset := offsets ▸ List.mem_map_of_mem member
  obtain ⟨k, old, same⟩ := List.mem_map.mp listed
  have := wf.bounded k old
  omega

theorem Wf.write {w : Encbuf} (wf : w.Wf) (b : Bytes) : (w.write b).Wf :=
  wf.of_offsets rfl (by simp [Encbuf.write])

theorem Wf.encodeString {w : Encbuf} (wf : w.Wf) (b : Bytes) : (w.encodeString b).Wf := by
  rw [encodeString_eq_write]
  exact wf.write _

/-- A header opens at the end of the string data, after every other. -/
theorem Wf.list {w : Encbuf} (wf : w.Wf) : w.list.1.Wf := by
  refine ⟨fun h member => ?_, ?_⟩
  · simp only [Encbuf.list, List.mem_append, List.mem_singleton] at member
    rcases member with old | rfl
    · exact wf.bounded h old
    · exact Nat.le_refl _
  · simp only [Sorted, Encbuf.list, List.map_append, List.map_singleton,
      List.pairwise_append, List.pairwise_singleton, List.mem_singleton, true_and]
    refine ⟨wf.sorted, fun o listed _ same => same ▸ ?_⟩
    obtain ⟨h, member, rfl⟩ := List.mem_map.mp listed
    exact wf.bounded h member

/-- Closing a header sets its size and leaves its offset. -/
theorem offsets_listEnd (w : Encbuf) (lh : Nat) :
    (w.listEnd lh).lheads.map Listhead.offset = w.lheads.map Listhead.offset := by
  simp only [listEnd, List.map_set]
  by_cases within : lh < w.lheads.length
  · rw [List.getD_eq_getElem _ _ within, ← List.getElem_map Listhead.offset]
    exact List.set_getElem_self (by simpa using within)
  · exact List.set_eq_of_length_le (by simpa using not_lt.mp within)

theorem Wf.listEnd {w : Encbuf} (wf : w.Wf) (lh : Nat) : (w.listEnd lh).Wf :=
  wf.of_offsets (offsets_listEnd w lh) (Nat.le_refl _)

/-- Every writer of `makeWriter` keeps a buffer well formed. -/
theorem writeUint_write (i : Nat) (w : Encbuf) : ∃ b, writeUint i w = w.write b := by
  unfold writeUint
  split
  · exact ⟨_, rfl⟩
  · split <;> exact ⟨_, rfl⟩

mutual

theorem Wf.writer : (v : Value) → ∀ {w u : Encbuf}, w.Wf → writer v w = .ok u → u.Wf
  | .uint i, w, u, wf, written => by
    obtain ⟨b, eq⟩ := writeUint_write i w
    simp only [Rlp.writer, eq, Except.ok.injEq] at written
    exact written ▸ wf.write b
  | .bool b, w, u, wf, written => by
    simp only [Rlp.writer, Except.ok.injEq] at written
    rw [← written, writeBool_eq]
    exact wf.encodeString _
  | .string s, w, u, wf, written => by
    simp only [Rlp.writer, Except.ok.injEq] at written
    rw [← written, writeString_eq]
    exact wf.encodeString s
  | .bigInt i, w, u, wf, written => by
    simp only [Rlp.writer, writeBigInt] at written
    split at written
    · cases written
    · split at written <;> cases written
      · exact wf.write _
      · exact wf.encodeString _
  | .bytes bs, w, u, wf, written => by
    simp only [Rlp.writer, writeBytes, Except.ok.injEq] at written
    exact written ▸ wf.encodeString bs
  | .byteArray bs, w, u, wf, written => by
    simp only [Rlp.writer, writeByteArray, Except.ok.injEq] at written
    exact written ▸ wf.encodeString bs
  | .slice items, w, u, wf, written | .array items, w, u, wf, written
  | .struct items, w, u, wf, written => by
    simp only [Rlp.writer, bind, Except.bind] at written
    split at written
    · cases written
    · next inner elements =>
      cases written
      exact (Wf.writeElems items wf.list elements).listEnd _
  | .ifaceNil, w, u, wf, written => by
    simp only [Rlp.writer, Except.ok.injEq] at written
    exact written ▸ wf.write _
  | .iface v, w, u, wf, written => by
    simp only [Rlp.writer] at written
    exact Wf.writer v wf written

theorem Wf.writeElems : (items : List Value) → ∀ {w u : Encbuf}, w.Wf → writeElems items w = .ok u →
    u.Wf
  | [], w, u, wf, written => by
    simp only [Rlp.writeElems, Except.ok.injEq] at written
    exact written ▸ wf
  | v :: rest, w, u, wf, written => by
    simp only [Rlp.writeElems, bind, Except.bind] at written
    split at written
    · cases written
    · next mid first => exact Wf.writeElems rest (Wf.writer v wf first) written

end

/-! ### The writes are the bytes of `toBytes` -/

/-- From a position at or before every header, the writes put together are what `render`
splices: each header's data runs from the previous header's offset to its own. -/
theorem writes_flatten (str : Bytes) : (heads : List Listhead) → (strpos : Nat) →
    (heads.map Listhead.offset).Pairwise (· ≤ ·) →
    (∀ h ∈ heads, strpos ≤ h.offset ∧ h.offset ≤ str.length) →
    (writes str heads strpos).flatten = render str heads strpos
  | [], strpos, _, _ => by
    unfold writes render
    split
    · simp
    · next past => simp [List.drop_eq_nil_of_le (Nat.le_of_not_lt past)]
  | head :: heads, strpos, sorted, within => by
    obtain ⟨after, inside⟩ := within head List.mem_cons_self
    simp only [List.map_cons, List.pairwise_cons, List.mem_map] at sorted
    obtain ⟨first, rest⟩ := sorted
    -- the rest of the headers lie at or after this one's offset
    have later : ∀ h ∈ heads, head.offset ≤ h.offset ∧ h.offset ≤ str.length := fun h member =>
      ⟨first h.offset ⟨h, member, rfl⟩, (within h (List.mem_cons_of_mem _ member)).2⟩
    unfold writes render
    split
    · next before =>
      have taken : ((str.drop strpos).take (head.offset - strpos)).length = head.offset - strpos := by
        simp only [List.length_take, List.length_drop]
        omega
      simp only [List.flatten_cons, taken, Nat.add_sub_cancel' after, List.append_assoc]
      rw [writes_flatten str heads head.offset rest later]
    · next none =>
      have same : head.offset = strpos := by omega
      simp only [List.flatten_cons, same, Nat.sub_self, List.take_zero, List.nil_append]
      rw [writes_flatten str heads strpos rest (same ▸ later)]

theorem toWriter_flatten {w : Encbuf} (wf : w.Wf) : w.toWriter.flatten = w.toBytes :=
  writes_flatten w.str w.lheads 0 wf.sorted fun h member => ⟨Nat.zero_le _, wf.bounded h member⟩

end Encbuf

/-! ### The reader -/

/-- `encReader`: `buf` is `none` once it went back to the pool at EOF. -/
structure EncReader where
  buf : Option Encbuf
  lhpos : Nat
  strpos : Nat
  piece : Option Bytes

namespace EncReader

/-- `encReader.next`: the next piece to be read, `none` at EOF. -/
def next (r : EncReader) : Option Bytes × EncReader :=
  match r.buf, r.piece with
  | none, _ => (none, r)
  -- there is still data available for reading
  | some _, some piece => (some piece, r)
  | some buf, none =>
    match buf.lheads[r.lhpos]? with
    | some head =>
      let sizebefore := head.offset - r.strpos
      if sizebefore > 0 then
        (some ((buf.str.drop r.strpos).take sizebefore), { r with strpos := r.strpos + sizebefore })
      else (some head.encode, { r with lhpos := r.lhpos + 1 })
    | none =>
      -- string data at the end, after all list headers
      if r.strpos < buf.str.length then
        (some (buf.str.drop r.strpos), { r with strpos := buf.str.length })
      else (none, r)

/-- Whether string data lies before the header at `lhpos`. -/
def dataBefore (buf : Encbuf) (lhpos strpos : Nat) : Nat :=
  match buf.lheads[lhpos]? with
  | some head => if strpos < head.offset then 1 else 0
  | none => 0

/-- The steps `next` has left: the pending piece, two per header (the data before it and
the header), and the data after the last one. -/
def measure (r : EncReader) : Nat :=
  match r.buf with
  | none => 0
  | some buf =>
    (if r.piece.isSome then 1 else 0) + 2 * (buf.lheads.length - r.lhpos) +
      dataBefore buf r.lhpos r.strpos + (if r.strpos < buf.str.length then 1 else 0)

theorem dataBefore_le (buf : Encbuf) (lhpos strpos : Nat) : dataBefore buf lhpos strpos ≤ 1 := by
  unfold dataBefore
  split
  · split <;> omega
  · omega

/-- What one call of `next` can do: report EOF once the buffer is gone or everything was
read, hand out the pending piece, or the string data before the next header, the header,
or the string data after the last one. -/
inductive Next : EncReader → Option Bytes → EncReader → Prop
  | closed {r : EncReader} : r.buf = none → Next r none r
  | pending {r : EncReader} {buf : Encbuf} {piece : Bytes} :
      r.buf = some buf → r.piece = some piece → Next r (some piece) r
  | before {r : EncReader} {buf : Encbuf} {head : Listhead} :
      r.buf = some buf → r.piece = none → buf.lheads[r.lhpos]? = some head →
      r.strpos < head.offset →
      Next r (some ((buf.str.drop r.strpos).take (head.offset - r.strpos)))
        { r with strpos := head.offset }
  | header {r : EncReader} {buf : Encbuf} {head : Listhead} :
      r.buf = some buf → r.piece = none → buf.lheads[r.lhpos]? = some head →
      head.offset ≤ r.strpos → Next r (some head.encode) { r with lhpos := r.lhpos + 1 }
  | after {r : EncReader} {buf : Encbuf} :
      r.buf = some buf → r.piece = none → buf.lheads[r.lhpos]? = none →
      r.strpos < buf.str.length →
      Next r (some (buf.str.drop r.strpos)) { r with strpos := buf.str.length }
  | ended {r : EncReader} {buf : Encbuf} :
      r.buf = some buf → r.piece = none → buf.lheads[r.lhpos]? = none →
      buf.str.length ≤ r.strpos → Next r none r

theorem next_spec (r : EncReader) : Next r r.next.1 r.next.2 := by
  unfold next
  split
  · next buffered => exact .closed buffered
  · next buffered pending => exact .pending buffered pending
  · next buf buffered pending =>
    split
    · next head found =>
      dsimp only
      split
      · next before =>
        have reached : r.strpos + (head.offset - r.strpos) = head.offset := by omega
        rw [reached]
        exact .before buffered pending found (by omega)
      · next none => exact .header buffered pending found (by omega)
    · next missing =>
      split
      · next remaining => exact .after buffered pending missing remaining
      · next ended => exact .ended buffered pending missing (by omega)

theorem Next.of_eq {r r' : EncReader} {piece : Option Bytes} (h : r.next = (piece, r')) :
    Next r piece r' := by
  simpa [h] using next_spec r

/-- Each piece `next` hands out is a step fewer left. -/
theorem Next.decreases {r r' : EncReader} {piece : Bytes} (step : Next r (some piece) r') :
    measure { r' with piece := none } < measure r := by
  cases step with
  | pending buffered pending => simp [measure, buffered, pending]
  | before buffered pending found before =>
    -- the cursor reaches the header's offset: no data before it is left
    simp only [measure, buffered, pending, dataBefore, found, if_pos before, lt_irrefl, if_false,
      Option.isSome_none]
    split_ifs <;> omega
  | @header buf head buffered pending found none =>
    -- one header fewer, whatever lies before the next one
    have within : r.lhpos < buf.lheads.length := (List.getElem?_eq_some_iff.mp found).1
    have following := dataBefore_le buf (r.lhpos + 1) r.strpos
    have here : dataBefore buf r.lhpos r.strpos = 0 := by
      simp [dataBefore, found, not_lt.mpr none]
    simp only [measure, buffered, pending, here, Option.isSome_none]
    split_ifs <;> omega
  | after buffered pending missing remaining =>
    simp [measure, buffered, pending, dataBefore, missing, remaining]

/-- `encReader.Read` into a buffer of `room` bytes: the bytes copied and whether it
returned `io.EOF`. Pieces are copied while they fit; the rest of one that does not is
kept for the next call. -/
def Read (r : EncReader) (room : Nat) : (Bytes × Bool) × EncReader :=
  match _h : r.next with
  | (none, r') =>
    -- the encode buffer goes back to the pool at EOF
    (([], true), { r' with buf := none, piece := none })
  | (some piece, r') =>
    if room < piece.length then
      -- piece didn't fit, see you next time
      ((piece.take room, false), { r' with piece := some (piece.drop room) })
    else
      let ((more, eof), r'') := Read { r' with piece := none } (room - piece.length)
      ((piece ++ more, eof), r'')
termination_by r.measure
decreasing_by exact (Next.of_eq _h).decreases

/-- The pieces left to read: the rest of a piece cut by the last read, then what
`toWriter` would still write from the cursors on. -/
def pieces (r : EncReader) : List Bytes :=
  match r.buf with
  | none => []
  | some buf => r.piece.toList ++ Encbuf.writes buf.str (buf.lheads.drop r.lhpos) r.strpos

/-- The bytes left to read. -/
def rest (r : EncReader) : Bytes := r.pieces.flatten

/-- The reader's buffer, while it has one, is a buffer the writers built. -/
def Ok (r : EncReader) : Prop := ∀ buf ∈ r.buf, buf.Bounded

theorem Next.buf {r r' : EncReader} {piece : Option Bytes} (step : Next r piece r') :
    r'.buf = r.buf := by
  cases step <;> rfl

theorem Next.some_buf {r r' : EncReader} {piece : Bytes} (step : Next r (some piece) r') :
    ∃ buf, r.buf = some buf := by
  cases step with
  | pending buffered | before buffered | header buffered | after buffered => exact ⟨_, buffered⟩

theorem Next.none_pieces {r r' : EncReader} (step : Next r none r') : r.pieces = [] := by
  cases step with
  | closed buffered => simp [pieces, buffered]
  | ended buffered pending missing ended =>
    have gone : _ = [] := List.drop_eq_nil_of_le (List.getElem?_eq_none_iff.mp missing)
    simp [pieces, buffered, pending, gone, Encbuf.writes, Nat.not_lt.mpr ended]

/-- `next` pops the first of the pieces left. -/
theorem Next.some_pieces {r r' : EncReader} {piece : Bytes} (ok : r.Ok) (step : Next r (some piece) r') :
    r.pieces = piece :: { r' with piece := none }.pieces := by
  cases step with
  | pending buffered pending => simp [pieces, buffered, pending]
  | @before buf head buffered pending found before =>
    have bounded : head.offset ≤ buf.str.length := ok buf buffered head (List.mem_of_getElem? found)
    have taken : ((buf.str.drop r.strpos).take (head.offset - r.strpos)).length =
        head.offset - r.strpos := by
      simp only [List.length_take, List.length_drop]
      omega
    have atHead := List.drop_eq_getElem_cons (List.getElem?_eq_some_iff.mp found).1
    rw [(List.getElem?_eq_some_iff.mp found).2] at atHead
    simp only [pieces, buffered, pending, Option.toList_none, List.nil_append, atHead]
    rw [Encbuf.writes, if_pos (by omega)]
    dsimp only
    rw [taken, Nat.add_sub_cancel' (Nat.le_of_lt before), Encbuf.writes, if_neg (by omega)]
  | @header buf head buffered pending found none =>
    have atHead := List.drop_eq_getElem_cons (List.getElem?_eq_some_iff.mp found).1
    rw [(List.getElem?_eq_some_iff.mp found).2] at atHead
    simp only [pieces, buffered, pending, Option.toList_none, List.nil_append, atHead]
    rw [Encbuf.writes, if_neg (by omega)]
  | after buffered pending missing remaining =>
    have gone : _ = [] := List.drop_eq_nil_of_le (List.getElem?_eq_none_iff.mp missing)
    simp [pieces, buffered, pending, gone, Encbuf.writes, remaining]

theorem rest_cut {r : EncReader} {buf : Encbuf} (buffered : r.buf = some buf) (piece : Bytes) :
    { r with piece := some piece }.rest = piece ++ { r with piece := none }.rest := by
  simp [rest, pieces, buffered]

/-- A read takes a prefix of what is left: `room` bytes, or all of it with `io.EOF`. -/
theorem Read_spec (r : EncReader) (room : Nat) (ok : r.Ok) :
    (r.Read room).1 = (r.rest.take room, decide (r.rest.length ≤ room)) ∧
      (r.Read room).2.rest = r.rest.drop room ∧ (r.Read room).2.Ok := by
  induction r, room using Read.induct with
  | case1 r room r' h =>
    have empty : r.rest = [] := by simp [rest, (Next.of_eq h).none_pieces]
    rw [Read, h, empty]
    exact ⟨by simp, by simp [rest, pieces], by simp [Ok]⟩
  | case2 r room piece r' h cut =>
    -- the piece is cut: the reader keeps its rest in front of what is left
    have step := Next.of_eq h
    obtain ⟨buf, buffered⟩ := step.some_buf
    have whole : r.rest = piece ++ { r' with piece := none }.rest := by
      simp [rest, step.some_pieces ok]
    rw [Read, h]
    simp only [if_pos cut]
    refine ⟨?_, ?_, fun b member => ok b (step.buf ▸ member)⟩
    · have short : ¬(piece ++ { r' with piece := none }.rest).length ≤ room := by
        simp only [List.length_append]
        omega
      rw [whole, List.take_append_of_le_length (Nat.le_of_lt cut), decide_eq_false short]
    · rw [rest_cut (step.buf.trans buffered), whole,
        List.drop_append_of_le_length (Nat.le_of_lt cut)]
  | case3 r room piece r' h fits more eof r'' reading ih =>
    -- the piece fits: the rest of the read comes from the reader after it
    have step := Next.of_eq h
    have whole : r.rest = piece ++ { r' with piece := none }.rest := by
      simp [rest, step.some_pieces ok]
    obtain ⟨read, left, okLeft⟩ := ih (fun b member => ok b (step.buf ▸ member))
    rw [reading] at read left okLeft
    simp only [Prod.mk.injEq] at read
    rw [Read, h]
    simp only [if_neg fits, reading]
    refine ⟨?_, ?_, okLeft⟩
    · simp only [read, whole, List.take_append, List.length_append, Prod.mk.injEq,
        List.take_of_length_le (Nat.le_of_not_lt fits), decide_eq_decide, true_and]
      omega
    · rw [left, whole, List.drop_append, List.drop_of_length_le (Nat.le_of_not_lt fits),
        List.nil_append]

/-- Reading until `io.EOF`, one `Read` for each of the given buffer sizes: the bytes read,
and whether `io.EOF` came. -/
def readAll (r : EncReader) : List Nat → Bytes × Bool
  | [] => ([], false)
  | room :: rooms =>
    let ((data, eof), r') := r.Read room
    if eof then (data, true)
    else
      let (more, eof') := readAll r' rooms
      (data ++ more, eof')

/-- Whatever the buffer sizes, the reads return the bytes left in order, and `io.EOF`
comes once the buffers had room for all of them. -/
theorem readAll_spec (r : EncReader) (rooms : List Nat) (ok : r.Ok) :
    r.readAll rooms = (r.rest.take rooms.sum, decide (rooms ≠ [] ∧ r.rest.length ≤ rooms.sum)) := by
  induction rooms generalizing r with
  | nil => simp [readAll]
  | cons room rooms ih =>
    obtain ⟨read, left, okLeft⟩ := Read_spec r room ok
    rcases reading : r.Read room with ⟨⟨data, eof⟩, r'⟩
    rw [reading] at read left okLeft
    simp only [Prod.mk.injEq] at read
    obtain ⟨rfl, rfl⟩ := read
    simp only [readAll, reading]
    split
    · next drained =>
      have all : r.rest.length ≤ room := by simpa using drained
      simp only [List.sum_cons, Prod.mk.injEq, List.take_of_length_le all,
        List.take_of_length_le (Nat.le_add_right_of_le all), true_and]
      simpa using Nat.le_add_right_of_le all
    · next more =>
      have short : room < r.rest.length := by simpa using more
      rw [ih _ okLeft, left]
      simp only [List.sum_cons, List.length_drop, Prod.mk.injEq, List.take_add, true_and]
      by_cases empty : rooms = []
      · subst empty
        simp only [List.sum_nil, ne_eq, not_true_eq_false, false_and, decide_false,
          reduceCtorEq, not_false_eq_true, true_and, Nat.add_zero, false_eq_decide_iff]
        omega
      · simp only [ne_eq, empty, not_false_eq_true, true_and, reduceCtorEq, decide_eq_decide]
        omega

end EncReader

/-- `Encode` into an `io.Writer` other than an `encbuf` that accepts every write: the
writes it receives. -/
def Encode (v : Value) : Except Error (List Bytes) := do
  let w ← writer v Encbuf.empty
  pure w.toWriter

/-- `EncodeToReader`: the size of the encoding and a reader of it. -/
def EncodeToReader (v : Value) : Except Error (Nat × EncReader) := do
  let w ← writer v Encbuf.empty
  pure (w.size, ⟨some w, 0, 0, none⟩)

/-- The writes of `Encode` put together are `EncodeToBytes`, for every value, errors
included. -/
theorem Encode_flatten (v : Value) : (Encode v).map List.flatten = EncodeToBytes v := by
  simp only [Encode, EncodeToBytes, bind, Except.bind]
  split
  · rfl
  · next w written =>
    exact congrArg Except.ok (Encbuf.toWriter_flatten (Encbuf.Wf.writer v Encbuf.wf_empty written))

/-- The three outputs of the encoder are the canonical encoding: the bytes of
`EncodeToBytes`, the writes of `Encode`, and everything read from `EncodeToReader`, with
any buffer sizes, until `io.EOF`, which comes exactly when the buffers had room for the
whole encoding; the size `EncodeToReader` returns is its length. -/
theorem encoders_agree {v : Value} (encodable : v.Encodable) (small : v.toItem.Small) :
    EncodeToBytes v = .ok v.toItem.encode ∧
      (Encode v).map List.flatten = .ok v.toItem.encode ∧
      ∃ r, EncodeToReader v = .ok (v.toItem.encode.length, r) ∧
        ∀ rooms : List Nat, r.readAll rooms =
          (v.toItem.encode.take rooms.sum, decide (rooms ≠ [] ∧ v.toItem.encode.length ≤ rooms.sum)) := by
  obtain ⟨u, writes, -, bytes, size⟩ := writer_spec v encodable small
  have built : writer v Encbuf.empty = .ok u := by simpa using writes Encbuf.empty
  have wf : u.Wf := Encbuf.Wf.writer v Encbuf.wf_empty built
  have toBytes : EncodeToBytes v = .ok v.toItem.encode := by
    simp [EncodeToBytes, built, bind, Except.bind, pure, Except.pure, bytes]
  refine ⟨toBytes, Encode_flatten v ▸ toBytes, ⟨some u, 0, 0, none⟩, ?_, fun rooms => ?_⟩
  · simp [EncodeToReader, built, bind, Except.bind, pure, Except.pure, size]
  · have left : EncReader.rest ⟨some u, 0, 0, none⟩ = v.toItem.encode := by
      simp only [EncReader.rest, EncReader.pieces, Option.toList_none, List.nil_append, List.drop_zero]
      rw [← bytes, ← Encbuf.toWriter_flatten wf, Encbuf.toWriter]
    rw [EncReader.readAll_spec _ rooms (by simpa [EncReader.Ok] using wf.bounded), left]

theorem encoders_agree_struct :
    let v := Value.struct [.uint 1024, .string [0x64, 0x6F, 0x67], .bool true]
    EncodeToBytes v = .ok v.toItem.encode ∧
      (Encode v).map List.flatten = .ok v.toItem.encode ∧
      ∃ r, EncodeToReader v = .ok (v.toItem.encode.length, r) ∧
        ∀ rooms : List Nat, r.readAll rooms =
          (v.toItem.encode.take rooms.sum, decide (rooms ≠ [] ∧ v.toItem.encode.length ≤ rooms.sum)) :=
  encoders_agree (by simp [Value.Encodable, Value.EncodableAll])
    (by simp [Value.toItem, Value.toItems, Item.Small, Item.SmallAll, Item.encodeAll, Item.encode,
      Lib.beBytes, header])

end Indigo.Rlp
