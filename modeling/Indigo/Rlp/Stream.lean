import Indigo.Rlp.Value

/-!
# The decoding stream

`rlp/decode.go`'s `Stream` reads one value at a time from a byte reader. `Kind` reads the
header of the next value once and caches it until the value is consumed (Go's `kind = -1`
re-arms it); `List` pushes the size of a list on a stack, and every read inside the list
is checked against it. The reader is the `bytes.Reader` of `DecodeBytes`.

A stream operation returns a value or an error together with the new state, since Go's
methods keep what they changed before failing, or runs out of fuel:
`StreamM := ExceptT Error (StateT Stream Option)`. Only the decoders' loops spend fuel.
-/

namespace Indigo.Rlp

open Indigo.Lib

/-- `listpos`: the bytes read so far inside a list, and its size. -/
structure Listpos where
  pos : Nat
  size : Nat
deriving DecidableEq, Repr

/-- The state of a `Stream`. `kind = none` stands for Go's `-1`, no header cached. -/
structure Stream where
  /-- What the reader still holds. -/
  r : Bytes
  remaining : Nat
  limited : Bool
  kind : Option Kind
  size : Nat
  byteval : UInt8
  kinderr : Option Error
  /-- The lists being read, the innermost first. -/
  stack : List Listpos
deriving DecidableEq, Repr

/-- A stream operation. -/
abbrev StreamM := ExceptT Error (StateT Stream Option)

/-- Go's `v, err := f()`: run `x` and hand its error back as a value. -/
def StreamM.result {α : Type} (x : StreamM α) : StreamM (Except Error α) :=
  ExceptT.mk (Except.ok <$> x.run)

/-- Running out of fuel: a loop that has not ended within the rounds the model allows. -/
def StreamM.outOfFuel {α : Type} : StreamM α := ExceptT.lift (StateT.lift none)

section Run

variable {α β : Type}

/-- Running an operation on a state. -/
def StreamM.go (x : StreamM α) (s : Stream) : Option (Except Error α × Stream) := x.run.run s

@[simp] theorem go_pure (a : α) (s : Stream) : StreamM.go (pure a) s = some (.ok a, s) := rfl

@[simp] theorem go_throw (e : Error) (s : Stream) :
    StreamM.go (throw e : StreamM α) s = some (.error e, s) := rfl

@[simp] theorem go_get (s : Stream) : StreamM.go get s = some (.ok s, s) := rfl

@[simp] theorem go_set (t s : Stream) : StreamM.go (set t) s = some (.ok (), t) := rfl

@[simp] theorem go_modify (f : Stream → Stream) (s : Stream) :
    StreamM.go (modify f) s = some (.ok (), f s) := rfl

@[simp] theorem go_outOfFuel (s : Stream) : StreamM.go (StreamM.outOfFuel : StreamM α) s = none := rfl

theorem go_bind (x : StreamM α) (f : α → StreamM β) (s : Stream) :
    StreamM.go (x >>= f) s = match StreamM.go x s with
      | none => none
      | some (.error e, s') => some (.error e, s')
      | some (.ok a, s') => StreamM.go (f a) s' := by
  unfold StreamM.go
  rcases h : x.run.run s with _ | ⟨_ | a, s'⟩
  all_goals simp [ExceptT.run_bind, StateT.run_bind, h, Option.bind]

theorem go_map (f : α → β) (x : StreamM α) (s : Stream) :
    StreamM.go (f <$> x) s = (StreamM.go x s).map fun (r, s') => (r.map f, s') := by
  unfold StreamM.go
  rcases h : x.run.run s with _ | ⟨_ | a, s'⟩
  all_goals simp [ExceptT.run_map, h]

theorem go_result (x : StreamM α) (s : Stream) :
    StreamM.go (StreamM.result x) s = (StreamM.go x s).map fun (r, s') => (.ok r, s') := by
  simp only [StreamM.go, StreamM.result, ExceptT.run_mk, StateT.run_map]
  rfl

end Run

/-- `NewStream` on a `bytes.Reader` over `b`: without an explicit limit, the limit is the
length of the reader's data. -/
def NewStream (b : Bytes) (inputLimit : Nat) : Stream :=
  { r := b, remaining := if inputLimit > 0 then inputLimit else b.length, limited := true,
    kind := none, size := 0, byteval := 0, kinderr := none, stack := [] }

@[simp] theorem r_NewStream (b : Bytes) (limit : Nat) : (NewStream b limit).r = b := rfl

namespace Stream

/-- `willRead`: account for `n` bytes about to be read. -/
def willRead (n : Nat) : StreamM Unit := do
  -- rearm Kind
  modify fun s => { s with kind := none }
  let s ← get
  match s.stack with
  | tos :: outer =>
    -- check list overflow
    if n > tos.size - tos.pos then throw .ErrElemTooLarge
    set { s with stack := { tos with pos := tos.pos + n } :: outer }
  | [] => pure ()
  let s ← get
  if s.limited then
    if n > s.remaining then throw .ErrValueTooLarge
    set { s with remaining := s.remaining - n }

/-- `readByte`. -/
def readByte : StreamM UInt8 := do
  willRead 1
  let s ← get
  match s.r with
  -- the reader's `io.EOF` becomes `io.ErrUnexpectedEOF`
  | [] => throw .ErrUnexpectedEOF
  | b :: rest =>
    set { s with r := rest }
    pure b

/-- `readFull`: the next `n` bytes. -/
def readFull (n : Nat) : StreamM Bytes := do
  willRead n
  let s ← get
  set { s with r := s.r.drop n }
  -- a reader that runs dry first ends in `io.ErrUnexpectedEOF`
  if s.r.length < n then throw .ErrUnexpectedEOF
  pure (s.r.take n)

/-- `readUint`: a big-endian integer of `size` bytes, at most eight. -/
def readUint (size : Nat) : StreamM Nat := do
  match size with
  | 0 =>
    -- rearm Kind
    modify fun s => { s with kind := none }
    pure 0
  | 1 =>
    let b ← readByte
    pure b.toNat
  | size =>
    let buf ← readFull size
    if buf.head? = some 0 then throw .ErrCanonSize
    pure (beValue buf)

/-- `Stream.readKind`: the kind and size of the next value from its header, with the
error that `Kind` keeps. -/
def readKind : StreamM (Rlp.Kind × Nat × Option Error) := do
  match ← StreamM.result readByte with
  | .error err =>
    let s ← get
    -- at toplevel, running out of input is `io.EOF`, by which callers stop decoding
    let err :=
      if s.stack.isEmpty ∧ (err = .ErrUnexpectedEOF ∨ err = .ErrValueTooLarge) then .EOF else err
    pure (.Byte, 0, some err)
  | .ok b =>
    modify fun s => { s with byteval := 0 }
    if b < 0x80 then
      -- a single byte in [0x00, 0x7F] is its own encoding
      modify fun s => { s with byteval := b }
      pure (.Byte, 0, none)
    else if b < 0xB8 then pure (.String, (b - 0x80).toNat, none)
    else if b < 0xC0 then
      match ← StreamM.result (readUint (b - 0xB7).toNat) with
      | .ok size => pure (.String, size, if size < 56 then some .ErrCanonSize else none)
      | .error err => pure (.String, 0, some err)
    else if b < 0xF8 then pure (.List, (b - 0xC0).toNat, none)
    else
      match ← StreamM.result (readUint (b - 0xF7).toNat) with
      | .ok size => pure (.List, size, if size < 56 then some .ErrCanonSize else none)
      | .error err => pure (.List, 0, some err)

/-- `Stream.Kind`: the kind and size of the next value. The header is read by the first
call only; later calls return what it cached, its error included. -/
def Kind : StreamM (Rlp.Kind × Nat) := do
  let s ← get
  match s.kind with
  | some kind =>
    match s.kinderr with
    | some err => throw err
    | none => pure (kind, s.size)
  | none =>
    set { s with kinderr := none }
    -- don't read further if we're at the end of the innermost list
    if let some tos := s.stack.head? then
      if tos.pos = tos.size then throw .EOL
    let (kind, size, err) ← readKind
    -- `readKind` has moved the position of the innermost list past the header
    let s ← get
    let err := match err with
      | some err => some err
      | none => match s.stack.head? with
        -- at toplevel, the value must fit in the remaining input
        | none => if s.limited ∧ size > s.remaining then some .ErrValueTooLarge else none
        -- inside a list, it must not overflow the list
        | some tos => if size > tos.size - tos.pos then some .ErrElemTooLarge else none
    set { s with kind := some kind, size := size, kinderr := err }
    match err with
    | some err => throw err
    | none => pure (kind, size)

theorem go_Kind_cached {s : Stream} {kind : Rlp.Kind} (cached : s.kind = some kind)
    (noError : s.kinderr = none) : Kind.go s = some (.ok (kind, s.size), s) := by
  simp [Kind, go_bind, cached, noError]

/-- `Stream.uint`: an integer of at most `maxbits` bits. -/
def uint (maxbits : Nat) : StreamM Nat := do
  let (kind, size) ← Kind
  match kind with
  | .Byte =>
    let s ← get
    if s.byteval = 0 then throw .ErrCanonInt
    -- rearm Kind
    set { s with kind := none }
    pure s.byteval.toNat
  | .String =>
    if size > maxbits / 8 then throw .errUintOverflow
    match ← StreamM.result (readUint size) with
    -- no size is read here: a leading zero makes a non-canonical integer
    | .error .ErrCanonSize => throw .ErrCanonInt
    | .error err => throw err
    | .ok v => if size > 0 ∧ v < 128 then throw .ErrCanonSize else pure v
  | .List => throw .ErrExpectedString

/-- A cached header of the byte `0x00` is a non-canonical integer, and `uint` leaves the
stream as it was: `Kind` stays armed. -/
theorem go_uint_cached_zero {s : Stream} (cached : s.kind = some .Byte) (noError : s.kinderr = none)
    (zero : s.byteval = 0) (maxbits : Nat) :
    (uint maxbits).go s = some (.error .ErrCanonInt, s) := by
  simp [uint, go_bind, go_Kind_cached cached noError, zero]

/-- `Stream.Uint`. -/
def Uint : StreamM Nat := uint 64

/-- `Stream.Bytes`: the content of a string. -/
def Bytes : StreamM (List UInt8) := do
  let (kind, size) ← Kind
  match kind with
  | .Byte =>
    let s ← get
    -- rearm Kind
    set { s with kind := none }
    pure [s.byteval]
  | .String =>
    let b ← readFull size
    if size = 1 ∧ b.head?.any (fun c => decide (c < 128)) then throw .ErrCanonSize
    pure b
  | .List => throw .ErrExpectedString

/-- `Stream.Raw`: the next value with its header. `Kind` has consumed the original header,
so a new one is put in front of the content read. -/
def Raw : StreamM (List UInt8) := do
  let (kind, size) ← Kind
  if kind = .Byte then
    let s ← get
    -- rearm Kind
    set { s with kind := none }
    return [s.byteval]
  let content ← readFull size
  if kind = .String then return puthead 0x80 0xB7 size ++ content
  else return puthead 0xC0 0xF7 size ++ content

/-- `Stream.List`: enter a list, returning its size. -/
def List : StreamM Nat := do
  let (kind, size) ← Kind
  if kind ≠ .List then throw .ErrExpectedList
  modify fun s => { s with stack := ⟨0, size⟩ :: s.stack, kind := none, size := 0 }
  pure size

/-- `Stream.ListEnd`: leave a list whose content has been read. -/
def ListEnd : StreamM Unit := do
  let s ← get
  match s.stack with
  | [] => throw .errNotInList
  | tos :: outer =>
    if tos.pos ≠ tos.size then throw .errNotAtEOL
    -- pop, and count the list's content in the enclosing list
    let outer := match outer with
      | [] => []
      | up :: rest => { up with pos := up.pos + tos.size } :: rest
    set { s with stack := outer, kind := none, size := 0 }

/-- `Stream.Bool`. -/
def Bool : StreamM Bool := do
  let num ← uint 8
  match num with
  | 0 => pure false
  | 1 => pure true
  | num => throw (.message s!"rlp: invalid boolean value: {num}")

end Stream

end Indigo.Rlp
