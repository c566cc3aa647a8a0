import Indigo.Common.Types

/-!
# Trie keys

`trie/encoding.go` handles a key in three encodings. KEYBYTES is the key itself. HEX has
one nibble per half byte and a trailing terminator `16` on keys that lead to a value; it is
the form of the keys of nodes in memory. COMPACT (the Yellow Paper's hex-prefix encoding)
packs the nibbles two to a byte behind a flag byte that records the terminator and whether
the number of nibbles is odd; it is the form of the keys of stored nodes.

## Main results

- `compactToHex_hexToCompact`: `compactToHex` undoes `hexToCompact` on every well-formed
  hex key.
- `hexToKeybytes_keybytesToHex`: `hexToKeybytes` undoes `keybytesToHex`.
- `prefixLen_spec`: `prefixLen` is the length of the longest common prefix.
-/

namespace Indigo.Trie

/-- A nibble of a hex key: a digit from 0 to 15, or the terminator 16. -/
abbrev Nibble := Fin 17

/-- Seventeen is not zero: the one instance behind every literal and `Fin.ofNat` of a nibble. -/
instance nibbleNeZero : NeZero (17 : Nat) := ⟨by decide⟩

/-- The nibble `16` that ends a key leading to a value. -/
def terminator : Nibble := 16

/-- The two nibbles of a byte, high first: `b / 16` and `b % 16`. -/
def byteNibbles (b : UInt8) : List Nibble :=
  [Fin.ofNat 17 (b / 16).toNat, Fin.ofNat 17 (b % 16).toNat]

/-- `keybytesToHex`. -/
def keybytesToHex (str : Bytes) : List Nibble := str.flatMap byteNibbles ++ [terminator]

/-- `hasTerm`: whether a hex key ends in the terminator. -/
def hasTerm (s : List Nibble) : Bool := s.getLast? = some terminator

/-- Two nibbles in one byte: `hi<<4 | lo`. -/
def pack (hi lo : Nibble) : UInt8 := hi.val.toUInt8 <<< 4 ||| lo.val.toUInt8

/-- `decodeNibbles`: every two nibbles make a byte. Callers pass an even number. -/
def decodeNibbles : List Nibble → Bytes
  | hi :: lo :: rest => pack hi lo :: decodeNibbles rest
  | _ => []

/-- `hexToCompact`. -/
def hexToCompact (hex : List Nibble) : Bytes :=
  let term := hasTerm hex
  let hex := if term then hex.dropLast else hex
  -- the flag byte: bit 5 for the terminator, bit 4 for an odd number of nibbles
  let flag : UInt8 := if term then (1 : UInt8) <<< 5 else 0
  match hex with
  | first :: rest =>
    -- an odd first nibble is contained in the flag byte
    if hex.length % 2 = 1 then (flag ||| (1 : UInt8) <<< 4 ||| first.val.toUInt8) :: decodeNibbles rest
    else flag :: decodeNibbles hex
  | [] => [flag]

/-- `compactToHex`; `none` where Go indexes an empty slice and panics. -/
def compactToHex (compact : Bytes) : Option (List Nibble) :=
  let base := (keybytesToHex compact).dropLast
  match base with
  | [] => none
  | b0 :: _ =>
    -- apply terminator flag
    let base := if b0.val ≥ 2 then base ++ [terminator] else base
    -- apply odd flag
    let chop := 2 - b0.val % 2
    some (base.drop chop)

/-- `hexToKeybytes`; `none` where Go panics on a key of odd length. -/
def hexToKeybytes (hex : List Nibble) : Option Bytes :=
  let hex := if hasTerm hex then hex.dropLast else hex
  if hex.length % 2 ≠ 0 then none else some (decodeNibbles hex)

/-- `prefixLen`: the length of the common prefix of `a` and `b`. -/
def prefixLen : List Nibble → List Nibble → Nat
  | x :: xs, y :: ys => if x = y then prefixLen xs ys + 1 else 0
  | _, _ => 0

/-! ### Well-formed hex keys -/

/-- A nibble below 16. -/
def IsDigit (n : Nibble) : Prop := n.val < 16

instance (n : Nibble) : Decidable (IsDigit n) := inferInstanceAs (Decidable (n.val < 16))

/-- Digits, then at most one terminator at the end. -/
def Hex (k : List Nibble) : Prop :=
  ∃ digits : List Nibble, (∀ n ∈ digits, IsDigit n) ∧ (k = digits ∨ k = digits ++ [terminator])

set_option maxRecDepth 20000 in
/-- Packing two digits in a byte and splitting the byte again gives them back. -/
theorem byteNibbles_pack {hi lo : Nibble} (hiDigit : IsDigit hi) (loDigit : IsDigit lo) :
    byteNibbles (pack hi lo) = [hi, lo] := by
  obtain ⟨h, hiLt⟩ := hi
  obtain ⟨l, loLt⟩ := lo
  simp only [IsDigit] at hiDigit loDigit
  -- 256 cases of byte arithmetic
  have table : ∀ h l : Fin 16, byteNibbles (pack (Fin.ofNat 17 h.val) (Fin.ofNat 17 l.val)) =
      [Fin.ofNat 17 h.val, Fin.ofNat 17 l.val] := by decide
  have := table ⟨h, hiDigit⟩ ⟨l, loDigit⟩
  simpa [Fin.ofNat, Nat.mod_eq_of_lt hiLt, Nat.mod_eq_of_lt loLt] using this

set_option maxRecDepth 20000 in
theorem byteNibbles_digits (b : UInt8) : ∀ n ∈ byteNibbles b, IsDigit n := by
  have table : ∀ b : Fin 256, ∀ n ∈ byteNibbles b.val.toUInt8, IsDigit n := by decide
  simpa using table ⟨b.toNat, b.toNat_lt⟩

set_option maxRecDepth 20000 in
theorem decodeNibbles_byteNibbles (b : UInt8) :
    decodeNibbles (byteNibbles b) = [b] := by
  have table : ∀ b : Fin 256, decodeNibbles (byteNibbles b.val.toUInt8) = [b.val.toUInt8] := by
    decide
  simpa using table ⟨b.toNat, b.toNat_lt⟩

theorem decodeNibbles_append_byteNibbles (b : UInt8) (rest : List Nibble) :
    decodeNibbles (byteNibbles b ++ rest) = b :: decodeNibbles rest := by
  have single := decodeNibbles_byteNibbles b
  simp only [byteNibbles, decodeNibbles, List.cons.injEq, and_true] at single
  simp only [byteNibbles, List.cons_append, List.nil_append, decodeNibbles, single]

theorem decodeNibbles_flatMap (k : Bytes) : decodeNibbles (k.flatMap byteNibbles) = k := by
  induction k with
  | nil => rfl
  | cons b rest ih => rw [List.flatMap_cons, decodeNibbles_append_byteNibbles, ih]

theorem flatMap_decodeNibbles : (p : List Nibble) → (∀ n ∈ p, IsDigit n) → p.length % 2 = 0 →
    (decodeNibbles p).flatMap byteNibbles = p
  | [], _, _ => rfl
  | [_], _, odd => absurd odd (by simp)
  | hi :: lo :: rest, digits, even => by
    have restDigits : ∀ n ∈ rest, IsDigit n := fun n member => digits n (by simp [member])
    have restEven : rest.length % 2 = 0 := by simp at even; omega
    rw [decodeNibbles, List.flatMap_cons,
      byteNibbles_pack (digits hi (by simp)) (digits lo (by simp)),
      flatMap_decodeNibbles rest restDigits restEven]
    rfl

theorem digits_flatMap_byteNibbles (k : Bytes) : ∀ n ∈ k.flatMap byteNibbles, IsDigit n := by
  intro n member
  obtain ⟨b, -, inByte⟩ := List.mem_flatMap.mp member
  exact byteNibbles_digits b n inByte

theorem length_flatMap_byteNibbles (k : Bytes) : (k.flatMap byteNibbles).length = 2 * k.length := by
  induction k with
  | nil => rfl
  | cons b rest ih =>
    simp only [List.flatMap_cons, List.length_append, ih, byteNibbles, List.length_cons,
      List.length_nil]
    omega

theorem hasTerm_of_digits {p : List Nibble} (digits : ∀ n ∈ p, IsDigit n) : hasTerm p = false := by
  cases last : p.getLast? with
  | none => simp [hasTerm, last]
  | some n =>
    have isDigit := digits n (List.mem_of_getLast? last)
    have notTerm : n ≠ terminator := fun same => by
      simp [same, IsDigit, terminator] at isDigit
    simp [hasTerm, last, notTerm]

@[simp] theorem hasTerm_append_terminator (p : List Nibble) : hasTerm (p ++ [terminator]) = true := by
  simp [hasTerm]

theorem keybytesToHex_hex (k : Bytes) : Hex (keybytesToHex k) :=
  ⟨k.flatMap byteNibbles, digits_flatMap_byteNibbles k, .inr rfl⟩

/-- Keys decode back from their hex form. -/
theorem hexToKeybytes_keybytesToHex (k : Bytes) : hexToKeybytes (keybytesToHex k) = some k := by
  have even : ¬(k.flatMap byteNibbles).length % 2 ≠ 0 := by
    rw [length_flatMap_byteNibbles]
    omega
  simp only [hexToKeybytes, keybytesToHex, hasTerm_append_terminator, if_true,
    List.dropLast_concat]
  rw [if_neg even, decodeNibbles_flatMap]

/-! ### Compact encoding -/

/-- The high nibble of the flag byte: 2 for the terminator, 1 for an odd length. -/
def flagNibble (term odd : Bool) : Nibble := (if term then 2 else 0) + (if odd then 1 else 0)

theorem flagNibble_digit (term odd : Bool) : IsDigit (flagNibble term odd) := by
  cases term <;> cases odd <;> decide

set_option maxRecDepth 20000 in
theorem flag_eq_pack (term : Bool) (first : Nibble) (digit : IsDigit first) :
    ((if term then (1 : UInt8) <<< 5 else 0) ||| (1 : UInt8) <<< 4 ||| first.val.toUInt8) =
      pack (flagNibble term true) first ∧
    (if term then (1 : UInt8) <<< 5 else 0) = pack (flagNibble term false) 0 := by
  obtain ⟨f, lt⟩ := first
  simp only [IsDigit] at digit
  have table : ∀ (term : Bool) (f : Fin 16),
      ((if term then (1 : UInt8) <<< 5 else 0) ||| (1 : UInt8) <<< 4 ||| (Fin.ofNat 17 f.val).val.toUInt8) =
        pack (flagNibble term true) (Fin.ofNat 17 f.val) ∧
      (if term then (1 : UInt8) <<< 5 else 0) = pack (flagNibble term false) 0 := by decide
  simpa [Fin.ofNat, Nat.mod_eq_of_lt lt] using table term ⟨f, digit⟩

/-- The tail a hex key gets for the terminator. -/
def termTail (term : Bool) : List Nibble := if term then [terminator] else []

theorem hex_iff {k : List Nibble} :
    Hex k ↔ ∃ digits term, (∀ n ∈ digits, IsDigit n) ∧ k = digits ++ termTail term := by
  constructor
  · rintro ⟨digits, isDigits, same | same⟩
    · exact ⟨digits, false, isDigits, by simp [same, termTail]⟩
    · exact ⟨digits, true, isDigits, by simp [same, termTail]⟩
  · rintro ⟨digits, term, isDigits, rfl⟩
    cases term
    · exact ⟨digits, isDigits, .inl (by simp [termTail])⟩
    · exact ⟨digits, isDigits, .inr (by simp [termTail])⟩

theorem hexToCompact_even {digits : List Nibble} (isDigits : ∀ n ∈ digits, IsDigit n)
    (even : digits.length % 2 = 0) (term : Bool) :
    hexToCompact (digits ++ termTail term) = pack (flagNibble term false) 0 :: decodeNibbles digits := by
  have strip : (if term then (digits ++ termTail term).dropLast else digits ++ termTail term) =
      digits := by
    cases term <;> simp [termTail]
  have flag := (flag_eq_pack term 0 (by decide)).2
  have termFlag : hasTerm (digits ++ termTail term) = term := by
    cases term <;> simp [termTail, hasTerm_of_digits isDigits]
  unfold hexToCompact
  simp only [termFlag, strip]
  cases digits with
  | nil => rw [flag]; rfl
  | cons first rest =>
    simp only at even ⊢
    rw [if_neg (by simp at even ⊢; omega), flag]

theorem hexToCompact_odd {first : Nibble} {rest : List Nibble}
    (isDigits : ∀ n ∈ first :: rest, IsDigit n) (even : rest.length % 2 = 0) (term : Bool) :
    hexToCompact (first :: rest ++ termTail term) =
      pack (flagNibble term true) first :: decodeNibbles rest := by
  have strip : (if term then (first :: rest ++ termTail term).dropLast
      else first :: rest ++ termTail term) = first :: rest := by
    cases term
    · exact List.append_nil _
    · exact List.dropLast_concat
  have termFlag : hasTerm (first :: rest ++ termTail term) = term := by
    cases term
    · simp only [termTail, Bool.false_eq_true, if_false, List.append_nil]
      exact hasTerm_of_digits isDigits
    · exact hasTerm_append_terminator _
  have flag := (flag_eq_pack term first (isDigits first (by simp))).1
  unfold hexToCompact
  simp only [termFlag, strip]
  rw [if_pos (by simp; omega), flag]

theorem compactToHex_pack {hi lo : Nibble} (hiDigit : IsDigit hi) (loDigit : IsDigit lo)
    (rest : Bytes) :
    compactToHex (pack hi lo :: rest) =
      some (((hi :: lo :: rest.flatMap byteNibbles) ++
        (if hi.val ≥ 2 then [terminator] else [])).drop (2 - hi.val % 2)) := by
  have dropped : (keybytesToHex (pack hi lo :: rest)).dropLast = hi :: lo :: rest.flatMap byteNibbles := by
    rw [keybytesToHex, List.dropLast_concat, List.flatMap_cons, byteNibbles_pack hiDigit loDigit]
    rfl
  unfold compactToHex
  simp only [dropped]
  split_ifs <;> simp

/-- Compact encoding is undone by `compactToHex` on every well-formed hex key. -/
theorem compactToHex_hexToCompact {k : List Nibble} (hex : Hex k) :
    compactToHex (hexToCompact k) = some k := by
  obtain ⟨digits, term, isDigits, rfl⟩ := hex_iff.mp hex
  rcases Nat.mod_two_eq_zero_or_one digits.length with even | odd
  · -- an even key: the flag byte carries no nibble of the key
    rw [hexToCompact_even isDigits even term,
      compactToHex_pack (flagNibble_digit term false) (by decide),
      flatMap_decodeNibbles digits isDigits even]
    cases term <;> simp [flagNibble, termTail, terminator]
  · -- an odd key: its first nibble is the low half of the flag byte
    obtain ⟨first, rest, rfl⟩ : ∃ first rest, digits = first :: rest := by
      cases digits with
      | nil => simp at odd
      | cons first rest => exact ⟨first, rest, rfl⟩
    have restDigits : ∀ n ∈ rest, IsDigit n := fun n member => isDigits n (by simp [member])
    have restEven : rest.length % 2 = 0 := by simp at odd; omega
    rw [List.cons_append, ← List.cons_append, hexToCompact_odd isDigits restEven term,
      compactToHex_pack (flagNibble_digit term true) (isDigits first (by simp)),
      flatMap_decodeNibbles rest restDigits restEven]
    cases term <;> simp [flagNibble, termTail, terminator]

/-! ### Common prefixes -/

/-- `prefixLen` splits two keys into their longest common prefix and two rests that do not
start with the same nibble. -/
theorem prefixLen_spec (a b : List Nibble) :
    ∃ common restA restB, a = common ++ restA ∧ b = common ++ restB ∧
      prefixLen a b = common.length ∧ ∀ x y, restA.head? = some x → restB.head? = some y → x ≠ y := by
  induction a generalizing b with
  | nil => exact ⟨[], [], b, rfl, rfl, by simp [prefixLen], by simp⟩
  | cons x xs ih =>
    cases b with
    | nil => exact ⟨[], x :: xs, [], rfl, rfl, by simp [prefixLen], by simp⟩
    | cons y ys =>
      by_cases same : x = y
      · -- the first nibbles agree: the common prefix grows by one
        obtain ⟨common, restA, restB, shapeA, shapeB, length, differ⟩ := ih ys
        subst same
        exact ⟨x :: common, restA, restB, by simp [shapeA], by simp [shapeB],
          by simp [prefixLen, length], differ⟩
      · exact ⟨[], x :: xs, y :: ys, rfl, rfl, by simp [prefixLen, same], by simpa using same⟩

end Indigo.Trie
