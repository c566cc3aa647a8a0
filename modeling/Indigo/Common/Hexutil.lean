import Indigo.Evm.Common
import Indigo.Lib.Except
import Indigo.Lib.Radix

/-!
# Hex quantities

The `hexutil` package reads and writes numbers as JSON quantities: `0x` or `0X`, then hex
digits with no leading zero. `DecodeBig` and `Big.UnmarshalText` assemble a `big.Int` by hand,
cutting the digits into words of `bigWordNibbles` nibbles from the right; `DecodeUint64` goes
through `strconv.ParseUint`, `Uint64.UnmarshalText` through its own loop. The writers print the
lower-case digits of the number behind `0x`.

Strings are Go byte strings, lists of bytes. `bigWordNibbles` is 16 or 8 by the size of
`big.Word` (`init`); a word is a number modulo `16 ^ bigWordNibbles` and `setBits` reads the
words least significant first. `strconv.ParseUint(raw, 16, 64)` is the loop of the standard
library for base 16 and 64 bits.

## Main results

- `DecodeBig_eq_ok`: `DecodeBig` succeeds exactly on the quantities of at most 64 digits, with
  the number their digits denote, on either word size.
- `EncodeBig_hexValue`: printing that number gives the quantity back in lower case.
- `DecodeBig_EncodeBig`, `UnmarshalText_MarshalText`, `DecodeUint64_EncodeUint64` and
  `Uint64.UnmarshalText_MarshalText`: the four round trips.

## Proof strategy

Everything goes through `hexValue`, the value of the digits as `digitsValue 16` of their
nibbles. The word loop takes the words right to left, and the value of the digits up to the
end of a word is the value up to its start shifted by one word, plus the word
(`decodeWords_ok`); a word never wraps since it has at most `bigWordNibbles` digits
(`foldl_horner_mod`). The printers write `Nat.digits 16` from the top, which reads back by
`digitsValue_digits`, and digits with no leading zero print as themselves by
`digits_digitsValue`.
-/

namespace Indigo.Hexutil

open Indigo.Evm (BitLen)

/-- The errors of the modelled readers (`decError`); `invalid` is `ErrSyntax`. -/
inductive DecError
  | emptyString
  | invalid
  | missingPrefix
  | emptyNumber
  | leadingZero
  | uint64Range
  | big256Range
deriving DecidableEq, Repr

/-! ### The prefix and the digits -/

/-- `has0xPrefix`: `0x` or `0X` in front. -/
def has0xPrefix : Bytes → Bool
  | c0 :: c1 :: _ => c0 == 0x30 && (c1 == 0x78 || c1 == 0x58)
  | _ => false

/-- `bytesHave0xPrefix`, the same test on a byte slice. -/
def bytesHave0xPrefix (input : Bytes) : Bool := has0xPrefix input

/-- `checkNumber`: the digits behind the prefix, of which there must be some, with no leading
zero. -/
def checkNumber (input : Bytes) : Except DecError Bytes :=
  if input.length = 0 then .error .emptyString
  else if !has0xPrefix input then .error .missingPrefix
  else
    let input := input.drop 2
    if input.length = 0 then .error .emptyNumber
    else if input.length > 1 ∧ input.head? = some 0x30 then .error .leadingZero
    else .ok input

/-- `checkNumberText`: `checkNumber`, except that the empty text is allowed and has no digits. -/
def checkNumberText (input : Bytes) : Except DecError Bytes :=
  if input.length = 0 then .ok []
  else if !bytesHave0xPrefix input then .error .missingPrefix
  else
    let input := input.drop 2
    if input.length = 0 then .error .emptyNumber
    else if input.length > 1 ∧ input.head? = some 0x30 then .error .leadingZero
    else .ok input

/-- `badNibble`, `^uint64(0)`. -/
def badNibble : UInt64 := 0xFFFFFFFFFFFFFFFF

/-- `decodeNibble`: the value of a hex digit of either case, `badNibble` for any other byte. -/
def decodeNibble (c : UInt8) : UInt64 :=
  if c ≥ 0x30 ∧ c ≤ 0x39 then (c - 0x30).toUInt64
  else if c ≥ 0x41 ∧ c ≤ 0x46 then (c - 0x41 + 10).toUInt64
  else if c ≥ 0x61 ∧ c ≤ 0x66 then (c - 0x61 + 10).toUInt64
  else badNibble

/-- The inner loop of `DecodeBig`, `Big.UnmarshalText` and `Uint64.UnmarshalText`: each digit
is decoded, a bad one fails with `ErrSyntax`, and the word takes it in by `w *= 16; w += nib`,
wrapping at the word's modulus `M`. -/
def readNibbles (M : Nat) (w : Nat) : Bytes → Except DecError Nat
  | [] => .ok w
  | c :: cs =>
    let nib := decodeNibble c
    if nib = badNibble then .error .invalid
    else readNibbles M ((w * 16 + nib.toNat) % M) cs

/-! ### `big.Int` from words -/

/-- The two sizes of `big.Word` that `init` accepts. -/
inductive WordSize
  | bits32
  | bits64
deriving DecidableEq, Repr

/-- `bigWordNibbles`: 16 when `0xFFFFFFFFFF` fits one word, 8 when it takes two. -/
def WordSize.bigWordNibbles : WordSize → Nat
  | .bits32 => 8
  | .bits64 => 16

/-- The loop over `words` of `DecodeBig`, with `n` words left and the digits up to `stop` not
yet read: word `i` holds the digits `raw[start:end]`, `start = max(end - bigWordNibbles, 0)`. -/
def decodeWords (W : Nat) (raw : Bytes) : Nat → Nat → Except DecError (List Nat)
  | 0, _ => .ok []
  | n + 1, stop => do
    -- `stop - W` is cut at zero, the `if start < 0 { start = 0 }` of the source
    let start := stop - W
    let w ← readNibbles (16 ^ W) 0 ((raw.take stop).drop start)
    let ws ← decodeWords W raw n start
    pure (w :: ws)

/-- `big.Int.SetBits`: the words, least significant first, in base `2 ^ (4 * W)`. -/
def setBits (W : Nat) (words : List Nat) : Nat := Nat.ofDigits (16 ^ W) words

/-- The body shared by `DecodeBig` and `Big.UnmarshalText`, after the check of the text. -/
def decodeBigWith (check : Bytes → Except DecError Bytes) (ws : WordSize) (input : Bytes) :
    Except DecError Nat := do
  let raw ← check input
  if raw.length > 64 then throw .big256Range
  let words ← decodeWords ws.bigWordNibbles raw (raw.length / ws.bigWordNibbles + 1) raw.length
  pure (setBits ws.bigWordNibbles words)

/-- `DecodeBig`. -/
def DecodeBig (ws : WordSize) (input : Bytes) : Except DecError Nat :=
  decodeBigWith checkNumber ws input

/-- `Big.UnmarshalText`: the value it stores. -/
def Big.UnmarshalText (ws : WordSize) (input : Bytes) : Except DecError Nat :=
  decodeBigWith checkNumberText ws input

/-- `Uint64.UnmarshalText`: the value it stores. -/
def Uint64.UnmarshalText (input : Bytes) : Except DecError UInt64 := do
  let raw ← checkNumberText input
  if raw.length > 16 then throw .uint64Range
  let dec ← readNibbles (2 ^ 64) 0 raw
  pure dec.toUInt64

/-! ### `strconv.ParseUint` in base 16 -/

/-- The errors of `strconv.ParseUint`: `invalid` is `ErrSyntax`, `range` is `ErrRange`. -/
inductive NumError
  | invalid
  | range
deriving DecidableEq, Repr

/-- `lower(c)` of strconv: `c | ('x' - 'X')`. -/
def lower (c : UInt8) : UInt8 := c ||| 0x20

/-- The digit switch of `ParseUint`: a decimal digit, or a letter counted from `a = 10`. -/
def parseUintDigit (c : UInt8) : Option Nat :=
  if 0x30 ≤ c ∧ c ≤ 0x39 then some (c - 0x30).toNat
  else if 0x61 ≤ lower c ∧ lower c ≤ 0x7a then some (lower c - 0x61 + 10).toNat
  else none

/-- The digit loop of `ParseUint(s, 16, 64)`, in `uint64` arithmetic. -/
def parseUintLoop (n : Nat) : Bytes → Except NumError Nat
  | [] => .ok n
  | c :: cs =>
    match parseUintDigit c with
    | none => .error .invalid
    | some d =>
      if d ≥ 16 then .error .invalid
      -- `cutoff = maxUint64/16 + 1`
      else if n ≥ (2 ^ 64 - 1) / 16 + 1 then .error .range
      else
        let n := n * 16 % 2 ^ 64
        let n1 := (n + d) % 2 ^ 64
        if n1 < n ∨ n1 > 2 ^ 64 - 1 then .error .range
        else parseUintLoop n1 cs

/-- `strconv.ParseUint(s, 16, 64)`. -/
def ParseUint (s : Bytes) : Except NumError UInt64 :=
  if s = [] then .error .invalid else (parseUintLoop 0 s).map Nat.toUInt64

/-- `mapError` on the errors of `ParseUint`. -/
def mapError : NumError → DecError
  | .range => .uint64Range
  | .invalid => .invalid

/-- `DecodeUint64`. -/
def DecodeUint64 (input : Bytes) : Except DecError UInt64 := do
  let raw ← checkNumber input
  (ParseUint raw).mapError mapError

/-! ### The writers -/

/-- The digit `d < 16` of strconv's table, in lower case. -/
def hexDigit (d : Nat) : UInt8 := if d < 10 then (0x30 + d).toUInt8 else (0x61 + d - 10).toUInt8

/-- `strconv.AppendUint(nil, x, 16)`: the digits of `x` from the top, `0` for zero. -/
def formatHex (x : Nat) : Bytes := if x = 0 then [0x30] else (Nat.digits 16 x).reverse.map hexDigit

/-- `"0x"`. -/
def hexPrefix : Bytes := [0x30, 0x78]

/-- `EncodeUint64`. -/
def EncodeUint64 (i : UInt64) : Bytes := hexPrefix ++ formatHex i.toNat

/-- `Uint64.MarshalText`. -/
def Uint64.MarshalText (b : UInt64) : Bytes := hexPrefix ++ formatHex b.toNat

/-- `EncodeBig`: `0x0` for zero, else `%#x`, which writes the sign, `0x` and the digits of the
absolute value. -/
def EncodeBig (bigint : Int) : Bytes :=
  if BitLen bigint = 0 then hexPrefix ++ [0x30]
  else (if bigint < 0 then [0x2d] else []) ++ hexPrefix ++ formatHex bigint.natAbs

/-- `Big.MarshalText`. -/
def Big.MarshalText (b : Int) : Bytes := EncodeBig b

/-! ### What the readers accept -/

/-- A hex digit of either case. -/
def IsHexDigit (c : UInt8) : Prop :=
  (0x30 ≤ c ∧ c ≤ 0x39) ∨ (0x41 ≤ c ∧ c ≤ 0x46) ∨ (0x61 ≤ c ∧ c ≤ 0x66)

instance : DecidablePred IsHexDigit := fun c =>
  inferInstanceAs (Decidable ((0x30 ≤ c ∧ c ≤ 0x39) ∨ (0x41 ≤ c ∧ c ≤ 0x46) ∨ (0x61 ≤ c ∧ c ≤ 0x66)))

/-- A quantity: `0x` or `0X`, then one to 64 hex digits, of which the first is not zero unless
it is the only one. -/
def IsQuantity (s : Bytes) : Prop :=
  ∃ x raw, s = 0x30 :: x :: raw ∧ (x = 0x78 ∨ x = 0x58) ∧ raw ≠ [] ∧ raw.length ≤ 64 ∧
    (∀ c ∈ raw, IsHexDigit c) ∧ (1 < raw.length → raw.head? ≠ some 0x30)

/-- The values of the digits. -/
def nibbles (raw : Bytes) : List Nat := raw.map fun c => (decodeNibble c).toNat

/-- The number the hex digits `raw` denote. -/
def hexValue (raw : Bytes) : Nat := digitsValue 16 (nibbles raw)

/-- A byte in lower case. -/
def toLower (c : UInt8) : UInt8 := if 0x41 ≤ c ∧ c ≤ 0x5a then c + 0x20 else c

/-! ### Digits -/

section Digits

variable {c : UInt8} {d : Nat}

-- the facts about single bytes are checked on all 256 of them
set_option maxRecDepth 20000

theorem decodeNibble_eq_badNibble_iff (c : UInt8) : decodeNibble c = badNibble ↔ ¬IsHexDigit c := by
  revert c
  decide

theorem toNat_decodeNibble_lt (hex : IsHexDigit c) : (decodeNibble c).toNat < 16 := by
  revert c
  decide

theorem toNat_decodeNibble_eq_zero (hex : IsHexDigit c) : (decodeNibble c).toNat = 0 ↔ c = 0x30 := by
  revert c
  decide

/-- A hex digit prints back as itself in lower case. -/
theorem hexDigit_decodeNibble (hex : IsHexDigit c) : hexDigit (decodeNibble c).toNat = toLower c := by
  revert c
  decide

/-- `ParseUint` reads a hex digit as `decodeNibble` does. -/
theorem parseUintDigit_eq (hex : IsHexDigit c) : parseUintDigit c = some (decodeNibble c).toNat := by
  revert c
  decide

theorem hexDigit_spec (small : d < 16) :
    IsHexDigit (hexDigit d) ∧ (decodeNibble (hexDigit d)).toNat = d := by
  obtain ⟨d, rfl⟩ : ∃ i : Fin 16, (i : Nat) = d := ⟨⟨d, small⟩, rfl⟩
  revert d
  decide

@[simp] theorem nibbles_nil : nibbles [] = [] := rfl

@[simp] theorem hexValue_nil : hexValue [] = 0 := rfl

-- the lemmas below compute `nibbles` and `hexValue` by `simp`
attribute [local simp] nibbles hexValue

@[simp] theorem length_nibbles (raw : Bytes) : (nibbles raw).length = raw.length := by
  simp

theorem nibbles_lt {raw : Bytes} (hex : ∀ c ∈ raw, IsHexDigit c) : ∀ d ∈ nibbles raw, d < 16 := by
  intro d mem
  simp only [nibbles, List.mem_map] at mem
  obtain ⟨c, mem, rfl⟩ := mem
  exact toNat_decodeNibble_lt (hex c mem)

theorem hexValue_append (xs ys : Bytes) :
    hexValue (xs ++ ys) = hexValue xs * 16 ^ ys.length + hexValue ys := by
  simp [digitsValue_append]

theorem hexValue_cons (c : UInt8) (cs : Bytes) :
    hexValue (c :: cs) = (decodeNibble c).toNat * 16 ^ cs.length + hexValue cs := by
  simp [digitsValue_cons]

theorem hexValue_lt {raw : Bytes} (hex : ∀ c ∈ raw, IsHexDigit c) : hexValue raw < 16 ^ raw.length := by
  have lt := digitsValue_lt (by norm_num) (nibbles_lt hex)
  simpa using lt

end Digits

/-! ### The digit loop -/

section ReadNibbles

variable (M : Nat)

/-- On hex digits, the loop is Horner's rule in the word. -/
theorem readNibbles_of_hex :
    ∀ (w : Nat) (cs : Bytes), (∀ c ∈ cs, IsHexDigit c) →
      readNibbles M w cs = .ok ((nibbles cs).foldl (fun acc d => (acc * 16 + d) % M) w)
  | w, [], _ => rfl
  | w, c :: cs, hex => by
    have good : decodeNibble c ≠ badNibble :=
      (decodeNibble_eq_badNibble_iff c).not.mpr (not_not.mpr (hex c List.mem_cons_self))
    rw [readNibbles, if_neg good]
    exact readNibbles_of_hex _ cs fun c' mem => hex c' (List.mem_cons_of_mem c mem)

/-- A byte that is no hex digit fails the loop with `ErrSyntax`. -/
theorem readNibbles_of_not_hex :
    ∀ (w : Nat) (cs : Bytes), (∃ c ∈ cs, ¬IsHexDigit c) → readNibbles M w cs = .error .invalid
  | _, [], ⟨_, mem, _⟩ => absurd mem List.not_mem_nil
  | w, c :: cs, ⟨c', mem, bad⟩ => by
    rw [readNibbles]
    split_ifs with bad_here
    · rfl
    · -- the bad byte is further on, since this one decodes
      have later : c' ≠ c := by
        rintro rfl
        exact bad_here ((decodeNibble_eq_badNibble_iff c').mpr bad)
      exact readNibbles_of_not_hex _ cs ⟨c', List.mem_of_ne_of_mem later mem, bad⟩

/-- The loop reads hex digits as their value, while that fits the word. -/
theorem readNibbles_eq_hexValue {cs : Bytes} (hex : ∀ c ∈ cs, IsHexDigit c) (fits : hexValue cs < M) :
    readNibbles M 0 cs = .ok (hexValue cs) := by
  have horner := foldl_horner_mod (b := 16) (by norm_num) M (nibbles cs) 0 (by simpa [hexValue] using fits)
  rw [readNibbles_of_hex M 0 cs hex, horner]
  simp [hexValue]

end ReadNibbles

/-! ### The words -/

/-- The word loop reads the digits up to `stop` as their value, `bigWordNibbles` digits to a
word from the right. Induction on the number of words left, with the digits before the current
word as the rest of the string. -/
theorem decodeWords_ok (W : Nat) {raw : Bytes} (hex : ∀ c ∈ raw, IsHexDigit c) :
    ∀ (n stop : Nat), stop ≤ raw.length → stop ≤ n * W →
      ∃ words, decodeWords W raw n stop = .ok words ∧ setBits W words = hexValue (raw.take stop)
  | 0, stop, _, few => ⟨[], rfl, by simp [setBits, show stop = 0 by omega, hexValue]⟩
  | n + 1, stop, inside, few => by
    simp only [decodeWords]
    set start := stop - W
    set chunk := (raw.take stop).drop start
    have split : raw.take stop = raw.take start ++ chunk := by
      rw [← List.take_append_drop start (raw.take stop), List.take_take, Nat.min_eq_left (by omega)]
    have chunk_hex : ∀ c ∈ chunk, IsHexDigit c :=
      fun c mem => hex c (List.mem_of_mem_take (List.mem_of_mem_drop mem))
    have chunk_length : chunk.length = stop - start := by simp [chunk]; omega
    have fits : hexValue chunk < 16 ^ W :=
      lt_of_lt_of_le (hexValue_lt chunk_hex) (Nat.pow_le_pow_right (by norm_num) (by omega))
    obtain ⟨words, run, value⟩ := decodeWords_ok W hex n start (by omega) (by rw [Nat.add_mul] at few; omega)
    rw [readNibbles_eq_hexValue _ chunk_hex fits, run]
    refine ⟨hexValue chunk :: words, rfl, ?_⟩
    rw [setBits, Nat.ofDigits_cons, ← setBits, value, split, hexValue_append, chunk_length]
    -- a short word is the first one read, with no digits before it
    by_cases whole : W ≤ stop
    · rw [show stop - start = W by omega]
      ring
    · simp [show start = 0 by omega, hexValue]

/-- A byte up to `stop` that is no hex digit fails the word loop with `ErrSyntax`. -/
theorem decodeWords_error (W : Nat) {raw : Bytes} :
    ∀ (n stop : Nat), stop ≤ n * W → (∃ c ∈ raw.take stop, ¬IsHexDigit c) →
      decodeWords W raw n stop = .error .invalid
  | 0, stop, few, ⟨c, mem, _⟩ => by
    rw [show stop = 0 by omega] at mem
    simp at mem
  | n + 1, stop, few, ⟨c, mem, bad⟩ => by
    simp only [decodeWords]
    set start := stop - W
    set chunk := (raw.take stop).drop start
    have split : raw.take stop = raw.take start ++ chunk := by
      rw [← List.take_append_drop start (raw.take stop), List.take_take, Nat.min_eq_left (by omega)]
    by_cases chunk_hex : ∀ c ∈ chunk, IsHexDigit c
    · -- the bad byte is in an earlier word, read by the rest of the loop
      have earlier : c ∈ raw.take start := by
        rw [split, List.mem_append] at mem
        exact mem.resolve_right fun inChunk => bad (chunk_hex c inChunk)
      rw [readNibbles_of_hex _ 0 chunk chunk_hex,
        decodeWords_error W n start (by rw [Nat.add_mul] at few; omega) ⟨c, earlier, bad⟩]
      rfl
    · push Not at chunk_hex
      rw [readNibbles_of_not_hex _ 0 chunk chunk_hex]
      rfl

/-! ### The checks of the text -/

/-- What `checkNumber` lets through: the digits behind the prefix, some, with no leading zero. -/
theorem checkNumber_eq_ok {input raw : Bytes} :
    checkNumber input = .ok raw ↔
      ∃ x, input = 0x30 :: x :: raw ∧ (x = 0x78 ∨ x = 0x58) ∧ raw ≠ [] ∧
        (1 < raw.length → raw.head? ≠ some 0x30) := by
  rcases input with _ | ⟨a, _ | ⟨x, rest⟩⟩
  · simp [checkNumber]
  · simp [checkNumber, has0xPrefix]
  · simp only [checkNumber, has0xPrefix]
    -- the four checks, each either fails with its error or passes to the next
    split_ifs <;> simp_all <;> grind

/-- `checkNumberText` differs from `checkNumber` on the empty text only. -/
theorem checkNumberText_of_ne_nil {input : Bytes} (nonempty : input ≠ []) :
    checkNumberText input = checkNumber input := by
  simp [checkNumberText, checkNumber, bytesHave0xPrefix, nonempty]

/-! ### `DecodeBig` -/

theorem WordSize.bigWordNibbles_pos (ws : WordSize) : 0 < ws.bigWordNibbles := by
  cases ws <;> decide

/-- The body of `DecodeBig` succeeds exactly on checked digits, at most 64 of them, all hex
digits, and returns their value. -/
theorem decodeBigWith_eq_ok {check : Bytes → Except DecError Bytes} {ws : WordSize} {input : Bytes}
    {v : Nat} :
    decodeBigWith check ws input = .ok v ↔
      ∃ raw, check input = .ok raw ∧ raw.length ≤ 64 ∧ (∀ c ∈ raw, IsHexDigit c) ∧
        v = hexValue raw := by
  -- enough words for all the digits
  have enough : ∀ raw : Bytes,
      raw.length ≤ (raw.length / ws.bigWordNibbles + 1) * ws.bigWordNibbles := fun raw =>
    (Nat.lt_mul_div_succ raw.length ws.bigWordNibbles_pos).le.trans_eq (Nat.mul_comm _ _)
  constructor
  · intro ok
    obtain ⟨raw, checked, ok⟩ := Lib.bind_eq_ok.mp ok
    have short : ¬raw.length > 64 := by
      intro long
      simp [long] at ok
      cases ok
    by_cases hex : ∀ c ∈ raw, IsHexDigit c
    · obtain ⟨words, run, value⟩ :=
        decodeWords_ok ws.bigWordNibbles hex _ raw.length le_rfl (enough raw)
      simp only [short, run] at ok
      refine ⟨raw, checked, by omega, hex, ?_⟩
      rw [← List.take_length (l := raw), ← value]
      cases ok
      rfl
    · -- a byte that is no hex digit fails the word loop
      push Not at hex
      have fails := @decodeWords_error ws.bigWordNibbles raw
        (raw.length / ws.bigWordNibbles + 1) raw.length (enough raw) (by simpa using hex)
      simp [short, fails] at ok
  · rintro ⟨raw, checked, short, hex, rfl⟩
    obtain ⟨words, run, value⟩ := decodeWords_ok ws.bigWordNibbles hex _ raw.length le_rfl (enough raw)
    rw [List.take_length] at value
    simp [decodeBigWith, checked, run, value, not_lt.mpr short, bind, Except.bind, pure, Except.pure]

/-- `DecodeBig` succeeds exactly on the quantities, with the number their digits denote. -/
theorem DecodeBig_eq_ok (ws : WordSize) (s : Bytes) (v : Nat) :
    DecodeBig ws s = .ok v ↔ IsQuantity s ∧ v = hexValue (s.drop 2) := by
  rw [DecodeBig, decodeBigWith_eq_ok]
  constructor
  · rintro ⟨raw, checked, short, hex, rfl⟩
    obtain ⟨x, rfl, pre, nonempty, leading⟩ := checkNumber_eq_ok.mp checked
    exact ⟨⟨x, raw, rfl, pre, nonempty, short, hex, leading⟩, rfl⟩
  · rintro ⟨⟨x, raw, rfl, pre, nonempty, short, hex, leading⟩, rfl⟩
    exact ⟨raw, checkNumber_eq_ok.mpr ⟨x, rfl, pre, nonempty, leading⟩, short, hex, rfl⟩

example : DecodeBig .bits64 [0x30, 0x58, 0x31, 0x46] = .ok 31 := by decide
example : DecodeBig .bits32 [0x30, 0x78, 0x30, 0x31] = .error .leadingZero := by decide

/-! ### The writers -/

section Writers

variable (x : Nat)

-- the lemmas of this section compute `formatHex` by `rw` and `simp`
attribute [local simp] formatHex

theorem formatHex_ne_nil : formatHex x ≠ [] := by
  rw [formatHex]
  split_ifs with zero
  · simp
  · simpa using Nat.digits_ne_nil_iff_ne_zero.mpr zero

theorem formatHex_hex : ∀ c ∈ formatHex x, IsHexDigit c := by
  rw [formatHex]
  split_ifs
  · intro c mem
    rw [List.mem_singleton.mp mem]
    decide
  · intro c mem
    simp only [List.mem_map, List.mem_reverse] at mem
    obtain ⟨d, digit, rfl⟩ := mem
    exact (hexDigit_spec (Nat.digits_lt_base (by norm_num) digit)).1

theorem hexValue_formatHex : hexValue (formatHex x) = x := by
  rw [formatHex]
  split_ifs with zero
  · subst zero
    rfl
  · -- each printed digit reads back as itself
    have digits : nibbles ((Nat.digits 16 x).reverse.map hexDigit) = (Nat.digits 16 x).reverse := by
      simp only [nibbles, List.map_map]
      refine (List.map_congr_left fun d mem => ?_).trans (List.map_id _)
      exact (hexDigit_spec (Nat.digits_lt_base (by norm_num) (List.mem_reverse.mp mem))).2
    rw [hexValue, digits, digitsValue_digits]

theorem length_formatHex_le {k : Nat} (pos : 0 < k) (small : x < 16 ^ k) :
    (formatHex x).length ≤ k := by
  rw [formatHex]
  split_ifs
  · simp only [List.length_singleton]
    omega
  · simpa using (Nat.digits_length_le_iff (b := 16) (by norm_num) x).mpr small

/-- The printed digits have no leading zero. -/
theorem formatHex_head : 1 < (formatHex x).length → (formatHex x).head? ≠ some 0x30 := by
  rw [formatHex]
  split_ifs with zero
  · simp
  · intro _ head
    have nonempty : Nat.digits 16 x ≠ [] := Nat.digits_ne_nil_iff_ne_zero.mpr zero
    have top := Nat.getLast_digit_ne_zero 16 zero
    have small := Nat.digits_lt_base (b := 16) (by norm_num) (List.getLast_mem nonempty)
    rw [List.head?_map, List.head?_reverse, List.getLast?_eq_some_getLast nonempty] at head
    -- the top digit would print as `0`, and so would read back as zero
    have reads := (hexDigit_spec small).2
    simp only [Option.map_some, Option.some.injEq] at head
    rw [head] at reads
    exact top (by simpa [decodeNibble] using reads.symm)

theorem checkNumber_formatHex : checkNumber (hexPrefix ++ formatHex x) = .ok (formatHex x) :=
  checkNumber_eq_ok.mpr ⟨0x78, rfl, Or.inl rfl, formatHex_ne_nil x, formatHex_head x⟩

theorem EncodeBig_natCast : EncodeBig x = hexPrefix ++ formatHex x := by
  by_cases zero : x = 0
  · subst zero
    rfl
  · simp [EncodeBig, BitLen, Nat.size_eq_zero, zero]

example : EncodeBig 255 = [0x30, 0x78, 0x66, 0x66] := by decide

end Writers

/-- Printing the number of a quantity gives the quantity back, in lower case. -/
theorem EncodeBig_hexValue {s : Bytes} (quantity : IsQuantity s) :
    EncodeBig (hexValue (s.drop 2) : Nat) = s.map toLower := by
  obtain ⟨x, raw, rfl, pre, nonempty, -, hex, leading⟩ := quantity
  have lower_x : toLower x = 0x78 := by rcases pre with rfl | rfl <;> decide
  rw [show (0x30 :: x :: raw).drop 2 = raw from rfl, EncodeBig_natCast, List.map_cons, List.map_cons, lower_x]
  by_cases zero : hexValue raw = 0
  · -- the only digit is `0`
    obtain ⟨c, rest, rfl⟩ := List.exists_cons_of_ne_nil nonempty
    have single : rest = [] := by
      by_contra more
      have long : 1 < (c :: rest).length := by simpa using List.length_pos_of_ne_nil more
      have c_ne : c ≠ 0x30 := fun same => leading long (by simp [same])
      have pos : 0 < (decodeNibble c).toNat :=
        Nat.pos_of_ne_zero fun z => c_ne ((toNat_decodeNibble_eq_zero (hex c List.mem_cons_self)).mp z)
      rw [hexValue_cons] at zero
      have : 0 < (decodeNibble c).toNat * 16 ^ rest.length := Nat.mul_pos pos (Nat.pow_pos (by norm_num))
      omega
    subst single
    have c_zero : c = 0x30 :=
      (toNat_decodeNibble_eq_zero (hex c List.mem_cons_self)).mp (by simpa [hexValue_cons] using zero)
    subst c_zero
    rw [zero]
    rfl
  · -- the digits print as themselves: their top digit is not zero
    have top : (nibbles raw).head? ≠ some 0 := by
      obtain ⟨c, rest, rfl⟩ := List.exists_cons_of_ne_nil nonempty
      intro head
      have c_zero : c = 0x30 :=
        (toNat_decodeNibble_eq_zero (hex c List.mem_cons_self)).mp (by simpa [nibbles] using head)
      subst c_zero
      cases rest with
      | nil => exact zero rfl
      | cons _ _ => exact leading (by simp) rfl
    have printed : formatHex (hexValue raw) = raw.map toLower := by
      rw [formatHex, if_neg zero, hexValue, digits_digitsValue (by norm_num) (nibbles_lt hex) top,
        nibbles, List.map_map]
      exact List.map_congr_left fun c mem => hexDigit_decodeNibble (hex c mem)
    rw [printed]
    rfl

/-! ### Round trips -/

/-- `Big.UnmarshalText` reads a non-empty text as `DecodeBig` does. -/
theorem UnmarshalText_eq_DecodeBig (ws : WordSize) {input : Bytes} (nonempty : input ≠ []) :
    Big.UnmarshalText ws input = DecodeBig ws input := by
  simp only [Big.UnmarshalText, DecodeBig, decodeBigWith, checkNumberText_of_ne_nil nonempty]

theorem DecodeBig_EncodeBig (ws : WordSize) {x : Nat} (small : x < 2 ^ 256) :
    DecodeBig ws (EncodeBig x) = .ok x := by
  have digits : (formatHex x).length ≤ 64 :=
    length_formatHex_le x (by norm_num) (by simpa [show (2 : Nat) ^ 256 = 16 ^ 64 by norm_num] using small)
  rw [EncodeBig_natCast, DecodeBig, decodeBigWith_eq_ok]
  exact ⟨formatHex x, checkNumber_formatHex x, digits, formatHex_hex x, (hexValue_formatHex x).symm⟩

theorem UnmarshalText_MarshalText (ws : WordSize) {x : Nat} (small : x < 2 ^ 256) :
    Big.UnmarshalText ws (Big.MarshalText x) = .ok x := by
  rw [Big.MarshalText, UnmarshalText_eq_DecodeBig ws (by simp [EncodeBig_natCast, hexPrefix]),
    DecodeBig_EncodeBig ws small]

/-- `ParseUint`'s loop reads hex digits as their value, after the digits read before, while
that value fits 64 bits. -/
theorem parseUintLoop_of_hex :
    ∀ (n : Nat) (cs : Bytes), (∀ c ∈ cs, IsHexDigit c) → n * 16 ^ cs.length + hexValue cs < 2 ^ 64 →
      parseUintLoop n cs = .ok (n * 16 ^ cs.length + hexValue cs)
  | n, [], _, _ => by simp [parseUintLoop]
  | n, c :: cs, hex, fits => by
    have digit := hex c List.mem_cons_self
    have small := toNat_decodeNibble_lt digit
    have value : n * 16 ^ (c :: cs).length + hexValue (c :: cs) =
        (n * 16 + (decodeNibble c).toNat) * 16 ^ cs.length + hexValue cs := by
      rw [hexValue_cons, List.length_cons, pow_succ]
      ring
    rw [value] at fits ⊢
    -- the digits read so far are below the cutoff, so neither `n *= 16` nor `+ d` wraps
    have partial_fits : n * 16 + (decodeNibble c).toNat < 2 ^ 64 :=
      lt_of_le_of_lt (le_add_right (Nat.le_mul_of_pos_right _ (Nat.pow_pos (by norm_num)))) fits
    have below_cutoff : ¬n ≥ (2 ^ 64 - 1) / 16 + 1 := by omega
    have no_wrap : n * 16 % 2 ^ 64 = n * 16 := Nat.mod_eq_of_lt (by omega)
    have sum_no_wrap : (n * 16 + (decodeNibble c).toNat) % 2 ^ 64 = n * 16 + (decodeNibble c).toNat :=
      Nat.mod_eq_of_lt partial_fits
    simp only [parseUintLoop, parseUintDigit_eq digit, if_neg (show ¬(decodeNibble c).toNat ≥ 16 by omega),
      if_neg below_cutoff, no_wrap, sum_no_wrap, if_neg (show ¬(n * 16 + (decodeNibble c).toNat < n * 16 ∨
        n * 16 + (decodeNibble c).toNat > 2 ^ 64 - 1) by omega)]
    exact parseUintLoop_of_hex _ cs (fun c' mem => hex c' (List.mem_cons_of_mem c mem)) fits

theorem DecodeUint64_EncodeUint64 (x : UInt64) : DecodeUint64 (EncodeUint64 x) = .ok x := by
  have run := parseUintLoop_of_hex 0 (formatHex x.toNat) (formatHex_hex _)
    (by simpa [hexValue_formatHex] using x.toNat_lt)
  simp only [Nat.zero_mul, Nat.zero_add, hexValue_formatHex] at run
  simp [DecodeUint64, EncodeUint64, checkNumber_formatHex, ParseUint, formatHex_ne_nil, run,
    bind, Except.bind, Except.map, Except.mapError, Nat.toUInt64]

example : DecodeUint64 [0x30, 0x78, 0x67] = .error .invalid := by decide

theorem Uint64.UnmarshalText_MarshalText (x : UInt64) :
    Uint64.UnmarshalText (Uint64.MarshalText x) = .ok x := by
  have digits : (formatHex x.toNat).length ≤ 16 :=
    length_formatHex_le _ (by norm_num) (by simpa using x.toNat_lt)
  have read := readNibbles_eq_hexValue (2 ^ 64) (formatHex_hex x.toNat)
    (by simpa [hexValue_formatHex] using x.toNat_lt)
  rw [hexValue_formatHex] at read
  have checked : checkNumberText (hexPrefix ++ formatHex x.toNat) = .ok (formatHex x.toNat) := by
    rw [checkNumberText_of_ne_nil (by simp [hexPrefix]), checkNumber_formatHex]
  rw [Uint64.UnmarshalText, Uint64.MarshalText, checked]
  simp only [bind, Except.bind, gt_iff_lt, if_neg (not_lt.mpr digits), read, pure, Except.pure]
  rw [Nat.toUInt64, UInt64.ofNat_toNat]

/-- The codec of hex quantities: the round trips of both `big.Int` readers below `2 ^ 256` and
of both `uint64` readers, and what `DecodeBig` accepts, with the number it returns and how that
number prints. -/
theorem quantity_codec (ws : WordSize) :
    (∀ x : Nat, x < 2 ^ 256 →
      DecodeBig ws (EncodeBig x) = .ok x ∧ Big.UnmarshalText ws (Big.MarshalText x) = .ok x) ∧
    (∀ x : UInt64,
      DecodeUint64 (EncodeUint64 x) = .ok x ∧ Uint64.UnmarshalText (Uint64.MarshalText x) = .ok x) ∧
    (∀ s : Bytes, s ≠ [] →
      ((∃ v, DecodeBig ws s = .ok v) ↔ IsQuantity s) ∧
      (IsQuantity s → DecodeBig ws s = .ok (hexValue (s.drop 2)) ∧
        EncodeBig (hexValue (s.drop 2) : Nat) = s.map toLower)) := by
  refine ⟨fun x small => ⟨DecodeBig_EncodeBig ws small, UnmarshalText_MarshalText ws small⟩,
    fun x => ⟨DecodeUint64_EncodeUint64 x, Uint64.UnmarshalText_MarshalText x⟩, fun s _ => ⟨?_, ?_⟩⟩
  · constructor
    · rintro ⟨v, ok⟩
      exact ((DecodeBig_eq_ok ws s v).mp ok).1
    · intro quantity
      exact ⟨_, (DecodeBig_eq_ok ws s _).mpr ⟨quantity, rfl⟩⟩
  · intro quantity
    exact ⟨(DecodeBig_eq_ok ws s _).mpr ⟨quantity, rfl⟩, EncodeBig_hexValue quantity⟩

/-- `0xff` reads back as 255 on a 64-bit platform. -/
theorem quantity_codec_ff : (255 : Nat) < 2 ^ 256 ∧ DecodeBig .bits64 (EncodeBig (255 : Nat)) = .ok 255 :=
  ⟨by norm_num, ((quantity_codec .bits64).1 255 (by norm_num)).1⟩

end Indigo.Hexutil
