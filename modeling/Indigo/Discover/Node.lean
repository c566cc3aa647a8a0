import Indigo.Common.Types
import Indigo.Lib.BigEndian
import Indigo.Netutil.Net

/-!
# Discovery nodes and their distances

`discover.Node` with the fields the table and the lookup read, and the two distances of
`node.go`: `distcmp`, which compares the XOR distances of two hashes to a target byte by
byte, and `logdist`, the bit length of the XOR of two hashes.

## Main results

- `distcmp_eq`: `distcmp` compares the XOR distances as big-endian numbers (`distance`).
- `logdist_le`: a log distance is at most the bit length of a hash.
-/

namespace Indigo.Discover

open Indigo.Lib Indigo.Netutil

/-- `NodeIDBits`. -/
def NodeIDBits : Nat := 512

/-- `discover.NodeID`: a node's public key. -/
abbrev NodeID := Vector UInt8 (NodeIDBits / 8)

/-- `discover.Node` with the fields the table and the lookup read. `sha` is the cached
`Keccak256(ID)` that `NewNode` sets; the ports and `addedAt` are not read. -/
structure Node where
  IP : IP
  ID : NodeID
  sha : Hash
deriving DecidableEq

/-! ### `distcmp` -/

/-- The loop of `distcmp` over the bytes of the target and of the two hashes. -/
def distcmpBytes : List UInt8 → List UInt8 → List UInt8 → Int
  | t :: target, a :: as, b :: bs =>
    let da := a ^^^ t
    let db := b ^^^ t
    if da > db then 1 else if da < db then -1 else distcmpBytes target as bs
  | _, _, _ => 0

/-- `distcmp`: `-1` if `a` is closer to `target`, `1` if `b` is, `0` if they are as close. -/
def distcmp (target a b : Hash) : Int := distcmpBytes target.bytes a.bytes b.bytes

/-- The XOR distance of `a` to `target`, read as a big-endian number. -/
def distance (target a : Hash) : Nat := beValue (List.zipWith (· ^^^ ·) a.bytes target.bytes)

/-- The sign of a comparison of two numbers, as `distcmp` returns it. -/
def compareSign (x y : Nat) : Int := if x > y then 1 else if x < y then -1 else 0

/-- A larger leading digit outweighs whatever follows it. -/
theorem digit_lt {x y r s P : Nat} (lt : x < y) (small : r < P) : x * P + r < y * P + s :=
  calc x * P + r < x * P + P := by omega
    _ = (x + 1) * P := by ring
    _ ≤ y * P := Nat.mul_le_mul_right P lt
    _ ≤ y * P + s := Nat.le_add_right _ _

theorem distcmpBytes_eq : ∀ (target as bs : List UInt8), as.length = target.length →
    bs.length = target.length →
    distcmpBytes target as bs =
      compareSign (beValue (List.zipWith (· ^^^ ·) as target))
        (beValue (List.zipWith (· ^^^ ·) bs target))
  | [], [], [], _, _ => rfl
  | t :: target, a :: as, b :: bs, sameA, sameB => by
    simp only [List.length_cons, Nat.add_right_cancel_iff] at sameA sameB
    have tail := distcmpBytes_eq target as bs sameA sameB
    have smallA := beValue_lt (List.zipWith (· ^^^ ·) as target)
    have smallB := beValue_lt (List.zipWith (· ^^^ ·) bs target)
    simp only [List.length_zipWith, sameA, sameB, min_self] at smallA smallB
    simp only [distcmpBytes, List.zipWith_cons_cons, beValue_cons, List.length_zipWith, sameA,
      sameB, min_self, compareSign, gt_iff_lt, UInt8.lt_iff_toNat_lt]
    generalize (a ^^^ t).toNat = x
    generalize (b ^^^ t).toNat = y
    -- the first differing byte decides; equal bytes pass the comparison on
    by_cases farther : y < x
    · have := digit_lt (s := beValue (List.zipWith (· ^^^ ·) as target)) farther smallB
      rw [if_pos farther, if_pos this]
    · by_cases nearer : x < y
      · have := digit_lt (s := beValue (List.zipWith (· ^^^ ·) bs target)) nearer smallA
        rw [if_neg farther, if_pos nearer, if_neg (Nat.lt_asymm this), if_pos this]
      · have same : x = y := by omega
        subst same
        rw [if_neg farther, if_neg nearer, tail, compareSign]
        split_ifs <;> omega

theorem distcmp_eq (target a b : Hash) :
    distcmp target a b = compareSign (distance target a) (distance target b) :=
  distcmpBytes_eq target.bytes a.bytes b.bytes (by simp) (by simp)

theorem distcmp_pos_iff (target a b : Hash) :
    distcmp target a b > 0 ↔ distance target b < distance target a := by
  rw [distcmp_eq, compareSign]
  split_ifs <;> omega

/-! ### `logdist` -/

/-- `lzcount[x]`: the leading zero bits of the byte `x`. -/
def lzcount (x : UInt8) : Nat := if x = 0 then 8 else 7 - x.toNat.log2

/-- The loop of `logdist`, adding up the leading zero bits of the XOR. -/
def logdistLoop : List UInt8 → List UInt8 → Nat → Nat
  | a :: as, b :: bs, lz =>
    let x := a ^^^ b
    if x = 0 then logdistLoop as bs (lz + 8) else lz + lzcount x
  | _, _, lz => lz

/-- `logdist`: the bit length of the XOR of `a` and `b`. -/
def logdist (a b : Hash) : Nat := a.bytes.length * 8 - logdistLoop a.bytes b.bytes 0

theorem logdist_le (a b : Hash) : logdist a b ≤ HashLength * 8 := by
  rw [logdist, Hash.length_bytes']
  exact Nat.sub_le _ _

end Indigo.Discover
