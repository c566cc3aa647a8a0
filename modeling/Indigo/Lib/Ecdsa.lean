import Mathlib.Data.ZMod.Basic
import Mathlib.Algebra.Module.Basic
import Mathlib.Algebra.Field.ZMod
import Mathlib.Tactic.FieldSimp
import Mathlib.Tactic.Ring

/-!
# ECDSA public key recovery

The points of an elliptic curve are an additive group `G` whose scalars are the integers modulo
the group order `n`, with a generator. A signature of a message `m` by the key `Q = k • gen` is
a pair `(r, s)` of nonzero scalars such that the point `s⁻¹ • (m • gen + r • Q)` has x-coordinate
`r` modulo `n`. Recovery inverts this: it lifts `r` (or `r + n`) to the point `R` of that
x-coordinate whose y-coordinate has the given parity, and returns `r⁻¹ • (s • R - m • gen)`.

The curve is abstract: what recovery needs of it is the lift of an x-coordinate to its two
points, which are each other's negation, and the x-coordinate of a point.

## Main results

- `sigRecover_verify`: a recovered key verifies the signature, over a group of prime order.
- `sigRecover_neg`: negating `s` and flipping the parity recovers the same key. A signature
  check that accepts every `s` below `n` therefore accepts the twin `(r, n - s)` of every
  signature it accepts, for the same key.

## Proof strategy

Recovery lifts to the point `R`; the twin lifts to `-R`, and `(-s) • (-R) = s • R`. For
verification, `s⁻¹ • (m • gen + r • Q)` unfolds to `R` by the field identities of `ZMod n`.
-/

namespace Indigo.Lib

/-- What recovery needs of a curve whose group of points `G` has order `n`. -/
structure Curve (n : Nat) (G : Type) [AddCommGroup G] [Module (ZMod n) G] where
  /-- The generator. -/
  gen : G
  /-- The point of x-coordinate `x` whose y-coordinate is odd (`true`) or even, if any. -/
  liftX : Nat → Bool → Option G
  /-- The x-coordinate of a point other than the point at infinity. -/
  xCoord : G → Nat
  /-- The two points of one x-coordinate are each other's negation. -/
  liftX_not : ∀ x odd, liftX x (!odd) = (liftX x odd).map Neg.neg
  /-- A lifted point has the x-coordinate it was lifted from. -/
  xCoord_liftX : ∀ x odd R, liftX x odd = some R → xCoord R = x
  /-- The point at infinity has no x-coordinate. -/
  liftX_ne_zero : ∀ x odd R, liftX x odd = some R → R ≠ 0

variable {n : Nat} {G : Type} [AddCommGroup G] [Module (ZMod n) G]

/-- `secp256k1_ecdsa_sig_recover`: bit `1` of `recid` says whether the x-coordinate of `R` is
`r + n` rather than `r`, bit `0` the parity of its y-coordinate. The key is
`u1 • gen + u2 • R` with `u1 = -(r⁻¹ m)` and `u2 = r⁻¹ s`; the point at infinity is refused. -/
def sigRecover [DecidableEq G] (c : Curve n G) (r s m : ZMod n) (recid : Nat) : Option G :=
  if r = 0 ∨ s = 0 then none
  else
    match c.liftX (if recid.testBit 1 then r.val + n else r.val) (recid.testBit 0) with
    | none => none
    | some R =>
      let Q := (-(r⁻¹ * m)) • c.gen + (r⁻¹ * s) • R
      if Q = 0 then none else some Q

/-- ECDSA verification: `(r, s)` is a signature of `m` by `Q`. -/
def Verifies (c : Curve n G) (Q : G) (r s m : ZMod n) : Prop :=
  r ≠ 0 ∧ s ≠ 0 ∧ (s⁻¹ * m) • c.gen + (s⁻¹ * r) • Q ≠ 0 ∧
    ((c.xCoord ((s⁻¹ * m) • c.gen + (s⁻¹ * r) • Q) : Nat) : ZMod n) = r

section Recovery

variable [DecidableEq G] {c : Curve n G} {r s m : ZMod n} {recid : Nat} {Q : G}

/-- Recovery succeeds exactly through a lifted point `R`, and the key is computed from it. -/
theorem sigRecover_eq_some :
    sigRecover c r s m recid = some Q ↔ r ≠ 0 ∧ s ≠ 0 ∧
      ∃ R, c.liftX (if recid.testBit 1 then r.val + n else r.val) (recid.testBit 0) = some R ∧
        Q = (-(r⁻¹ * m)) • c.gen + (r⁻¹ * s) • R ∧ Q ≠ 0 := by
  unfold sigRecover
  by_cases zero : r = 0 ∨ s = 0
  · rw [if_pos zero]
    simp only [reduceCtorEq, false_iff]
    rintro ⟨nonzeroR, nonzeroS, -⟩
    exact zero.elim nonzeroR nonzeroS
  · rw [if_neg zero]
    rw [not_or] at zero
    cases lifted : c.liftX (if recid.testBit 1 then r.val + n else r.val) (recid.testBit 0) with
    | none => simp
    | some R =>
      simp only [Option.some.injEq, exists_eq_left', zero, ne_eq, not_false_eq_true, true_and]
      split_ifs with infinity
      · simp only [false_iff]
        rintro ⟨rfl, nonzero⟩
        exact nonzero infinity
      · simp only [Option.some.injEq]
        constructor
        · rintro rfl
          exact ⟨rfl, infinity⟩
        · rintro ⟨rfl, -⟩
          rfl

/-- Negating `s` and flipping the parity bit recovers the same key: the lift is the negated
point, and `(-s) • (-R) = s • R`. -/
theorem sigRecover_neg : sigRecover c r (-s) m (recid ^^^ 1) = sigRecover c r s m recid := by
  have high : (recid ^^^ 1).testBit 1 = recid.testBit 1 := by
    rw [Nat.testBit_xor, show Nat.testBit 1 1 = false from rfl, Bool.xor_false]
  have parity : (recid ^^^ 1).testBit 0 = !recid.testBit 0 := by
    rw [Nat.testBit_xor, show Nat.testBit 1 0 = true from rfl, Bool.xor_true]
  unfold sigRecover
  simp only [high, parity, c.liftX_not, neg_eq_zero]
  cases c.liftX (if recid.testBit 1 then r.val + n else r.val) (recid.testBit 0) with
  | none => rfl
  | some R =>
    simp only [Option.map_some, mul_neg, neg_smul_neg]

end Recovery

section Prime

variable [Fact n.Prime] {c : Curve n G} {r s m : ZMod n}

/-- Over a group of prime order, the point verification computes from a recovered key is the
lifted point. -/
theorem verify_point_recovered {R : G} (nonzeroR : r ≠ 0) (nonzeroS : s ≠ 0) :
    (s⁻¹ * m) • c.gen + (s⁻¹ * r) • ((-(r⁻¹ * m)) • c.gen + (r⁻¹ * s) • R) = R := by
  have cancel : s⁻¹ * r * (r⁻¹ * s) = 1 := by field_simp
  have genCancel : s⁻¹ * m + s⁻¹ * r * -(r⁻¹ * m) = 0 := by field_simp; ring
  rw [smul_add, smul_smul, smul_smul, cancel, one_smul, ← add_assoc, ← add_smul, genCancel,
    zero_smul, zero_add]

/-- A key that recovery returns verifies the signature. -/
theorem sigRecover_verify [DecidableEq G] {recid : Nat} {Q : G} (recovered : sigRecover c r s m recid = some Q) : Verifies c Q r s m := by
  obtain ⟨nonzeroR, nonzeroS, R, lifted, rfl, -⟩ := sigRecover_eq_some.1 recovered
  refine ⟨nonzeroR, nonzeroS, ?_, ?_⟩
  · rw [verify_point_recovered nonzeroR nonzeroS]
    exact c.liftX_ne_zero _ _ R lifted
  · rw [verify_point_recovered nonzeroR nonzeroS, c.xCoord_liftX _ _ R lifted]
    split_ifs <;> simp

end Prime

end Indigo.Lib
