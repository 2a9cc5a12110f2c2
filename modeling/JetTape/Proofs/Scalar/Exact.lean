import JetTape.Scalar
import Mathlib.Algebra.Order.Field.Basic
import Mathlib.Algebra.Order.Field.Rat

/-!
Exact coefficients. Over an ordered field the operations of a `Scalar` are those of the field, and
its comparisons decide the order and equality.
-/
namespace JetTape

/-- What a field does not determine of a coefficient type. -/
class ExactScalar (K : Type) where
  twoOverSqrtPi : K
  bytes : Nat

/-- An ordered field as a coefficient type. -/
instance ExactScalar.toScalar (K : Type) [Field K] [LinearOrder K] [ExactScalar K] :
    Scalar K where
  zero := 0
  one := 1
  add := (· + ·)
  sub := (· - ·)
  mul := (· * ·)
  div := (· / ·)
  neg := (- ·)
  ofNat n := (n : K)
  lt x y := decide (x < y)
  le x y := decide (x ≤ y)
  eq x y := decide (x = y)
  twoOverSqrtPi := ExactScalar.twoOverSqrtPi
  bytes := ExactScalar.bytes K

/-- Rational coefficients, stored as two words each. -/
instance : ExactScalar ℚ where
  twoOverSqrtPi := 5641895835477563 / 5000000000000000
  bytes := 16

end JetTape
