/-!
Coefficient types. A `Scalar` has the operations that the recurrences use and no laws: the
recurrences are the same over an exact field, where laws hold, and over binary floating point,
where the order of the operations decides every bit.
-/
namespace JetTape

class Scalar (F : Type) where
  zero : F
  one : F
  add : F → F → F
  sub : F → F → F
  mul : F → F → F
  div : F → F → F
  neg : F → F
  /-- The scalar for an order or another count. -/
  ofNat : Nat → F
  lt : F → F → Bool
  le : F → F → Bool
  /-- Numeric equality: both zeros of a floating-point type are equal and no NaN is. -/
  eq : F → F → Bool
  /-- The constant two over the square root of pi. -/
  twoOverSqrtPi : F
  /-- The size of one stored coefficient. -/
  bytes : Nat

section Operations

variable {F : Type} [Scalar F]

-- A type that has these operations already keeps its own.
instance (priority := 100) Scalar.toZero : Zero F := ⟨Scalar.zero⟩

instance (priority := 100) Scalar.toOne : One F := ⟨Scalar.one⟩

instance (priority := 100) Scalar.toAdd : Add F := ⟨Scalar.add⟩

instance (priority := 100) Scalar.toSub : Sub F := ⟨Scalar.sub⟩

instance (priority := 100) Scalar.toMul : Mul F := ⟨Scalar.mul⟩

instance (priority := 100) Scalar.toDiv : Div F := ⟨Scalar.div⟩

instance (priority := 100) Scalar.toNeg : Neg F := ⟨Scalar.neg⟩

end Operations

namespace Scalar

variable {F : Type} [Scalar F]

/-- The sign of `x`, zero where `x` is neither above nor below zero. -/
def sign (x : F) : F :=
  if lt 0 x then 1 else if lt x 0 then -1 else 0

/-- The product in which zero absorbs: `0 * y = 0` whatever `y` is. -/
def zmul (x y : F) : F :=
  if eq x 0 then 0 else x * y

theorem zmul_of_eq_zero {x : F} (h : eq x 0 = true) (y : F) : zmul x y = 0 := by
  simp [zmul, h]

theorem zmul_of_ne_zero {x : F} (h : eq x 0 = false) (y : F) : zmul x y = x * y := by
  simp [zmul, h]

end Scalar

end JetTape
