import JetTape.Arena.Basic

/-!
The common shape of the recurrences. At order `q > 0` a recurrence gives its result rows their
order-`q` coefficients from coefficients that are already in the arena: the operands up to order
`q`, and its own rows below it.
-/
namespace JetTape

/-- The order, the primary result row, the arguments and the parameter table. -/
abbrev Recurrence (F : Type) : Type :=
  Nat → Nat → List Nat → Array F → Arena.Update F Unit

namespace Recurrence

open Arena (Read coeff)

variable {F : Type} [Scalar F]

/-- `Σ x_k ∘ y_{q-k}` over `k` from 0 to `q`, for a product `∘`. -/
def convolution (product : F → F → F) (q x y l : Nat) : Read F F :=
  Loop.fold (q + 1) 0 (fun sum k => do
    return sum + product (← coeff x k l) (← coeff y (q - k) l)) 0

/-- `Σ k x_k y_{q-k}` over the first `n` positive `k`. -/
def weighted (n q x y l : Nat) : Read F F :=
  Loop.fold n 1 (fun sum k => do
    return sum + Scalar.ofNat k * (← coeff x k l) * (← coeff y (q - k) l)) 0

/-- `start - Σ x_k x_{q-k}` over `k` from 1 to `q - 1`. -/
def lessInnerSquare (start : F) (q x l : Nat) : Read F F :=
  Loop.fold (q - 1) 1 (fun sum k => do
    return sum - (← coeff x k l) * (← coeff x (q - k) l)) start

/-- `start - Σ z_{q-k} y_k` over `k` from 1 to `q`. -/
def lessQuotientTerms (start : F) (q z y l : Nat) : Read F F :=
  Loop.fold q 1 (fun sum k => do
    return sum - (← coeff z (q - k) l) * (← coeff y k l)) start

/-- The reciprocal of an order. -/
def reciprocal (q : Nat) : F := 1 / Scalar.ofNat q

end Recurrence

end JetTape
