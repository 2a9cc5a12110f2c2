import JetTape.Recurrence.Basic

/-!
Circular and hyperbolic functions and their inverses. Each keeps an auxiliary row that closes its
differential equation: the companion function, the square of the tangent, or the factor `b` in
`b z' = ± x'`.
-/
namespace JetTape.Recurrence

open Arena (Update assign coeff eachDirection setCoeff)

variable {F : Type} [Scalar F]

/-- The sums `Σ k x_k c_{q-k}` and `Σ k x_k s_{q-k}` over `k` from 1 to `q`. -/
def weightedPair (q x s c l : Nat) : Arena.Read F (F × F) :=
  Loop.fold q 1 (fun sums k => do
    let kx := Scalar.ofNat k * (← coeff x k l)
    let ofS := sums.1 + kx * (← coeff c (q - k) l)
    let ofC := sums.2 + kx * (← coeff s (q - k) l)
    return (ofS, ofC)) (0, 0)

/-- `s = sin x` and `c = cos x`, or `sinh` and `cosh`: `s' = c x'` and `c' = ∓ s x'`. -/
def sineCosine (hyperbolic : Bool) (q x s c : Nat) : Update F Unit :=
  let r : F := reciprocal q
  eachDirection fun l => do
    let sums ← weightedPair (F := F) q x s c l
    setCoeff s q l (sums.1 * r)
    setCoeff c q l ((if hyperbolic then sums.2 else -sums.2) * r)

/-- `z = tan x` or `tanh x` with `y = z²`: `z' = (1 ± y) x'`. -/
def tangent (sign : F) (q x z y : Nat) : Update F Unit :=
  let r : F := reciprocal q
  eachDirection fun l => do
    let sum ← weighted (F := F) q q x y l
    let xq ← coeff (F := F) x q l
    setCoeff z q l (xq + sign * sum * r)
    let square ← convolution (F := F) (· * ·) q z z l
    setCoeff y q l square

/-- The auxiliary row `b = c ± x²`. The constant `c` shows at order 0 only. -/
def squareFactor (sign : F) (q x b : Nat) : Update F Unit := do
  let _ ← coeff (F := F) b 0 0
  assign b q fun l => do
    return sign * (← convolution (· * ·) q x x l)

/-- The auxiliary row `b = sqrt (c ± x²)`. -/
def rootFactor (sign : F) (q x b : Nat) : Update F Unit := do
  let b0 ← coeff (F := F) b 0 0
  let d := Scalar.ofNat 2 * b0
  assign b q fun l => do
    let square ← convolution (· * ·) q x x l
    return (← lessInnerSquare (sign * square) q b l) / d

/-- `b z' = ± x'`: `z_q = (± q x_q - Σ k z_k b_{q-k}) / (q b_0)`, with `k` below `q`. -/
def inverse (sign : F) (q x z b : Nat) : Update F Unit := do
  let n : F := Scalar.ofNat q
  let b0 ← coeff (F := F) b 0 0
  let d := n * b0
  assign z q fun l => do
    let first := sign * n * (← coeff x q l)
    let sum ← Loop.fold (q - 1) 1 (fun sum k => do
      return sum - Scalar.ofNat k * (← coeff z k l) * (← coeff b (q - k) l)) first
    return sum / d

end JetTape.Recurrence
