import JetTape.Recurrence.Product

/-!
Exponentials, logarithms, square roots, powers and the error function. For `z = f x` with
`z' = g x'`, comparing coefficients of order `q - 1` gives `q z_q` as a convolution of `k x_k`
with lower orders of `g`.
-/
namespace JetTape.Recurrence

open Arena (Update assign coeff zeroOrder)

variable {F : Type} [Scalar F]

/-- `z = exp x`: `z_q = (1/q) Σ k x_k z_{q-k}`. -/
def exp (q x z : Nat) : Update F Unit :=
  let r : F := reciprocal q
  assign z q fun l => do
    return (← weighted q q x z l) * r

/-- `z = exp x - 1`: `z_q = x_q + (1/q) Σ k x_k z_{q-k}`. -/
def expm1 (q x z : Nat) : Update F Unit :=
  let r : F := reciprocal q
  assign z q fun l => do
    let sum ← weighted q q x z l
    return (← coeff x q l) + sum * r

/-- `z = log (x + c)`: `z_q = (x_q - (1/q) Σ k z_k x_{q-k}) / (x_0 + c)`, with `k` below `q`. -/
def logShifted (c : F) (q x z : Nat) : Update F Unit := do
  let r : F := reciprocal q
  let x0 ← coeff (F := F) x 0 0
  let d := x0 + c
  assign z q fun l => do
    let sum ← weighted (q - 1) q z x l
    return ((← coeff x q l) - sum * r) / d

/-- `z = sqrt x`: `z_q = (x_q - Σ z_k z_{q-k}) / (2 z_0)`, with `k` from 1 to `q - 1`. -/
def sqrt (q x z : Nat) : Update F Unit := do
  let z0 ← coeff (F := F) z 0 0
  let d := Scalar.ofNat 2 * z0
  assign z q fun l => do
    let xq ← coeff x q l
    return (← lessInnerSquare xq q z l) / d

/-- The integral of `g x'`: `z_q = (1/q) Σ k x_k g_{q-k}`. -/
def integral (q x g z : Nat) : Update F Unit :=
  let r : F := reciprocal q
  assign z q fun l => do
    return (← weighted q q x g l) * r

/-- Powers, with rows `z - 2`, `z - 1` and `z` for the logarithm of the base, its product with
the exponent, and the power. A constant base has a logarithm without higher orders. -/
def power : Power → Recurrence F
  | .vv, q, z, args, _ => do
    let log ← Index.sub z 2
    let scaled ← Index.sub z 1
    logShifted 0 q (← Index.arg args 0) log
    product (· * ·) q scaled (Index.toArg log) (← Index.arg args 1)
    exp q scaled z
  | .pv, q, z, args, _ => do
    let log ← Index.sub z 2
    let scaled ← Index.sub z 1
    let y ← Index.arg args 1
    zeroOrder log q
    let c ← coeff (F := F) log 0 0
    linear (c * ·) q scaled y
    exp q scaled z
  | .vp, q, z, args, params => do
    let log ← Index.sub z 2
    let scaled ← Index.sub z 1
    let p ← Index.get params (← Index.arg args 1)
    logShifted 0 q (← Index.arg args 0) log
    linear (· * p) q scaled log
    exp q scaled z

/-- The error function, with rows `z - 4` to `z` for `x²`, `-x²`, `exp (-x²)`, the last scaled by
the derivative's constant, and the integral of that. The arguments are `x` and the parameters
that hold zero and the constant. -/
def erf : Recurrence F := fun q z args params => do
  let x ← Index.arg args 0
  let square ← Index.sub z 4
  let negated ← Index.sub z 3
  let gauss ← Index.sub z 2
  let scaled ← Index.sub z 1
  product (· * ·) q square x x
  let _ ← Index.arg args 1
  negate q negated (Index.toArg square)
  exp q negated gauss
  let c ← Index.get params (← Index.arg args 2)
  linear (c * ·) q scaled (Index.toArg gauss)
  integral q x scaled z

end JetTape.Recurrence
