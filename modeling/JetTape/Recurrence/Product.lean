import JetTape.Opcode
import JetTape.Recurrence.Basic

/-!
Sums, products and quotients. Each definition sets row `z` at order `q` from operand rows `x`
and `y` or a parameter `p`; a parameter has no coefficients above order 0.
-/
namespace JetTape.Recurrence

open Arena (Update assign coeff copyOrder)

variable {F : Type} [Scalar F]

/-- `z = x + y`. -/
def add (q z x y : Nat) : Update F Unit :=
  assign z q fun l => return (← coeff x q l) + (← coeff y q l)

/-- `z = x - y`. -/
def sub (q z x y : Nat) : Update F Unit :=
  assign z q fun l => return (← coeff x q l) - (← coeff y q l)

/-- `z = p - y`. -/
def negate (q z y : Nat) : Update F Unit :=
  assign z q fun l => return -(← coeff y q l)

/-- `z = x ∘ y`, for a product `∘`. -/
def product (mul : F → F → F) (q z x y : Nat) : Update F Unit :=
  assign z q fun l => convolution mul q x y l

/-- `z = f y`, for a linear `f`. -/
def linear (f : F → F) (q z y : Nat) : Update F Unit :=
  assign z q fun l => return f (← coeff y q l)

/-- `z = x / y`: `z_q = (x_q - Σ z_{q-k} y_k) / y_0`. -/
def quotient (q z x y : Nat) : Update F Unit := do
  let y0 ← coeff (F := F) y 0 0
  assign z q fun l => do
    let xq ← coeff x q l
    return (← lessQuotientTerms xq q z y l) / y0

/-- `z = p / y`: `z_q = -(Σ z_{q-k} y_k) / y_0`. -/
def reciprocalOf (q z y : Nat) : Update F Unit := do
  let y0 ← coeff (F := F) y 0 0
  assign z q fun l => do
    return (← lessQuotientTerms 0 q z y l) / y0

/-- The recurrence of an arithmetic instruction. -/
def arithmetic : Arithmetic → Recurrence F
  | .addVV, q, z, args, _ => do
    let x ← Index.arg args 0
    let y ← Index.arg args 1
    add q z x y
  | .addPV, q, z, args, _ => do
    copyOrder z (← Index.arg args 1) q
  | .subVV, q, z, args, _ => do
    let x ← Index.arg args 0
    let y ← Index.arg args 1
    sub q z x y
  | .subPV, q, z, args, _ => do
    negate q z (← Index.arg args 1)
  | .subVP, q, z, args, _ => do
    copyOrder z (← Index.arg args 0) q
  | .mulVV, q, z, args, _ => do
    let x ← Index.arg args 0
    let y ← Index.arg args 1
    product (· * ·) q z x y
  | .mulPV, q, z, args, params => do
    let p ← Index.get params (← Index.arg args 0)
    linear (p * ·) q z (← Index.arg args 1)
  | .divVV, q, z, args, _ => do
    let x ← Index.arg args 0
    let y ← Index.arg args 1
    quotient q z x y
  | .divPV, q, z, args, _ => do
    reciprocalOf q z (← Index.arg args 1)
  | .divVP, q, z, args, params => do
    let x ← Index.arg args 0
    let p ← Index.get params (← Index.arg args 1)
    linear (· / p) q z x
  | .zmulVV, q, z, args, _ => do
    let x ← Index.arg args 0
    let y ← Index.arg args 1
    product Scalar.zmul q z x y
  | .zmulPV, q, z, args, params => do
    let p ← Index.get params (← Index.arg args 0)
    linear (Scalar.zmul p) q z (← Index.arg args 1)
  | .zmulVP, q, z, args, params => do
    let x ← Index.arg args 0
    let p ← Index.get params (← Index.arg args 1)
    linear (Scalar.zmul · p) q z x

end JetTape.Recurrence
