import JetTape.Recurrence.Choice
import JetTape.Recurrence.Circular
import JetTape.Recurrence.Exponential

/-!
The recurrence of each operation.
-/
namespace JetTape.Recurrence

variable {F : Type} [Scalar F]

/-- The recurrence of a function of one variable; an auxiliary row lies below the primary one. -/
def elementary : Elementary → Recurrence F
  | .exp, q, z, args, _ => do exp q (← Index.arg args 0) z
  | .expm1, q, z, args, _ => do expm1 q (← Index.arg args 0) z
  | .log, q, z, args, _ => do logShifted 0 q (← Index.arg args 0) z
  | .log1p, q, z, args, _ => do logShifted 1 q (← Index.arg args 0) z
  | .sqrt, q, z, args, _ => do sqrt q (← Index.arg args 0) z
  | .sin, q, z, args, _ => do
    let x ← Index.arg args 0
    sineCosine false q x z (← Index.sub z 1)
  | .cos, q, z, args, _ => do
    let x ← Index.arg args 0
    sineCosine false q x (← Index.sub z 1) z
  | .sinh, q, z, args, _ => do
    let x ← Index.arg args 0
    sineCosine true q x z (← Index.sub z 1)
  | .cosh, q, z, args, _ => do
    let x ← Index.arg args 0
    sineCosine true q x (← Index.sub z 1) z
  | .tan, q, z, args, _ => do
    let x ← Index.arg args 0
    tangent 1 q x z (← Index.sub z 1)
  | .tanh, q, z, args, _ => do
    let x ← Index.arg args 0
    tangent (-1) q x z (← Index.sub z 1)
  | .asin, q, z, args, _ => do
    let x ← Index.arg args 0
    let b ← Index.sub z 1
    rootFactor (-1) q x b
    inverse 1 q x z b
  | .acos, q, z, args, _ => do
    let x ← Index.arg args 0
    let b ← Index.sub z 1
    rootFactor (-1) q x b
    inverse (-1) q x z b
  | .atan, q, z, args, _ => do
    let x ← Index.arg args 0
    let b ← Index.sub z 1
    squareFactor 1 q x b
    inverse 1 q x z b
  | .asinh, q, z, args, _ => do
    let x ← Index.arg args 0
    let b ← Index.sub z 1
    rootFactor 1 q x b
    inverse 1 q x z b
  | .acosh, q, z, args, _ => do
    let x ← Index.arg args 0
    let b ← Index.sub z 1
    rootFactor 1 q x b
    inverse 1 q x z b
  | .atanh, q, z, args, _ => do
    let x ← Index.arg args 0
    let b ← Index.sub z 1
    squareFactor (-1) q x b
    inverse 1 q x z b
  | .abs, q, z, args, _ => do abs q (← Index.arg args 0) z
  | .sign, q, z, args, params => constant q z args params

/-- The recurrence of an operation, if it has one. Markers, call instructions and loads are
replayed by the sweep itself, and what is only recorded has nothing to compute. -/
def ofOpcode? : Opcode → Option (Recurrence F)
  | .arithmetic f => some (arithmetic f)
  | .power f => some (power f)
  | .elementary f => some (elementary f)
  | .erf => some erf
  | .discrete | .constant => some constant
  | .choose => some choose
  | .sum => some sum
  | .start | .stop | .independent | .skip | .load _ | .store _ _ | .compare _ | .print
  | .callMarker | .callArg _ | .callResult _ => none

end JetTape.Recurrence
