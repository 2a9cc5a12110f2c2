import JetTape.Proofs.Arena.Jet
import JetTape.Proofs.Recurrence.Series
import JetTape.Program

/-!
Instructions on a single jet. `Jet.advance` gives the result rows of an instruction their order-`q`
coefficients along one direction, the auxiliary rows in the order in which the recurrence fills
them.
-/
namespace JetTape.Jet

variable {F : Type} [Scalar F]

/-- The coefficient of an arithmetic instruction. -/
def arithmeticCoeff (f : Arithmetic) (q z : Nat) (args : List Nat) (params : Array F)
    (j : Jet F) : F :=
  let a := args.getD 0 0
  let b := args.getD 1 0
  match f with
  | .addVV => j a q + j b q
  | .addPV => j b q
  | .subVV => j a q - j b q
  | .subPV => -j b q
  | .subVP => j a q
  | .mulVV => Series.convolution (· * ·) q (j a) (j b)
  | .mulPV => params.getD a 0 * j b q
  | .divVV => Series.quotient q (j a) (j b) (j z)
  | .divPV => Series.reciprocalOf q (j b) (j z)
  | .divVP => j a q / params.getD b 0
  | .zmulVV => Series.convolution Scalar.zmul q (j a) (j b)
  | .zmulPV => Scalar.zmul (params.getD a 0) (j b q)
  | .zmulVP => Scalar.zmul (j a q) (params.getD b 0)

/-- Powers fill the rows of the logarithm, of its product with the exponent, and of the power. -/
def power (f : Power) (q z : Nat) (args : List Nat) (params : Array F) (j : Jet F) : Jet F :=
  let x := args.getD 0 0
  let y := args.getD 1 0
  let log (j : Jet F) := j.set (z - 2) q (Series.logShifted q 0 (j x) (j (z - 2)))
  let exp (j : Jet F) := j.set z q (Series.integral q (j (z - 1)) (j z))
  match f with
  | .vv =>
    let j := log j
    exp (j.set (z - 1) q (Series.convolution (· * ·) q (j (z - 2)) (j y)))
  | .pv =>
    let j := j.set (z - 2) q 0
    exp (j.set (z - 1) q (j (z - 2) 0 * j y q))
  | .vp =>
    let j := log j
    exp (j.set (z - 1) q (j (z - 2) q * params.getD y 0))

/-- Sine and cosine advance together, from the same lower orders. -/
def sineCosine (hyperbolic : Bool) (q x s c : Nat) (j : Jet F) : Jet F :=
  (j.set s q (Series.sine q (j x) (j s) (j c))).set c q
    (Series.cosine q hyperbolic (j x) (j s) (j c))

/-- The tangent comes before its square. -/
def tangent (sign : F) (q x z y : Nat) (j : Jet F) : Jet F :=
  let j := j.set z q (Series.tangent q sign (j x) (j y))
  j.set y q (Series.convolution (· * ·) q (j z) (j z))

/-- The factor `b` comes before the inverse function. -/
def inverse (factor : F) (root : Bool) (sign : F) (q x z b : Nat) (j : Jet F) : Jet F :=
  let j := j.set b q (if root then Series.rootFactor q factor (j x) (j b)
    else Series.squareFactor q factor (j x))
  j.set z q (Series.inverse q sign (j x) (j z) (j b))

def elementary (f : Elementary) (q z x : Nat) (j : Jet F) : Jet F :=
  match f with
  | .exp => j.set z q (Series.integral q (j x) (j z))
  | .expm1 => j.set z q (Series.expm1 q (j x) (j z))
  | .log => j.set z q (Series.logShifted q 0 (j x) (j z))
  | .log1p => j.set z q (Series.logShifted q 1 (j x) (j z))
  | .sqrt => j.set z q (Series.sqrt q (j x) (j z))
  | .sin => j.sineCosine false q x z (z - 1)
  | .cos => j.sineCosine false q x (z - 1) z
  | .sinh => j.sineCosine true q x z (z - 1)
  | .cosh => j.sineCosine true q x (z - 1) z
  | .tan => j.tangent 1 q x z (z - 1)
  | .tanh => j.tangent (-1) q x z (z - 1)
  | .asin => j.inverse (-1) true 1 q x z (z - 1)
  | .acos => j.inverse (-1) true (-1) q x z (z - 1)
  | .atan => j.inverse 1 false 1 q x z (z - 1)
  | .asinh => j.inverse 1 true 1 q x z (z - 1)
  | .acosh => j.inverse 1 true 1 q x z (z - 1)
  | .atanh => j.inverse (-1) false 1 q x z (z - 1)
  | .abs => j.set z q (Scalar.sign (j x 0) * j x q)
  | .sign => j.set z q 0

/-- The error function fills the rows of `x²`, `-x²`, its exponential, that scaled, and the
integral. -/
def erf (q z : Nat) (args : List Nat) (params : Array F) (j : Jet F) : Jet F :=
  let x := args.getD 0 0
  let j := j.set (z - 4) q (Series.convolution (· * ·) q (j x) (j x))
  let j := j.set (z - 3) q (-j (z - 4) q)
  let j := j.set (z - 2) q (Series.integral q (j (z - 3)) (j (z - 2)))
  let j := j.set (z - 1) q (params.getD (args.getD 2 0) 0 * j (z - 2) q)
  j.set z q (Series.integral q (j x) (j (z - 1)))

/-- The order-0 value of an operand of a conditional. -/
def conditionValue (flags bit index : Nat) (params : Array F) (j : Jet F) : F :=
  if flags.testBit bit then j index 0 else params.getD index 0

/-- Whether the relation of a conditional holds between the order-0 values. -/
def condition (args : List Nat) (params : Array F) (j : Jet F) : Bool :=
  match Relation.ofCode (args.getD 0 0) with
  | .ok relation =>
    relation.holds (j.conditionValue (args.getD 1 0) 0 (args.getD 2 0) params)
      (j.conditionValue (args.getD 1 0) 1 (args.getD 3 0) params)
  | .error _ => false

/-- The coefficient of a conditional. -/
def chooseCoeff (q : Nat) (args : List Nat) (params : Array F) (j : Jet F) : F :=
  if j.condition args params then
    if (args.getD 1 0).testBit 2 then j (args.getD 4 0) q else 0
  else if (args.getD 1 0).testBit 3 then j (args.getD 5 0) q else 0

/-- The coefficient of a long sum. -/
def sumCoeff (q : Nat) (args : List Nat) (j : Jet F) : F :=
  let added := (args.drop 3).take (args.getD 0 0)
  let subtracted := (args.drop (3 + args.getD 0 0)).take (args.getD 1 0)
  subtracted.foldl (fun sum y => sum - j y q) (added.foldl (fun sum x => sum + j x q) 0)

/-- The variable that a load stands for, or 0 for a constant. -/
def loadedRow (args : List Nat) (resolved : Array Nat) : Nat := resolved.getD (args.getD 2 0) 0

/-- The coefficient of an indirect load. -/
def loadCoeff (q : Nat) (args : List Nat) (resolved : Array Nat) (j : Jet F) : F :=
  if 0 < loadedRow args resolved then j (loadedRow args resolved) q else 0

/-- Gives the result rows of an instruction outside call blocks their order-`q` coefficients. -/
def advance (q : Nat) (params : Array F) (resolved : Array Nat) (ins : Instr) (j : Jet F) :
    Jet F :=
  match ins.op with
  | .arithmetic f => j.set ins.row q (j.arithmeticCoeff f q ins.row ins.args params)
  | .power f => j.power f q ins.row ins.args params
  | .elementary f => j.elementary f q ins.row (ins.args.getD 0 0)
  | .erf => j.erf q ins.row ins.args params
  | .discrete | .constant => j.set ins.row q 0
  | .choose => j.set ins.row q (j.chooseCoeff q ins.args params)
  | .sum => j.set ins.row q (j.sumCoeff q ins.args)
  | .load _ => j.set ins.row q (j.loadCoeff q ins.args resolved)
  | _ => j

end JetTape.Jet
