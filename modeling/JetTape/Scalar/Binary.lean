import JetTape.Scalar

/-!
Binary floating point as coefficient types: double and single precision, rounding to nearest
with ties to even. `Binary.Parts` is what a bit pattern stands for.
-/
namespace JetTape

instance : Scalar Float where
  zero := 0.0
  one := 1.0
  add := (· + ·)
  sub := (· - ·)
  mul := (· * ·)
  div := (· / ·)
  neg := (- ·)
  ofNat n := n.toUInt64.toFloat
  lt x y := x < y
  le x y := x ≤ y
  eq x y := x == y
  twoOverSqrtPi := Float.ofBits 0x3ff20dd750429b6d
  bytes := 8

instance : Scalar Float32 where
  zero := 0.0
  one := 1.0
  add := (· + ·)
  sub := (· - ·)
  mul := (· * ·)
  div := (· / ·)
  neg := (- ·)
  ofNat n := n.toUInt64.toFloat32
  lt x y := x < y
  le x y := x ≤ y
  eq x y := x == y
  twoOverSqrtPi := Float32.ofBits 0x3f906ebb
  bytes := 4

namespace Binary

/-- What a bit pattern stands for. A finite magnitude is `significand * 2 ^ exponent`;
`isPowerStep` says that the gap to the next smaller magnitude is half the gap above. -/
inductive Parts where
  | nan
  | infinite (negative : Bool)
  | finite (negative : Bool) (significand : Nat) (exponent : Int) (isPowerStep : Bool)
  deriving DecidableEq, Repr

/-- Takes a pattern apart that has `fraction` fraction bits below `width` exponent bits. -/
def Parts.ofBits (fraction width bits : Nat) : Parts :=
  let f := bits % (1 <<< fraction)
  let e := (bits >>> fraction) % (1 <<< width)
  let negative := (bits >>> (fraction + width)) % 2 = 1
  let top := (1 <<< width) - 1
  let bias := (1 <<< (width - 1)) - 1
  let unit : Int := 1 - (bias : Int) - (fraction : Int)
  if e = top then if f = 0 then .infinite negative else .nan
  else if e = 0 then .finite negative f unit false
  else .finite negative ((1 <<< fraction) + f) (unit + (e - 1 : Nat)) (f = 0 && 1 < e)

end Binary

/-- A coefficient type given by bit patterns. -/
class Binary (F : Type) extends Scalar F where
  parts : F → Binary.Parts

instance : Binary Float where
  parts x := Binary.Parts.ofBits 52 11 x.toBits.toNat

instance : Binary Float32 where
  parts x := Binary.Parts.ofBits 23 8 x.toBits.toNat

/-- Neither infinite nor a NaN. -/
def Binary.isFinite {F : Type} [Binary F] (x : F) : Bool :=
  match Binary.parts x with
  | .finite .. => true
  | _ => false

end JetTape
