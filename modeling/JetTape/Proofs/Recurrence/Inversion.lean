import JetTape.Proofs.Recurrence.Equations

/-!
Functions and their inverses. The factor by which the equation of an inverse function is divided has
the square of the companion of the function, or of the tangent, so the two are the same series if
they are at order 0. Then the factor can be cancelled, and the inverse function of the function of
an operand has the coefficients of the operand. A quotient undoes a product in the same way.
-/
namespace JetTape

open PowerSeries (coeff coeff_mk derivative)
open scoped PowerSeries

variable {K : Type} [Field K]

/-- The function that undoes a function of one variable. -/
def Elementary.inverse? : Elementary → Option Elementary
  | .sin => some .asin
  | .cos => some .acos
  | .tan => some .atan
  | .sinh => some .asinh
  | .cosh => some .acosh
  | .tanh => some .atanh
  | .exp => some .log
  | _ => none

/-- What a function needs at order 0 to be undone: the value of its companion, its own, and that of
the factor of its inverse. The factor of a root has to be the companion, and that of a tangent what
its square says. -/
def Elementary.Matches (f : Elementary) (companion value factor : K) : Prop :=
  match f with
  | .sin | .cos | .sinh | .cosh => factor = companion ∧ factor ≠ 0
  | .tan => companion = value * value ∧ factor = 1 + value * value ∧ factor ≠ 0
  | .tanh => companion = value * value ∧ factor = 1 - value * value ∧ factor ≠ 0
  | .exp => value ≠ 0
  | _ => False

section Series

variable {q : Nat} {sign : K} {x y s c u b w z : K⟦X⟧}

theorem SolvesPair.cosine_mul_self (h : SolvesPair sign q x s c) :
    AgreeHigher q (c * c) (PowerSeries.C sign * (s * s)) := by
  intro k h0 hk
  have hform := h.form k h0 hk
  rwa [map_sub, map_zero, sub_eq_zero] at hform

variable [CharZero K]

/-- If the factor of an inverse function is what the derivative of the function is divided by, then
cancelling it leaves the derivative of the operand. -/
theorem SolvesInverse.cancel {root : Bool} {factor : K} (h : SolvesInverse root factor sign q u b z)
    (hsign : sign * sign = 1) (hb : coeff 0 b ≠ 0) (hfactor : AgreeBelow q b w)
    (hu : AgreeBelow q (derivative K u) (PowerSeries.C sign * w * derivative K x)) :
    AgreeHigher q z x := by
  have hsquare : PowerSeries.C sign * PowerSeries.C sign = 1 := by
    rw [← map_mul, hsign, map_one]
  apply AgreeHigher.iff_derivative.mpr
  apply AgreeBelow.cancel_left hb
  calc AgreeBelow q (b * derivative K z) (PowerSeries.C sign * derivative K u) := h.quotient
    AgreeBelow q _ (PowerSeries.C sign * (PowerSeries.C sign * w * derivative K x)) :=
      (AgreeBelow.refl q _).mul hu
    _ = w * derivative K x := by linear_combination w * derivative K x * hsquare
    AgreeBelow q _ (b * derivative K x) := hfactor.symm.mul (.refl q _)

theorem SolvesPair.inverse_sine (h : SolvesPair sign q x s c)
    (hinverse : SolvesInverse true sign 1 q s b z) (hzero : coeff 0 b = coeff 0 c)
    (hb : coeff 0 b ≠ 0) : AgreeHigher q z x := by
  have hroot : AgreeHigher q (b * b) (c * c) := hinverse.factor.trans h.cosine_mul_self.symm
  have hfactor := (AgreeHigher.of_mul_self hzero hb hroot).mono (Nat.le_succ q)
  refine hinverse.cancel (one_mul 1) hb hfactor ?_
  rw [map_one, one_mul]
  exact h.sine

theorem SolvesPair.inverse_cosine (h : SolvesPair sign q x s c) (hsign : sign * sign = 1)
    (hinverse : SolvesInverse true sign sign q c b z) (hzero : coeff 0 b = coeff 0 s)
    (hb : coeff 0 b ≠ 0) : AgreeHigher q z x := by
  have hroot : AgreeHigher q (b * b) (s * s) := by
    have hsquare : AgreeHigher q (b * b) (PowerSeries.C sign * (c * c)) := hinverse.factor
    intro k h0 hk
    rw [hsquare k h0 hk, PowerSeries.coeff_C_mul, h.cosine_mul_self k h0 hk,
      PowerSeries.coeff_C_mul, ← mul_assoc, hsign, one_mul]
  have hfactor := (AgreeHigher.of_mul_self hzero hb hroot).mono (Nat.le_succ q)
  exact hinverse.cancel hsign hb hfactor h.cosine

theorem SolvesTangent.inverse (h : SolvesTangent sign q x y u)
    (hinverse : SolvesInverse false sign 1 q u b z)
    (hzero : coeff 0 b = 1 + sign * coeff 0 y) (hb : coeff 0 b ≠ 0) : AgreeHigher q z x := by
  have hfactor : AgreeBelow (q + 1) b (1 + PowerSeries.C sign * y) := by
    have hsquare : AgreeHigher q b (PowerSeries.C sign * (u * u)) := hinverse.factor
    apply AgreeHigher.below_iff.mpr
    constructor
    · rw [hzero, map_add, PowerSeries.coeff_C_mul, PowerSeries.coeff_zero_one]
    · intro k h0 hk
      rw [hsquare k h0 hk, map_add, PowerSeries.coeff_one, if_neg (Nat.ne_of_gt h0), zero_add,
        PowerSeries.coeff_C_mul, PowerSeries.coeff_C_mul, h.square k h0 hk]
  refine hinverse.cancel (one_mul 1) hb (hfactor.mono (Nat.le_succ q)) ?_
  rw [map_one, one_mul]
  exact h.tangent

/-- The equations of a function and of its inverse leave the coefficients of the operand. -/
theorem Elementary.Solves.inverse {f g : Elementary} (hf : f.Solves q x y u) (hg : g.Solves q u b z)
    (hinverse : f.inverse? = some g) (hmatches : f.Matches (coeff 0 y) (coeff 0 u) (coeff 0 b)) :
    AgreeHigher q z x := by
  cases f with
  | sin | sinh =>
    cases hinverse
    obtain ⟨hzero, hb⟩ := hmatches
    exact SolvesPair.inverse_sine hf (hg hb) hzero hb
  | cos | cosh =>
    cases hinverse
    obtain ⟨hzero, hb⟩ := hmatches
    exact SolvesPair.inverse_cosine hf (by norm_num) (hg hb) hzero hb
  | tan | tanh =>
    cases hinverse
    obtain ⟨hsquare, hzero, hb⟩ := hmatches
    refine SolvesTangent.inverse hf (hg hb) ?_ hb
    rw [hzero, hsquare]
    ring
  | exp =>
    cases hinverse
    have hu : coeff 0 u ≠ 0 := hmatches
    apply AgreeHigher.iff_derivative.mpr
    apply AgreeBelow.cancel_left hu
    have hf : AgreeBelow q (derivative K u) (derivative K x * u) := hf
    rw [mul_comm] at hf
    exact (hg hu).trans hf
  | _ => cases hinverse

end Series

/-- The second instruction undoes the first one on values of order 0 like these: the inverse of a
function of one variable, or the quotient of a product by its second operand. -/
inductive Undoes (value : Nat → K) : Instr → Instr → Prop where
  | elementary {f g : Elementary} {x y z : Nat} (hinverse : f.inverse? = some g)
      (hmatches : f.Matches (value (y - 1)) (value y) (value (z - 1))) :
      Undoes value ⟨.elementary f, [x], y⟩ ⟨.elementary g, [y], z⟩
  | product {x y p z : Nat} (hfirst : value z = value x) (hdivisor : value y ≠ 0) :
      Undoes value ⟨.arithmetic .mulVV, [x, y], p⟩ ⟨.arithmetic .divVV, [p, y], z⟩

variable {first second : Instr}

theorem Undoes.isPlain {value : Nat → K} (h : Undoes value first second) :
    first.op.isPlain = true ∧ second.op.isPlain = true := by
  cases h <;> exact ⟨rfl, rfl⟩

theorem Undoes.resultCount_pos {value : Nat → K} (h : Undoes value first second) :
    0 < first.op.resultCount ∧ 0 < second.op.resultCount := by
  cases h with
  | @elementary f g => exact ⟨f.resultCount_pos, g.resultCount_pos⟩
  | product => exact ⟨Nat.one_pos, Nat.one_pos⟩

variable [LinearOrder K] [IsStrictOrderedRing K] [ExactScalar K] {q : Nat} {j : Jet K}
variable {params : Array K} {resolved : Array Nat}

/-- Where two instructions are settled of which the second undoes the first one, the last result has
the coefficients of the first operand. -/
theorem Undoes.agree (h : Undoes (fun v => j v 0) first second) (hpos : 0 < first.row)
    (hpos' : 0 < second.row)
    (hfirst : ∀ k, 0 < k → k ≤ q → j.advance k params resolved first = j)
    (hsecond : ∀ k, 0 < k → k ≤ q → j.advance k params resolved second = j) :
    AgreeHigher q (PowerSeries.mk (j second.row))
      (PowerSeries.mk (j (first.args.getD 0 0))) := by
  cases h with
  | @elementary f g x y z hinverse hmatches =>
    have hf := f.solves_of_settled (x := x) hpos hfirst
    have hg := g.solves_of_settled (x := y) hpos' hsecond
    apply hf.inverse hg hinverse
    rwa [coeff_mk, coeff_mk, coeff_mk]
  | @product x y p z hzero hdivisor =>
    have hproduct := Series.product_solves fun k h0 hk => Jet.eq_of_set (hfirst k h0 hk)
    have hquotient := Series.quotient_solves hdivisor fun k h0 hk =>
      Jet.eq_of_set (hsecond k h0 hk)
    refine (hquotient.trans hproduct).cancel_right ?_ ?_
    · rw [coeff_mk, coeff_mk]
      exact hzero
    · rw [coeff_mk]
      exact hdivisor

end JetTape
