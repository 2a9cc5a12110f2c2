import JetTape.Proofs.Recurrence.Advance
import JetTape.Proofs.Recurrence.Dilation
import JetTape.Proofs.Recurrence.PowerSeries

/-!
Equations of the functions of one variable. Read as power series, the operand, the auxiliary row and
the result of such a function satisfy a differential equation or an algebraic one. Each recurrence
is one of these equations at one order, solved for the top coefficient, so rows on which the
recurrences are settled satisfy the equations at all orders.
-/
namespace JetTape

open PowerSeries (coeff coeff_mk coeff_mul coeff_derivative derivative)
open scoped PowerSeries

variable {K : Type} [Field K]

namespace Series

variable [LinearOrder K] [ExactScalar K] {k q : Nat} {x y z b g s c : Series K} {shift sign : K}

/-!
### Sums of a recurrence as coefficients
-/

theorem convolution_eq_coeff (k : Nat) (x y : Series K) :
    convolution (· * ·) k x y = coeff k (PowerSeries.mk x * PowerSeries.mk y) := by
  rw [convolution_eq_sum, coeff_mul, Finset.Nat.sum_antidiagonal_eq_sum_range_succ fun i j =>
    coeff i (PowerSeries.mk x) * coeff j (PowerSeries.mk y)]
  simp only [coeff_mk]

theorem weighted_eq_sum (n q : Nat) (x y : Series K) :
    weighted n q x y = ∑ i ∈ Finset.range n, (i + 1 : K) * x (i + 1) * y (q - (i + 1)) := by
  have h := foldl_add_eq (fun i : Nat => (i : K) * x i * y (q - i)) 0 (List.range' 1 n)
  rw [zero_add, sum_map_range'] at h
  refine h.trans (Finset.sum_congr rfl fun i _ => ?_)
  rw [Nat.add_comm 1 i, Nat.cast_succ]

/-- The weighted sum up to the order itself is a coefficient of `x' y`. -/
theorem weighted_eq_coeff (k : Nat) (x y : Series K) :
    weighted (k + 1) (k + 1) x y =
      coeff k (derivative K (PowerSeries.mk x) * PowerSeries.mk y) := by
  rw [weighted_eq_sum, coeff_mul, Finset.Nat.sum_antidiagonal_eq_sum_range_succ fun i j =>
    coeff i (derivative K (PowerSeries.mk x)) * coeff j (PowerSeries.mk y)]
  apply Finset.sum_congr rfl
  intro i _
  rw [coeff_derivative, coeff_mk, coeff_mk, Nat.add_sub_add_right]
  ring

theorem weighted_succ (k : Nat) (x y : Series K) :
    weighted (k + 1) (k + 1) x y = weighted k (k + 1) x y + (k + 1) * x (k + 1) * y 0 := by
  rw [weighted_eq_sum, weighted_eq_sum, Finset.sum_range_succ, Nat.sub_self]

/-- In a coefficient of `b z'` the top term is the one with the order-0 value of `b`. -/
theorem mul_derivative_eq (k : Nat) (b z : Series K) :
    coeff k (PowerSeries.mk b * derivative K (PowerSeries.mk z)) =
      weighted k (k + 1) z b + (k + 1) * z (k + 1) * b 0 := by
  rw [mul_comm, ← weighted_eq_coeff, weighted_succ]

theorem lessWeighted_eq_sub (start : K) (q : Nat) (z b : Series K) :
    lessWeighted start q z b = start - weighted (q - 1) q z b := by
  have h := foldl_sub_eq (fun i : Nat => (i : K) * z i * b (q - i)) start (List.range' 1 (q - 1))
  have h' := foldl_add_eq (fun i : Nat => (i : K) * z i * b (q - i)) 0 (List.range' 1 (q - 1))
  rw [zero_add] at h'
  rw [← h'] at h
  exact h

/-- Of a square the inner square lacks the two terms with the top coefficient. -/
theorem lessInnerSquare_eq_sub (start : K) (k : Nat) (x : Series K) :
    lessInnerSquare start (k + 1) x =
      start - (convolution (· * ·) (k + 1) x x - 2 * x 0 * x (k + 1)) := by
  have h := foldl_sub_eq (fun i => x i * x (k + 1 - i)) start (List.range' 1 k)
  rw [sum_map_range'] at h
  refine h.trans ?_
  rw [convolution_eq_sum, Finset.sum_range_succ, Finset.sum_range_succ', Nat.sub_self]
  simp only [Nat.add_comm 1, Nat.sub_zero]
  ring

/-!
### Equations of the recurrences
-/

theorem squareFactor_solves (h : ∀ k, 0 < k → k ≤ q → b k = squareFactor k sign x) :
    AgreeHigher q (PowerSeries.mk b)
      (PowerSeries.C sign * (PowerSeries.mk x * PowerSeries.mk x)) := by
  intro k h0 hk
  rw [coeff_mk, h k h0 hk, PowerSeries.coeff_C_mul, ← convolution_eq_coeff]
  rfl

theorem product_solves (h : ∀ k, 0 < k → k ≤ q → z k = convolution (· * ·) k x y) :
    AgreeHigher q (PowerSeries.mk z) (PowerSeries.mk x * PowerSeries.mk y) := by
  intro k h0 hk
  rw [coeff_mk, h k h0 hk, convolution_eq_coeff]

theorem quotient_solves (hy : y 0 ≠ 0) (h : ∀ k, 0 < k → k ≤ q → z k = quotient k x y z) :
    AgreeHigher q (PowerSeries.mk z * PowerSeries.mk y) (PowerSeries.mk x) := by
  intro k h0 hk
  rw [coeff_mk, eq_sum_of_quotient hy (h k h0 hk), ← convolution_eq_sum, convolution_eq_coeff]

variable [IsStrictOrderedRing K]

theorem sqrt_solves (hz : z 0 ≠ 0) (h : ∀ k, 0 < k → k ≤ q → z k = sqrt k x z) :
    AgreeHigher q (PowerSeries.mk z * PowerSeries.mk z) (PowerSeries.mk x) := by
  rintro (_ | k) h0 hk
  · exact absurd h0 (Nat.lt_irrefl 0)
  have htop : z (k + 1) =
      (x (k + 1) - (convolution (· * ·) (k + 1) z z - 2 * z 0 * z (k + 1))) / (2 * z 0) := by
    rw [← lessInnerSquare_eq_sub]
    exact h (k + 1) h0 hk
  rw [eq_div_iff (mul_ne_zero two_ne_zero hz)] at htop
  rw [← convolution_eq_coeff, coeff_mk]
  -- The divisor is what the top coefficient is multiplied by in the square.
  linear_combination htop

theorem rootFactor_solves (hb : b 0 ≠ 0)
    (h : ∀ k, 0 < k → k ≤ q → b k = rootFactor k sign x b) :
    AgreeHigher q (PowerSeries.mk b * PowerSeries.mk b)
      (PowerSeries.C sign * (PowerSeries.mk x * PowerSeries.mk x)) := by
  have hroot := sqrt_solves (x := fun k => squareFactor k sign x) hb h
  intro k h0 hk
  rw [hroot k h0 hk, coeff_mk, PowerSeries.coeff_C_mul, ← convolution_eq_coeff]
  rfl

/-- What the weight of the top term and the division by the order come to. -/
theorem mul_reciprocal_cancel (k : Nat) (w : K) :
    w * Recurrence.reciprocal (k + 1) * (k + 1 : K) = w := by
  have hne : (k + 1 : K) ≠ 0 := Nat.cast_add_one_ne_zero k
  have hreciprocal : (Recurrence.reciprocal (k + 1) : K) = 1 / (k + 1 : K) :=
    congrArg (1 / ·) (Nat.cast_succ k)
  rw [hreciprocal, mul_assoc, one_div_mul_cancel hne, mul_one]

theorem integral_solves (h : ∀ k, 0 < k → k ≤ q → z k = integral k x g) :
    AgreeBelow q (derivative K (PowerSeries.mk z))
      (derivative K (PowerSeries.mk x) * PowerSeries.mk g) := by
  intro k hk
  rw [coeff_derivative, coeff_mk, h (k + 1) (Nat.succ_pos k) hk, ← weighted_eq_coeff]
  exact mul_reciprocal_cancel k _

theorem tangent_solves (h : ∀ k, 0 < k → k ≤ q → z k = tangent k sign x y) :
    AgreeBelow q (derivative K (PowerSeries.mk z))
      ((1 + PowerSeries.C sign * PowerSeries.mk y) * derivative K (PowerSeries.mk x)) := by
  intro k hk
  have hsplit : (1 + PowerSeries.C sign * PowerSeries.mk y) * derivative K (PowerSeries.mk x) =
      derivative K (PowerSeries.mk x) +
        PowerSeries.C sign * (derivative K (PowerSeries.mk x) * PowerSeries.mk y) := by
    ring
  rw [hsplit, map_add, PowerSeries.coeff_C_mul, ← weighted_eq_coeff, coeff_derivative,
    coeff_derivative, coeff_mk, coeff_mk, h (k + 1) (Nat.succ_pos k) hk]
  refine (add_mul _ _ _).trans (congrArg _ ?_)
  exact mul_reciprocal_cancel k _

theorem expm1_solves (h : ∀ k, 0 < k → k ≤ q → z k = expm1 k x z) :
    AgreeBelow q (derivative K (PowerSeries.mk z))
      (derivative K (PowerSeries.mk x) * (1 + PowerSeries.mk z)) := by
  have htangent (k : Nat) (h0 : 0 < k) (hk : k ≤ q) : z k = tangent k 1 x z := by
    rw [h k h0 hk, tangent, one_mul]
    rfl
  have hsolves := tangent_solves htangent
  rwa [map_one, one_mul, mul_comm] at hsolves

theorem inverse_solves (hb : b 0 ≠ 0) (h : ∀ k, 0 < k → k ≤ q → z k = inverse k sign x z b) :
    AgreeBelow q (PowerSeries.mk b * derivative K (PowerSeries.mk z))
      (PowerSeries.C sign * derivative K (PowerSeries.mk x)) := by
  intro k hk
  have hne : (k + 1 : K) ≠ 0 := Nat.cast_add_one_ne_zero k
  have htop : z (k + 1) = (sign * (k + 1) * x (k + 1) - weighted k (k + 1) z b) /
      ((k + 1) * b 0) := by
    rw [h (k + 1) (Nat.succ_pos k) hk, ← Nat.cast_succ]
    exact congrArg (· / _) (lessWeighted_eq_sub _ (k + 1) z b)
  rw [eq_div_iff (mul_ne_zero hne hb)] at htop
  rw [mul_derivative_eq, PowerSeries.coeff_C_mul, coeff_derivative, coeff_mk]
  linear_combination htop

theorem logShifted_solves (hx : x 0 + shift ≠ 0)
    (h : ∀ k, 0 < k → k ≤ q → z k = logShifted k shift x z) :
    AgreeBelow q ((PowerSeries.C shift + PowerSeries.mk x) * derivative K (PowerSeries.mk z))
      (derivative K (PowerSeries.mk x)) := by
  intro k hk
  have htop : z (k + 1) =
      (x (k + 1) - weighted k (k + 1) z x * Recurrence.reciprocal (k + 1)) / (x 0 + shift) :=
    h (k + 1) (Nat.succ_pos k) hk
  rw [eq_div_iff hx] at htop
  have hweighted := mul_reciprocal_cancel k (weighted k (k + 1) z x)
  rw [add_mul, map_add, PowerSeries.coeff_C_mul, mul_derivative_eq, coeff_derivative,
    coeff_derivative, coeff_mk, coeff_mk]
  linear_combination (k + 1 : K) * htop - hweighted

theorem sine_solves (h : ∀ k, 0 < k → k ≤ q → s k = sine k x s c) :
    AgreeBelow q (derivative K (PowerSeries.mk s))
      (derivative K (PowerSeries.mk x) * PowerSeries.mk c) :=
  integral_solves fun k h0 hk => by
    rw [h k h0 hk, sine, weightedPair_eq]
    rfl

theorem cosine_solves {hyperbolic : Bool}
    (h : ∀ k, 0 < k → k ≤ q → c k = cosine k hyperbolic x s c) :
    AgreeBelow q (derivative K (PowerSeries.mk c))
      (PowerSeries.C (if hyperbolic then 1 else -1) *
        (derivative K (PowerSeries.mk x) * PowerSeries.mk s)) := by
  intro k hk
  rw [coeff_derivative, coeff_mk, h (k + 1) (Nat.succ_pos k) hk, PowerSeries.coeff_C_mul,
    ← weighted_eq_coeff, cosine, weightedPair_eq]
  cases hyperbolic with
  | true => exact (mul_reciprocal_cancel k _).trans (one_mul _).symm
  | false => exact (mul_reciprocal_cancel k _).trans (neg_one_mul _).symm

end Series

/-!
### Equations of the functions
-/

/-- The system of a sine and a cosine, which is that of the hyperbolic ones for the sign 1. Their
quadratic form stays constant. -/
structure SolvesPair (sign : K) (q : Nat) (x s c : K⟦X⟧) : Prop where
  sine : AgreeBelow q (derivative K s) (c * derivative K x)
  cosine : AgreeBelow q (derivative K c) (PowerSeries.C sign * s * derivative K x)
  form : AgreeHigher q (c * c - PowerSeries.C sign * (s * s)) 0

/-- The equation of a tangent, or for the sign -1 of a hyperbolic one, and of its square `y`. -/
structure SolvesTangent (sign : K) (q : Nat) (x y z : K⟦X⟧) : Prop where
  tangent : AgreeBelow q (derivative K z) ((1 + PowerSeries.C sign * y) * derivative K x)
  square : AgreeHigher q y (z * z)

/-- The equations of an inverse function and of its factor `b`, which is `c ± x²` for a constant `c`
or the square root of that. -/
structure SolvesInverse (root : Bool) (factor sign : K) (q : Nat) (x b z : K⟦X⟧) : Prop where
  factor : AgreeHigher q (if root then b * b else b) (PowerSeries.C factor * (x * x))
  quotient : AgreeBelow q (b * derivative K z) (PowerSeries.C sign * derivative K x)

/-- The equations of a function at the orders up to `q`, for its operand `x`, the row `y` below its
result, and its result `z`. A value of order 0 that the function divides by must not be zero. -/
def Elementary.Solves (f : Elementary) (q : Nat) (x y z : K⟦X⟧) : Prop :=
  match f with
  | .exp => AgreeBelow q (derivative K z) (derivative K x * z)
  | .expm1 => AgreeBelow q (derivative K z) (derivative K x * (1 + z))
  | .log => coeff 0 x ≠ 0 → AgreeBelow q (x * derivative K z) (derivative K x)
  | .log1p => 1 + coeff 0 x ≠ 0 → AgreeBelow q ((1 + x) * derivative K z) (derivative K x)
  | .sqrt => coeff 0 z ≠ 0 → AgreeHigher q (z * z) x
  | .sin => SolvesPair (-1) q x z y
  | .cos => SolvesPair (-1) q x y z
  | .sinh => SolvesPair 1 q x z y
  | .cosh => SolvesPair 1 q x y z
  | .tan => SolvesTangent 1 q x y z
  | .tanh => SolvesTangent (-1) q x y z
  | .asin => coeff 0 y ≠ 0 → SolvesInverse true (-1) 1 q x y z
  | .acos => coeff 0 y ≠ 0 → SolvesInverse true (-1) (-1) q x y z
  | .atan => coeff 0 y ≠ 0 → SolvesInverse false 1 1 q x y z
  | .asinh | .acosh => coeff 0 y ≠ 0 → SolvesInverse true 1 1 q x y z
  | .atanh => coeff 0 y ≠ 0 → SolvesInverse false (-1) 1 q x y z
  | .abs | .sign => True

/-- Solutions of the system keep the quadratic form: its derivative is a combination of the two
equations. -/
theorem SolvesPair.of_system [CharZero K] {sign : K} {q : Nat} {x s c : K⟦X⟧}
    (hs : AgreeBelow q (derivative K s) (c * derivative K x))
    (hc : AgreeBelow q (derivative K c) (PowerSeries.C sign * s * derivative K x)) :
    SolvesPair sign q x s c := by
  refine ⟨hs, hc, AgreeHigher.iff_derivative.mpr ?_⟩
  rw [AgreeBelow.iff_dvd] at hs hc ⊢
  obtain ⟨u, hu⟩ := hs
  obtain ⟨v, hv⟩ := hc
  have hform : derivative K (c * c - PowerSeries.C sign * (s * s)) - derivative K 0 =
      2 * c * derivative K c - 2 * PowerSeries.C sign * s * derivative K s := by
    simp only [map_sub, map_zero, Derivation.leibniz, PowerSeries.derivative_C, smul_eq_mul]
    ring
  use 2 * c * v - 2 * PowerSeries.C sign * s * u
  rw [hform]
  linear_combination 2 * c * hv - 2 * PowerSeries.C sign * s * hu

variable [LinearOrder K] [IsStrictOrderedRing K] [ExactScalar K] {q : Nat} {j : Jet K}

namespace Jet

omit [LinearOrder K] [IsStrictOrderedRing K] [ExactScalar K] [Field K] in
/-- A jet that is its own update has the new coefficients, and the first of two updates does not
change it either. -/
theorem eq_of_set_set {a b k : Nat} {u w : K} (hne : a ≠ b)
    (h : (j.set a k u).set b k w = j) : j a k = u ∧ j b k = w ∧ j.set a k u = j := by
  have ha : j a k = u := by
    rw [← h, set_of_row_ne hne, set_self]
  have hb : j b k = w := by
    rw [← h, set_self]
  exact ⟨ha, hb, set_eq_self ha⟩

omit [LinearOrder K] [IsStrictOrderedRing K] [ExactScalar K] [Field K] in
/-- A jet that is its own update in three rows, each of which may be read by the next. -/
theorem eq_of_set_set_set {a b c k : Nat} {u : K} (v w : Jet K → K) (hab : a ≠ b) (hac : a ≠ c)
    (hbc : b ≠ c)
    (h : (let j₁ := j.set a k u; let j₂ := j₁.set b k (v j₁); j₂.set c k (w j₂)) = j) :
    j a k = u ∧ j b k = v j ∧ j c k = w j := by
  have ha : j a k = u := by
    rw [← h, set_of_row_ne hac, set_of_row_ne hab, set_self]
  simp only [set_eq_self ha] at h
  obtain ⟨hb, hc, hsecond⟩ := eq_of_set_set hbc h
  rw [hsecond] at hc
  exact ⟨ha, hb, hc⟩

theorem solvesPair (hyperbolic : Bool) {x s c : Nat} (hne : s ≠ c)
    (h : ∀ k, 0 < k → k ≤ q → j.sineCosine hyperbolic k x s c = j) :
    SolvesPair (if hyperbolic then 1 else -1) q (PowerSeries.mk (j x)) (PowerSeries.mk (j s))
      (PowerSeries.mk (j c)) := by
  have hsine := Series.sine_solves fun k h0 hk => (eq_of_set_set hne (h k h0 hk)).1
  have hcosine := Series.cosine_solves fun k h0 hk => (eq_of_set_set hne (h k h0 hk)).2.1
  rw [mul_comm] at hsine
  rw [mul_comm (derivative K _), ← mul_assoc] at hcosine
  exact .of_system hsine hcosine

theorem solvesTangent {sign : K} {x y z : Nat} (hne : z ≠ y)
    (h : ∀ k, 0 < k → k ≤ q → j.tangent sign k x z y = j) :
    SolvesTangent sign q (PowerSeries.mk (j x)) (PowerSeries.mk (j y)) (PowerSeries.mk (j z)) := by
  constructor
  · exact Series.tangent_solves fun k h0 hk => (eq_of_set_set hne (h k h0 hk)).1
  · intro k h0 hk
    obtain ⟨-, hsquare, hfirst⟩ := eq_of_set_set hne (h k h0 hk)
    rw [coeff_mk, hsquare, hfirst]
    exact Series.convolution_eq_coeff k _ _

theorem solvesInverse {factor sign : K} {root : Bool} {x z b : Nat} (hne : b ≠ z)
    (hb : j b 0 ≠ 0) (h : ∀ k, 0 < k → k ≤ q → j.inverse factor root sign k x z b = j) :
    SolvesInverse root factor sign q (PowerSeries.mk (j x)) (PowerSeries.mk (j b))
      (PowerSeries.mk (j z)) := by
  constructor
  · have hfactor (k : Nat) (h0 : 0 < k) (hk : k ≤ q) := (eq_of_set_set hne (h k h0 hk)).1
    cases root with
    | true => exact Series.rootFactor_solves hb hfactor
    | false => exact Series.squareFactor_solves hfactor
  · apply Series.inverse_solves hb
    intro k h0 hk
    obtain ⟨-, hinverse, hfirst⟩ := eq_of_set_set hne (h k h0 hk)
    rwa [hfirst] at hinverse

end Jet

/-- On a jet where a function is settled at the orders from 1 to `q` its rows solve its
equations. -/
theorem Elementary.solves_of_settled (f : Elementary) {x z : Nat} (hz : 0 < z)
    (h : ∀ k, 0 < k → k ≤ q → j.elementary f k z x = j) :
    f.Solves q (PowerSeries.mk (j x)) (PowerSeries.mk (j (z - 1))) (PowerSeries.mk (j z)) := by
  have hne : z - 1 ≠ z := by omega
  have hcoeff {c : Nat → K} (hset : ∀ k, j.elementary f k z x = j.set z k (c k)) (k : Nat)
      (h0 : 0 < k) (hk : k ≤ q) : j z k = c k :=
    Jet.eq_of_set ((hset k).symm.trans (h k h0 hk))
  cases f with
  | exp => exact Series.integral_solves (hcoeff fun _ => rfl)
  | expm1 => exact Series.expm1_solves (hcoeff fun _ => rfl)
  | log =>
    intro hx
    rw [coeff_mk] at hx
    have hlog := Series.logShifted_solves (by rwa [add_zero]) (hcoeff fun _ => rfl)
    rwa [map_zero, zero_add] at hlog
  | log1p =>
    intro hx
    rw [coeff_mk, add_comm] at hx
    have hlog := Series.logShifted_solves hx (hcoeff fun _ => rfl)
    rwa [map_one] at hlog
  | sqrt =>
    intro hfirst
    rw [coeff_mk] at hfirst
    exact Series.sqrt_solves hfirst (hcoeff fun _ => rfl)
  | sin => exact Jet.solvesPair false hne.symm h
  | cos => exact Jet.solvesPair false hne h
  | sinh => exact Jet.solvesPair true hne.symm h
  | cosh => exact Jet.solvesPair true hne h
  | tan | tanh => exact Jet.solvesTangent hne.symm h
  | asin | acos | atan | asinh | acosh | atanh =>
    intro hfactor
    rw [coeff_mk] at hfactor
    exact Jet.solvesInverse hne hfactor h
  | abs | sign => trivial

end JetTape
