import JetTape.Proofs.Recurrence.Operands
import JetTape.Proofs.Recurrence.Rational

/-!
Dilations. Replacing the parameter of a curve by a multiple of itself multiplies its coefficient of
order `k` by the `k`-th power of the factor. Every recurrence combines orders that add up to its
own, so advancing a dilated jet gives the dilated jet of what is advanced, auxiliary rows
included.
-/
namespace JetTape

section Pairs

variable {F : Type} [Scalar F]

/-- The two sums of a sine and a cosine are those of an exponential. -/
theorem Series.weightedPair_eq (q : Nat) (x s c : Series F) :
    weightedPair q x s c = (weighted q q x c, weighted q q x s) := by
  unfold weightedPair weighted
  generalize (0 : F) = a
  suffices h : ∀ (l : List Nat) (a b : F), l.foldl (fun sums k =>
      (sums.1 + Scalar.ofNat k * x k * c (q - k), sums.2 + Scalar.ofNat k * x k * s (q - k)))
      (a, b) = (l.foldl (fun sum k => sum + Scalar.ofNat k * x k * c (q - k)) a,
        l.foldl (fun sum k => sum + Scalar.ofNat k * x k * s (q - k)) b) from h _ a a
  intro l
  induction l with
  | nil => exact fun _ _ => rfl
  | cons k l ih => exact fun _ _ => ih _ _

end Pairs

variable {K : Type} [Field K]

namespace Series

/-- The series in the parameter that is `c` times as fast. -/
def dilate (c : K) (x : Series K) : Series K := fun k => c ^ k * x k

@[simp] theorem dilate_zero (c : K) (x : Series K) : x.dilate c 0 = x 0 := by
  simp [dilate]

theorem dilate_mul (c : K) (x y : Series K) {q k : Nat} (hk : k ≤ q) :
    x.dilate c k * y.dilate c (q - k) = c ^ q * (x k * y (q - k)) := by
  rw [dilate, dilate, ← Nat.add_sub_of_le hk, pow_add, Nat.add_sub_cancel_left]
  ring

theorem foldl_add_mul {ι : Type} {l : List ι} {f g : ι → K} {w : K} (h : ∀ i ∈ l, f i = w * g i)
    (s : K) :
    l.foldl (fun sum i => sum + f i) (w * s) = w * l.foldl (fun sum i => sum + g i) s := by
  rw [foldl_add_eq, foldl_add_eq, List.map_congr_left h, List.sum_map_mul_left, mul_add]

theorem foldl_sub_mul {ι : Type} {l : List ι} {f g : ι → K} {w : K} (h : ∀ i ∈ l, f i = w * g i)
    (s : K) :
    l.foldl (fun sum i => sum - f i) (w * s) = w * l.foldl (fun sum i => sum - g i) s := by
  rw [foldl_sub_eq, foldl_sub_eq, List.map_congr_left h, List.sum_map_mul_left, mul_sub]

variable [LinearOrder K] [ExactScalar K] (c : K) (q : Nat) (x y z : Series K)

theorem convolution_dilate :
    convolution (· * ·) q (x.dilate c) (y.dilate c) = c ^ q * convolution (· * ·) q x y := by
  have h := foldl_add_mul (l := List.range' 0 (q + 1)) (w := c ^ q)
    (f := fun k => x.dilate c k * y.dilate c (q - k)) (g := fun k => x k * y (q - k))
    (fun k hk => dilate_mul c x y (by rw [List.mem_range'_1] at hk; omega)) 0
  rw [mul_zero] at h
  exact h

theorem weighted_dilate {n : Nat} (hn : n ≤ q) :
    weighted n q (x.dilate c) (y.dilate c) = c ^ q * weighted n q x y := by
  have h := foldl_add_mul (l := List.range' 1 n) (w := c ^ q)
    (f := fun k => (k : K) * x.dilate c k * y.dilate c (q - k))
    (g := fun k => (k : K) * x k * y (q - k))
    (fun k hk => by
      rw [List.mem_range'_1] at hk
      rw [mul_assoc, dilate_mul c x y (by omega)]
      ring) 0
  rw [mul_zero] at h
  exact h

theorem lessInnerSquare_dilate (start : K) :
    lessInnerSquare (c ^ q * start) q (x.dilate c) = c ^ q * lessInnerSquare start q x :=
  foldl_sub_mul (l := List.range' 1 (q - 1)) (w := c ^ q)
    (f := fun k => x.dilate c k * x.dilate c (q - k)) (g := fun k => x k * x (q - k))
    (fun k hk => dilate_mul c x x (by rw [List.mem_range'_1] at hk; omega)) start

theorem lessQuotientTerms_dilate (start : K) :
    lessQuotientTerms (c ^ q * start) q (z.dilate c) (y.dilate c) =
      c ^ q * lessQuotientTerms start q z y :=
  foldl_sub_mul (l := List.range' 1 q) (w := c ^ q)
    (f := fun k => z.dilate c (q - k) * y.dilate c k) (g := fun k => z (q - k) * y k)
    (fun k hk => by
      rw [List.mem_range'_1] at hk
      rw [mul_comm, dilate_mul c y z (by omega), mul_comm (y k)]) start

theorem lessWeighted_dilate (start : K) :
    lessWeighted (c ^ q * start) q (z.dilate c) (y.dilate c) = c ^ q * lessWeighted start q z y :=
  foldl_sub_mul (l := List.range' 1 (q - 1)) (w := c ^ q)
    (f := fun k => (k : K) * z.dilate c k * y.dilate c (q - k))
    (g := fun k => (k : K) * z k * y (q - k))
    (fun k hk => by
      rw [List.mem_range'_1] at hk
      rw [mul_assoc, dilate_mul c z y (by omega)]
      ring) start

theorem quotient_dilate :
    quotient q (x.dilate c) (y.dilate c) (z.dilate c) = c ^ q * quotient q x y z := by
  unfold quotient
  rw [dilate_zero]
  exact (congrArg (· / y 0) (lessQuotientTerms_dilate c q y z (x q))).trans (mul_div_assoc _ _ _)

theorem reciprocalOf_dilate :
    reciprocalOf q (y.dilate c) (z.dilate c) = c ^ q * reciprocalOf q y z := by
  have h := lessQuotientTerms_dilate c q y z 0
  rw [mul_zero] at h
  unfold reciprocalOf
  rw [dilate_zero]
  exact (congrArg (· / y 0) h).trans (mul_div_assoc _ _ _)

theorem integral_dilate :
    integral q (x.dilate c) (y.dilate c) = c ^ q * integral q x y := by
  unfold integral
  rw [weighted_dilate c q x y (Nat.le_refl q)]
  exact mul_assoc _ _ _

theorem expm1_dilate : expm1 q (x.dilate c) (z.dilate c) = c ^ q * expm1 q x z :=
  (congrArg (c ^ q * x q + ·) (integral_dilate c q x z)).trans (mul_add _ _ _).symm

theorem logShifted_dilate (shift : K) :
    logShifted q shift (x.dilate c) (z.dilate c) = c ^ q * logShifted q shift x z := by
  have h : c ^ q * x q - c ^ q * weighted (q - 1) q z x * Recurrence.reciprocal q =
      c ^ q * (x q - weighted (q - 1) q z x * Recurrence.reciprocal q) := by
    ring
  unfold logShifted
  rw [dilate_zero, weighted_dilate c q z x (Nat.sub_le q 1)]
  exact (congrArg (· / (x 0 + shift)) h).trans (mul_div_assoc _ _ _)

theorem sqrt_dilate : sqrt q (x.dilate c) (z.dilate c) = c ^ q * sqrt q x z := by
  unfold sqrt
  rw [dilate_zero]
  exact (congrArg (· / _) (lessInnerSquare_dilate c q z (x q))).trans (mul_div_assoc _ _ _)

theorem sine_dilate (s : Series K) :
    sine q (x.dilate c) (s.dilate c) (y.dilate c) = c ^ q * sine q x s y := by
  simp only [sine, weightedPair_eq]
  exact integral_dilate c q x y

theorem cosine_dilate (hyperbolic : Bool) (s : Series K) :
    cosine q hyperbolic (x.dilate c) (s.dilate c) (y.dilate c) =
      c ^ q * cosine q hyperbolic x s y := by
  have h := integral_dilate c q x s
  have hneg : -weighted q q (x.dilate c) (s.dilate c) * Recurrence.reciprocal q =
      c ^ q * (-weighted q q x s * Recurrence.reciprocal q) := by
    rw [neg_mul, neg_mul, mul_neg]
    exact congrArg (-·) h
  simp only [cosine, weightedPair_eq]
  cases hyperbolic with
  | true => exact h
  | false => exact hneg

theorem tangent_dilate (sign : K) :
    tangent q sign (x.dilate c) (y.dilate c) = c ^ q * tangent q sign x y := by
  have h : c ^ q * x q + sign * (c ^ q * weighted q q x y) * Recurrence.reciprocal q =
      c ^ q * (x q + sign * weighted q q x y * Recurrence.reciprocal q) := by
    ring
  unfold tangent
  rw [weighted_dilate c q x y (Nat.le_refl q)]
  exact h

theorem squareFactor_dilate (sign : K) :
    squareFactor q sign (x.dilate c) = c ^ q * squareFactor q sign x := by
  unfold squareFactor
  rw [convolution_dilate]
  exact mul_left_comm _ _ _

theorem rootFactor_dilate (sign : K) :
    rootFactor q sign (x.dilate c) (y.dilate c) = c ^ q * rootFactor q sign x y := by
  have hstart : sign * convolution (· * ·) q (x.dilate c) (x.dilate c) =
      c ^ q * (sign * convolution (· * ·) q x x) := squareFactor_dilate c q x sign
  have h := lessInnerSquare_dilate c q y (sign * convolution (· * ·) q x x)
  rw [← hstart] at h
  unfold rootFactor
  rw [dilate_zero]
  exact (congrArg (· / _) h).trans (mul_div_assoc _ _ _)

theorem inverse_dilate (sign : K) :
    inverse q sign (x.dilate c) (z.dilate c) (y.dilate c) = c ^ q * inverse q sign x z y := by
  have hstart : sign * (q : K) * (c ^ q * x q) = c ^ q * (sign * q * x q) := by
    ring
  have h := lessWeighted_dilate c q y z (sign * q * x q)
  rw [← hstart] at h
  unfold inverse
  rw [dilate_zero]
  exact (congrArg (· / _) h).trans (mul_div_assoc _ _ _)

end Series

namespace Jet

/-- The jet in the parameter that is `c` times as fast. -/
def dilate (c : K) (j : Jet K) : Jet K := fun v => Series.dilate c (j v)

theorem dilate_order (c : K) (j : Jet K) (v k : Nat) : j.dilate c v k = c ^ k * j v k := rfl

@[simp] theorem dilate_value (c : K) (j : Jet K) (v : Nat) : j.dilate c v 0 = j v 0 :=
  Series.dilate_zero c (j v)

/-- A coefficient of order `q` that grows with the `q`-th power keeps a jet dilated. -/
theorem set_dilate {c x x' : K} {q : Nat} (h : x' = c ^ q * x) (j : Jet K) (v : Nat) :
    (j.dilate c).set v q x' = (j.set v q x).dilate c := by
  funext w k
  by_cases hwk : w = v ∧ k = q
  · rw [hwk.1, hwk.2, dilate_order, set_self, set_self, h]
  · simp only [dilate_order, set, if_neg hwk]

variable [LinearOrder K] [ExactScalar K] (c : K) (j : Jet K) (q z : Nat)

theorem arithmeticCoeff_dilate (f : Arithmetic) (args : List Nat) (params : Array K) :
    (j.dilate c).arithmeticCoeff f q z args params =
      c ^ q * j.arithmeticCoeff f q z args params := by
  have hzmul : (Scalar.zmul : K → K → K) = (· * ·) := by
    funext x y
    exact Arithmetic.zmul_eq_mul x y
  cases f <;> simp only [arithmeticCoeff, hzmul]
  case addVV => exact (mul_add (c ^ q) _ _).symm
  case subVV => exact (mul_sub (c ^ q) _ _).symm
  case addPV | subVP => rfl
  case subPV => exact (mul_neg (c ^ q) _).symm
  case mulVV | zmulVV => exact Series.convolution_dilate c q _ _
  case mulPV | zmulPV => exact mul_left_comm _ (c ^ q) _
  case zmulVP => exact mul_assoc (c ^ q) _ _
  case divVV => exact Series.quotient_dilate c q _ _ _
  case divPV => exact Series.reciprocalOf_dilate c q _ _
  case divVP => exact mul_div_assoc (c ^ q) _ _

theorem power_dilate (f : Power) (args : List Nat) (params : Array K) :
    (j.dilate c).power f q z args params = (j.power f q z args params).dilate c := by
  have log (x : Nat) : (j.dilate c).set (z - 2) q
      (Series.logShifted q 0 (j.dilate c x) (j.dilate c (z - 2))) =
      (j.set (z - 2) q (Series.logShifted q 0 (j x) (j (z - 2)))).dilate c :=
    set_dilate (Series.logShifted_dilate c q _ _ 0) j _
  have constant : (j.dilate c).set (z - 2) q 0 = (j.set (z - 2) q 0).dilate c :=
    set_dilate (mul_zero (c ^ q)).symm j _
  have exp (g : Jet K) : (g.dilate c).set z q
      (Series.integral q (g.dilate c (z - 1)) (g.dilate c z)) =
      (g.set z q (Series.integral q (g (z - 1)) (g z))).dilate c :=
    set_dilate (Series.integral_dilate c q _ _) g z
  have product (g : Jet K) (y : Nat) : (g.dilate c).set (z - 1) q
      (Series.convolution (· * ·) q (g.dilate c (z - 2)) (g.dilate c y)) =
      (g.set (z - 1) q (Series.convolution (· * ·) q (g (z - 2)) (g y))).dilate c :=
    set_dilate (Series.convolution_dilate c q _ _) g _
  have scaled (g : Jet K) (y : Nat) : (g.dilate c).set (z - 1) q
      (g.dilate c (z - 2) 0 * g.dilate c y q) =
      (g.set (z - 1) q (g (z - 2) 0 * g y q)).dilate c := by
    rw [dilate_value]
    exact set_dilate (mul_left_comm _ (c ^ q) _) g _
  have weighted (g : Jet K) (p : K) : (g.dilate c).set (z - 1) q (g.dilate c (z - 2) q * p) =
      (g.set (z - 1) q (g (z - 2) q * p)).dilate c :=
    set_dilate (mul_assoc (c ^ q) _ _) g _
  cases f <;> simp only [power]
  case vv => rw [log, product, exp]
  case pv => rw [constant, scaled, exp]
  case vp => rw [log, weighted, exp]

theorem sineCosine_dilate (hyperbolic : Bool) (x s y : Nat) :
    (j.dilate c).sineCosine hyperbolic q x s y = (j.sineCosine hyperbolic q x s y).dilate c := by
  have sine : (j.dilate c).set s q (Series.sine q (j.dilate c x) (j.dilate c s) (j.dilate c y)) =
      (j.set s q (Series.sine q (j x) (j s) (j y))).dilate c :=
    set_dilate (Series.sine_dilate c q _ _ _) j s
  unfold sineCosine
  rw [sine]
  exact set_dilate (Series.cosine_dilate c q _ _ hyperbolic _) _ y

theorem tangent_dilate (sign : K) (x y : Nat) :
    (j.dilate c).tangent sign q x z y = (j.tangent sign q x z y).dilate c := by
  have tangent : (j.dilate c).set z q (Series.tangent q sign (j.dilate c x) (j.dilate c y)) =
      (j.set z q (Series.tangent q sign (j x) (j y))).dilate c :=
    set_dilate (Series.tangent_dilate c q _ _ sign) j z
  simp only [Jet.tangent]
  rw [tangent]
  exact set_dilate (Series.convolution_dilate c q _ _) _ y

theorem inverse_dilate (factor : K) (root : Bool) (sign : K) (x b : Nat) :
    (j.dilate c).inverse factor root sign q x z b =
      (j.inverse factor root sign q x z b).dilate c := by
  have hfactor : (j.dilate c).set b q
      (if root then Series.rootFactor q factor (j.dilate c x) (j.dilate c b)
        else Series.squareFactor q factor (j.dilate c x)) =
      (j.set b q (if root then Series.rootFactor q factor (j x) (j b)
        else Series.squareFactor q factor (j x))).dilate c := by
    cases root with
    | true => exact set_dilate (Series.rootFactor_dilate c q _ _ factor) j b
    | false => exact set_dilate (Series.squareFactor_dilate c q _ factor) j b
  simp only [Jet.inverse]
  rw [hfactor]
  exact set_dilate (Series.inverse_dilate c q _ _ _ sign) _ z

theorem elementary_dilate (f : Elementary) (x : Nat) :
    (j.dilate c).elementary f q z x = (j.elementary f q z x).dilate c := by
  cases f
  case exp => exact set_dilate (Series.integral_dilate c q _ _) j z
  case expm1 => exact set_dilate (Series.expm1_dilate c q _ _) j z
  case log => exact set_dilate (Series.logShifted_dilate c q _ _ 0) j z
  case log1p => exact set_dilate (Series.logShifted_dilate c q _ _ 1) j z
  case sqrt => exact set_dilate (Series.sqrt_dilate c q _ _) j z
  case abs =>
    refine set_dilate ?_ j z
    rw [dilate_value]
    exact mul_left_comm _ (c ^ q) _
  case sign => exact set_dilate (mul_zero (c ^ q)).symm j z
  case sin | cos | sinh | cosh => exact sineCosine_dilate c j q _ _ _ _
  case tan | tanh => exact tangent_dilate c j q z _ _ _
  case asin | acos | atan | asinh | acosh | atanh => exact inverse_dilate c j q z _ _ _ _ _

theorem erf_dilate (args : List Nat) (params : Array K) :
    (j.dilate c).erf q z args params = (j.erf q z args params).dilate c := by
  have square (x : Nat) : (j.dilate c).set (z - 4) q
      (Series.convolution (· * ·) q (j.dilate c x) (j.dilate c x)) =
      (j.set (z - 4) q (Series.convolution (· * ·) q (j x) (j x))).dilate c :=
    set_dilate (Series.convolution_dilate c q _ _) j _
  have negated (g : Jet K) : (g.dilate c).set (z - 3) q (-g.dilate c (z - 4) q) =
      (g.set (z - 3) q (-g (z - 4) q)).dilate c :=
    set_dilate (mul_neg (c ^ q) _).symm g _
  have integral (g : Jet K) (x y v : Nat) : (g.dilate c).set v q
      (Series.integral q (g.dilate c x) (g.dilate c y)) =
      (g.set v q (Series.integral q (g x) (g y))).dilate c :=
    set_dilate (Series.integral_dilate c q _ _) g v
  have scaled (g : Jet K) (p : K) : (g.dilate c).set (z - 1) q (p * g.dilate c (z - 2) q) =
      (g.set (z - 1) q (p * g (z - 2) q)).dilate c :=
    set_dilate (mul_left_comm _ (c ^ q) _) g _
  simp only [erf]
  rw [square, negated, integral, scaled, integral]

theorem chooseCoeff_dilate (args : List Nat) (params : Array K) :
    (j.dilate c).chooseCoeff q args params = c ^ q * j.chooseCoeff q args params := by
  unfold chooseCoeff
  rw [condition_congr (dilate_value c j)]
  split_ifs
  · rfl
  · exact (mul_zero (c ^ q)).symm
  · rfl
  · exact (mul_zero (c ^ q)).symm

theorem sumCoeff_dilate (args : List Nat) :
    (j.dilate c).sumCoeff q args = c ^ q * j.sumCoeff q args := by
  have added (l : List Nat) : l.foldl (fun sum x => sum + j.dilate c x q) 0 =
      c ^ q * l.foldl (fun sum x => sum + j x q) 0 := by
    have h := Series.foldl_add_mul (l := l) (f := fun x => j.dilate c x q) (g := fun x => j x q)
      (fun _ _ => rfl) 0
    rwa [mul_zero] at h
  have subtracted (l : List Nat) (s : K) : l.foldl (fun sum y => sum - j.dilate c y q) (c ^ q * s) =
      c ^ q * l.foldl (fun sum y => sum - j y q) s :=
    Series.foldl_sub_mul (fun _ _ => rfl) s
  exact (congrArg (fun s => List.foldl (fun sum y => sum - j.dilate c y q) s
    ((args.drop (3 + args.getD 0 0)).take (args.getD 1 0))) (added _)).trans (subtracted _ _)

theorem loadCoeff_dilate (args : List Nat) (resolved : Array Nat) :
    (j.dilate c).loadCoeff q args resolved = c ^ q * j.loadCoeff q args resolved := by
  unfold loadCoeff
  split_ifs
  · rfl
  · exact (mul_zero (c ^ q)).symm

/-- The recurrences commute with dilations. -/
theorem advance_dilate (params : Array K) (resolved : Array Nat) (ins : Instr) :
    (j.dilate c).advance q params resolved ins = (j.advance q params resolved ins).dilate c := by
  obtain ⟨op, args, z⟩ := ins
  cases op with
  | arithmetic f => exact set_dilate (arithmeticCoeff_dilate c j q z f args params) j z
  | power f => exact power_dilate c j q z f args params
  | elementary f => exact elementary_dilate c j q z f _
  | erf => exact erf_dilate c j q z args params
  | discrete | constant => exact set_dilate (mul_zero (c ^ q)).symm j z
  | choose => exact set_dilate (chooseCoeff_dilate c j q args params) j z
  | sum => exact set_dilate (sumCoeff_dilate c j q args) j z
  | load s => exact set_dilate (loadCoeff_dilate c j q args resolved) j z
  | _ => rfl

end Jet

end JetTape
