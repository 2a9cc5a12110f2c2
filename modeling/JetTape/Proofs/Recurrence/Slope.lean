import JetTape.Proofs.Recurrence.Dilation
import Mathlib.Algebra.Order.Ring.Cast

/-!
Coefficients of the top order. A recurrence of order `q` takes every operand of order `q` times
something of order 0: in a product that is the other factor, and in a recurrence with weights the
weight `q` of the top term and the division by `q` cancel. So where series agree below order `q`,
what they differ by at order `q` is passed on by factors that the values at order 0 determine, and
these are the same at every order.
-/
namespace JetTape

variable {K : Type} [Field K]

namespace Series

/-- The series begin with `a`, agree below order `q` and differ by `d` at order `q`. -/
structure Varies (q : Nat) (x x' : Series K) (a d : K) : Prop where
  value : x 0 = a
  below : EqBelow q x x'
  change : x' q - x q = d

variable {q : Nat} {x x' y y' z z' : Series K} {a b c d e f : K}

theorem Varies.value' (h : Varies q x x' a d) (hq : 0 < q) : x' 0 = a :=
  (h.below 0 hq).symm.trans h.value

theorem Varies.last (h : Varies q x x' a d) : x' q = x q + d := by
  rw [← h.change, add_sub_cancel]

/-- Of a sum only the start and the last term have changed. -/
theorem foldl_add_change {g g' : Nat → K} {n m : Nat}
    (h : ∀ k, n ≤ k → k < n + m → g k = g' k) (s s' : K) :
    (List.range' n (m + 1)).foldl (fun sum k => sum + g' k) s' -
        (List.range' n (m + 1)).foldl (fun sum k => sum + g k) s =
      (s' - s) + (g' (n + m) - g (n + m)) := by
  have hsame : (List.range' n m).map g = (List.range' n m).map g' :=
    List.map_congr_left fun k hk => by
      rw [List.mem_range'_1] at hk
      exact h k hk.1 hk.2
  simp only [foldl_add_eq, List.range'_1_concat, List.map_append, hsame, List.map_cons,
    List.map_nil, List.sum_append, List.sum_singleton]
  ring

/-- Of a difference only the start and the last of the subtracted terms have changed. -/
theorem foldl_sub_change {g g' : Nat → K} {n m : Nat}
    (h : ∀ k, n ≤ k → k < n + m → g k = g' k) (s s' : K) :
    (List.range' n (m + 1)).foldl (fun sum k => sum - g' k) s' -
        (List.range' n (m + 1)).foldl (fun sum k => sum - g k) s =
      (s' - s) - (g' (n + m) - g (n + m)) := by
  have hsame : (List.range' n m).map g = (List.range' n m).map g' :=
    List.map_congr_left fun k hk => by
      rw [List.mem_range'_1] at hk
      exact h k hk.1 hk.2
  simp only [foldl_sub_eq, List.range'_1_concat, List.map_append, hsame, List.map_cons,
    List.map_nil, List.sum_append, List.sum_singleton]
  ring

/-- A difference of which only the start has changed. -/
theorem foldl_sub_start (l : List Nat) (g : Nat → K) (s s' : K) :
    l.foldl (fun sum k => sum - g k) s' - l.foldl (fun sum k => sum - g k) s = s' - s := by
  rw [foldl_sub_eq, foldl_sub_eq]
  ring

variable [LinearOrder K] [ExactScalar K]

/-- Both ends of a product change, each by the other factor's value. -/
theorem convolution_change (hq : 0 < q) (hx : Varies q x x' a d) (hy : Varies q y y' b e) :
    convolution (· * ·) q x' y' - convolution (· * ·) q x y = a * e + d * b := by
  obtain ⟨n, rfl⟩ : ∃ n, q = n + 1 := ⟨q - 1, by omega⟩
  -- Term 0 of the sum, which holds the top order of the second factor, is its start.
  have hstart (x y : Series K) : convolution (· * ·) (n + 1) x y =
      (List.range' 1 (n + 1)).foldl (fun sum k => sum + x k * y (n + 1 - k))
        (0 + x 0 * y (n + 1)) := rfl
  rw [hstart, hstart, foldl_add_change (fun k hk hlt => by
    rw [hx.below k (by omega), hy.below (n + 1 - k) (by omega)])]
  rw [Nat.add_comm 1 n, Nat.sub_self, hx.value, hx.value' hq, hy.value, hy.value' hq, hx.last,
    hy.last]
  ring

/-- The top term has the weight `q`. -/
theorem weighted_change (hq : 0 < q) (hx : Varies q x x' a d) (hy : Varies q y y' b e) :
    weighted q q x' y' - weighted q q x y = q * d * b := by
  obtain ⟨n, rfl⟩ : ∃ n, q = n + 1 := ⟨q - 1, by omega⟩
  have h : weighted (n + 1) (n + 1) x' y' - weighted (n + 1) (n + 1) x y =
      (0 - 0) + (((1 + n : Nat) : K) * x' (1 + n) * y' (n + 1 - (1 + n)) -
        ((1 + n : Nat) : K) * x (1 + n) * y (n + 1 - (1 + n))) :=
    foldl_add_change (fun k hk hlt => by
      rw [hx.below k (by omega), hy.below (n + 1 - k) (by omega)]) 0 0
  rw [h, Nat.add_comm 1 n, Nat.sub_self, hy.value, hy.value' hq, hx.last]
  ring

theorem lessQuotientTerms_change (hq : 0 < q) (hz : Varies q z z' c f) (hy : Varies q y y' b e)
    (s s' : K) :
    lessQuotientTerms s' q z' y' - lessQuotientTerms s q z y = s' - s - c * e := by
  obtain ⟨n, rfl⟩ : ∃ n, q = n + 1 := ⟨q - 1, by omega⟩
  have h : lessQuotientTerms s' (n + 1) z' y' - lessQuotientTerms s (n + 1) z y =
      (s' - s) - (z' (n + 1 - (1 + n)) * y' (1 + n) - z (n + 1 - (1 + n)) * y (1 + n)) :=
    foldl_sub_change (fun k hk hlt => by
      rw [hz.below (n + 1 - k) (by omega), hy.below k (by omega)]) s s'
  rw [h, Nat.add_comm 1 n, Nat.sub_self, hz.value, hz.value' hq, hy.last]
  ring

theorem lessInnerSquare_change (hz : Varies q z z' c f) (s s' : K) :
    lessInnerSquare s' q z' - lessInnerSquare s q z = s' - s := by
  rw [← lessInnerSquare_congr s' hz.below]
  exact foldl_sub_start _ _ s s'

theorem lessWeighted_change (hz : Varies q z z' c f) (hy : Varies q y y' b e) (s s' : K) :
    lessWeighted s' q z' y' - lessWeighted s q z y = s' - s := by
  rw [← lessWeighted_congr s' hz.below hy.below]
  exact foldl_sub_start _ _ s s'

theorem quotient_change (hq : 0 < q) (hx : Varies q x x' a d) (hy : Varies q y y' b e)
    (hz : Varies q z z' c f) : quotient q x' y' z' - quotient q x y z = (d - c * e) / b := by
  have h := lessQuotientTerms_change hq hz hy (x q) (x' q)
  rw [hx.change] at h
  unfold quotient
  rw [hy.value, hy.value' hq]
  exact (sub_div _ _ b).symm.trans (congrArg (· / b) h)

theorem reciprocalOf_change (hq : 0 < q) (hy : Varies q y y' b e) (hz : Varies q z z' c f) :
    reciprocalOf q y' z' - reciprocalOf q y z = (0 - 0 - c * e) / b := by
  unfold reciprocalOf
  rw [hy.value, hy.value' hq]
  exact (sub_div _ _ b).symm.trans (congrArg (· / b) (lessQuotientTerms_change hq hz hy 0 0))

theorem logShifted_change (hq : 0 < q) (hx : Varies q x x' a d) (hz : Varies q z z' c f)
    (shift : K) : logShifted q shift x' z' - logShifted q shift x z = d / (a + shift) := by
  unfold logShifted
  rw [hx.value, hx.value' hq, hx.last, ← weighted_pred_congr hz.below hx.below]
  show (x q + d - weighted (q - 1) q z x * Recurrence.reciprocal q) / (a + shift) -
    (x q - weighted (q - 1) q z x * Recurrence.reciprocal q) / (a + shift) = d / (a + shift)
  rw [← sub_div]
  ring

theorem sqrt_change (hq : 0 < q) (hx : Varies q x x' a d) (hz : Varies q z z' c f) :
    sqrt q x' z' - sqrt q x z = d / (2 * c) := by
  have h := lessInnerSquare_change hz (x q) (x' q)
  rw [hx.change] at h
  unfold sqrt
  rw [hz.value, hz.value' hq]
  exact (sub_div _ _ _).symm.trans (congrArg₂ (fun d s => d / (s * c)) h Nat.cast_ofNat)

/-- The sign of a factor and its square's two ends. -/
theorem squareFactor_change (hq : 0 < q) (hx : Varies q x x' a d) (sign : K) :
    squareFactor q sign x' - squareFactor q sign x = sign * (a * d + d * a) := by
  unfold squareFactor
  rw [← convolution_change hq hx hx]
  exact (mul_sub sign _ _).symm

theorem rootFactor_change (hq : 0 < q) (hx : Varies q x x' a d) (hy : Varies q y y' b e)
    (sign : K) :
    rootFactor q sign x' y' - rootFactor q sign x y = sign * (a * d + d * a) / (2 * b) := by
  have h := lessInnerSquare_change hy (squareFactor q sign x) (squareFactor q sign x')
  rw [squareFactor_change hq hx] at h
  unfold rootFactor
  rw [hy.value, hy.value' hq]
  exact (sub_div _ _ _).symm.trans (congrArg₂ (fun d s => d / (s * b)) h Nat.cast_ofNat)

variable [IsStrictOrderedRing K]

/-- The weight of the top term and the division by the order cancel. -/
theorem integral_change (hq : 0 < q) (hx : Varies q x x' a d) (hy : Varies q y y' b e) :
    integral q x' y' - integral q x y = d * b := by
  have hq' : (q : K) ≠ 0 := Nat.cast_ne_zero.mpr (Nat.ne_of_gt hq)
  have h : integral q x' y' - integral q x y =
      (weighted q q x' y' - weighted q q x y) * (1 / (q : K)) :=
    (sub_mul _ _ _).symm
  rw [h, weighted_change hq hx hy]
  field_simp

theorem expm1_change (hq : 0 < q) (hx : Varies q x x' a d) (hz : Varies q z z' c f) :
    expm1 q x' z' - expm1 q x z = d + d * c := by
  have h : expm1 q x' z' - expm1 q x z = (x' q - x q) + (integral q x' z' - integral q x z) :=
    add_sub_add_comm _ _ _ _
  rw [h, hx.change, integral_change hq hx hz]

theorem sine_change (hq : 0 < q) (hx : Varies q x x' a d) {s s' : Series K}
    (hy : Varies q y y' b e) : sine q x' s' y' - sine q x s y = d * b := by
  simp only [sine, weightedPair_eq]
  exact integral_change hq hx hy

theorem cosine_change (hq : 0 < q) (hyperbolic : Bool) (hx : Varies q x x' a d)
    {s s' : Series K} (hs : Varies q s s' b e) :
    cosine q hyperbolic x' s' y' - cosine q hyperbolic x s y =
      if hyperbolic then d * b else -(d * b) := by
  have h := integral_change hq hx hs
  simp only [cosine, weightedPair_eq]
  cases hyperbolic with
  | true => exact h
  | false =>
    rw [if_neg Bool.false_ne_true, ← h]
    show -weighted q q x' s' * Recurrence.reciprocal q - -weighted q q x s * Recurrence.reciprocal q =
      -(weighted q q x' s' * Recurrence.reciprocal q - weighted q q x s * Recurrence.reciprocal q)
    ring

theorem tangent_change (hq : 0 < q) (hx : Varies q x x' a d) (hy : Varies q y y' b e) (sign : K) :
    tangent q sign x' y' - tangent q sign x y = d + sign * (d * b) := by
  have h : tangent q sign x' y' - tangent q sign x y =
      (x' q - x q) + sign * (integral q x' y' - integral q x y) := by
    show x' q + sign * weighted q q x' y' * Recurrence.reciprocal q -
        (x q + sign * weighted q q x y * Recurrence.reciprocal q) =
      (x' q - x q) + sign * (weighted q q x' y' * Recurrence.reciprocal q -
        weighted q q x y * Recurrence.reciprocal q)
    ring
  rw [h, hx.change, integral_change hq hx hy]

theorem inverse_change (hq : 0 < q) (hx : Varies q x x' a d) (hz : Varies q z z' c f)
    (hy : Varies q y y' b e) (sign : K) :
    inverse q sign x' z' y' - inverse q sign x z y = sign * d / b := by
  have hq' : (q : K) ≠ 0 := Nat.cast_ne_zero.mpr (Nat.ne_of_gt hq)
  have hnumerator : lessWeighted (sign * q * x' q) q z' y' - lessWeighted (sign * q * x q) q z y =
      q * (sign * d) := by
    rw [lessWeighted_change hz hy, hx.last]
    ring
  unfold inverse
  rw [hy.value, hy.value' hq]
  have hquotient := (sub_div _ _ ((q : K) * b)).symm.trans (congrArg (· / ((q : K) * b)) hnumerator)
  exact hquotient.trans (mul_div_mul_left _ b hq')

end Series

namespace Jet

/-- Every row begins with its entry of `a`, agrees below order `q` and differs at order `q` by its
entry of `d`. -/
def Varies (q : Nat) (j j' : Jet K) (a d : Nat → K) : Prop :=
  ∀ v, Series.Varies q (j v) (j' v) (a v) (d v)

/-- The jet with the given values and the given coefficients at all other orders. -/
def ofChange (a d : Nat → K) : Jet K := fun v k => if k = 0 then a v else d v

namespace Varies

variable {q : Nat} {j j' : Jet K} {a d : Nat → K}

theorem set (h : Varies q j j' a d) (hq : 0 < q) (z : Nat) {x x' e : K} (hx : x' - x = e) :
    Varies q (j.set z q x) (j'.set z q x') a (Function.update d z e) := by
  intro v
  have hbelow (g : Jet K) (x : K) {k : Nat} (hk : k < q) : g.set z q x v k = g v k :=
    set_of_order_ne (Nat.ne_of_lt hk)
  refine ⟨by rw [hbelow j x hq, (h v).value], fun k hk => ?_, ?_⟩
  · rw [hbelow j x hk, hbelow j' x' hk, (h v).below k hk]
  · by_cases hv : v = z
    · rw [hv, set_self, set_self, Function.update_self, hx]
    · rw [set_of_row_ne hv, set_of_row_ne hv, Function.update_of_ne hv, (h v).change]

theorem values (h : Varies q j j' a d) (v : Nat) : j v 0 = ofChange a d v 0 := (h v).value

theorem values' (h : Varies q j j' a d) (hq : 0 < q) (v : Nat) : j' v 0 = ofChange a d v 0 :=
  (h v).value' hq

end Varies

/-!
### Instructions

What the rows of an instruction change by is determined by the values and by the changes of all
rows. It is the same at all orders and for all jets, so it comes before them in the statements.
-/

/-- What is made of the jets, order by order, takes changes of the rows to changes that depend on
nothing but them and the values. -/
def PassesOn (a : Nat → K) (advance : Nat → Jet K → Jet K) : Prop :=
  ∀ d, ∃ d', ∀ q, 0 < q → ∀ j j', Varies q j j' a d → Varies q (advance q j) (advance q j') a d'

variable {a : Nat → K}

theorem passesOn_refl (a : Nat → K) : PassesOn a fun _ j => j :=
  fun d => ⟨d, fun _ _ _ _ h => h⟩

theorem PassesOn.trans {first second : Nat → Jet K → Jet K} (h : PassesOn a first)
    (h' : PassesOn a second) : PassesOn a fun q j => second q (first q j) := by
  intro d
  obtain ⟨d₁, hfirst⟩ := h d
  obtain ⟨d₂, hsecond⟩ := h' d₁
  exact ⟨d₂, fun q hq j j' hj => hsecond q hq _ _ (hfirst q hq j j' hj)⟩

theorem passesOn_set (z : Nat) {coeff : Nat → Jet K → K}
    (h : ∀ d, ∃ e, ∀ q, 0 < q → ∀ j j', Varies q j j' a d → coeff q j' - coeff q j = e) :
    PassesOn a fun q j => j.set z q (coeff q j) := by
  intro d
  obtain ⟨e, he⟩ := h d
  exact ⟨_, fun q hq j j' hj => hj.set hq z (he q hq j j' hj)⟩

/-- A row that does not depend on the others at this order. -/
theorem passesOn_zero (z : Nat) : PassesOn a fun q (j : Jet K) => j.set z q 0 :=
  passesOn_set z fun _ => ⟨_, fun _ _ _ _ _ => sub_self 0⟩

variable [LinearOrder K] [ExactScalar K]

theorem sumCoeff_change {q : Nat} {j j' : Jet K} {d : Nat → K} (hj : Varies q j j' a d)
    (args : List Nat) :
    j'.sumCoeff q args - j.sumCoeff q args = (ofChange a d).sumCoeff 1 args := by
  have hd (v : Nat) : ofChange a d v 1 = j' v q - j v q := (hj v).change.symm
  have added (l : List Nat) (s s' : K) :
      l.foldl (fun sum x => sum + j' x q) s' - l.foldl (fun sum x => sum + j x q) s =
        l.foldl (fun sum x => sum + ofChange a d x 1) (s' - s) := by
    induction l generalizing s s' with
    | nil => rfl
    | cons x l ih =>
      rw [List.foldl_cons, List.foldl_cons, List.foldl_cons, ih, hd, add_sub_add_comm]
  have subtracted (l : List Nat) (s s' : K) :
      l.foldl (fun sum y => sum - j' y q) s' - l.foldl (fun sum y => sum - j y q) s =
        l.foldl (fun sum y => sum - ofChange a d y 1) (s' - s) := by
    induction l generalizing s s' with
    | nil => rfl
    | cons y l ih =>
      rw [List.foldl_cons, List.foldl_cons, List.foldl_cons, ih, hd, sub_sub_sub_comm]
  refine (subtracted _ _ _).trans ?_
  rw [added, sub_self]
  rfl

theorem chooseCoeff_change {q : Nat} {j j' : Jet K} {d : Nat → K} (hq : 0 < q)
    (hj : Varies q j j' a d) (args : List Nat) (params : Array K) :
    j'.chooseCoeff q args params - j.chooseCoeff q args params =
      (ofChange a d).chooseCoeff 1 args params := by
  unfold chooseCoeff
  rw [condition_congr hj.values, condition_congr (hj.values' hq)]
  split_ifs
  · exact (hj _).change
  · exact sub_zero 0
  · exact (hj _).change
  · exact sub_zero 0

theorem loadCoeff_change {q : Nat} {j j' : Jet K} {d : Nat → K} (hj : Varies q j j' a d)
    (args : List Nat) (resolved : Array Nat) :
    j'.loadCoeff q args resolved - j.loadCoeff q args resolved =
      (ofChange a d).loadCoeff 1 args resolved := by
  unfold loadCoeff
  split_ifs
  · exact (hj _).change
  · exact sub_zero 0

theorem passesOn_arithmetic (f : Arithmetic) (z : Nat) (args : List Nat) (params : Array K) :
    PassesOn a fun q j => j.set z q (j.arithmeticCoeff f q z args params) := by
  have hzmul : (Scalar.zmul : K → K → K) = (· * ·) := by
    funext x y
    exact Arithmetic.zmul_eq_mul x y
  apply passesOn_set
  intro d
  cases f <;> simp only [arithmeticCoeff, hzmul]
  case addVV =>
    refine ⟨d (args.getD 0 0) + d (args.getD 1 0), fun q hq j j' hj => ?_⟩
    rw [← (hj _).change, ← (hj _).change]
    exact add_sub_add_comm _ _ _ _
  case subVV =>
    refine ⟨d (args.getD 0 0) - d (args.getD 1 0), fun q hq j j' hj => ?_⟩
    rw [← (hj _).change, ← (hj _).change]
    exact sub_sub_sub_comm _ _ _ _
  case addPV | subVP => exact ⟨_, fun q hq j j' hj => (hj _).change⟩
  case subPV =>
    refine ⟨-d (args.getD 1 0), fun q hq j j' hj => ?_⟩
    rw [← (hj _).change]
    exact (neg_sub' _ _).symm
  case mulVV | zmulVV =>
    exact ⟨_, fun q hq j j' hj => Series.convolution_change hq (hj _) (hj _)⟩
  case mulPV | zmulPV =>
    refine ⟨params.getD (args.getD 0 0) 0 * d (args.getD 1 0), fun q hq j j' hj => ?_⟩
    rw [← (hj _).change]
    exact (mul_sub _ _ _).symm
  case zmulVP =>
    refine ⟨d (args.getD 0 0) * params.getD (args.getD 1 0) 0, fun q hq j j' hj => ?_⟩
    rw [← (hj _).change]
    exact (sub_mul _ _ _).symm
  case divVV => exact ⟨_, fun q hq j j' hj => Series.quotient_change hq (hj _) (hj _) (hj _)⟩
  case divPV => exact ⟨_, fun q hq j j' hj => Series.reciprocalOf_change hq (hj _) (hj _)⟩
  case divVP =>
    refine ⟨d (args.getD 0 0) / params.getD (args.getD 1 0) 0, fun q hq j j' hj => ?_⟩
    rw [← (hj _).change]
    exact (sub_div _ _ _).symm

theorem passesOn_convolution (x y z : Nat) :
    PassesOn a fun q j => j.set z q (Series.convolution (· * ·) q (j x) (j y)) :=
  passesOn_set z fun _ => ⟨_, fun _ hq _ _ hj => Series.convolution_change hq (hj x) (hj y)⟩

theorem passesOn_logShifted (x z : Nat) (shift : K) :
    PassesOn a fun q j => j.set z q (Series.logShifted q shift (j x) (j z)) :=
  passesOn_set z fun _ => ⟨_, fun _ hq _ _ hj => Series.logShifted_change hq (hj x) (hj z) shift⟩

variable [IsStrictOrderedRing K]

theorem passesOn_integral (x y z : Nat) :
    PassesOn a fun q j => j.set z q (Series.integral q (j x) (j y)) :=
  passesOn_set z fun _ => ⟨_, fun _ hq _ _ hj => Series.integral_change hq (hj x) (hj y)⟩

theorem passesOn_power (f : Power) (z : Nat) (args : List Nat) (params : Array K) :
    PassesOn a fun q j => j.power f q z args params := by
  have exp : PassesOn a fun q (j : Jet K) => j.set z q (Series.integral q (j (z - 1)) (j z)) :=
    passesOn_integral (z - 1) z z
  have log := passesOn_logShifted (a := a) (args.getD 0 0) (z - 2) (0 : K)
  have constant : PassesOn a fun q (j : Jet K) => j.set (z - 2) q 0 := passesOn_zero (z - 2)
  have product := passesOn_convolution (a := a) (z - 2) (args.getD 1 0) (z - 1)
  have scaled : PassesOn a fun q (j : Jet K) =>
      j.set (z - 1) q (j (z - 2) 0 * j (args.getD 1 0) q) := by
    refine passesOn_set (z - 1) fun d => ⟨a (z - 2) * d (args.getD 1 0), fun q hq j j' hj => ?_⟩
    rw [(hj _).value' hq, (hj (z - 2)).value, ← (hj _).change]
    exact (mul_sub _ _ _).symm
  have weighted : PassesOn a fun q (j : Jet K) =>
      j.set (z - 1) q (j (z - 2) q * params.getD (args.getD 1 0) 0) := by
    refine passesOn_set (z - 1) fun d =>
      ⟨d (z - 2) * params.getD (args.getD 1 0) 0, fun q hq j j' hj => ?_⟩
    rw [← (hj _).change]
    exact (sub_mul _ _ _).symm
  have vv := (log.trans product).trans exp
  have pv := (constant.trans scaled).trans exp
  have vp := (log.trans weighted).trans exp
  cases f with
  | vv => exact vv
  | pv => exact pv
  | vp => exact vp

/-- The sine and the cosine both start from the rows as they were. -/
theorem passesOn_sineCosine (hyperbolic : Bool) (x s c : Nat) :
    PassesOn a fun q (j : Jet K) => j.sineCosine hyperbolic q x s c :=
  fun _ => ⟨_, fun _ hq _ _ hj => (hj.set hq s (Series.sine_change hq (hj x) (hj c))).set hq c
    (Series.cosine_change hq hyperbolic (hj x) (hj s))⟩

theorem passesOn_tangent (sign : K) (x z y : Nat) :
    PassesOn a fun q j => j.tangent sign q x z y := by
  have tangent : PassesOn a fun q j => j.set z q (Series.tangent q sign (j x) (j y)) :=
    passesOn_set z fun _ => ⟨_, fun _ hq _ _ hj => Series.tangent_change hq (hj x) (hj y) sign⟩
  exact tangent.trans (passesOn_convolution z z y)

theorem passesOn_inverse (factor : K) (root : Bool) (sign : K) (x z b : Nat) :
    PassesOn a fun q j => j.inverse factor root sign q x z b := by
  have hfactor : PassesOn a fun q j => j.set b q
      (if root then Series.rootFactor q factor (j x) (j b)
        else Series.squareFactor q factor (j x)) := by
    cases root with
    | true => exact passesOn_set b fun _ =>
        ⟨_, fun _ hq _ _ hj => Series.rootFactor_change hq (hj x) (hj b) factor⟩
    | false => exact passesOn_set b fun _ =>
        ⟨_, fun _ hq _ _ hj => Series.squareFactor_change hq (hj x) factor⟩
  have hinverse : PassesOn a fun q j => j.set z q (Series.inverse q sign (j x) (j z) (j b)) :=
    passesOn_set z fun _ =>
      ⟨_, fun _ hq _ _ hj => Series.inverse_change hq (hj x) (hj z) (hj b) sign⟩
  exact hfactor.trans hinverse

theorem passesOn_elementary (f : Elementary) (z x : Nat) :
    PassesOn a fun q (j : Jet K) => j.elementary f q z x := by
  cases f
  case exp => exact passesOn_integral x z z
  case expm1 => exact passesOn_set z fun _ =>
    ⟨_, fun _ hq _ _ hj => Series.expm1_change hq (hj x) (hj z)⟩
  case log => exact passesOn_logShifted x z 0
  case log1p => exact passesOn_logShifted x z 1
  case sqrt => exact passesOn_set z fun _ =>
    ⟨_, fun _ hq _ _ hj => Series.sqrt_change hq (hj x) (hj z)⟩
  case abs =>
    refine passesOn_set z fun d => ⟨Scalar.sign (a x) * d x, fun q hq j j' hj => ?_⟩
    rw [(hj x).value' hq, (hj x).value, ← (hj x).change]
    exact (mul_sub _ _ _).symm
  case sign => exact passesOn_zero z
  case sin | cos | sinh | cosh => exact passesOn_sineCosine _ _ _ _
  case tan | tanh => exact passesOn_tangent _ _ _ _
  case asin | acos | atan | asinh | acosh | atanh => exact passesOn_inverse _ _ _ _ _ _

theorem passesOn_erf (z : Nat) (args : List Nat) (params : Array K) :
    PassesOn a fun q j => j.erf q z args params := by
  let x := args.getD 0 0
  have negated : PassesOn a fun q (j : Jet K) => j.set (z - 3) q (-j (z - 4) q) := by
    refine passesOn_set _ fun d => ⟨-d (z - 4), fun q hq j j' hj => ?_⟩
    rw [← (hj _).change]
    exact (neg_sub' _ _).symm
  have scaled : PassesOn a fun q (j : Jet K) =>
      j.set (z - 1) q (params.getD (args.getD 2 0) 0 * j (z - 2) q) := by
    refine passesOn_set _ fun d =>
      ⟨params.getD (args.getD 2 0) 0 * d (z - 2), fun q hq j j' hj => ?_⟩
    rw [← (hj _).change]
    exact (mul_sub _ _ _).symm
  have square := passesOn_convolution (a := a) x x (z - 4)
  have gauss := passesOn_integral (a := a) (z - 3) (z - 2) (z - 2)
  have integral := passesOn_integral (a := a) x (z - 1) z
  exact (((square.trans negated).trans gauss).trans scaled).trans integral

/-- Every instruction passes changes on. -/
theorem passesOn_advance (a : Nat → K) (params : Array K) (resolved : Array Nat) (ins : Instr) :
    PassesOn a fun q j => j.advance q params resolved ins := by
  obtain ⟨op, args, z⟩ := ins
  cases op with
  | arithmetic f => exact passesOn_arithmetic f z args params
  | power f => exact passesOn_power f z args params
  | elementary f => exact passesOn_elementary f z _
  | erf => exact passesOn_erf z args params
  | discrete | constant => exact passesOn_zero z
  | choose =>
    exact passesOn_set z fun _ => ⟨_, fun _ hq _ _ hj => chooseCoeff_change hq hj args params⟩
  | sum => exact passesOn_set z fun _ => ⟨_, fun _ _ _ _ hj => sumCoeff_change hj args⟩
  | load s =>
    exact passesOn_set z fun _ => ⟨_, fun _ _ _ _ hj => loadCoeff_change hj args resolved⟩
  | _ => exact passesOn_refl a

end Jet

end JetTape
