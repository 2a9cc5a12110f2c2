import JetTape.Recurrence.Table
import Mathlib.Data.List.Basic

/-!
Recurrences on coefficient sequences. A series is the sequence of a row's coefficients along one
direction. Each definition gives the order-`q` coefficient of a result from the series of the
operands and of the result itself, and says by its congruence lemma which orders it looks at: the
result's own series and the auxiliary ones below `q`, the operands up to `q`.
-/
namespace JetTape

/-- Coefficients by order. -/
abbrev Series (F : Type) : Type := Nat → F

namespace Series

variable {F : Type}

/-- The series agree up to order `q`. -/
def EqUpTo (q : Nat) (x y : Series F) : Prop := ∀ k, k ≤ q → x k = y k

/-- The series agree below order `q`. -/
def EqBelow (q : Nat) (x y : Series F) : Prop := ∀ k, k < q → x k = y k

theorem EqUpTo.below {q : Nat} {x y : Series F} (h : EqUpTo q x y) : EqBelow q x y :=
  fun k hk => h k (Nat.le_of_lt hk)

theorem EqUpTo.first {q : Nat} {x y : Series F} (h : EqUpTo q x y) : x 0 = y 0 :=
  h 0 (Nat.zero_le q)

theorem EqUpTo.last {q : Nat} {x y : Series F} (h : EqUpTo q x y) : x q = y q :=
  h q (Nat.le_refl q)

variable [Scalar F]

/-- `Σ x_k ∘ y_{q-k}` over `k` from 0 to `q`, for a product `∘`. -/
def convolution (product : F → F → F) (q : Nat) (x y : Series F) : F :=
  (List.range' 0 (q + 1)).foldl (fun sum k => sum + product (x k) (y (q - k))) 0

/-- `Σ k x_k y_{q-k}` over the first `n` positive `k`. -/
def weighted (n q : Nat) (x y : Series F) : F :=
  (List.range' 1 n).foldl (fun sum k => sum + Scalar.ofNat k * x k * y (q - k)) 0

/-- `start - Σ x_k x_{q-k}` over `k` from 1 to `q - 1`. -/
def lessInnerSquare (start : F) (q : Nat) (x : Series F) : F :=
  (List.range' 1 (q - 1)).foldl (fun sum k => sum - x k * x (q - k)) start

/-- `start - Σ z_{q-k} y_k` over `k` from 1 to `q`. -/
def lessQuotientTerms (start : F) (q : Nat) (z y : Series F) : F :=
  (List.range' 1 q).foldl (fun sum k => sum - z (q - k) * y k) start

/-- `start - Σ k z_k b_{q-k}` over `k` from 1 to `q - 1`. -/
def lessWeighted (start : F) (q : Nat) (z b : Series F) : F :=
  (List.range' 1 (q - 1)).foldl (fun sum k => sum - Scalar.ofNat k * z k * b (q - k)) start

/-- The sums `Σ (k x_k) c_{q-k}` and `Σ (k x_k) s_{q-k}` over `k` from 1 to `q`. -/
def weightedPair (q : Nat) (x s c : Series F) : F × F :=
  (List.range' 1 q).foldl (fun sums k =>
    (sums.1 + Scalar.ofNat k * x k * c (q - k), sums.2 + Scalar.ofNat k * x k * s (q - k))) (0, 0)

section Congruence

variable {q : Nat} {x x' y y' z z' : Series F}

theorem convolution_congr (product : F → F → F) (hx : EqUpTo q x x') (hy : EqUpTo q y y') :
    convolution product q x y = convolution product q x' y' := by
  apply List.foldl_ext
  intro sum k hk
  rw [List.mem_range'_1] at hk
  rw [hx k (by omega), hy (q - k) (by omega)]

theorem weighted_congr (hx : EqUpTo q x x') (hy : EqBelow q y y') :
    weighted q q x y = weighted q q x' y' := by
  apply List.foldl_ext
  intro sum k hk
  rw [List.mem_range'_1] at hk
  rw [hx k (by omega), hy (q - k) (by omega)]

theorem weighted_pred_congr (hx : EqBelow q x x') (hy : EqBelow q y y') :
    weighted (q - 1) q x y = weighted (q - 1) q x' y' := by
  apply List.foldl_ext
  intro sum k hk
  rw [List.mem_range'_1] at hk
  rw [hx k (by omega), hy (q - k) (by omega)]

theorem lessInnerSquare_congr (start : F) (hx : EqBelow q x x') :
    lessInnerSquare start q x = lessInnerSquare start q x' := by
  apply List.foldl_ext
  intro sum k hk
  rw [List.mem_range'_1] at hk
  rw [hx k (by omega), hx (q - k) (by omega)]

theorem lessQuotientTerms_congr (start : F) (hz : EqBelow q z z') (hy : EqUpTo q y y') :
    lessQuotientTerms start q z y = lessQuotientTerms start q z' y' := by
  apply List.foldl_ext
  intro sum k hk
  rw [List.mem_range'_1] at hk
  rw [hz (q - k) (by omega), hy k (by omega)]

theorem lessWeighted_congr (start : F) (hz : EqBelow q z z') (hy : EqBelow q y y') :
    lessWeighted start q z y = lessWeighted start q z' y' := by
  apply List.foldl_ext
  intro sum k hk
  rw [List.mem_range'_1] at hk
  rw [hz k (by omega), hy (q - k) (by omega)]

theorem weightedPair_congr (hx : EqUpTo q x x') (hy : EqBelow q y y') (hz : EqBelow q z z') :
    weightedPair q x y z = weightedPair q x' y' z' := by
  apply List.foldl_ext
  intro sums k hk
  rw [List.mem_range'_1] at hk
  rw [hx k (by omega), hy (q - k) (by omega), hz (q - k) (by omega)]

end Congruence

section Coefficients

variable (q : Nat)

/-- `z = x / y`. -/
def quotient (x y z : Series F) : F := lessQuotientTerms (x q) q z y / y 0

/-- `z = p / y` for a constant `p`. -/
def reciprocalOf (y z : Series F) : F := lessQuotientTerms 0 q z y / y 0

/-- `z' = x' g`. -/
def integral (x g : Series F) : F := weighted q q x g * Recurrence.reciprocal q

/-- `z' = x' (1 + z)`. -/
def expm1 (x z : Series F) : F := x q + weighted q q x z * Recurrence.reciprocal q

/-- `z = log (x + c)`. -/
def logShifted (c : F) (x z : Series F) : F :=
  (x q - weighted (q - 1) q z x * Recurrence.reciprocal q) / (x 0 + c)

/-- `z = sqrt x`. -/
def sqrt (x z : Series F) : F := lessInnerSquare (x q) q z / (Scalar.ofNat 2 * z 0)

/-- `s' = c x'` in the pair of a sine `s` and a cosine `c`. -/
def sine (x s c : Series F) : F := (weightedPair q x s c).1 * Recurrence.reciprocal q

/-- `c' = ∓ s x'` in the pair of a sine `s` and a cosine `c`. -/
def cosine (hyperbolic : Bool) (x s c : Series F) : F :=
  (if hyperbolic then (weightedPair q x s c).2 else -(weightedPair q x s c).2) *
    Recurrence.reciprocal q

/-- `z' = (1 ± y) x'`. -/
def tangent (sign : F) (x y : Series F) : F :=
  x q + sign * weighted q q x y * Recurrence.reciprocal q

/-- `b = ± x²` above order 0. -/
def squareFactor (sign : F) (x : Series F) : F := sign * convolution (· * ·) q x x

/-- `b² = ± x²` above order 0. -/
def rootFactor (sign : F) (x b : Series F) : F :=
  lessInnerSquare (sign * convolution (· * ·) q x x) q b / (Scalar.ofNat 2 * b 0)

/-- `b z' = ± x'`. -/
def inverse (sign : F) (x z b : Series F) : F :=
  lessWeighted (sign * Scalar.ofNat q * x q) q z b / (Scalar.ofNat q * b 0)

variable {q} {x x' y y' z z' : Series F}

theorem quotient_congr (hx : EqUpTo q x x') (hy : EqUpTo q y y') (hz : EqBelow q z z') :
    quotient q x y z = quotient q x' y' z' := by
  unfold quotient
  rw [hx.last, hy.first, lessQuotientTerms_congr _ hz hy]

theorem reciprocalOf_congr (hy : EqUpTo q y y') (hz : EqBelow q z z') :
    reciprocalOf q y z = reciprocalOf q y' z' := by
  unfold reciprocalOf
  rw [hy.first, lessQuotientTerms_congr _ hz hy]

theorem integral_congr (hx : EqUpTo q x x') (hy : EqBelow q y y') :
    integral q x y = integral q x' y' := by
  unfold integral
  rw [weighted_congr hx hy]

theorem expm1_congr (hx : EqUpTo q x x') (hz : EqBelow q z z') :
    expm1 q x z = expm1 q x' z' := by
  rw [expm1, expm1, hx.last, weighted_congr hx hz]

theorem logShifted_congr (c : F) (hx : EqUpTo q x x') (hz : EqBelow q z z') :
    logShifted q c x z = logShifted q c x' z' := by
  unfold logShifted
  rw [hx.last, hx.first, weighted_pred_congr hz hx.below]

theorem sqrt_congr (h0 : 0 < q) (hx : EqUpTo q x x') (hz : EqBelow q z z') :
    sqrt q x z = sqrt q x' z' := by
  unfold sqrt
  rw [hx.last, hz 0 h0, lessInnerSquare_congr _ hz]

theorem sine_congr (hx : EqUpTo q x x') (hy : EqBelow q y y') (hz : EqBelow q z z') :
    sine q x y z = sine q x' y' z' := by
  unfold sine
  rw [weightedPair_congr hx hy hz]

theorem cosine_congr (hyperbolic : Bool) (hx : EqUpTo q x x') (hy : EqBelow q y y')
    (hz : EqBelow q z z') : cosine q hyperbolic x y z = cosine q hyperbolic x' y' z' := by
  unfold cosine
  rw [weightedPair_congr hx hy hz]

theorem tangent_congr (sign : F) (hx : EqUpTo q x x') (hy : EqBelow q y y') :
    tangent q sign x y = tangent q sign x' y' := by
  unfold tangent
  rw [hx.last, weighted_congr hx hy]

theorem squareFactor_congr (sign : F) (hx : EqUpTo q x x') :
    squareFactor q sign x = squareFactor q sign x' := by
  unfold squareFactor
  rw [convolution_congr _ hx hx]

theorem rootFactor_congr (sign : F) (h0 : 0 < q) (hx : EqUpTo q x x') (hy : EqBelow q y y') :
    rootFactor q sign x y = rootFactor q sign x' y' := by
  unfold rootFactor
  rw [convolution_congr _ hx hx, hy 0 h0, lessInnerSquare_congr _ hy]

theorem inverse_congr (sign : F) (h0 : 0 < q) (hx : EqUpTo q x x') (hz : EqBelow q z z')
    (hy : EqBelow q y y') : inverse q sign x z y = inverse q sign x' z' y' := by
  unfold inverse
  rw [hx.last, hy 0 h0, lessWeighted_congr _ hz hy]

end Coefficients

end Series

end JetTape
