import JetTape.Proofs.Recurrence.Series
import JetTape.Proofs.Scalar.Exact
import Mathlib.Algebra.BigOperators.NatAntidiagonal
import Mathlib.RingTheory.AdjoinRoot

/-!
Truncated power series. Up to order `q` a coefficient sequence is an element of `K[t] / t^(q+1)`.
There the convolution of two sequences is their product, and the recurrence of a quotient says that
the result times the divisor is the dividend.
-/
namespace JetTape

open Polynomial

/-- Power series without the orders above `q`. -/
abbrev TruncatedSeries (K : Type) [Field K] (q : Nat) : Type := AdjoinRoot (X ^ (q + 1) : K[X])

namespace Series

/-- The series of a constant. -/
def const {K : Type} [Zero K] (c : K) : Series K := fun k => if k = 0 then c else 0

@[simp] theorem const_zero {K : Type} [Zero K] (c : K) : const c 0 = c := rfl

theorem const_of_pos {K : Type} [Zero K] (c : K) {k : Nat} (hk : 0 < k) : const c k = 0 := by
  unfold const
  rw [if_neg (by omega)]

/-- Series agree if they do at order 0 and at positive orders. -/
theorem EqUpTo.of_pos {F : Type} {q : Nat} {x y : Series F} (hzero : x 0 = y 0)
    (hpos : ∀ k, 0 < k → k ≤ q → x k = y k) : EqUpTo q x y := by
  intro k hk
  rcases Nat.eq_zero_or_pos k with rfl | hk0
  · exact hzero
  · exact hpos k hk0 hk

variable {K : Type} [Field K] {q : Nat}

/-- The polynomial of the coefficients up to order `q`. -/
noncomputable def polynomial (q : Nat) (x : Series K) : K[X] :=
  ∑ k ∈ Finset.range (q + 1), monomial k (x k)

theorem polynomial_coeff (x : Series K) {k : Nat} (hk : k ≤ q) :
    (polynomial q x).coeff k = x k := by
  unfold polynomial
  rw [finsetSum_coeff, Finset.sum_eq_single k]
  · exact coeff_monomial_same k (x k)
  · intro i _ hi
    exact coeff_monomial_of_ne _ (Ne.symm hi)
  · intro hmem
    exact absurd (Finset.mem_range.mpr (by omega)) hmem

/-- The coefficients up to order `q` as a truncated series. -/
noncomputable def truncate (q : Nat) (x : Series K) : TruncatedSeries K q :=
  AdjoinRoot.mk _ (polynomial q x)

variable {x y z : Series K}

/-- Polynomials are equal as truncated series exactly if they agree up to order `q`. -/
theorem mk_eq_mk_iff {f g : K[X]} :
    AdjoinRoot.mk (X ^ (q + 1)) f = AdjoinRoot.mk (X ^ (q + 1)) g ↔
      ∀ k ≤ q, f.coeff k = g.coeff k := by
  rw [AdjoinRoot.mk_eq_mk, X_pow_dvd_iff]
  constructor
  · intro h k hk
    have := h k (by omega)
    rwa [coeff_sub, sub_eq_zero] at this
  · intro h k hk
    rw [coeff_sub, sub_eq_zero]
    exact h k (by omega)

theorem truncate_eq_mk_iff {f : K[X]} :
    truncate q x = AdjoinRoot.mk _ f ↔ ∀ k ≤ q, x k = f.coeff k := by
  unfold truncate
  rw [mk_eq_mk_iff]
  apply forall₂_congr
  intro k hk
  rw [polynomial_coeff x hk]

theorem truncate_eq_iff : truncate q x = truncate q y ↔ EqUpTo q x y := by
  rw [truncate.eq_1 q y, truncate_eq_mk_iff]
  apply forall₂_congr
  intro k hk
  rw [polynomial_coeff y hk]

theorem truncate_const (c : K) : truncate q (const c) = algebraMap K _ c := by
  show truncate q (const c) = AdjoinRoot.mk _ (C c)
  apply truncate_eq_mk_iff.mpr
  intro k _
  rw [coeff_C, const]

theorem truncate_eq_add (h : ∀ k ≤ q, z k = x k + y k) :
    truncate q z = truncate q x + truncate q y := by
  rw [truncate.eq_1 q x, truncate.eq_1 q y, ← map_add]
  apply truncate_eq_mk_iff.mpr
  intro k hk
  rw [coeff_add, polynomial_coeff x hk, polynomial_coeff y hk, h k hk]

theorem truncate_eq_sub (h : ∀ k ≤ q, z k = x k - y k) :
    truncate q z = truncate q x - truncate q y := by
  rw [truncate.eq_1 q x, truncate.eq_1 q y, ← map_sub]
  apply truncate_eq_mk_iff.mpr
  intro k hk
  rw [coeff_sub, polynomial_coeff x hk, polynomial_coeff y hk, h k hk]

/-- The product has the convolutions as coefficients. -/
theorem truncate_eq_mul (h : ∀ k ≤ q, z k = ∑ i ∈ Finset.range (k + 1), x i * y (k - i)) :
    truncate q z = truncate q x * truncate q y := by
  rw [truncate.eq_1 q x, truncate.eq_1 q y, ← map_mul]
  apply truncate_eq_mk_iff.mpr
  intro k hk
  rw [h k hk, coeff_mul, Finset.Nat.sum_antidiagonal_eq_sum_range_succ fun i j =>
    (polynomial q x).coeff i * (polynomial q y).coeff j]
  apply Finset.sum_congr rfl
  intro i hi
  rw [Finset.mem_range] at hi
  rw [polynomial_coeff x (by omega), polynomial_coeff y (by omega)]

/-- A series with a non-zero order 0 can be divided by. -/
theorem isUnit_truncate (h : x 0 ≠ 0) : IsUnit (truncate q x) := by
  have hdvd : ¬ X ∣ polynomial q x := by
    rwa [X_dvd_iff, polynomial_coeff x (Nat.zero_le q)]
  have hcoprime : IsCoprime (polynomial q x) (X ^ (q + 1)) :=
    ((irreducible_X.coprime_iff_not_dvd).mpr hdvd).symm.pow_right
  obtain ⟨u, v, huv⟩ := hcoprime
  apply IsUnit.of_mul_eq_one (AdjoinRoot.mk _ u)
  rw [truncate, ← map_mul, ← map_one (AdjoinRoot.mk (X ^ (q + 1) : K[X])), ← huv,
    AdjoinRoot.mk_eq_mk]
  exact ⟨-v, by ring⟩

theorem truncate_eq_div (hy : y 0 ≠ 0)
    (h : ∀ k ≤ q, x k = ∑ i ∈ Finset.range (k + 1), z i * y (k - i)) :
    truncate q z = truncate q x * Ring.inverse (truncate q y) := by
  rw [truncate_eq_mul h, Ring.mul_inverse_cancel_right _ _ (isUnit_truncate hy)]

section Recurrences

variable [LinearOrder K] [ExactScalar K]

omit [LinearOrder K] [ExactScalar K] in
theorem foldl_add_eq {ι : Type} (f : ι → K) (s : K) (l : List ι) :
    l.foldl (fun sum i => sum + f i) s = s + (l.map f).sum := by
  induction l generalizing s with
  | nil => simp
  | cons i l ih => rw [List.foldl_cons, ih, List.map_cons, List.sum_cons, add_assoc]

omit [LinearOrder K] [ExactScalar K] in
theorem foldl_sub_eq {ι : Type} (f : ι → K) (s : K) (l : List ι) :
    l.foldl (fun sum i => sum - f i) s = s - (l.map f).sum := by
  induction l generalizing s with
  | nil => simp
  | cons i l ih => rw [List.foldl_cons, ih, List.map_cons, List.sum_cons, sub_sub]

omit [LinearOrder K] [ExactScalar K] in
theorem sum_map_range' (f : Nat → K) (a n : Nat) :
    ((List.range' a n).map f).sum = ∑ k ∈ Finset.range n, f (a + k) := by
  rw [List.range'_eq_map_range, List.map_map]
  rfl

theorem convolution_eq_sum (k : Nat) (x y : Series K) :
    convolution (· * ·) k x y = ∑ i ∈ Finset.range (k + 1), x i * y (k - i) := by
  have h := foldl_add_eq (fun i => x i * y (k - i)) 0 (List.range' 0 (k + 1))
  rw [zero_add, sum_map_range'] at h
  simp only [zero_add] at h
  exact h

theorem lessQuotientTerms_eq_sub (s : K) (k : Nat) (z y : Series K) :
    lessQuotientTerms s k z y = s - ∑ i ∈ Finset.range k, z (k - (1 + i)) * y (1 + i) := by
  have h := foldl_sub_eq (fun i => z (k - i) * y i) s (List.range' 1 k)
  rw [sum_map_range'] at h
  exact h

/-- The recurrence of a quotient, multiplied out. -/
theorem eq_sum_of_quotient {k : Nat} (hy : y 0 ≠ 0) (h : z k = quotient k x y z) :
    x k = ∑ i ∈ Finset.range (k + 1), z i * y (k - i) := by
  have hdiv : z k = (x k - ∑ i ∈ Finset.range k, z (k - (1 + i)) * y (1 + i)) / y 0 := by
    rw [← lessQuotientTerms_eq_sub]
    exact h
  have hreflect := Finset.sum_range_reflect (fun i => z i * y (k - i)) (k + 1)
  rw [← hreflect, Finset.sum_range_succ']
  have hterms : ∀ i ∈ Finset.range k, z (k + 1 - 1 - (i + 1)) * y (k - (k + 1 - 1 - (i + 1))) =
      z (k - (1 + i)) * y (1 + i) := by
    intro i hi
    rw [Finset.mem_range] at hi
    congr 2 <;> omega
  rw [Finset.sum_congr rfl hterms]
  simp only [Nat.add_sub_cancel, Nat.sub_zero, Nat.sub_self]
  rw [eq_div_iff hy] at hdiv
  rw [hdiv]
  ring

end Recurrences

end Series

namespace TruncatedSeries

/-- The coefficient of order 0. -/
noncomputable def constantTerm {K : Type} [Field K] (q : Nat) : TruncatedSeries K q →ₐ[K] K :=
  AdjoinRoot.liftAlgHom _ (AlgHom.id K K) 0 (by simp)

@[simp] theorem constantTerm_truncate {K : Type} [Field K] (q : Nat) (x : Series K) :
    constantTerm q (x.truncate q) = x 0 := by
  unfold Series.truncate constantTerm
  rw [AdjoinRoot.liftAlgHom_mk]
  rw [← Series.polynomial_coeff x (Nat.zero_le q), coeff_zero_eq_eval_zero]
  rfl

end TruncatedSeries

end JetTape
