import Mathlib.RingTheory.PowerSeries.Derivative
import Mathlib.RingTheory.PowerSeries.Inverse

/-!
Formal power series up to an order. Products of series that agree below an order agree there too, a
factor with an invertible constant term can be cancelled, and the derivative tells the orders above
0. So what a recurrence leaves can be told, and solved, in the ring of power series.
-/
namespace JetTape

open PowerSeries

variable {K : Type} [Field K] {n : Nat} {f f' g g' h : K⟦X⟧}

theorem coeff_zero_mul (f g : K⟦X⟧) : coeff 0 (f * g) = coeff 0 f * coeff 0 g := by
  simp only [coeff_zero_eq_constantCoeff_apply, map_mul]

/-- The series have the same coefficients at the orders below `n`. -/
def AgreeBelow (n : Nat) (f g : K⟦X⟧) : Prop := ∀ k < n, coeff k f = coeff k g

/-- The series have the same coefficients at the orders from 1 to `n`. -/
def AgreeHigher (n : Nat) (f g : K⟦X⟧) : Prop := ∀ k, 0 < k → k ≤ n → coeff k f = coeff k g

namespace AgreeBelow

theorem refl (n : Nat) (f : K⟦X⟧) : AgreeBelow n f f := fun _ _ => rfl

theorem symm (h : AgreeBelow n f g) : AgreeBelow n g f := fun k hk => (h k hk).symm

theorem trans (hfg : AgreeBelow n f g) (hgh : AgreeBelow n g h) : AgreeBelow n f h :=
  fun k hk => (hfg k hk).trans (hgh k hk)

instance : Trans (AgreeBelow (K := K) n) (AgreeBelow n) (AgreeBelow n) := ⟨trans⟩

theorem mono {m : Nat} (h : AgreeBelow n f g) (hm : m ≤ n) : AgreeBelow m f g :=
  fun k hk => h k (Nat.lt_of_lt_of_le hk hm)

theorem mul (h : AgreeBelow n f g) (h' : AgreeBelow n f' g') : AgreeBelow n (f * f') (g * g') := by
  intro k hk
  rw [coeff_mul, coeff_mul]
  apply Finset.sum_congr rfl
  intro i hi
  rw [Finset.HasAntidiagonal.mem_antidiagonal] at hi
  rw [h i.1 (by omega), h' i.2 (by omega)]

theorem iff_dvd : AgreeBelow n f g ↔ X ^ n ∣ f - g := by
  rw [X_pow_dvd_iff]
  apply forall₂_congr
  intro k _
  rw [map_sub, sub_eq_zero]

/-- A factor with a non-zero constant term can be cancelled. -/
theorem cancel_left (hf : coeff 0 f ≠ 0) (h : AgreeBelow n (f * g) (f * g')) :
    AgreeBelow n g g' := by
  have hunit : IsUnit f := by
    rw [isUnit_iff_constantCoeff, ← coeff_zero_eq_constantCoeff_apply]
    exact hf.isUnit
  rw [iff_dvd, ← mul_sub] at h
  exact iff_dvd.mpr (hunit.dvd_mul_left.mp h)

end AgreeBelow

namespace AgreeHigher

theorem symm (h : AgreeHigher n f g) : AgreeHigher n g f := fun k h0 hk => (h k h0 hk).symm

theorem trans (hfg : AgreeHigher n f g) (hgh : AgreeHigher n g h) : AgreeHigher n f h :=
  fun k h0 hk => (hfg k h0 hk).trans (hgh k h0 hk)

/-- With the constant term the orders from 1 to `n` are those below `n + 1`. -/
theorem below_iff : AgreeBelow (n + 1) f g ↔ coeff 0 f = coeff 0 g ∧ AgreeHigher n f g := by
  constructor
  · exact fun h => ⟨h 0 (Nat.succ_pos n), fun k _ hk => h k (Nat.lt_succ_of_le hk)⟩
  · rintro ⟨hzero, h⟩ k hk
    rcases Nat.eq_zero_or_pos k with rfl | h0
    · exact hzero
    · exact h k h0 (Nat.le_of_lt_succ hk)

variable [CharZero K]

/-- The derivative has the coefficients of the positive orders, one order lower. -/
theorem iff_derivative : AgreeHigher n f g ↔ AgreeBelow n (derivative K f) (derivative K g) := by
  have hstep (k : Nat) : coeff (k + 1) f = coeff (k + 1) g ↔
      coeff k (derivative K f) = coeff k (derivative K g) := by
    rw [coeff_derivative, coeff_derivative, mul_left_inj' (Nat.cast_add_one_ne_zero k)]
  constructor
  · exact fun h k hk => (hstep k).mp (h (k + 1) (Nat.succ_pos k) hk)
  · rintro h (_ | k) h0 hk
    · exact absurd h0 (Nat.lt_irrefl 0)
    · exact (hstep k).mpr (h k hk)

end AgreeHigher

/-- Square roots with the same non-zero constant term are one. -/
theorem AgreeBelow.of_mul_self [CharZero K] (hzero : coeff 0 f = coeff 0 g) (hf : coeff 0 f ≠ 0)
    (h : AgreeBelow n (f * f) (g * g)) : AgreeBelow n f g := by
  have hsum : coeff 0 (f + g) ≠ 0 := by
    rw [map_add, ← hzero, ← two_mul]
    exact mul_ne_zero two_ne_zero hf
  apply cancel_left hsum
  rw [iff_dvd] at h ⊢
  have hfactor : (f + g) * f - (f + g) * g = f * f - g * g := by ring
  rwa [hfactor]

namespace AgreeHigher

/-- Products of series with the same constant terms have the same constant term. -/
theorem below_mul (hf : coeff 0 f = coeff 0 f') (hg : coeff 0 g = coeff 0 g')
    (h : AgreeHigher n (f * g) (f' * g')) : AgreeBelow (n + 1) (f * g) (f' * g') := by
  apply below_iff.mpr ⟨?_, h⟩
  rw [coeff_zero_mul, coeff_zero_mul, hf, hg]

theorem cancel_right (hzero : coeff 0 f = coeff 0 f') (hg : coeff 0 g ≠ 0)
    (h : AgreeHigher n (f * g) (f' * g)) : AgreeHigher n f f' := by
  have hbelow := h.below_mul hzero rfl
  rw [mul_comm f, mul_comm f'] at hbelow
  exact (below_iff.mp (hbelow.cancel_left hg)).2

theorem of_mul_self [CharZero K] (hzero : coeff 0 f = coeff 0 g) (hf : coeff 0 f ≠ 0)
    (h : AgreeHigher n (f * f) (g * g)) : AgreeBelow (n + 1) f g :=
  .of_mul_self hzero hf (h.below_mul hzero hzero)

end AgreeHigher

end JetTape
