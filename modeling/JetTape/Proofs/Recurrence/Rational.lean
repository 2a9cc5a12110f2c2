import JetTape.Proofs.Recurrence.Operands
import JetTape.Proofs.Recurrence.Truncated
import JetTape.Proofs.Tape.Evaluation

/-!
Rational instructions on truncated series. If a row has at order 0 the value of its instruction and
at every positive order the coefficient that the recurrence gives, then the row's series is the
value of the instruction in the ring of truncated series.
-/
namespace JetTape

variable {K : Type}

/-- Where nothing changes when an instruction sets a coefficient, the coefficient is there. -/
theorem Jet.eq_of_set {j : Jet K} {row k : Nat} {x : K} (h : j.set row k x = j) : j row k = x := by
  rw [← h, Jet.set_self]

variable [Field K]

/-- The series of an operand. -/
def Source.series (params : Array K) (j : Jet K) : Source → Nat → Series K
  | .var, i => j i
  | .par, i => Series.const (params.getD i 0)

namespace Arithmetic

variable [LinearOrder K] [ExactScalar K] {x y z : Series K} {q : Nat}

/-- The order-`q` coefficient of an operation on two series. -/
def coefficient (f : Arithmetic) (q : Nat) (x y z : Series K) : K :=
  match f with
  | addVV | addPV => x q + y q
  | subVV | subPV | subVP => x q - y q
  | mulVV | mulPV | zmulVV | zmulPV | zmulVP => Series.convolution (· * ·) q x y
  | divVV | divPV | divVP => Series.quotient q x y z

/-- Over a field zero absorbs in every product. -/
theorem zmul_eq_mul (a b : K) : Scalar.zmul a b = a * b := by
  by_cases h : a = 0
  · rw [Scalar.zmul_of_eq_zero (decide_eq_true h), h]
    exact (zero_mul b).symm
  · exact Scalar.zmul_of_ne_zero (decide_eq_false h) b

theorem convolution_const_left (c : K) (q : Nat) (y : Series K) :
    Series.convolution (· * ·) q (Series.const c) y = c * y q := by
  rw [Series.convolution_eq_sum, Finset.sum_range_succ', Finset.sum_eq_zero, zero_add]
  · rfl
  · intro i _
    rw [Series.const_of_pos c (Nat.succ_pos i), zero_mul]

theorem convolution_const_right (c : K) (q : Nat) (x : Series K) :
    Series.convolution (· * ·) q x (Series.const c) = x q * c := by
  rw [Series.convolution_eq_sum, Finset.sum_range_succ, Finset.sum_eq_zero, zero_add, Nat.sub_self]
  · rfl
  · intro i hi
    rw [Finset.mem_range] at hi
    rw [Series.const_of_pos c (by omega), mul_zero]

theorem quotient_const (c : K) (q : Nat) (x z : Series K) :
    Series.quotient q x (Series.const c) z = x q / c := by
  have hterms : Series.lessQuotientTerms (x q) q z (Series.const c) = x q := by
    rw [Series.lessQuotientTerms_eq_sub, Finset.sum_eq_zero, sub_zero]
    intro i _
    rw [Series.const_of_pos c (by omega), mul_zero]
  unfold Series.quotient
  rw [hterms]
  rfl

/-- Parameters are constant series: the forms of an operation are one above order 0. -/
theorem arithmeticCoeff_eq (f : Arithmetic) {s u : Source} (hf : f.sources = [s, u]) (hq : 0 < q)
    (j : Jet K) (row a b : Nat) (params : Array K) :
    j.arithmeticCoeff f q row [a, b] params =
      f.coefficient q (s.series params j a) (u.series params j b) (j row) := by
  have hzmul : (Scalar.zmul : K → K → K) = (· * ·) := by
    funext x y
    exact zmul_eq_mul x y
  cases f <;> cases hf <;>
    simp only [Jet.arithmeticCoeff, coefficient, Source.series, List.getD_cons_zero,
      List.getD_cons_succ, hzmul, convolution_const_left, convolution_const_right, quotient_const,
      Series.const_of_pos _ hq, zero_add, zero_sub, sub_zero]
  case divPV => rw [Series.quotient, Series.const_of_pos _ hq]; rfl

/-- The result of an operation on truncated series. -/
theorem truncate_eq_apply (f : Arithmetic) (hzero : z 0 = f.apply (x 0) (y 0))
    (hcoeff : ∀ k, 0 < k → k ≤ q → z k = f.coefficient k x y z)
    (hdiv : f.divides = true → y 0 ≠ 0) :
    z.truncate q = f.apply (x.truncate q) (y.truncate q) := by
  cases f with
  | addVV | addPV => exact Series.truncate_eq_add (Series.EqUpTo.of_pos hzero hcoeff)
  | subVV | subPV | subVP => exact Series.truncate_eq_sub (Series.EqUpTo.of_pos hzero hcoeff)
  | mulVV | mulPV | zmulVV | zmulPV | zmulVP =>
    refine Series.truncate_eq_mul (Series.EqUpTo.of_pos ?_ ?_)
    · simpa [apply] using hzero
    · intro k hk0 hk
      rw [← Series.convolution_eq_sum]
      exact hcoeff k hk0 hk
  | divVV | divPV | divVP =>
    have hy : y 0 ≠ 0 := hdiv rfl
    refine Series.truncate_eq_div hy (Series.EqUpTo.of_pos ?_ ?_)
    · unfold apply at hzero
      rw [Ring.inverse_eq_inv', ← div_eq_mul_inv, eq_div_iff hy] at hzero
      simpa using hzero.symm
    · intro k hk0 hk
      exact Series.eq_sum_of_quotient hy (hcoeff k hk0 hk)

end Arithmetic

namespace Series

variable {q : Nat}

theorem truncate_sum (j : Jet K) (l : List Nat) :
    (l.map fun x => truncate q (j x)).sum = truncate q fun k => (l.map fun x => j x k).sum := by
  induction l with
  | nil =>
    have hnone : (fun k => (([] : List Nat).map fun x => j x k).sum) = const (0 : K) := by
      funext k
      simp [const]
    rw [hnone, truncate_const, map_zero]
    rfl
  | cons x l ih =>
    rw [List.map_cons, List.sum_cons, ih]
    exact (truncate_eq_add fun k _ => by rw [List.map_cons, List.sum_cons]).symm

end Series

section Reading

variable {A : Type} [CommRing A] [Algebra K A] {e : Valuation K A} {j : Jet K}

/-- Operands are read as their series are. -/
theorem Valuation.operand_read {g : Series K → A}
    (hconst : ∀ c, g (Series.const c) = algebraMap K A c) (s : Source) (i : Nat) :
    e.operand (fun v => g (j v)) s i = g (s.series e.params j i) := by
  cases s with
  | var => rfl
  | par => exact (hconst _).symm

variable [LinearOrder K] [ExactScalar K]

/-- The series that a conditional chooses by order 0. -/
def Relation.chosen (r : Relation) (params : Array K) (j : Jet K)
    (left right ifTrue ifFalse : Operand) : Series K :=
  if r.holds (left.source.series params j left.index 0) (right.source.series params j right.index 0)
  then ifTrue.source.series params j ifTrue.index
  else ifFalse.source.series params j ifFalse.index

theorem Valuation.choice_read {g : Series K → A}
    (hconst : ∀ c, g (Series.const c) = algebraMap K A c)
    (hfirst : ∀ x, e.constantTerm (g x) = x 0) (r : Relation)
    (left right ifTrue ifFalse : Operand) :
    e.choice (fun v => g (j v)) [r.code, chooseFlags left right ifTrue ifFalse, left.index,
        right.index, ifTrue.index, ifFalse.index] =
      g (r.chosen e.params j left right ifTrue ifFalse) := by
  obtain ⟨h0, h1, h2, h3⟩ := e.side_choose (fun v => g (j v)) r.code left right ifTrue ifFalse
  simp only [choice, List.getD_cons_zero, Relation.ofCode_code, h0, h1, h2, h3,
    operand_read hconst, hfirst, Relation.chosen]
  split <;> rfl

/-- Above order 0 a conditional has the coefficients of the chosen series. -/
theorem Jet.chooseCoeff_eq (r : Relation) (params : Array K) (left right ifTrue ifFalse : Operand)
    {k : Nat} (hk : 0 < k) :
    j.chooseCoeff k [r.code, chooseFlags left right ifTrue ifFalse, left.index, right.index,
        ifTrue.index, ifFalse.index] params = r.chosen params j left right ifTrue ifFalse k := by
  have hfirst (a : Operand) : a.first params j = a.source.series params j a.index 0 := by
    cases a <;> rfl
  have hhigher (a : Operand) : a.higher k j = a.source.series params j a.index k := by
    cases a with
    | var x => rfl
    | par i => exact (Series.const_of_pos _ hk).symm
  rw [chooseCoeff_operands, hfirst, hfirst, hhigher, hhigher, Relation.chosen]
  split <;> rfl

theorem Jet.sumCoeff_eq {xs ys : List Nat} (hcount : xs.length + ys.length < Index.argBound)
    (i k : Nat) :
    j.sumCoeff k ([Index.toArg xs.length, Index.toArg ys.length, i] ++ xs ++ ys ++
        [Index.toArg (xs.length + ys.length)]) =
      (xs.map fun x => j x k).sum - (ys.map fun y => j y k).sum := by
  obtain ⟨hadded, hsubtracted⟩ := sum_rows hcount i
  unfold Jet.sumCoeff
  rw [hadded, hsubtracted]
  have hplus := Series.foldl_add_eq (fun x => j x k) 0 xs
  rw [zero_add] at hplus
  rw [← hplus]
  exact Series.foldl_sub_eq (fun y => j y k) _ ys

end Reading

/-!
### Rows on truncated series

Order 0 of a row is the value of its instruction for `e₀`, which reads the order-0 coefficients; the
positive orders are the recurrence's. The row's series is then the value for `e`, which reads
truncated series.
-/
namespace Valuation

private theorem const_at_zero (c : K) :
    (fun x : Series K => x 0) (Series.const c) = algebraMap K K c := rfl

variable [LinearOrder K] [ExactScalar K] {j : Jet K} {row q : Nat} {e₀ : Valuation K K}
variable {e : Valuation K (TruncatedSeries K q)}

theorem truncate_arithmetic {f : Arithmetic} {s u : Source} {a b : Nat} (hf : f.sources = [s, u])
    (hparams : e₀.params = e.params)
    (hzero : j row 0 = e₀.value (fun v => j v 0) ⟨.arithmetic f, [a, b], row⟩)
    (hcoeff : ∀ k, 0 < k → k ≤ q → j row k = j.arithmeticCoeff f k row [a, b] e.params)
    (hdiv : f.divides = true → e₀.argument (fun v => j v 0) f.sources [a, b] 1 ≠ 0) :
    Series.truncate q (j row) =
      e.value (fun v => Series.truncate q (j v)) ⟨.arithmetic f, [a, b], row⟩ := by
  have hvalue : e.value (fun v => Series.truncate q (j v)) ⟨.arithmetic f, [a, b], row⟩ =
      f.apply ((s.series e.params j a).truncate q) ((u.series e.params j b).truncate q) := by
    simp only [value, argument, hf, List.getD_cons_zero, List.getD_cons_succ,
      operand_read (e := e) (j := j) Series.truncate_const]
  simp only [value, argument, hf, List.getD_cons_zero, List.getD_cons_succ, hparams,
    operand_read (e := e₀) (j := j) (g := fun x => x 0) const_at_zero] at hzero hdiv
  rw [hvalue]
  apply Arithmetic.truncate_eq_apply f hzero
  · intro k hk0 hk
    rw [← Arithmetic.arithmeticCoeff_eq f hf hk0]
    exact hcoeff k hk0 hk
  · exact hdiv

theorem truncate_choose {r : Relation} {left right ifTrue ifFalse : Operand} {args : List Nat}
    (hargs : args = [r.code, chooseFlags left right ifTrue ifFalse, left.index, right.index,
      ifTrue.index, ifFalse.index])
    (hparams : e₀.params = e.params) (hfirst₀ : e₀.constantTerm = AlgHom.id K K)
    (hfirst : e.constantTerm = TruncatedSeries.constantTerm q)
    (hzero : j row 0 = e₀.value (fun v => j v 0) ⟨.choose, args, row⟩)
    (hcoeff : ∀ k, 0 < k → k ≤ q → j row k = j.chooseCoeff k args e.params) :
    Series.truncate q (j row) =
      e.value (fun v => Series.truncate q (j v)) ⟨.choose, args, row⟩ := by
  subst hargs
  have hvalue := choice_read (e := e) (j := j) Series.truncate_const
    (fun x => by rw [hfirst, TruncatedSeries.constantTerm_truncate]) r left right ifTrue ifFalse
  have hvalue₀ := choice_read (e := e₀) (j := j) (g := fun x => x 0) const_at_zero
    (fun x => by rw [hfirst₀]; rfl) r left right ifTrue ifFalse
  simp only [value] at hzero ⊢
  rw [hvalue]
  rw [hvalue₀, hparams] at hzero
  apply Series.truncate_eq_iff.mpr (.of_pos hzero ?_)
  intro k hk0 hk
  rw [← Jet.chooseCoeff_eq r e.params left right ifTrue ifFalse hk0]
  exact hcoeff k hk0 hk

theorem truncate_sum {i : Nat} {xs ys args : List Nat}
    (hargs : args = [Index.toArg xs.length, Index.toArg ys.length, i] ++ xs ++ ys ++
      [Index.toArg (xs.length + ys.length)])
    (hcount : xs.length + ys.length < Index.argBound) (hparams : e₀.params = e.params)
    (hzero : j row 0 = e₀.value (fun v => j v 0) ⟨.sum, args, row⟩)
    (hcoeff : ∀ k, 0 < k → k ≤ q → j row k = j.sumCoeff k args) :
    Series.truncate q (j row) = e.value (fun v => Series.truncate q (j v)) ⟨.sum, args, row⟩ := by
  subst hargs
  obtain ⟨hadded, hsubtracted⟩ := sum_rows hcount i
  simp only [value, hadded, hsubtracted] at hzero ⊢
  calc Series.truncate q (j row)
      = Series.truncate q (fun k =>
          Series.const (e.params.getD i 0) k + (xs.map fun x => j x k).sum) -
        Series.truncate q (fun k => (ys.map fun y => j y k).sum) := ?_
    _ = Series.truncate q (Series.const (e.params.getD i 0)) +
          Series.truncate q (fun k => (xs.map fun x => j x k).sum) -
        Series.truncate q (fun k => (ys.map fun y => j y k).sum) := by
      rw [← Series.truncate_eq_add fun _ _ => rfl]
    _ = _ := by
      rw [← Series.truncate_sum, ← Series.truncate_sum, Series.truncate_const]
      rfl
  apply Series.truncate_eq_sub
  apply Series.EqUpTo.of_pos
  · rw [hzero, ← hparams]
    rfl
  · intro k hk0 hk
    rw [Series.const_of_pos _ hk0, zero_add, ← Jet.sumCoeff_eq hcount i]
    exact hcoeff k hk0 hk

theorem truncate_load {s : Source} {args : List Nat} (hresolved : e₀.resolved = e.resolved)
    (hgiven : e.constantTerm (e.given row) = j row 0)
    (hzero : j row 0 = e₀.value (fun v => j v 0) ⟨.load s, args, row⟩)
    (hcoeff : ∀ k, 0 < k → k ≤ q → j row k = j.loadCoeff k args e.resolved) :
    Series.truncate q (j row) =
      e.value (fun v => Series.truncate q (j v)) ⟨.load s, args, row⟩ := by
  simp only [value, hresolved] at hzero ⊢
  by_cases hpos : 0 < Jet.loadedRow args e.resolved
  · rw [if_pos hpos]
    rw [if_pos hpos] at hzero
    apply Series.truncate_eq_iff.mpr (.of_pos hzero ?_)
    intro k hk0 hk
    rw [hcoeff k hk0 hk, Jet.loadCoeff, if_pos hpos]
  · rw [if_neg hpos, hgiven, ← Series.truncate_const]
    apply Series.truncate_eq_iff.mpr (.of_pos (Series.const_zero _).symm ?_)
    intro k hk0 hk
    rw [hcoeff k hk0 hk, Jet.loadCoeff, if_neg hpos, Series.const_of_pos _ hk0]

/-- On a jet that satisfies a rational instruction at order 0 and is settled above it, the row of
the instruction is its value on truncated series. -/
theorem truncate_row {n p m : Nat} {ins : Instr} (hins : Instr.Valid n p m ins.op ins.args)
    (hop : ins.op.isRational = true) (hcount : 0 < ins.op.resultCount)
    (hargs : ins.args.length < Index.argBound) (hparams : e₀.params = e.params)
    (hresolved : e₀.resolved = e.resolved) (hfirst₀ : e₀.constantTerm = AlgHom.id K K)
    (hfirst : e.constantTerm = TruncatedSeries.constantTerm q)
    (hgiven : e.constantTerm (e.given ins.row) = j ins.row 0)
    (hzero : j ins.row 0 = e₀.value (fun v => j v 0) ins)
    (hsettled : ∀ k, 0 < k → k ≤ q → j.advance k e.params e.resolved ins = j)
    (hdiv : ∀ f, ins.op = .arithmetic f → f.divides = true →
      e₀.argument (fun v => j v 0) f.sources ins.args 1 ≠ 0) :
    Series.truncate q (j ins.row) = e.value (fun v => Series.truncate q (j v)) ins := by
  obtain ⟨op, args, row⟩ := ins
  simp only at hins hop hcount hargs hgiven hzero hsettled hdiv
  have hcoeff {c : Nat → K} (hadvance : ∀ k, j.advance k e.params e.resolved ⟨op, args, row⟩ =
      j.set row k (c k)) (k : Nat) (hk0 : 0 < k) (hk : k ≤ q) : j row k = c k :=
    Jet.eq_of_set ((hadvance k).symm.trans (hsettled k hk0 hk))
  cases hins with
  | @constant i hi =>
    apply (Series.truncate_eq_iff.mpr (.of_pos ?_ ?_)).trans
      (Series.truncate_const (e.params.getD i 0))
    · rw [hzero, ← hparams]
      rfl
    · intro k hk0 hk
      rw [Series.const_of_pos _ hk0]
      exact hcoeff (fun _ => rfl) k hk0 hk
  | @arithmetic f s u a b hf ha hb =>
    exact truncate_arithmetic hf hparams hzero (hcoeff fun _ => rfl) (hdiv f rfl)
  | @choose r left right ifTrue ifFalse hl hr ht hf =>
    exact truncate_choose rfl hparams hfirst₀ hfirst hzero (hcoeff fun _ => rfl)
  | @sum i xs ys hi hx =>
    simp only [List.length_append, List.length_cons, List.length_nil] at hargs
    exact truncate_sum rfl (by omega) hparams hzero (hcoeff fun _ => rfl)
  | @load offset index slot hi hs =>
    exact truncate_load hresolved hgiven hzero (hcoeff fun _ => rfl)
  | power | elementary | erf | discrete => cases hop
  | skip | store | compare | print => cases hcount

end Valuation

end JetTape
