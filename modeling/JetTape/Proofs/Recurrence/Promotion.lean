import JetTape.Proofs.Recurrence.Equations
import JetTape.Proofs.Recurrence.Rational
import JetTape.Proofs.Replay.Lane

/-!
Variables in the place of parameters. A variable that holds a parameter has the parameter as its
value of order 0 and no higher coefficients. Conditionals and calls treat it as they treat the
parameter, whatever the coefficients are. Over a field so does every form of an arithmetic operation
or a power: the series of such a variable is constant, and so is its logarithm.
-/
namespace JetTape

variable {F : Type}

/-- The form of an operation whose operands are both variables. -/
def Arithmetic.variableForm : Arithmetic → Arithmetic
  | addVV | addPV => addVV
  | subVV | subPV | subVP => subVV
  | mulVV | mulPV => mulVV
  | divVV | divPV | divVP => divVV
  | zmulVV | zmulPV | zmulVP => zmulVV

theorem Arithmetic.sources_variableForm (f : Arithmetic) :
    f.variableForm.sources = [.var, .var] := by
  cases f <;> rfl

/-- The constants of a tape: the table of its parameters, the rows in which they are recorded as
variables, and the values of order 0. -/
structure Constants (F : Type) where
  params : Array F
  value : Nat → F
  recorded : Nat → Nat → Prop

namespace Constants

variable (c : Constants F)

/-- Parameter `i` is recorded in row `v`, one of the first `n`. -/
def Before (n i v : Nat) : Prop := v < n ∧ c.recorded i v

/-- Parameter `i` is recorded in row `v`, which has its value. -/
def Holds [Scalar F] (n i v : Nat) : Prop := c.Before n i v ∧ c.value v = c.params.getD i 0

end Constants

/-- The operand, or a variable that holds it. -/
inductive Operand.Promotes (holds : Nat → Nat → Prop) : Operand → Operand → Prop where
  | refl (a : Operand) : Promotes holds a a
  | par {i v : Nat} (h : holds i v) : Promotes holds (.par i) (.var v)

/-- Variables take the place of operands of a conditional, or of a call argument. In a comparison
and in a call they have the value of the parameter. -/
inductive Instr.Promotes [Scalar F] (c : Constants F) : Instr → Instr → Prop where
  | choose (r : Relation) {left right ifTrue ifFalse left' right' ifTrue' ifFalse' : Operand}
      {z : Nat} (hl : left.Promotes (c.Holds z) left') (hr : right.Promotes (c.Holds z) right')
      (ht : ifTrue.Promotes (c.Before z) ifTrue') (hf : ifFalse.Promotes (c.Before z) ifFalse') :
      Promotes c
        ⟨.choose, [r.code, chooseFlags left right ifTrue ifFalse, left.index, right.index,
          ifTrue.index, ifFalse.index], z⟩
        ⟨.choose, [r.code, chooseFlags left' right' ifTrue' ifFalse', left'.index, right'.index,
          ifTrue'.index, ifFalse'.index], z⟩
  | callArg {i v z : Nat} (h : c.Holds (z + 1) i v) :
      Promotes c ⟨.callArg .par, [i], z⟩ ⟨.callArg .var, [v], z⟩

/-- Variables take the place of the parameters of an arithmetic operation or a power. -/
inductive Instr.PromotesForm [Scalar F] (c : Constants F) : Instr → Instr → Prop where
  | arithmetic (f : Arithmetic) {x y : Operand} {a b z : Nat}
      (hf : f.sources = [x.source, y.source]) (hx : x.Promotes (c.Holds z) (.var a))
      (hy : y.Promotes (c.Holds z) (.var b)) :
      PromotesForm c ⟨.arithmetic f, [x.index, y.index], z⟩ ⟨.arithmetic f.variableForm, [a, b], z⟩
  | power (f : Power) {x y : Operand} {a b z : Nat} (hf : f.sources = [x.source, y.source])
      (hx : x.Promotes (c.Holds (z - 2)) (.var a)) (hy : y.Promotes (c.Holds (z - 2)) (.var b)) :
      PromotesForm c ⟨.power f, [x.index, y.index], z⟩ ⟨.power .vv, [a, b], z⟩

section Validity

variable [Scalar F] {c : Constants F} {ins ins' : Instr} {n p m k : Nat}

theorem Operand.Promotes.valid {holds : Nat → Nat → Prop} {x x' : Operand}
    (h : x.Promotes holds x') (hx : x.Valid n p) (hholds : ∀ i v, holds i v → 0 < v ∧ v < n) :
    x'.Valid n p := by
  cases h with
  | refl => exact hx
  | par h => exact hholds _ _ h

theorem Instr.Promotes.op_eq (h : ins.Promotes c ins') :
    ins.op = .choose ∧ ins'.op = .choose ∨ ins.op = .callArg .par ∧ ins'.op = .callArg .var := by
  cases h with
  | choose => exact .inl ⟨rfl, rfl⟩
  | callArg => exact .inr ⟨rfl, rfl⟩

theorem Instr.Promotes.of_callArg {kind : Source} (h : ins.Promotes c ins')
    (hop : ins.op = .callArg kind) :
    ∃ i v, ins' = ⟨.callArg .var, [v], ins.row⟩ ∧ c.Holds (ins.row + 1) i v := by
  cases h with
  | choose => cases hop
  | callArg h => exact ⟨_, _, rfl, h⟩

theorem Instr.PromotesForm.op_eq (h : ins.PromotesForm c ins') :
    (∃ f f', ins.op = .arithmetic f ∧ ins'.op = .arithmetic f') ∨
      ∃ f f', ins.op = .power f ∧ ins'.op = .power f' := by
  cases h with
  | arithmetic f => exact .inl ⟨f, _, rfl, rfl⟩
  | power f => exact .inr ⟨f, _, rfl, rfl⟩

theorem Instr.Promotes.length_args (h : ins.Promotes c ins') :
    ins'.args.length = ins.args.length := by
  cases h <;> rfl

theorem Instr.PromotesForm.length_args (h : ins.PromotesForm c ins') :
    ins'.args.length = ins.args.length := by
  cases h <;> rfl

/-- The operands of a valid conditional are valid: its flags say what they refer to. -/
theorem Instr.Valid.of_choose {code : Nat} {left right ifTrue ifFalse : Operand}
    (h : Instr.Valid n p m .choose [code, chooseFlags left right ifTrue ifFalse, left.index,
      right.index, ifTrue.index, ifFalse.index]) :
    left.Valid n p ∧ right.Valid n p ∧ ifTrue.Valid n p ∧ ifFalse.Valid n p := by
  generalize hargs : [code, chooseFlags left right ifTrue ifFalse, left.index, right.index,
    ifTrue.index, ifFalse.index] = args at h
  cases h with
  | @choose r left' right' ifTrue' ifFalse' hl hr ht hf =>
    simp only [List.cons.injEq, and_true] at hargs
    obtain ⟨-, hflags, hleft, hright, hifTrue, hifFalse⟩ := hargs
    obtain ⟨h0, h1, h2, h3⟩ := testBit_chooseFlags left right ifTrue ifFalse
    obtain ⟨h0', h1', h2', h3'⟩ := testBit_chooseFlags left' right' ifTrue' ifFalse'
    have same {x x' : Operand} (hx : x'.Valid n p) (hindex : x.index = x'.index)
        (hsource : (x.source = .var) = (x'.source = .var)) : x.Valid n p := by
      cases x <;> cases x' <;> simp_all [Operand.source, Operand.index, Operand.Valid]
    exact ⟨same hl hleft (h0.symm.trans (hflags ▸ h0')),
      same hr hright (h1.symm.trans (hflags ▸ h1')),
      same ht hifTrue (h2.symm.trans (hflags ▸ h2')),
      same hf hifFalse (h3.symm.trans (hflags ▸ h3'))⟩

variable (hpos : ∀ i v, c.recorded i v → 0 < v)

include hpos

/-- A conditional on variables can be recorded where the conditional was. -/
theorem Instr.Promotes.valid (h : ins.Promotes c ins') (hitem : (Item.plain ins).Valid n p m k) :
    (Item.plain ins').Valid n p m k ∧ ins'.op.resultCount = ins.op.resultCount := by
  obtain ⟨hvalid, hrow, -⟩ := hitem
  cases h with
  | callArg => cases hvalid
  | @choose r left right ifTrue ifFalse left' right' ifTrue' ifFalse' z hl hr ht hf =>
    obtain rfl : z = n := Nat.succ.inj hrow
    obtain ⟨hleft, hright, hifTrue, hifFalse⟩ := hvalid.of_choose
    have hbefore (i v : Nat) (h : c.Before z i v) : 0 < v ∧ v < z := ⟨hpos i v h.2, h.1⟩
    have hholds (i v : Nat) (h : c.Holds z i v) : 0 < v ∧ v < z := hbefore i v h.1
    exact ⟨⟨.choose r (hl.valid hleft hholds) (hr.valid hright hholds) (ht.valid hifTrue hbefore)
      (hf.valid hifFalse hbefore), hrow, trivial⟩, rfl⟩

/-- So can an operation on variables. -/
theorem Instr.PromotesForm.valid (h : ins.PromotesForm c ins')
    (hitem : (Item.plain ins).Valid n p m k) :
    (Item.plain ins').Valid n p m k ∧ ins'.op.resultCount = ins.op.resultCount := by
  obtain ⟨hvalid, hrow, -⟩ := hitem
  have hholds (i v : Nat) (h : c.Holds n i v) : 0 < v ∧ v < n := ⟨hpos i v h.1.2, h.1.1⟩
  have operand {x : Operand} {a : Nat} (hx : x.Promotes (c.Holds n) (.var a))
      (hvalid : x.source.Valid n p x.index) : Source.var.Valid n p a :=
    hx.valid (Operand.valid_iff.mpr hvalid) hholds
  cases h with
  | @arithmetic f x y a b z hf hx hy =>
    obtain rfl : z = n := Nat.succ.inj hrow
    cases hvalid with
    | arithmetic f hf' ha hb =>
      cases hf.symm.trans hf'
      exact ⟨⟨.arithmetic _ f.sources_variableForm (operand hx ha) (operand hy hb), hrow, trivial⟩,
        rfl⟩
  | @power f x y a b z hf hx hy =>
    obtain rfl : z - 2 = n := by
      simp only [Opcode.resultCount] at hrow
      omega
    cases hvalid with
    | power f hf' ha hb =>
      cases hf.symm.trans hf'
      exact ⟨⟨.power .vv rfl (operand hx ha) (operand hy hb), hrow, trivial⟩, rfl⟩

end Validity

/-- Within a sweep of order `q` that has come to row `n`: the values of order 0 are known, and the
rows in `flat` have no higher coefficients as far as they have been swept. -/
structure Jet.FlatBelow [Scalar F] (value : Nat → F) (flat : Nat → Prop) (q n : Nat) (j : Jet F) :
    Prop where
  values : ∀ v, j v 0 = value v
  lower : ∀ v, flat v → ∀ o, 0 < o → o < q → j v o = 0
  swept : ∀ v, flat v → v < n → j v q = 0

section Any

variable [Scalar F] {c : Constants F} {flat : Nat → Prop} {q n v : Nat} {j : Jet F}

theorem Jet.FlatBelow.eq_zero (hj : j.FlatBelow c.value flat q n) (hv : flat v) (hn : v < n)
    {o : Nat} (h0 : 0 < o) (ho : o ≤ q) : j v o = 0 := by
  rcases Nat.lt_or_eq_of_le ho with hlt | rfl
  · exact hj.lower v hv o h0 hlt
  · exact hj.swept v hv hn

variable (hflat : ∀ i v, c.recorded i v → flat v)

namespace Operand.Promotes

variable {x x' : Operand}

/-- In a comparison the variable has the value of the parameter. -/
theorem first_eq (h : x.Promotes (c.Holds n) x') (hj : j.FlatBelow c.value flat q n) :
    x'.first c.params j = x.first c.params j := by
  cases h with
  | refl => rfl
  | par h => exact (hj.values _).trans h.2

include hflat

/-- Chosen as a branch the variable has no higher coefficient, like the parameter. -/
theorem higher_eq (h : x.Promotes (c.Before n) x') (h0 : 0 < q)
    (hj : j.FlatBelow c.value flat q n) : x'.higher q j = x.higher q j := by
  cases h with
  | refl => rfl
  | par h => exact hj.eq_zero (hflat _ _ h.2) h.1 h0 (Nat.le_refl q)

end Operand.Promotes

include hflat

/-- A conditional takes the same coefficient. -/
theorem Instr.Promotes.advance {ins ins' : Instr} {resolved : Array Nat} (h : ins.Promotes c ins')
    (hop : ins.op = .choose) (h0 : 0 < q) (hj : j.FlatBelow c.value flat q ins.row) :
    j.advance q c.params resolved ins' = j.advance q c.params resolved ins := by
  cases h with
  | callArg => cases hop
  | @choose r left right ifTrue ifFalse left' right' ifTrue' ifFalse' z hl hr ht hf =>
    simp only [Jet.advance, Jet.chooseCoeff_operands, hl.first_eq hj, hr.first_eq hj,
      ht.higher_eq hflat h0 hj, hf.higher_eq hflat h0 hj]

/-- A call is given the same series. -/
theorem Instr.Promotes.callSeries {p : Plan F} {ins ins' : Instr} {kind : Source}
    (h : ins.Promotes c ins') (hop : ins.op = .callArg kind) (hparams : p.params = c.params)
    (hj : j.FlatBelow c.value flat p.order (ins.row + 1)) :
    p.callSeries ins' j = p.callSeries ins j := by
  cases h with
  | choose => cases hop
  | @callArg i v z h =>
    have hhigher : (List.range' 1 p.order).map (j v) = List.replicate p.order 0 := by
      refine List.eq_replicate_iff.mpr ⟨by simp, fun x hx => ?_⟩
      obtain ⟨o, ho, rfl⟩ := List.mem_map.mp hx
      rw [List.mem_range'_1] at ho
      exact hj.eq_zero (hflat i v h.1.2) h.1.1 ho.1 (by omega)
    simp only [Plan.callSeries, List.getD_cons_zero, hparams, List.range'_succ, List.map_cons,
      hhigher, hj.values, h.2]

end Any

section Exact

variable {K : Type} [Field K] [LinearOrder K] [ExactScalar K] {c : Constants K}
variable {flat : Nat → Prop} {q n : Nat} {j : Jet K} {params : Array K}

namespace Arithmetic

theorem coefficient_congr (f : Arithmetic) {x x' y y' z : Series K} (hx : Series.EqUpTo q x x')
    (hy : Series.EqUpTo q y y') : f.coefficient q x y z = f.coefficient q x' y' z := by
  cases f with
  | addVV | addPV | subVV | subPV | subVP => simp only [coefficient, hx.last, hy.last]
  | mulVV | mulPV | zmulVV | zmulPV | zmulVP => exact Series.convolution_congr _ hx hy
  | divVV | divPV | divVP => exact Series.quotient_congr hx hy fun _ _ => rfl

theorem coefficient_variableForm (f : Arithmetic) (x y z : Series K) :
    f.variableForm.coefficient q x y z = f.coefficient q x y z := by
  cases f <;> rfl

end Arithmetic

/-- The logarithm of a constant series has no higher coefficients. -/
theorem Series.logShifted_const (a shift : K) (h0 : 0 < q) (z : Series K) :
    logShifted q shift (const a) z = 0 := by
  have hweighted : weighted (q - 1) q z (const a) = 0 := by
    rw [weighted_eq_sum, Finset.sum_eq_zero]
    intro i hi
    rw [Finset.mem_range] at hi
    rw [const_of_pos a (by omega), mul_zero]
  rw [logShifted, hweighted, const_of_pos a h0]
  show (0 - 0 * _) / _ = (0 : K)
  rw [zero_mul, sub_zero, zero_div]

variable (hflat : ∀ i v, c.recorded i v → flat v)

include hflat

/-- Up to the order of the sweep the variable has the series of what it stands for. -/
theorem Operand.Promotes.eqUpTo {x : Operand} {a : Nat} (h : x.Promotes (c.Holds n) (.var a))
    (hj : j.FlatBelow c.value flat q n) :
    Series.EqUpTo q (j a) (x.source.series c.params j x.index) := by
  cases h with
  | refl => exact fun _ _ => rfl
  | @par i _ h =>
    refine Series.EqUpTo.of_pos ((hj.values a).trans h.2) fun k h0 hk => ?_
    exact (hj.eq_zero (hflat i a h.1.2) h.1.1 h0 hk).trans (Series.const_of_pos _ h0).symm

/-- The three rows of a power of variables are those of the power. -/
theorem Jet.power_promoted (f : Power) {x y : Operand} {a b z : Nat}
    (hf : f.sources = [x.source, y.source]) (hx : x.Promotes (c.Holds (z - 2)) (.var a))
    (hy : y.Promotes (c.Holds (z - 2)) (.var b)) (hlog : f = .pv → flat (z - 2)) (h0 : 0 < q)
    (hj : j.FlatBelow c.value flat q (z - 2)) :
    j.power .vv q z [a, b] c.params = j.power f q z [x.index, y.index] c.params := by
  have hbase := hx.eqUpTo hflat hj
  have hexponent := hy.eqUpTo hflat hj
  cases hx with
  | refl =>
    cases hy with
    | refl =>
      obtain rfl : f = .vv := by cases f <;> first | rfl | cases hf
      rfl
    | @par i _ hi =>
      obtain rfl : f = .vp := by cases f <;> first | rfl | cases hf
      -- The exponent lies in a row before that of the logarithm.
      have hrow (u : K) : j.set (z - 2) q u b = j b :=
        funext fun o => Jet.set_of_row_ne (Nat.ne_of_lt hi.1.1)
      have hproduct (x : Series K) :
          Series.convolution (· * ·) q x (j b) = x q * c.params.getD i 0 :=
        (Series.convolution_congr _ (fun _ _ => rfl) hexponent).trans
          (Arithmetic.convolution_const_right _ q x)
      simp only [Jet.power, Operand.index, List.getD_cons_zero, List.getD_cons_succ, hrow, hproduct]
  | @par i _ hi =>
    obtain ⟨rfl, rfl⟩ : f = .pv ∧ y = .var b := by
      cases hy <;> cases f <;> first | exact ⟨rfl, rfl⟩ | cases hf
    have hzero : Series.logShifted q 0 (j a) (j (z - 2)) = 0 :=
      (Series.logShifted_congr 0 hbase fun _ _ => rfl).trans (Series.logShifted_const _ 0 h0 _)
    have hconst : Series.EqUpTo q (j.set (z - 2) q 0 (z - 2)) (Series.const (j (z - 2) 0)) := by
      refine Series.EqUpTo.of_pos (Jet.set_of_order_ne (Nat.ne_of_lt h0)) fun o ho hq => ?_
      rw [Series.const_of_pos _ ho]
      rcases Nat.lt_or_eq_of_le hq with hlt | rfl
      · rw [Jet.set_of_order_ne (Nat.ne_of_lt hlt)]
        exact hj.lower _ (hlog rfl) o ho hlt
      · exact Jet.set_self ..
    have hproduct (y : Series K) :
        Series.convolution (· * ·) q (j.set (z - 2) q 0 (z - 2)) y = j (z - 2) 0 * y q :=
      (Series.convolution_congr _ hconst fun _ _ => rfl).trans
        (Arithmetic.convolution_const_left _ q y)
    simp only [Jet.power, Operand.index, List.getD_cons_zero, List.getD_cons_succ, hzero, hproduct,
      Jet.set_of_order_ne (Nat.ne_of_lt h0)]

/-- Over a field an operation on variables fills the same rows. -/
theorem Instr.PromotesForm.advance {ins ins' : Instr} {resolved : Array Nat}
    (h : ins.PromotesForm c ins') (hlog : ins.op = .power .pv → flat (ins.row - 2)) (h0 : 0 < q)
    (hj : j.FlatBelow c.value flat q (ins.row + 1 - ins.op.resultCount)) :
    j.advance q c.params resolved ins' = j.advance q c.params resolved ins := by
  cases h with
  | @arithmetic f x y a b z hf hx hy =>
    refine congrArg (j.set z q) ?_
    rw [Arithmetic.arithmeticCoeff_eq f hf h0,
      Arithmetic.arithmeticCoeff_eq f.variableForm f.sources_variableForm h0,
      Arithmetic.coefficient_variableForm]
    exact f.coefficient_congr (hx.eqUpTo hflat hj) (hy.eqUpTo hflat hj)
  | @power f x y a b z hf hx hy =>
    exact Jet.power_promoted hflat f hf hx hy (fun hf => hlog (hf ▸ rfl)) h0 hj

end Exact

end JetTape
