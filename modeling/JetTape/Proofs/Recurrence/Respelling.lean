import JetTape.Proofs.Recurrence.Equations

/-!
Functions with two spellings. A tangent is a quotient of a sine and a cosine, an exponential less 1
has the derivative of the exponential, and a square root is a power. The recurrences of two such
spellings have nothing in common, but their series solve one differential equation, whose solution
is determined by its value of order 0.
-/
namespace JetTape

open PowerSeries (coeff coeff_mk derivative)
open scoped PowerSeries

variable {K : Type} [Field K]

section Series

variable [CharZero K] {q : Nat} {sign : K} {x y z u w s s' c c' p l : K⟦X⟧}

/-- A system of differential equations has one solution with given constant terms. By induction on
the order: where solutions agree so far, their derivatives do, and so the solutions agree at one
order more. -/
theorem AgreeBelow.of_system {ι : Type} {u w : ι → K⟦X⟧} (slope : (ι → K⟦X⟧) → ι → K⟦X⟧)
    (hslope : ∀ n, (∀ i, AgreeBelow n (u i) (w i)) → ∀ i, AgreeBelow n (slope u i) (slope w i))
    (hzero : ∀ i, coeff 0 (u i) = coeff 0 (w i))
    (hu : ∀ i, AgreeBelow q (derivative K (u i)) (slope u i))
    (hw : ∀ i, AgreeBelow q (derivative K (w i)) (slope w i)) (i : ι) :
    AgreeBelow (q + 1) (u i) (w i) := by
  suffices h : ∀ n ≤ q, ∀ i, AgreeBelow (n + 1) (u i) (w i) from h q (Nat.le_refl q) i
  intro n
  induction n with
  | zero => exact fun _ i => AgreeHigher.below_iff.mpr ⟨hzero i, fun k h0 hk => by omega⟩
  | succ n ih =>
    intro hn i
    refine AgreeHigher.below_iff.mpr ⟨hzero i, AgreeHigher.iff_derivative.mpr ?_⟩
    calc AgreeBelow (n + 1) (derivative K (u i)) (slope u i) := (hu i).mono hn
      AgreeBelow (n + 1) _ (slope w i) := hslope (n + 1) (ih (Nat.le_of_succ_le hn)) i
      AgreeBelow (n + 1) _ (derivative K (w i)) := ((hw i).mono hn).symm

/-- The case of one equation. -/
theorem AgreeBelow.of_derivative (slope : K⟦X⟧ → K⟦X⟧)
    (hslope : ∀ n, AgreeBelow n u w → AgreeBelow n (slope u) (slope w))
    (hzero : coeff 0 u = coeff 0 w) (hu : AgreeBelow q (derivative K u) (slope u))
    (hw : AgreeBelow q (derivative K w) (slope w)) : AgreeBelow (q + 1) u w :=
  AgreeBelow.of_system (ι := Unit) (u := fun _ => u) (w := fun _ => w) (fun u _ => slope (u ()))
    (fun n h _ => hslope n (h ())) (fun _ => hzero) (fun _ => hu) (fun _ => hw) ()

/-- Exponentials of one series that agree at order 0 agree. -/
theorem AgreeBelow.of_exponential (hzero : coeff 0 u = coeff 0 w)
    (hu : AgreeBelow q (derivative K u) (derivative K x * u))
    (hw : AgreeBelow q (derivative K w) (derivative K x * w)) : AgreeBelow (q + 1) u w :=
  .of_derivative (derivative K x * ·) (fun n h => (AgreeBelow.refl n _).mul h) hzero hu hw

/-- Two pairs of a sine and a cosine that agree at order 0 agree. -/
theorem SolvesPair.unique (h : SolvesPair sign q x s c) (h' : SolvesPair sign q x s' c')
    (hs : coeff 0 s = coeff 0 s') (hc : coeff 0 c = coeff 0 c') :
    AgreeBelow (q + 1) s s' ∧ AgreeBelow (q + 1) c c' := by
  have hsystem := AgreeBelow.of_system (q := q) (ι := Bool) (u := fun i => bif i then s else c)
    (w := fun i => bif i then s' else c')
    (fun u i => bif i then u false * derivative K x
      else PowerSeries.C sign * u true * derivative K x) ?_ ?_ ?_ ?_
  · exact ⟨hsystem true, hsystem false⟩
  · intro n hagree i
    have hrefl := AgreeBelow.refl (K := K) n
    cases i with
    | true => exact (hagree false).mul (hrefl _)
    | false => exact ((hrefl _).mul (hagree true)).mul (hrefl _)
  · rintro (_ | _)
    exacts [hc, hs]
  · rintro (_ | _)
    exacts [h.cosine, h.sine]
  · rintro (_ | _)
    exacts [h'.cosine, h'.sine]

/-- So the sine of one pair and the cosine of the other one are a pair. -/
theorem SolvesPair.sine_cosine (h : SolvesPair sign q x s c) (h' : SolvesPair sign q x s' c')
    (hs : coeff 0 s = coeff 0 s') (hc : coeff 0 c = coeff 0 c') : SolvesPair sign q x s c' := by
  obtain ⟨hsine, hcosine⟩ := h.unique h' hs hc
  have hrefl := AgreeBelow.refl (K := K) q
  refine .of_system (h.sine.trans ?_) (h'.cosine.trans ?_)
  · exact (hcosine.mono (Nat.le_succ q)).mul (hrefl _)
  · exact ((hrefl _).mul (hsine.symm.mono (Nat.le_succ q))).mul (hrefl _)

/-- The quotient of a sine and a cosine solves the equation of a tangent. -/
theorem SolvesPair.quotient (h : SolvesPair sign q x s c) (hc : coeff 0 c ≠ 0)
    (hw : AgreeBelow (q + 1) (w * c) s) :
    AgreeBelow q (derivative K w) ((1 - PowerSeries.C sign * (w * w)) * derivative K x) := by
  have hslope := AgreeHigher.iff_derivative.mp (AgreeHigher.below_iff.mp hw).2
  have hsine := h.sine
  have hcosine := h.cosine
  have hproduct := hw.mono (Nat.le_succ q)
  apply AgreeBelow.cancel_left hc
  rw [AgreeBelow.iff_dvd] at hslope hsine hcosine hproduct ⊢
  obtain ⟨a, ha⟩ := hslope
  obtain ⟨b, hb⟩ := hsine
  obtain ⟨d, hd⟩ := hcosine
  obtain ⟨e, he⟩ := hproduct
  rw [Derivation.leibniz, smul_eq_mul, smul_eq_mul] at ha
  use a + b - w * d + PowerSeries.C sign * w * derivative K x * e
  linear_combination ha + hb - w * hd + PowerSeries.C sign * w * derivative K x * he

/-- So it is the tangent, if it is at order 0. -/
theorem SolvesTangent.agree_quotient (h : SolvesTangent (-sign) q x y z)
    (hpair : SolvesPair sign q x s c) (hc : coeff 0 c ≠ 0) (hw : AgreeBelow (q + 1) (w * c) s)
    (hzero : coeff 0 z = coeff 0 w) (hsquare : coeff 0 y = coeff 0 (z * z)) :
    AgreeBelow (q + 1) z w := by
  have hy : AgreeBelow (q + 1) y (z * z) := AgreeHigher.below_iff.mpr ⟨hsquare, h.square⟩
  have hslope : AgreeBelow q (derivative K z)
      ((1 - PowerSeries.C sign * (z * z)) * derivative K x) := by
    have hfactor : AgreeBelow q (1 + PowerSeries.C (-sign) * y)
        (1 - PowerSeries.C sign * (z * z)) := by
      intro k hk
      rw [map_add, map_sub, PowerSeries.coeff_C_mul, PowerSeries.coeff_C_mul,
        hy k (Nat.lt_succ_of_lt hk), neg_mul, sub_eq_add_neg]
    exact h.tangent.trans (hfactor.mul (.refl q _))
  refine .of_derivative (fun u => (1 - PowerSeries.C sign * (u * u)) * derivative K x)
    (fun n hagree => ?_) hzero hslope (hpair.quotient hc hw)
  have hfactor : AgreeBelow n (1 - PowerSeries.C sign * (z * z))
      (1 - PowerSeries.C sign * (w * w)) := by
    intro k hk
    rw [map_sub, map_sub, PowerSeries.coeff_C_mul, PowerSeries.coeff_C_mul,
      hagree.mul hagree k hk]
  exact hfactor.mul (.refl n _)

/-- An exponential less 1 is one less than the exponential. -/
theorem AgreeHigher.of_expm1 (hzero : coeff 0 w = 1 + coeff 0 z)
    (hz : AgreeBelow q (derivative K z) (derivative K x * (1 + z)))
    (hw : AgreeBelow q (derivative K w) (derivative K x * w)) : AgreeHigher q z w := by
  have hderivative : derivative K (1 + z) = derivative K z := by
    rw [map_add, Derivation.map_one_eq_zero, zero_add]
  rw [← hderivative] at hz
  have hagree := AgreeBelow.of_exponential (u := 1 + z) ?_ hz hw
  · apply AgreeHigher.iff_derivative.mpr
    rw [← hderivative]
    exact AgreeHigher.iff_derivative.mp (AgreeHigher.below_iff.mp hagree).2
  · rw [hzero, map_add, PowerSeries.coeff_zero_one]

/-- The logarithm of a series that is one more, whatever its value of order 0 is. -/
theorem AgreeHigher.of_log1p (hx : 1 + coeff 0 x ≠ 0) (hs : AgreeBelow (q + 1) s (1 + x))
    (hz : AgreeBelow q ((1 + x) * derivative K z) (derivative K x))
    (hw : AgreeBelow q (s * derivative K w) (derivative K s)) : AgreeHigher q z w := by
  have hone : coeff 0 (1 + x) ≠ 0 := by rwa [map_add, PowerSeries.coeff_zero_one]
  have hslope := AgreeHigher.iff_derivative.mp (AgreeHigher.below_iff.mp hs).2
  rw [map_add, Derivation.map_one_eq_zero, zero_add] at hslope
  apply AgreeHigher.iff_derivative.mpr
  apply AgreeBelow.cancel_left hone
  calc AgreeBelow q ((1 + x) * derivative K z) (derivative K x) := hz
    AgreeBelow q _ (derivative K s) := hslope.symm
    AgreeBelow q _ (s * derivative K w) := hw.symm
    AgreeBelow q _ ((1 + x) * derivative K w) := (hs.mono (Nat.le_succ q)).mul (.refl q _)

/-- A square root is the exponential of half a logarithm. -/
theorem AgreeBelow.of_sqrt (hz : coeff 0 z ≠ 0) (hsquare : AgreeBelow (q + 1) (z * z) x)
    (hl : AgreeBelow q (x * derivative K l) (derivative K x))
    (hp : AgreeHigher q p (PowerSeries.C (1 / 2) * l)) (hzero : coeff 0 z = coeff 0 w)
    (hw : AgreeBelow q (derivative K w) (derivative K p * w)) : AgreeBelow (q + 1) z w := by
  have hslope := AgreeHigher.iff_derivative.mp (AgreeHigher.below_iff.mp hsquare).2
  have hhalf := AgreeHigher.iff_derivative.mp hp
  rw [Derivation.leibniz, PowerSeries.derivative_C, smul_zero, add_zero, smul_eq_mul] at hhalf
  rw [Derivation.leibniz, smul_eq_mul, ← two_mul, ← mul_assoc] at hslope
  have htwo : (2 : K⟦X⟧) = PowerSeries.C 2 := (map_ofNat PowerSeries.C 2).symm
  have hcancel : 2 * PowerSeries.C (1 / 2 : K) = 1 := by
    rw [htwo, ← map_mul, mul_one_div_cancel two_ne_zero, map_one]
  have hne : coeff 0 (2 * z) ≠ 0 := by
    rw [htwo, PowerSeries.coeff_C_mul]
    exact mul_ne_zero two_ne_zero hz
  refine .of_exponential hzero (AgreeBelow.cancel_left hne ?_) hw
  calc AgreeBelow q (2 * z * derivative K z) (derivative K x) := hslope
    AgreeBelow q _ (x * derivative K l) := hl.symm
    AgreeBelow q _ (z * z * derivative K l) :=
      (hsquare.mono (Nat.le_succ q)).symm.mul (.refl q _)
    _ = 2 * z * (PowerSeries.C (1 / 2) * derivative K l * z) := by
      linear_combination -(z * z * derivative K l) * hcancel
    AgreeBelow q _ (2 * z * (derivative K p * z)) :=
      (AgreeBelow.refl q _).mul (hhalf.symm.mul (.refl q _))

end Series

/-- The sine and the cosine of which a tangent is the quotient. -/
def Elementary.ratio? : Elementary → Option (Elementary × Elementary)
  | .tan => some (.sin, .cos)
  | .tanh => some (.sinh, .cosh)
  | _ => none

/-- The equations of a tangent, of its sine and of its cosine have signs that fit together. -/
theorem Elementary.Solves.ratio {f g h : Elementary} {q : Nat} {x y z s s' c c' : K⟦X⟧}
    (hf : f.Solves q x y z) (hg : g.Solves q x c' s) (hh : h.Solves q x s' c)
    (hratio : f.ratio? = some (g, h)) :
    ∃ sign, SolvesTangent (-sign) q x y z ∧ SolvesPair sign q x s c' ∧
      SolvesPair sign q x s' c := by
  cases f with
  | tan =>
    cases hratio
    refine ⟨-1, ?_, hg, hh⟩
    rw [neg_neg]
    exact hf
  | tanh =>
    cases hratio
    exact ⟨1, hf, hg, hh⟩
  | _ => cases hratio

/-- The equations of a tangent, a sine, a cosine and their quotient have one solution with values
of order 0 that fit together. -/
theorem Elementary.Solves.agree_quotient [CharZero K] {f g h : Elementary} {q : Nat}
    {x y z s s' c c' w : K⟦X⟧} (hf : f.Solves q x y z) (hg : g.Solves q x c' s)
    (hh : h.Solves q x s' c) (hratio : f.ratio? = some (g, h)) (hs : coeff 0 s = coeff 0 s')
    (hc : coeff 0 c' = coeff 0 c) (hne : coeff 0 c ≠ 0) (hw : AgreeHigher q (w * c) s)
    (hquotient : coeff 0 w = coeff 0 s / coeff 0 c) (hz : coeff 0 z = coeff 0 w)
    (hy : coeff 0 y = coeff 0 z ^ 2) : AgreeHigher q z w := by
  obtain ⟨sign, htangent, hpair, hpair'⟩ := hf.ratio hg hh hratio
  have hproduct : AgreeBelow (q + 1) (w * c) s := by
    refine AgreeHigher.below_iff.mpr ⟨?_, hw⟩
    rw [coeff_zero_mul, hquotient, div_mul_cancel₀ _ hne]
  have hsquare : coeff 0 y = coeff 0 (z * z) := by
    rw [coeff_zero_mul, hy, sq]
  have hagree := htangent.agree_quotient (hpair.sine_cosine hpair' hs hc) hne hproduct hz hsquare
  exact (AgreeHigher.below_iff.mp hagree).2

/-- Whatever values of order 0 their rows hold, if these fit together as follows, the instruction
computes the same function as the last one does after those before it. -/
inductive Respells (value : Nat → K) (params : Array K) : Instr → List Instr → Instr → Prop where
  | ratio {f g h : Elementary} {x z s c w : Nat} (hratio : f.ratio? = some (g, h))
      (hsine : value (c - 1) = value s) (hcosine : value (s - 1) = value c)
      (hne : value c ≠ 0) (hquotient : value w = value s / value c) (hvalue : value z = value w)
      (hsquare : value (z - 1) = value z ^ 2) :
      Respells value params ⟨.elementary f, [x], z⟩
        [⟨.elementary g, [x], s⟩, ⟨.elementary h, [x], c⟩] ⟨.arithmetic .divVV, [s, c], w⟩
  | expm1 {x z w : Nat} (hvalue : value w = 1 + value z) :
      Respells value params ⟨.elementary .expm1, [x], z⟩ [] ⟨.elementary .exp, [x], w⟩
  | log1p {x z i s w : Nat} (hsum : value s = 1 + value x) (hne : value s ≠ 0) :
      Respells value params ⟨.elementary .log1p, [x], z⟩ [⟨.arithmetic .addPV, [i, x], s⟩]
        ⟨.elementary .log, [s], w⟩
  | sqrt {x z i w : Nat} (hhalf : params[i]? = some (1 / 2)) (hvalue : value w = value z)
      (hsquare : value z ^ 2 = value x) (hne : value x ≠ 0) :
      Respells value params ⟨.elementary .sqrt, [x], z⟩ [] ⟨.power .vp, [x, i], w⟩

variable {ins last : Instr} {before : List Instr} {value : Nat → K} {params : Array K}

theorem Respells.isPlain (h : Respells value params ins before last) :
    ∀ i ∈ ins :: last :: before, i.op.isPlain = true := by
  cases h <;> simp [Opcode.isPlain]

variable [LinearOrder K] [IsStrictOrderedRing K] [ExactScalar K] {q : Nat} {j : Jet K}
variable {resolved : Array Nat}

omit [IsStrictOrderedRing K] in
/-- The rows of a power with a constant exponent where it is settled. -/
theorem Jet.eq_of_power_vp {x i z k : Nat} (hz : 2 ≤ z) (h : j.power .vp k z [x, i] params = j) :
    j (z - 2) k = Series.logShifted k 0 (j x) (j (z - 2)) ∧
      j (z - 1) k = j (z - 2) k * params.getD i 0 ∧
      j z k = Series.integral k (j (z - 1)) (j z) :=
  Jet.eq_of_set_set_set (fun j => j (z - 2) k * params.getD i 0)
    (fun j => Series.integral k (j (z - 1)) (j z)) (by omega) (by omega) (by omega) h

/-- Where the instructions of both spellings are settled, their results have the same
coefficients. -/
theorem Respells.agree (h : Respells (fun v => j v 0) params ins before last)
    (hsettled : ∀ i ∈ ins :: last :: before, i.op.resultCount ≤ i.row ∧
      ∀ k, 0 < k → k ≤ q → j.advance k params resolved i = j) :
    AgreeHigher q (PowerSeries.mk (j ins.row)) (PowerSeries.mk (j last.row)) := by
  cases h with
  | @ratio f g h x z s c w hratio hsine hcosine hne hquotient hvalue hsquare =>
    simp only [List.forall_mem_cons] at hsettled
    obtain ⟨⟨hz, hf⟩, ⟨-, hw⟩, ⟨hs, hg⟩, ⟨hc, hh⟩, -⟩ := hsettled
    have hf := f.solves_of_settled (x := x) (Nat.lt_of_lt_of_le f.resultCount_pos hz) hf
    have hg := g.solves_of_settled (x := x) (Nat.lt_of_lt_of_le g.resultCount_pos hs) hg
    have hh := h.solves_of_settled (x := x) (Nat.lt_of_lt_of_le h.resultCount_pos hc) hh
    have hw := Series.quotient_solves hne fun k h0 hk => Jet.eq_of_set (hw k h0 hk)
    apply hf.agree_quotient hg hh hratio _ _ _ hw <;> simp only [coeff_mk]
    · exact hquotient
    · exact hvalue
    · exact hsquare
    · exact hsine.symm
    · exact hcosine
    · exact hne
  | @expm1 x z w hvalue =>
    simp only [List.forall_mem_cons] at hsettled
    obtain ⟨⟨hz, hexpm1⟩, ⟨hw, hexp⟩, -⟩ := hsettled
    have hexpm1 := Elementary.expm1.solves_of_settled (x := x) hz hexpm1
    have hexp := Elementary.exp.solves_of_settled (x := x) hw hexp
    exact .of_expm1 (by rwa [coeff_mk, coeff_mk]) hexpm1 hexp
  | @log1p x z i s w hsum hne =>
    simp only [List.forall_mem_cons] at hsettled
    obtain ⟨⟨hz, hlog1p⟩, ⟨hw, hlog⟩, ⟨-, hadd⟩, -⟩ := hsettled
    have hx : 1 + coeff 0 (PowerSeries.mk (j x)) ≠ 0 := by
      rwa [coeff_mk, ← hsum]
    have hs : AgreeBelow (q + 1) (PowerSeries.mk (j s)) (1 + PowerSeries.mk (j x)) := by
      refine AgreeHigher.below_iff.mpr ⟨?_, fun k h0 hk => ?_⟩
      · rw [map_add, PowerSeries.coeff_zero_one, coeff_mk, coeff_mk, hsum]
      · rw [map_add, PowerSeries.coeff_one, if_neg (Nat.ne_of_gt h0), zero_add, coeff_mk,
          coeff_mk]
        exact Jet.eq_of_set (hadd k h0 hk)
    have hlog1p := Elementary.log1p.solves_of_settled (x := x) hz hlog1p hx
    have hlog := Elementary.log.solves_of_settled (x := s) hw hlog (by rwa [coeff_mk])
    exact .of_log1p hx hs hlog1p hlog
  | @sqrt x z i w hhalf hvalue hsquare hne =>
    simp only [List.forall_mem_cons] at hsettled
    obtain ⟨⟨hz, hsqrt⟩, ⟨hw, hpower⟩, -⟩ := hsettled
    have hvalue' : j z 0 ≠ 0 := by
      intro hzero
      rw [hzero, sq, mul_zero] at hsquare
      exact hne hsquare.symm
    have hroot := Elementary.sqrt.solves_of_settled (x := x) hz hsqrt (by rwa [coeff_mk])
    have hrows (k : Nat) (h0 : 0 < k) (hk : k ≤ q) :=
      Jet.eq_of_power_vp (Nat.le_of_succ_le hw) (hpower k h0 hk)
    have hlog := Series.logShifted_solves (by rwa [add_zero]) fun k h0 hk => (hrows k h0 hk).1
    rw [map_zero, zero_add] at hlog
    have hproduct : AgreeHigher q (PowerSeries.mk (j (w - 1)))
        (PowerSeries.C (1 / 2) * PowerSeries.mk (j (w - 2))) := by
      intro k h0 hk
      rw [coeff_mk, (hrows k h0 hk).2.1, PowerSeries.coeff_C_mul, coeff_mk, mul_comm,
        Array.getD_eq_getD_getElem?, hhalf, Option.getD_some]
    have hsquare' : AgreeBelow (q + 1) (PowerSeries.mk (j z) * PowerSeries.mk (j z))
        (PowerSeries.mk (j x)) := by
      refine AgreeHigher.below_iff.mpr ⟨?_, hroot⟩
      rw [coeff_zero_mul, coeff_mk, coeff_mk, ← sq, hsquare]
    have hexp := Series.integral_solves fun k h0 hk => (hrows k h0 hk).2.2
    have hagree := AgreeBelow.of_sqrt (by rwa [coeff_mk]) hsquare' hlog hproduct
      (by rw [coeff_mk, coeff_mk, hvalue]) hexp
    exact (AgreeHigher.below_iff.mp hagree).2

end JetTape
