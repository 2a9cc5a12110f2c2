import JetTape.Proofs.Recurrence.Advance
import JetTape.Proofs.Tape.Tables
import JetTape.Proofs.Tape.Valid

/-!
The rows that an instruction depends on. It reads its variable operands up to the order of the
sweep, at order 0 also those that it compares, and its own rows below that order. Jets that agree on
all this agree on its rows afterwards.
-/
namespace JetTape

variable {F : Type}

namespace Operand

variable [Scalar F]

/-- The order-0 value of an operand, which a conditional compares. -/
def first (params : Array F) (j : Jet F) : Operand → F
  | var x => j x 0
  | par i => params.getD i 0

/-- The coefficient of order `q` of an operand, which a conditional selects. A parameter has none. -/
def higher (q : Nat) (j : Jet F) : Operand → F
  | var x => j x q
  | par _ => 0

end Operand

namespace Jet

/-- A conditional compares two operands and takes the coefficient of one of the others. -/
theorem chooseCoeff_operands [Scalar F] (j : Jet F) (q : Nat) (params : Array F) (r : Relation)
    (left right ifTrue ifFalse : Operand) :
    j.chooseCoeff q [r.code, chooseFlags left right ifTrue ifFalse, left.index, right.index,
        ifTrue.index, ifFalse.index] params =
      if r.holds (left.first params j) (right.first params j) then ifTrue.higher q j
      else ifFalse.higher q j := by
  obtain ⟨h0, h1, h2, h3⟩ := testBit_chooseFlags left right ifTrue ifFalse
  have hfirst (a : Operand) (bit : Nat)
      (hbit : (chooseFlags left right ifTrue ifFalse).testBit bit = (a.source = .var)) :
      j.conditionValue (chooseFlags left right ifTrue ifFalse) bit a.index params =
        a.first params j := by
    simp only [conditionValue, hbit]
    cases a <;> rfl
  have hhigher (a : Operand) (bit : Nat)
      (hbit : (chooseFlags left right ifTrue ifFalse).testBit bit = (a.source = .var)) :
      (if (chooseFlags left right ifTrue ifFalse).testBit bit then j a.index q else 0) =
        a.higher q j := by
    simp only [hbit]
    cases a <;> rfl
  simp only [chooseCoeff, condition, List.getD_cons_zero, List.getD_cons_succ,
    Relation.ofCode_code, hfirst left 0 h0, hfirst right 1 h1, hhigher ifTrue 2 h2,
    hhigher ifFalse 3 h3]

/-- Those of the arguments that refer to variables. -/
def variablesOf (sources : List Source) (args : List Nat) : List Nat :=
  sources.zipIdx.filterMap fun source =>
    if source.1 = .var then some (args.getD source.2 0) else none

theorem mem_variablesOf {sources : List Source} {i : Nat} (h : sources[i]? = some .var)
    (args : List Nat) : args.getD i 0 ∈ variablesOf sources args := by
  have hmem : (Source.var, i) ∈ sources.zipIdx :=
    List.mem_zipIdx_iff_getElem?.mpr h
  exact List.mem_filterMap.mpr ⟨(.var, i), hmem, rfl⟩

/-- The rows that an instruction depends on. A conditional depends on the operand that it selects at
order 0 and a load on the row that it stands for. Instructions that compute nothing depend on
none. -/
def operands [Scalar F] (params : Array F) (resolved : Array Nat) (ins : Instr) (j : Jet F) :
    List Nat :=
  match ins.op with
  | .arithmetic f => variablesOf f.sources ins.args
  | .power f => variablesOf f.sources ins.args
  | .elementary _ | .erf | .callArg .var => [ins.args.getD 0 0]
  | .discrete => [ins.args.getD 1 0]
  | .choose =>
    if j.condition ins.args params then
      if (ins.args.getD 1 0).testBit 2 then [ins.args.getD 4 0] else []
    else if (ins.args.getD 1 0).testBit 3 then [ins.args.getD 5 0] else []
  | .sum =>
    (ins.args.drop 3).take (ins.args.getD 0 0) ++
      (ins.args.drop (3 + ins.args.getD 0 0)).take (ins.args.getD 1 0)
  | .load _ => if 0 < loadedRow ins.args resolved then [loadedRow ins.args resolved] else []
  | _ => []

section Values

variable [Scalar F] {j j' : Jet F} {params : Array F}

theorem condition_congr (h : ∀ v, j v 0 = j' v 0) (args : List Nat) :
    j.condition args params = j'.condition args params := by
  simp only [condition, conditionValue, h]

/-- What an instruction depends on is settled at order 0. -/
theorem operands_congr (h : ∀ v, j v 0 = j' v 0) (resolved : Array Nat) (ins : Instr) :
    j.operands params resolved ins = j'.operands params resolved ins := by
  simp only [operands, condition_congr h]

end Values

/-- The jets agree at order 0, below order `q` on the rows in `K`, and up to order `q` on those in
`D`. -/
structure AgreeOn (q : Nat) (K D : Nat → Prop) (j j' : Jet F) : Prop where
  values : ∀ v, j v 0 = j' v 0
  below : ∀ v, K v → Series.EqBelow q (j v) (j' v)
  upTo : ∀ v, D v → Series.EqUpTo q (j v) (j' v)

namespace AgreeOn

variable {K D : Nat → Prop} {q : Nat} {j j' : Jet F}

theorem mono {D' : Nat → Prop} (h : AgreeOn q K D j j') (hD : ∀ v, D' v → D v) :
    AgreeOn q K D' j j' where
  values := h.values
  below := h.below
  upTo v hv := h.upTo v (hD v hv)

theorem set {v : Nat} {x x' : F} (h : AgreeOn q K D j j') (hv : K v) (hx : x = x') :
    AgreeOn q K (fun w => w = v ∨ D w) (j.set v q x) (j'.set v q x') where
  values w := by
    simp only [Jet.set]
    rw [hx, h.values w]
  below w hw k hk := by
    rw [set_of_order_ne (Nat.ne_of_lt hk), set_of_order_ne (Nat.ne_of_lt hk), h.below w hw k hk]
  upTo w hw k hk := by
    by_cases hwk : w = v ∧ k = q
    · simp only [Jet.set, hwk, and_self, if_true, hx]
    · simp only [Jet.set, hwk, if_false]
      rcases hw with rfl | hw
      · exact h.below w hv k (by omega)
      · exact h.upTo w hw k hk

variable [Scalar F] {params : Array F} {resolved : Array Nat} {z : Nat} {args : List Nat}

omit [Scalar F] in
/-- The jets agree on the variables among the operands. -/
theorem operand {sources : List Source} (h : AgreeOn q K D j j')
    (hreads : ∀ v ∈ variablesOf sources args, D v) {i : Nat} (hi : sources[i]? = some .var) :
    Series.EqUpTo q (j (args.getD i 0)) (j' (args.getD i 0)) :=
  h.upTo _ (hreads _ (mem_variablesOf hi args))

theorem arithmeticCoeff (f : Arithmetic) (h : AgreeOn q K D j j')
    (hreads : ∀ v ∈ variablesOf f.sources args, D v) (hz : K z) :
    j.arithmeticCoeff f q z args params = j'.arithmeticCoeff f q z args params := by
  have hown := h.below z hz
  have first (hf : f.sources[0]? = some .var) := h.operand hreads hf
  have second (hf : f.sources[1]? = some .var) := h.operand hreads hf
  cases f <;> simp only [Jet.arithmeticCoeff]
  case addVV | subVV => rw [(first rfl).last, (second rfl).last]
  case addPV | subPV | mulPV | zmulPV => rw [(second rfl).last]
  case subVP | divVP | zmulVP => rw [(first rfl).last]
  case mulVV | zmulVV => exact Series.convolution_congr _ (first rfl) (second rfl)
  case divVV => exact Series.quotient_congr (first rfl) (second rfl) hown
  case divPV => exact Series.reciprocalOf_congr (second rfl) hown

/-- The three rows of a power are in the agreement afterwards. -/
theorem power (f : Power) (h : AgreeOn q K D j j')
    (hreads : ∀ v ∈ variablesOf f.sources args, D v) (hz : K z) (hproduct : K (z - 1))
    (hlog : K (z - 2)) :
    AgreeOn q K (fun v => v = z ∨ v = z - 1 ∨ v = z - 2 ∨ D v) (j.power f q z args params)
      (j'.power f q z args params) := by
  have first (hf : f.sources[0]? = some .var) := h.operand hreads hf
  have exp {j j' : Jet F} {D : Nat → Prop} (h : AgreeOn q K (fun v => v = z - 1 ∨ D v) j j') :
      AgreeOn q K (fun v => v = z ∨ v = z - 1 ∨ D v)
        (j.set z q (Series.integral q (j (z - 1)) (j z)))
        (j'.set z q (Series.integral q (j' (z - 1)) (j' z))) :=
    h.set hz (Series.integral_congr (h.upTo _ (Or.inl rfl)) (h.below z hz))
  have log (hf : f.sources[0]? = some .var) :
      AgreeOn q K (fun v => v = z - 2 ∨ D v)
        (j.set (z - 2) q (Series.logShifted q 0 (j (args.getD 0 0)) (j (z - 2))))
        (j'.set (z - 2) q (Series.logShifted q 0 (j' (args.getD 0 0)) (j' (z - 2)))) :=
    h.set hlog (Series.logShifted_congr 0 (first hf) (h.below _ hlog))
  have later {j j' : Jet F} (h : AgreeOn q K (fun v => v = z - 2 ∨ D v) j j')
      (hf : f.sources[1]? = some .var) :=
    h.operand (fun v hv => Or.inr (hreads v hv)) hf
  cases f <;> apply exp
  case vv =>
    have h := log rfl
    exact h.set hproduct (Series.convolution_congr _ (h.upTo _ (Or.inl rfl)) (later h rfl))
  case pv =>
    have h : AgreeOn q K (fun v => v = z - 2 ∨ D v) (j.set (z - 2) q 0) (j'.set (z - 2) q 0) :=
      h.set hlog rfl
    exact h.set hproduct (congrArg₂ (· * ·) (h.values (z - 2)) (later h rfl).last)
  case vp =>
    have h := log rfl
    exact h.set hproduct (congrArg (· * params.getD (args.getD 1 0) 0)
      (h.upTo _ (Or.inl rfl)).last)

theorem sineCosine (hyperbolic : Bool) {x s c : Nat} (h : AgreeOn q K D j j') (hx : D x)
    (hs : K s) (hc : K c) :
    AgreeOn q K (fun v => v = c ∨ v = s ∨ D v) (j.sineCosine hyperbolic q x s c)
      (j'.sineCosine hyperbolic q x s c) :=
  (h.set hs (Series.sine_congr (h.upTo x hx) (h.below s hs) (h.below c hc))).set hc
    (Series.cosine_congr hyperbolic (h.upTo x hx) (h.below s hs) (h.below c hc))

theorem tangent (sign : F) {x y : Nat} (h : AgreeOn q K D j j') (hx : D x) (hz : K z) (hy : K y) :
    AgreeOn q K (fun v => v = y ∨ v = z ∨ D v) (j.tangent sign q x z y)
      (j'.tangent sign q x z y) := by
  have htangent := h.set hz (Series.tangent_congr sign (h.upTo x hx) (h.below y hy))
  have hown := htangent.upTo z (Or.inl rfl)
  exact htangent.set hy (Series.convolution_congr _ hown hown)

theorem inverse (factor : F) (root : Bool) (sign : F) {x b : Nat} (h0 : 0 < q)
    (h : AgreeOn q K D j j') (hx : D x) (hz : K z) (hb : K b) :
    AgreeOn q K (fun v => v = z ∨ v = b ∨ D v) (j.inverse factor root sign q x z b)
      (j'.inverse factor root sign q x z b) := by
  have hfactor : AgreeOn q K (fun v => v = b ∨ D v)
      (j.set b q (if root then Series.rootFactor q factor (j x) (j b)
        else Series.squareFactor q factor (j x)))
      (j'.set b q (if root then Series.rootFactor q factor (j' x) (j' b)
        else Series.squareFactor q factor (j' x))) := by
    apply h.set hb
    rw [Series.rootFactor_congr factor h0 (h.upTo x hx) (h.below b hb),
      Series.squareFactor_congr factor (h.upTo x hx)]
  exact hfactor.set hz (Series.inverse_congr sign h0 (hfactor.upTo x (Or.inr hx))
    (hfactor.below z hz) (hfactor.below b hb))

/-- The rows of a function of one variable are in the agreement afterwards. -/
theorem elementary (f : Elementary) {x : Nat} (h0 : 0 < q) (h : AgreeOn q K D j j') (hx : D x)
    (hown : ∀ v, z < v + f.resultCount ∧ v ≤ z → K v) :
    AgreeOn q K (fun v => (z < v + f.resultCount ∧ v ≤ z) ∨ D v) (j.elementary f q z x)
      (j'.elementary f q z x) := by
  have hz : K z := hown z ⟨by cases f <;> simp [Elementary.resultCount], Nat.le_refl z⟩
  have hother (hf : f.resultCount = 2) : K (z - 1) := hown (z - 1) (by omega)
  have one {g g' : F} (hg : g = g') (hf : f.resultCount = 1) :
      AgreeOn q K (fun v => (z < v + f.resultCount ∧ v ≤ z) ∨ D v) (j.set z q g) (j'.set z q g') :=
    (h.set hz hg).mono fun v hv => hv.imp_left (by omega)
  have two {g g' : Jet F} (hg : AgreeOn q K (fun v => v = z ∨ v = z - 1 ∨ D v) g g')
      (hf : f.resultCount = 2) :
      AgreeOn q K (fun v => (z < v + f.resultCount ∧ v ≤ z) ∨ D v) g g' :=
    hg.mono fun v hv => by
      rcases hv with hv | hv
      · omega
      · exact Or.inr (Or.inr hv)
  have two' {g g' : Jet F} (hg : AgreeOn q K (fun v => v = z - 1 ∨ v = z ∨ D v) g g')
      (hf : f.resultCount = 2) :
      AgreeOn q K (fun v => (z < v + f.resultCount ∧ v ≤ z) ∨ D v) g g' :=
    two (hg.mono fun v hv => by tauto) hf
  have hop := h.upTo x hx
  have hresult := h.below z hz
  cases f
  case exp => exact one (Series.integral_congr hop hresult) rfl
  case expm1 => exact one (Series.expm1_congr hop hresult) rfl
  case log => exact one (Series.logShifted_congr 0 hop hresult) rfl
  case log1p => exact one (Series.logShifted_congr 1 hop hresult) rfl
  case sqrt => exact one (Series.sqrt_congr h0 hop hresult) rfl
  case abs => exact one (by rw [hop.first, hop.last]) rfl
  case sign => exact one rfl rfl
  case sin => exact two' (h.sineCosine false hx hz (hother rfl)) rfl
  case cos => exact two (h.sineCosine false hx (hother rfl) hz) rfl
  case sinh => exact two' (h.sineCosine true hx hz (hother rfl)) rfl
  case cosh => exact two (h.sineCosine true hx (hother rfl) hz) rfl
  case tan => exact two' (h.tangent 1 hx hz (hother rfl)) rfl
  case tanh => exact two' (h.tangent (-1) hx hz (hother rfl)) rfl
  case asin => exact two (h.inverse (-1) true 1 h0 hx hz (hother rfl)) rfl
  case acos => exact two (h.inverse (-1) true (-1) h0 hx hz (hother rfl)) rfl
  case atan => exact two (h.inverse 1 false 1 h0 hx hz (hother rfl)) rfl
  case asinh => exact two (h.inverse 1 true 1 h0 hx hz (hother rfl)) rfl
  case acosh => exact two (h.inverse 1 true 1 h0 hx hz (hother rfl)) rfl
  case atanh => exact two (h.inverse (-1) false 1 h0 hx hz (hother rfl)) rfl

/-- The five rows of an error function are in the agreement afterwards. -/
theorem erf (h : AgreeOn q K D j j') (hx : D (args.getD 0 0))
    (hown : ∀ v, z < v + 5 ∧ v ≤ z → K v) :
    AgreeOn q K (fun v => v = z ∨ v = z - 1 ∨ v = z - 2 ∨ v = z - 3 ∨ v = z - 4 ∨ D v)
      (j.erf q z args params) (j'.erf q z args params) := by
  have own (d : Nat) (hd : d < 5) : K (z - d) := hown (z - d) (by omega)
  have hsquare := h.set (own 4 (by omega))
    (Series.convolution_congr (· * ·) (h.upTo _ hx) (h.upTo _ hx))
  have hnegated := hsquare.set (own 3 (by omega))
    (congrArg (fun c : F => -c) (hsquare.upTo _ (Or.inl rfl)).last)
  have hgauss := hnegated.set (own 2 (by omega))
    (Series.integral_congr (hnegated.upTo _ (Or.inl rfl)) (hnegated.below _ (own 2 (by omega))))
  have hscaled := hgauss.set (own 1 (by omega))
    (congrArg (params.getD (args.getD 2 0) 0 * ·) (hgauss.upTo _ (Or.inl rfl)).last)
  have hx' := hscaled.upTo _ (Or.inr (Or.inr (Or.inr (Or.inr hx))))
  exact hscaled.set (own 0 (by omega))
    (Series.integral_congr hx' (hscaled.below _ (own 1 (by omega))))

/-- The selected operand of a conditional, if it is a variable, is all that it depends on. -/
theorem chooseCoeff {ins : Instr} (h : AgreeOn q K D j j') (hop : ins.op = .choose)
    (hreads : ∀ v ∈ j.operands params resolved ins, D v) :
    j.chooseCoeff q ins.args params = j'.chooseCoeff q ins.args params := by
  simp only [operands, hop] at hreads
  unfold Jet.chooseCoeff
  rw [← condition_congr h.values]
  split_ifs at hreads ⊢ with hcondition hflag hflag
  · rw [(h.upTo _ (hreads _ List.mem_cons_self)).last]
  · rfl
  · rw [(h.upTo _ (hreads _ List.mem_cons_self)).last]
  · rfl

theorem sumCoeff {ins : Instr} (h : AgreeOn q K D j j') (hop : ins.op = .sum)
    (hreads : ∀ v ∈ j.operands params resolved ins, D v) :
    j.sumCoeff q ins.args = j'.sumCoeff q ins.args := by
  simp only [operands, hop, List.mem_append] at hreads
  have hadded : ∀ x ∈ (ins.args.drop 3).take (ins.args.getD 0 0), ∀ sum : F,
      sum + j x q = sum + j' x q := by
    intro x hx sum
    rw [(h.upTo x (hreads x (Or.inl hx))).last]
  have hsubtracted : ∀ y ∈ (ins.args.drop (3 + ins.args.getD 0 0)).take (ins.args.getD 1 0),
      ∀ sum : F, sum - j y q = sum - j' y q := by
    intro y hy sum
    rw [(h.upTo y (hreads y (Or.inr hy))).last]
  simp only [Jet.sumCoeff]
  rw [List.foldl_ext _ _ _ fun sum x hx => hadded x hx sum]
  exact List.foldl_ext _ _ _ fun sum y hy => hsubtracted y hy sum

theorem loadCoeff {ins : Instr} {source : Source} (h : AgreeOn q K D j j')
    (hop : ins.op = .load source) (hreads : ∀ v ∈ j.operands params resolved ins, D v) :
    j.loadCoeff q ins.args resolved = j'.loadCoeff q ins.args resolved := by
  simp only [operands, hop] at hreads
  unfold Jet.loadCoeff
  split_ifs at hreads ⊢ with hload
  · rw [(h.upTo _ (hreads _ List.mem_cons_self)).last]
  · rfl

/-- An instruction whose operands are in the agreement adds its own rows to it. -/
theorem advance {ins : Instr} (h0 : 0 < q) (h : AgreeOn q K D j j')
    (hplain : ins.op.isPlain = true)
    (hreads : ∀ v ∈ j.operands params resolved ins, D v) (hown : ∀ v, ins.Owns v → K v) :
    AgreeOn q K (fun v => ins.Owns v ∨ D v) (j.advance q params resolved ins)
      (j'.advance q params resolved ins) := by
  obtain ⟨op, args, z⟩ := ins
  have own (d : Nat) (hd : d < op.resultCount) : K (z - d) :=
    hown (z - d) ⟨by show z < z - d + op.resultCount; omega, Nat.sub_le z d⟩
  have one {g g' : F} (hg : g = g') (hop : op.resultCount = 1) :
      AgreeOn q K (fun v => Instr.Owns ⟨op, args, z⟩ v ∨ D v) (j.set z q g) (j'.set z q g') := by
    refine (h.set (own 0 (by omega)) hg).mono fun v hv => hv.imp_left ?_
    rintro ⟨hlt, hle⟩
    simp only at hlt hle
    omega
  have none (hop : op.resultCount = 0) :
      AgreeOn q K (fun v => Instr.Owns ⟨op, args, z⟩ v ∨ D v) j j' := by
    refine h.mono fun v hv => hv.resolve_left ?_
    rintro ⟨hlt, hle⟩
    simp only at hlt hle
    omega
  cases op with
  | arithmetic f => exact one (h.arithmeticCoeff f hreads (own 0 Nat.zero_lt_one)) rfl
  | power f =>
    apply (h.power f hreads (own 0 (by simp [Opcode.resultCount]))
      (own 1 (by simp [Opcode.resultCount])) (own 2 (by simp [Opcode.resultCount]))).mono
    rintro v (⟨hlt, hle⟩ | hv)
    · simp only [Opcode.resultCount] at hlt hle
      omega
    · exact Or.inr (Or.inr (Or.inr hv))
  | elementary f => exact h.elementary f h0 (hreads _ List.mem_cons_self) hown
  | erf =>
    apply (h.erf (z := z) (hreads _ List.mem_cons_self) hown).mono
    rintro v (⟨hlt, hle⟩ | hv)
    · simp only [Opcode.resultCount] at hlt hle
      omega
    · exact Or.inr (Or.inr (Or.inr (Or.inr (Or.inr hv))))
  | discrete | constant => exact one rfl rfl
  | choose => exact one (h.chooseCoeff rfl hreads) rfl
  | sum => exact one (h.sumCoeff rfl hreads) rfl
  | load source => exact one (h.loadCoeff rfl hreads) rfl
  | skip | store | compare | print => exact none rfl
  | start | stop | independent | callMarker | callArg | callResult => cases hplain

end AgreeOn

end Jet

end JetTape
