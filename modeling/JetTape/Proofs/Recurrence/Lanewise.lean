import JetTape.Proofs.Arena.Lanewise
import JetTape.Proofs.Recurrence.Lanes

/-!
Every recurrence is lanewise, whatever its arguments, its rows and the parameters are: what it
gives a direction is computed from that direction up to the order at which it is applied.
-/
namespace JetTape.Recurrence

open Arena (Lanewise Read Told coeff told_pure told_lift told_coeff told_shared told_fold
  told_foldlM keepsLane_setCoeff lanewise_pure lanewise_throw lanewise_assign lanewise_eachDirection)

variable {F : Type} [Scalar F] {n q x y z : Nat} {args : List Nat} {params : Array F}

section Reads

variable {start : F}

theorem told_convolution (product : F → F → F) :
    Told n q fun l => convolution product q x y l := by
  refine told_fold (fun k _ hk sum => ?_) 0
  refine (told_coeff x (by omega)).bind fun _ => (told_coeff y (by omega)).bind fun _ => ?_
  exact told_pure _

theorem told_weighted {c : Nat} (hc : c ≤ q) :
    Told n q fun l => (weighted c q x y l : Read F F) := by
  refine told_fold (fun k _ hk sum => ?_) 0
  refine (told_coeff x (by omega)).bind fun _ => (told_coeff y (by omega)).bind fun _ => ?_
  exact told_pure _

theorem told_lessInnerSquare : Told n q fun l => lessInnerSquare start q x l := by
  refine told_fold (fun k _ hk sum => ?_) start
  refine (told_coeff x (by omega)).bind fun _ => (told_coeff x (by omega)).bind fun _ => ?_
  exact told_pure _

theorem told_lessQuotientTerms : Told n q fun l => lessQuotientTerms start q z y l := by
  refine told_fold (fun k _ hk sum => ?_) start
  refine (told_coeff z (by omega)).bind fun _ => (told_coeff y (by omega)).bind fun _ => ?_
  exact told_pure _

theorem told_weightedPair {s c : Nat} :
    Told n q fun l => (weightedPair q x s c l : Read F (F × F)) := by
  refine told_fold (fun k _ hk sums => ?_) (0, 0)
  refine (told_coeff x (by omega)).bind fun _ => (told_coeff c (by omega)).bind fun _ => ?_
  exact (told_coeff s (by omega)).bind fun _ => told_pure _

theorem told_plusRows (xs : List Nat) : Told n q fun l => plusRows q l start xs :=
  told_foldlM (fun _ v => (told_coeff v (Nat.le_refl q)).bind fun _ => told_pure _) xs start

theorem told_minusRows (xs : List Nat) : Told n q fun l => minusRows q l start xs :=
  told_foldlM (fun _ v => (told_coeff v (Nat.le_refl q)).bind fun _ => told_pure _) xs start

end Reads

theorem lanewise_copyOrder : Lanewise n q (Arena.copyOrder z x q : Arena.Update F Unit) :=
  lanewise_assign z (told_coeff x (Nat.le_refl q))

theorem lanewise_zeroOrder : Lanewise n q (Arena.zeroOrder z q : Arena.Update F Unit) :=
  lanewise_assign z (told_pure 0)

theorem lanewise_linear (f : F → F) : Lanewise n q (linear f q z y) :=
  lanewise_assign z ((told_coeff y (Nat.le_refl q)).bind fun _ => told_pure _)

theorem lanewise_product (mul : F → F → F) : Lanewise n q (product mul q z x y) :=
  lanewise_assign z (told_convolution mul)

theorem lanewise_quotient : Lanewise n q (quotient q z x y : Arena.Update F Unit) := by
  refine .read_bind (told_shared y) fun _ => lanewise_assign z ?_
  exact (told_coeff x (Nat.le_refl q)).bind fun _ =>
    told_lessQuotientTerms.bind fun _ => told_pure _

theorem lanewise_reciprocalOf : Lanewise n q (reciprocalOf q z y : Arena.Update F Unit) :=
  .read_bind (told_shared y) fun _ =>
    lanewise_assign z (told_lessQuotientTerms.bind fun _ => told_pure _)

theorem lanewise_arithmetic (f : Arithmetic) : Lanewise n q (arithmetic f q z args params) := by
  cases f with
  | addVV | subVV =>
    refine .ok_bind fun x => .ok_bind fun y => lanewise_assign z ?_
    refine (told_coeff x (Nat.le_refl q)).bind fun _ => ?_
    exact (told_coeff y (Nat.le_refl q)).bind fun _ => told_pure _
  | mulVV | zmulVV => exact .ok_bind fun _ => .ok_bind fun _ => lanewise_product _
  | addPV | subVP => exact .ok_bind fun _ => lanewise_copyOrder
  | subPV => exact .ok_bind fun _ => lanewise_linear _
  | mulPV | divVP | zmulPV | zmulVP =>
    exact .ok_bind fun _ => .ok_bind fun _ => .ok_bind fun _ => lanewise_linear _
  | divVV => exact .ok_bind fun _ => .ok_bind fun _ => lanewise_quotient
  | divPV => exact .ok_bind fun _ => lanewise_reciprocalOf

theorem lanewise_exp : Lanewise n q (exp q x z : Arena.Update F Unit) :=
  lanewise_assign z ((told_weighted (Nat.le_refl q)).bind fun _ => told_pure _)

theorem lanewise_integral : Lanewise n q (integral q x y z : Arena.Update F Unit) :=
  lanewise_assign z ((told_weighted (Nat.le_refl q)).bind fun _ => told_pure _)

theorem lanewise_expm1 : Lanewise n q (expm1 q x z : Arena.Update F Unit) := by
  refine lanewise_assign z ((told_weighted (Nat.le_refl q)).bind fun _ => ?_)
  exact (told_coeff x (Nat.le_refl q)).bind fun _ => told_pure _

theorem lanewise_logShifted {c : F} : Lanewise n q (logShifted c q x z) := by
  refine .read_bind (told_shared x) fun _ => lanewise_assign z ?_
  refine (told_weighted (by omega)).bind fun _ => ?_
  exact (told_coeff x (Nat.le_refl q)).bind fun _ => told_pure _

theorem lanewise_sqrt : Lanewise n q (sqrt q x z : Arena.Update F Unit) := by
  refine .read_bind (told_shared z) fun _ => lanewise_assign z ?_
  exact (told_coeff x (Nat.le_refl q)).bind fun _ => told_lessInnerSquare.bind fun _ => told_pure _

theorem lanewise_power (f : Power) : Lanewise n q (power f q z args params) := by
  cases f with
  | vv =>
    refine .ok_bind fun _ => .ok_bind fun _ => .ok_bind fun _ => ?_
    refine lanewise_logShifted.bind (.ok_bind fun _ => ?_)
    exact (lanewise_product _).bind lanewise_exp
  | pv =>
    refine .ok_bind fun log => .ok_bind fun _ => .ok_bind fun _ => ?_
    refine lanewise_zeroOrder.bind (.read_bind (told_shared log) fun _ => ?_)
    exact (lanewise_linear _).bind lanewise_exp
  | vp =>
    refine .ok_bind fun _ => .ok_bind fun _ => .ok_bind fun _ => .ok_bind fun _ => ?_
    exact .ok_bind fun _ => lanewise_logShifted.bind ((lanewise_linear _).bind lanewise_exp)

theorem lanewise_erf : Lanewise n q (erf q z args params) := by
  refine .ok_bind fun _ => .ok_bind fun _ => .ok_bind fun _ => .ok_bind fun _ => ?_
  refine .ok_bind fun _ => (lanewise_product _).bind (.ok_bind fun _ => ?_)
  refine (lanewise_linear _).bind (lanewise_exp.bind (.ok_bind fun _ => .ok_bind fun _ => ?_))
  exact (lanewise_linear _).bind lanewise_integral

section Pairs

variable {s c b : Nat} {sign : F}

theorem lanewise_sineCosine {hyperbolic : Bool} :
    Lanewise n q (sineCosine hyperbolic q x s c : Arena.Update F Unit) := by
  refine lanewise_eachDirection (.read_bind told_weightedPair fun _ => ?_)
  exact (keepsLane_setCoeff s _).bind (keepsLane_setCoeff c _)

theorem lanewise_tangent : Lanewise n q (tangent sign q x z y) := by
  refine lanewise_eachDirection (.read_bind (told_weighted (Nat.le_refl q)) fun _ => ?_)
  refine .read_bind (told_coeff x (Nat.le_refl q)) fun _ => (keepsLane_setCoeff z _).bind ?_
  exact .read_bind (told_convolution _) fun _ => keepsLane_setCoeff y _

theorem lanewise_squareFactor : Lanewise n q (squareFactor sign q x b) :=
  .read_bind (told_shared b) fun _ =>
    lanewise_assign b ((told_convolution _).bind fun _ => told_pure _)

theorem lanewise_rootFactor : Lanewise n q (rootFactor sign q x b) := by
  refine .read_bind (told_shared b) fun _ =>
    lanewise_assign b ((told_convolution _).bind fun _ => ?_)
  exact told_lessInnerSquare.bind fun _ => told_pure _

theorem lanewise_inverse : Lanewise n q (inverse sign q x z b) := by
  refine .read_bind (told_shared b) fun _ => lanewise_assign z ?_
  refine (told_coeff x (Nat.le_refl q)).bind fun _ => ?_
  refine (told_fold (fun k _ hk sum => ?_) _).bind fun _ => told_pure _
  refine (told_coeff z (by omega)).bind fun _ => (told_coeff b (by omega)).bind fun _ => ?_
  exact told_pure _

end Pairs

theorem lanewise_elementary (f : Elementary) :
    Lanewise n q (elementary f q z args params) := by
  cases f with
  | exp => exact .ok_bind fun _ => lanewise_exp
  | expm1 => exact .ok_bind fun _ => lanewise_expm1
  | log | log1p => exact .ok_bind fun _ => lanewise_logShifted
  | sqrt => exact .ok_bind fun _ => lanewise_sqrt
  | sin | sinh | cos | cosh =>
    exact .ok_bind fun _ => .ok_bind fun _ => lanewise_sineCosine
  | tan | tanh => exact .ok_bind fun _ => .ok_bind fun _ => lanewise_tangent
  | asin | acos | asinh | acosh =>
    exact .ok_bind fun _ => .ok_bind fun _ => lanewise_rootFactor.bind lanewise_inverse
  | atan | atanh =>
    exact .ok_bind fun _ => .ok_bind fun _ => lanewise_squareFactor.bind lanewise_inverse
  | abs => exact .ok_bind fun x => .read_bind (told_shared x) fun _ => lanewise_linear _
  | sign => exact lanewise_zeroOrder

theorem told_conditionValue (flags bit v : Nat) :
    Told n q fun _ => (conditionValue flags bit v params : Read F F) := by
  unfold conditionValue
  split
  · exact told_shared v
  · exact told_lift _

theorem lanewise_choose : Lanewise n q (choose q z args params) := by
  unfold choose
  split
  · refine .ok_bind fun _ => .read_bind (told_conditionValue _ _ _) fun _ => ?_
    refine .read_bind (told_conditionValue _ _ _) fun _ => ?_
    split
    split
    · exact lanewise_copyOrder
    · exact lanewise_zeroOrder
  · exact lanewise_throw _

theorem lanewise_sum (p : Array F) : Lanewise n q (sum q z args p) := by
  refine .ok_bind fun _ => .ok_bind fun _ => .ok_bind fun _ => .ok_bind fun _ => ?_
  refine .ok_bind fun _ => lanewise_assign z ?_
  exact (told_plusRows _).bind fun _ => told_minusRows _

theorem lanewise_load {resolved : Array Nat} :
    Lanewise n q (load q z args resolved : Arena.Update F Unit) := by
  refine .ok_bind fun _ => .ok_bind fun _ => .ok_bind fun _ => .ok_bind fun _ => ?_
  split
  · exact lanewise_copyOrder
  · exact lanewise_zeroOrder

/-- An instruction outside call blocks treats the directions alike. -/
theorem lanewise_update {resolved : Array Nat} {ins : Instr} :
    Lanewise n q (update q params resolved ins : Arena.Update F Unit) := by
  obtain ⟨op, args, row⟩ := ins
  cases op with
  | arithmetic f => exact lanewise_arithmetic f
  | power f => exact lanewise_power f
  | elementary f => exact lanewise_elementary f
  | erf => exact lanewise_erf
  | discrete | constant => exact lanewise_zeroOrder
  | choose => exact lanewise_choose
  | sum => exact lanewise_sum params
  | load s => exact lanewise_load
  | _ => exact lanewise_pure

end JetTape.Recurrence
