import JetTape.Proofs.Arena.Writes
import JetTape.Proofs.Recurrence.Lanes
import JetTape.Proofs.Tape.Tables

/-!
Every recurrence writes order `q` of the rows that its instruction owns and nothing else, whatever
its arguments, the parameters and the arena are.
-/
namespace JetTape.Recurrence

open Arena (Writes writes_pure writes_throw writes_setCoeff writes_eachDirection writes_assign)

variable {F : Type} [Scalar F] {q x y z : Nat} {D : Nat → Prop} {args : List Nat}
  {params : Array F}

theorem writes_quotient (hz : D z) : Writes q D (quotient q z x y : Arena.Update F Unit) :=
  .read_bind fun _ => writes_assign hz

theorem writes_reciprocalOf (hz : D z) : Writes q D (reciprocalOf q z y : Arena.Update F Unit) :=
  .read_bind fun _ => writes_assign hz

theorem writes_arithmetic (f : Arithmetic) (hz : D z) :
    Writes q D (arithmetic f q z args params) := by
  cases f with
  | addVV | subVV | mulVV | zmulVV =>
    exact .ok_bind fun _ _ => .ok_bind fun _ _ => writes_assign hz
  | addPV | subPV | subVP => exact .ok_bind fun _ _ => writes_assign hz
  | mulPV | divVP | zmulPV | zmulVP =>
    exact .ok_bind fun _ _ => .ok_bind fun _ _ => .ok_bind fun _ _ => writes_assign hz
  | divVV => exact .ok_bind fun _ _ => .ok_bind fun _ _ => writes_quotient hz
  | divPV => exact .ok_bind fun _ _ => writes_reciprocalOf hz

theorem writes_logShifted {c : F} (hz : D z) : Writes q D (logShifted c q x z) :=
  .read_bind fun _ => writes_assign hz

theorem writes_sqrt (hz : D z) : Writes q D (sqrt q x z : Arena.Update F Unit) :=
  .read_bind fun _ => writes_assign hz

theorem writes_power (f : Power) (hz : ∀ v, z < v + 3 → v ≤ z → D v) :
    Writes q D (power f q z args params) := by
  have hlog {v : Nat} (h : Index.sub z 2 = .ok v) : D v := by
    obtain ⟨hle, rfl⟩ := Index.sub_eq_ok_iff.mp h
    exact hz _ (by omega) (by omega)
  have hscaled {v : Nat} (h : Index.sub z 1 = .ok v) : D v := by
    obtain ⟨hle, rfl⟩ := Index.sub_eq_ok_iff.mp h
    exact hz _ (by omega) (by omega)
  have hlast : D z := hz z (by omega) (Nat.le_refl z)
  cases f with
  | vv =>
    refine .ok_bind fun log h₂ => .ok_bind fun scaled h₁ => .ok_bind fun _ _ => ?_
    refine (writes_logShifted (hlog h₂)).bind fun _ => .ok_bind fun _ _ => ?_
    exact (writes_assign (hscaled h₁)).bind fun _ => writes_assign hlast
  | pv =>
    refine .ok_bind fun log h₂ => .ok_bind fun scaled h₁ => .ok_bind fun _ _ => ?_
    refine (writes_assign (hlog h₂)).bind fun _ => .read_bind fun _ => ?_
    exact (writes_assign (hscaled h₁)).bind fun _ => writes_assign hlast
  | vp =>
    refine .ok_bind fun log h₂ => .ok_bind fun scaled h₁ => .ok_bind fun _ _ => ?_
    refine .ok_bind fun _ _ => .ok_bind fun _ _ => ?_
    refine (writes_logShifted (hlog h₂)).bind fun _ => ?_
    exact (writes_assign (hscaled h₁)).bind fun _ => writes_assign hlast

theorem writes_erf (hz : ∀ v, z < v + 5 → v ≤ z → D v) : Writes q D (erf q z args params) := by
  have hrow {v k : Nat} (hk : k < 5) (h : Index.sub z k = .ok v) : D v := by
    obtain ⟨hle, rfl⟩ := Index.sub_eq_ok_iff.mp h
    exact hz _ (by omega) (by omega)
  refine .ok_bind fun _ _ => .ok_bind fun square h₄ => .ok_bind fun negated h₃ => ?_
  refine .ok_bind fun gauss h₂ => .ok_bind fun scaled h₁ => ?_
  refine (writes_assign (hrow (by decide) h₄)).bind fun _ => .ok_bind fun _ _ => ?_
  refine (writes_assign (hrow (by decide) h₃)).bind fun _ => ?_
  refine (writes_assign (hrow (by decide) h₂)).bind fun _ => ?_
  refine .ok_bind fun _ _ => .ok_bind fun _ _ => ?_
  refine (writes_assign (hrow (by decide) h₁)).bind fun _ => ?_
  exact writes_assign (hz z (by omega) (Nat.le_refl z))

section Pairs

variable {s c b : Nat} {sign : F}

theorem writes_sineCosine {hyperbolic : Bool} (hs : D s) (hc : D c) :
    Writes q D (sineCosine hyperbolic q x s c : Arena.Update F Unit) := by
  refine writes_eachDirection fun _ => .read_bind fun _ => ?_
  exact (writes_setCoeff hs _).bind fun _ => writes_setCoeff hc _

theorem writes_tangent (hz : D z) (hy : D y) : Writes q D (tangent sign q x z y) := by
  refine writes_eachDirection fun _ => .read_bind fun _ => .read_bind fun _ => ?_
  refine (writes_setCoeff hz _).bind fun _ => .read_bind fun _ => ?_
  exact writes_setCoeff hy _

theorem writes_squareFactor (hb : D b) : Writes q D (squareFactor sign q x b) :=
  .read_bind fun _ => writes_assign hb

theorem writes_rootFactor (hb : D b) : Writes q D (rootFactor sign q x b) :=
  .read_bind fun _ => writes_assign hb

theorem writes_inverse (hz : D z) : Writes q D (inverse sign q x z b) :=
  .read_bind fun _ => writes_assign hz

end Pairs

theorem writes_elementary (f : Elementary) (hz : ∀ v, z < v + f.resultCount → v ≤ z → D v) :
    Writes q D (elementary f q z args params) := by
  have hpos := f.resultCount_pos
  have hlast : D z := hz z (by omega) (Nat.le_refl z)
  have hother {v : Nat} (hf : f.resultCount = 2) (h : Index.sub z 1 = .ok v) : D v := by
    obtain ⟨hle, rfl⟩ := Index.sub_eq_ok_iff.mp h
    exact hz _ (by omega) (by omega)
  cases f with
  | exp | expm1 => exact .ok_bind fun _ _ => writes_assign hlast
  | log | log1p => exact .ok_bind fun _ _ => writes_logShifted hlast
  | sqrt => exact .ok_bind fun _ _ => writes_sqrt hlast
  | sin | sinh =>
    exact .ok_bind fun _ _ => .ok_bind fun _ h => writes_sineCosine hlast (hother rfl h)
  | cos | cosh =>
    exact .ok_bind fun _ _ => .ok_bind fun _ h => writes_sineCosine (hother rfl h) hlast
  | tan | tanh =>
    exact .ok_bind fun _ _ => .ok_bind fun _ h => writes_tangent hlast (hother rfl h)
  | asin | acos | asinh | acosh =>
    exact .ok_bind fun _ _ => .ok_bind fun _ h =>
      (writes_rootFactor (hother rfl h)).bind fun _ => writes_inverse hlast
  | atan | atanh =>
    exact .ok_bind fun _ _ => .ok_bind fun _ h =>
      (writes_squareFactor (hother rfl h)).bind fun _ => writes_inverse hlast
  | abs => exact .ok_bind fun _ _ => .read_bind fun _ => writes_assign hlast
  | sign => exact writes_assign hlast

theorem writes_choose (hz : D z) : Writes q D (choose q z args params) := by
  unfold choose
  split
  · refine .ok_bind fun _ _ => .read_bind fun _ => .read_bind fun _ => ?_
    split
    split <;> exact writes_assign hz
  · exact writes_throw _

theorem writes_sum (p : Array F) (hz : D z) : Writes q D (sum q z args p) := by
  refine .ok_bind fun _ _ => .ok_bind fun _ _ => .ok_bind fun _ _ => .ok_bind fun _ _ => ?_
  exact .ok_bind fun _ _ => writes_assign hz

theorem writes_load {resolved : Array Nat} (hz : D z) :
    Writes q D (load q z args resolved : Arena.Update F Unit) := by
  refine .ok_bind fun _ _ => .ok_bind fun _ _ => .ok_bind fun _ _ => .ok_bind fun _ _ => ?_
  split <;> exact writes_assign hz

/-- An instruction outside call blocks writes to its own rows only. -/
theorem writes_update {resolved : Array Nat} {ins : Instr} :
    Writes q ins.Owns (update q params resolved ins : Arena.Update F Unit) := by
  obtain ⟨op, args, row⟩ := ins
  have hone (h : op.resultCount = 1) : Instr.Owns ⟨op, args, row⟩ row := by
    constructor
    · show row < row + op.resultCount
      omega
    · exact Nat.le_refl row
  cases op with
  | arithmetic f => exact writes_arithmetic f (hone rfl)
  | power f => exact writes_power f fun _ hlt hle => ⟨hlt, hle⟩
  | elementary f => exact writes_elementary f fun _ hlt hle => ⟨hlt, hle⟩
  | erf => exact writes_erf fun _ hlt hle => ⟨hlt, hle⟩
  | discrete | constant => exact writes_assign (hone rfl)
  | choose => exact writes_choose (hone rfl)
  | sum => exact writes_sum params (hone rfl)
  | load s => exact writes_load (hone rfl)
  | _ => exact writes_pure ()

end JetTape.Recurrence
