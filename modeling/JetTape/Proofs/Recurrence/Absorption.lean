import JetTape.Proofs.Recurrence.Lanes
import JetTape.Proofs.Recurrence.Rational
import JetTape.Scalar.Binary
import Mathlib.Logic.Function.Iterate

/-!
Products in which zero absorbs. What a zero multiplies has no influence on the coefficient of such a
product, be it infinite or a NaN, and where the factor has zeros only the coefficient is zero. Over
a field the products are the ordinary ones.

The statements are about every order. At order 0, which no sweep computes, the directions share the
coefficient, so a recurrence gives it a value once for each of them, and an operand in the result's
own row is replaced on the way.
-/
namespace JetTape

/-- What absorbing products ask of the zero of a coefficient type. -/
class Scalar.LawfulZero (F : Type) [Scalar F] : Prop where
  zero_add_zero : (0 : F) + 0 = 0
  eq_zero : Scalar.eq (0 : F) 0 = true

instance : Scalar.LawfulZero Float := ⟨rfl, rfl⟩

instance : Scalar.LawfulZero Float32 := ⟨rfl, rfl⟩

instance (K : Type) [Field K] [LinearOrder K] [ExactScalar K] : Scalar.LawfulZero K :=
  ⟨add_zero (0 : K), decide_eq_true rfl⟩

variable {F : Type} [Scalar F]

namespace Scalar

theorem zmul_congr {x y y' : F} (h : eq x 0 = false → y' = y) : zmul x y' = zmul x y := by
  cases hx : eq x 0 with
  | true => rw [zmul_of_eq_zero hx, zmul_of_eq_zero hx]
  | false => rw [h hx]

end Scalar

namespace Series

variable {q : Nat} {x x' y y' : Series F}

/-- A convolution looks at the second series only where the first one is not zero. -/
theorem convolution_zmul_congr (hx : EqUpTo q x' x)
    (hy : ∀ k ≤ q, Scalar.eq (x k) 0 = false → y' (q - k) = y (q - k)) :
    convolution Scalar.zmul q x' y' = convolution Scalar.zmul q x y := by
  apply List.foldl_ext
  intro sum k hk
  rw [List.mem_range'_1] at hk
  rw [hx k (by omega), Scalar.zmul_congr (hy k (by omega))]

/-- The convolution of a series of zeros is zero. -/
theorem convolution_zmul_eq_zero [Scalar.LawfulZero F]
    (hx : ∀ k ≤ q, Scalar.eq (x k) 0 = true) (y : Series F) :
    convolution Scalar.zmul q x y = 0 := by
  have hterm (sum : F) (k : Nat) (hk : k ∈ List.range' 0 (q + 1)) :
      sum + Scalar.zmul (x k) (y (q - k)) = sum + 0 := by
    rw [List.mem_range'_1] at hk
    rw [Scalar.zmul_of_eq_zero (hx k (by omega))]
  have hzeros (l : List Nat) : l.foldl (fun sum _ => sum + 0) (0 : F) = 0 := by
    induction l with
    | nil => rfl
    | cons k l ih => rw [List.foldl_cons, Scalar.LawfulZero.zero_add_zero, ih]
  exact (List.foldl_ext _ _ _ hterm).trans (hzeros _)

end Series

namespace Jet

variable {q z r : Nat} {g : Jet F → F}

/-- Gives a row the value `g` at one order. -/
def give (g : Jet F → F) (q z : Nat) (j : Jet F) : Jet F := j.set z q (g j)

/-- The jet from which the last value of a row is computed. Order 0 has been given a value for each
of the other directions by then, a higher order has not been given any. -/
def beforeLast (g : Jet F → F) (q z r : Nat) (j : Jet F) : Jet F :=
  (give g q z)^[if q = 0 then r - 1 else 0] j

omit [Scalar F] in
/-- What holds of two jets and is kept where order 0 is given values holds when the last one is
computed. -/
theorem beforeLast_induct {R : Jet F → Jet F → Prop} (j j' : Jet F) (h : R j j')
    (hgive : q = 0 → ∀ j j', R j j' → R (j.give g q z) (j'.give g q z)) :
    R (j.beforeLast g q z r) (j'.beforeLast g q z r) := by
  unfold beforeLast
  split
  · next h0 =>
    induction r - 1 with
    | zero => exact h
    | succ c ih =>
      rw [Function.iterate_succ_apply', Function.iterate_succ_apply']
      exact hgive h0 _ _ ih
  · exact h

end Jet

namespace Arena

variable {a : Arena F} {n q z l : Nat} {value : Nat → Read F F} {g : Jet F → F}

/-- A new coefficient of order 0 shows along every direction. -/
theorem jet_set_order_zero (h : a.Shaped n) (hz : z < n) (hcap : 0 < a.layout.capOrder)
    (hl : l < a.layout.directions) (x : F) {l' : Nat} (hl' : l' < a.layout.directions) :
    ({ a with cells := a.cells.setIfInBounds (a.layout.cell z 0 l) x } : Arena F).jet l' =
      (a.jet l').set z 0 x := by
  show (a.poke z 0 l x).jet l' = _
  funext v k
  by_cases hk : k < a.layout.capOrder
  · have hjet : (a.poke z 0 l x).jet l' v k = (a.poke z 0 l x).peek v k l' := jet_eq_peek hk hl'
    rw [hjet, peek_poke h.size_eq hz hcap hl hk hl', ← jet_eq_peek hk hl']
    simp [Jet.set]
  · have hne : k ≠ 0 := by omega
    simp [jet, Jet.set, poke, hk, hne]

/-- At order 0 a row is given a value once for every direction that the loop has seen. -/
theorem each_assign_order_zero (hz : z < n)
    (hvalue : ∀ a : Arena F, a.Shaped n → 0 < a.layout.capOrder → ∀ l < a.layout.directions,
      value l a = .ok (g (a.jet l)))
    (hshared : ∀ j j' : Jet F, (∀ v, j v 0 = j' v 0) → g j = g j') (c i : Nat) (a : Arena F)
    (ha : a.Shaped n) (hcap : 0 < a.layout.capOrder) (hc : i + c ≤ a.layout.directions) :
    ∃ b, (Loop.each c i fun l => do setCoeff z 0 l (← value l) : Update F Unit) a = .ok () b ∧
      SameShape a b ∧ ∀ l < a.layout.directions, b.jet l = (Jet.give g 0 z)^[c] (a.jet l) := by
  induction c generalizing i a with
  | zero => exact ⟨a, rfl, .refl a, fun _ _ => rfl⟩
  | succ c ih =>
    have hi : i < a.layout.directions := by omega
    have hset := setCoeff_of_locate (x := g (a.jet i)) (ha.locate_eq hz hcap hi)
    have hshape : SameShape a
        { a with cells := a.cells.setIfInBounds (a.layout.cell z 0 i) (g (a.jet i)) } :=
      ⟨rfl, Array.size_setIfInBounds⟩
    obtain ⟨b, hb, hab, hjets⟩ := ih (i + 1) _ (hshape.shaped ha) hcap
      (by show i + 1 + c ≤ a.layout.directions; omega)
    refine ⟨b, ?_, hshape.trans hab, fun l hl => ?_⟩
    · rw [Loop.each, bind_assoc, read_bind_of_eq (hvalue a ha hcap i hi), bind_of_eq hset, hb]
    · rw [hjets l hl, Function.iterate_succ_apply, jet_set_order_zero ha hz hcap hi _ hl,
        Jet.give, hshared (a.jet i) (a.jet l) fun v => jet_zero hi hl v]

/-- A row is left with the value that is computed last, from the jet that the values before it have
left. -/
theorem exists_assign_get (hz : z < n)
    (hvalue : ∀ a : Arena F, a.Shaped n → q < a.layout.capOrder → ∀ l < a.layout.directions,
      value l a = .ok (g (a.jet l)))
    (hshared : q = 0 → ∀ j j' : Jet F, (∀ v, j v 0 = j' v 0) → g j = g j') (ha : a.Shaped n)
    (hq : q < a.layout.capOrder) :
    ∃ b, assign z q value a = .ok () b ∧ ∀ l < a.layout.directions,
      b.get z q l = .ok (g ((a.jet l).beforeLast g q z a.layout.directions)) := by
  have hlast (j : Jet F) : Jet.give g q z j z q = g j := Jet.set_self ..
  unfold Jet.beforeLast
  by_cases h0 : q = 0
  · subst h0
    obtain ⟨b, hb, hab, hjets⟩ := each_assign_order_zero hz hvalue (hshared rfl)
      a.layout.directions 0 a ha hq (by omega)
    refine ⟨b, ?_, fun l hl => ?_⟩
    · unfold assign eachDirection
      rw [read_bind_of_eq (x := a.layout.directions) rfl, hb]
    · have hturns : a.layout.directions = a.layout.directions - 1 + 1 := by omega
      rw [(hab.shaped ha).get_eq hz (hab.layout ▸ hq) (hab.layout ▸ hl), hjets l hl, if_pos rfl]
      conv_lhs => rw [hturns, Function.iterate_succ_apply', hlast]
  · have hfits : a.Fits n q := ⟨ha, by omega, hq⟩
    obtain ⟨b, hb, hab, hjets⟩ := along_assign hz
      (fun a ha l hl => hvalue a ha.toShaped ha.order_lt l hl) a hfits
    refine ⟨b, hb, fun l hl => ?_⟩
    rw [(hab.shaped ha).get_eq hz (hab.layout ▸ hq) (hab.layout ▸ hl), hjets l hl, if_neg h0]
    exact congrArg Except.ok (hlast _)

/-- The coefficient is there and is zero, of either sign. -/
def Vanishes (a : Arena F) (v k l : Nat) : Prop :=
  ∃ c, a.get v k l = .ok c ∧ Scalar.eq c 0 = true

theorem Shaped.vanishes_iff {v k : Nat} (h : a.Shaped n) (hv : v < n) (hk : k < a.layout.capOrder)
    (hl : l < a.layout.directions) : a.Vanishes v k l ↔ Scalar.eq (a.jet l v k) 0 = true := by
  unfold Vanishes
  rw [h.get_eq hv hk hl]
  simp

end Arena

namespace Recurrence

open Arena (Shaped SameShape)

variable {n q x y z : Nat} {a : Arena F}

theorem exists_product_get (mul : F → F → F) (ha : a.Shaped n) (hq : q < a.layout.capOrder)
    (hz : z < n) (hx : x < n) (hy : y < n) :
    let g : Jet F → F := fun j => Series.convolution mul q (j x) (j y)
    ∃ b, (product mul q z x y : Arena.Update F Unit) a = .ok () b ∧ ∀ l < a.layout.directions,
      b.get z q l = .ok (g ((a.jet l).beforeLast g q z a.layout.directions)) := by
  intro g
  refine Arena.exists_assign_get hz (fun a ha hq l hl => ha.convolution_eq hq hl mul hx hy) ?_ ha hq
  rintro rfl j j' hj
  have hfirst (v : Nat) : Series.EqUpTo 0 (j v) (j' v) := by
    intro k hk
    rw [Nat.le_zero.mp hk, hj v]
  exact Series.convolution_congr mul (hfirst x) (hfirst y)

theorem exists_linear_get (f : F → F) (ha : a.Shaped n) (hq : q < a.layout.capOrder)
    (hz : z < n) (hy : y < n) :
    let g : Jet F → F := fun j => f (j y q)
    ∃ b, (linear f q z y : Arena.Update F Unit) a = .ok () b ∧ ∀ l < a.layout.directions,
      b.get z q l = .ok (g ((a.jet l).beforeLast g q z a.layout.directions)) := by
  intro g
  refine Arena.exists_assign_get hz (fun a ha hq l hl => ?_) ?_ ha hq
  · rw [Arena.read_of_eq (ha.coeff_eq hl hy hq)]
    rfl
  · rintro rfl j j' hj
    exact congrArg f (hj y)

/-- The jets agree on row `x` up to order `q`, and on row `y` at each order that meets a coefficient
of `x` that is not zero. -/
structure SeenAlike (q x y : Nat) (j j' : Jet F) : Prop where
  left : ∀ k ≤ q, j' x k = j x k
  right : ∀ k ≤ q, Scalar.eq (j x k) 0 = false → j' y (q - k) = j y (q - k)

theorem SeenAlike.convolution_eq {j j' : Jet F} (h : SeenAlike q x y j j') :
    Series.convolution Scalar.zmul q (j' x) (j' y) = Series.convolution Scalar.zmul q (j x) (j y) :=
  Series.convolution_zmul_congr h.left h.right

variable [Scalar.LawfulZero F]

/-- A row that is zero stays so if it is given values that are zero. -/
theorem eq_zero_give {g : Jet F → F} {k : Nat} {j : Jet F} (hg : g j = 0)
    (hx : Scalar.eq (j x k) 0 = true) : Scalar.eq (j.give g q z x k) 0 = true := by
  unfold Jet.give Jet.set
  split
  · rw [hg]
    exact Scalar.LawfulZero.eq_zero
  · exact hx

/-- Order 0 of the product of what is seen alike may be put into either operand. -/
theorem SeenAlike.give {j j' : Jet F} (h : SeenAlike 0 x y j j') :
    let g : Jet F → F := fun j => Series.convolution Scalar.zmul 0 (j x) (j y)
    SeenAlike 0 x y (j.give g 0 z) (j'.give g 0 z) := by
  intro g
  have hg : g j' = g j := h.convolution_eq
  constructor
  case left =>
    intro k hk
    unfold Jet.give Jet.set
    rw [hg, h.left k hk]
  case right =>
    intro k hk hne
    obtain rfl := Nat.le_zero.mp hk
    -- Where the old factor is zero the product is, so then the new factor is zero as well.
    have hold : Scalar.eq (j x 0) 0 = false := by
      by_contra hzero
      rw [Bool.not_eq_false] at hzero
      have hprod : g j = 0 := Series.convolution_zmul_eq_zero
        (fun k hk => by rwa [Nat.le_zero.mp hk]) (j y)
      rw [eq_zero_give hprod hzero] at hne
      cases hne
    unfold Jet.give Jet.set
    rw [hg, h.right 0 hk hold]

/-- What the coefficient along a direction of an absorbing product depends on. -/
theorem exists_zmulVV (params : Array F) (rest : List Nat) (ha : a.Shaped n)
    (hq : q < a.layout.capOrder) (hz : z < n) (hx : x < n) (hy : y < n) {a' : Arena F}
    (hshape : SameShape a a') :
    ∃ b b', arithmetic .zmulVV q z (x :: y :: rest) params a = .ok () b ∧
      arithmetic .zmulVV q z (x :: y :: rest) params a' = .ok () b' ∧
      ∀ l < a.layout.directions,
        ((∀ k ≤ q, a'.get x k l = a.get x k l) →
          (∀ k ≤ q, ¬ a.Vanishes x k l → a'.get y (q - k) l = a.get y (q - k) l) →
          ∃ c, b.get z q l = .ok c ∧ b'.get z q l = .ok c) ∧
        ((∀ k ≤ q, a.Vanishes x k l) → b.get z q l = .ok 0) := by
  have ha' := hshape.shaped ha
  have hlayout := hshape.layout
  obtain ⟨b, hb, hget⟩ := exists_product_get Scalar.zmul ha hq hz hx hy
  obtain ⟨b', hb', hget'⟩ := exists_product_get Scalar.zmul ha' (hlayout ▸ hq) hz hx hy
  rw [hlayout] at hget'
  refine ⟨b, b', hb, hb', fun l hl => ⟨fun hleft hright => ?_, fun hzero => ?_⟩⟩
  · have hcoeff {v k : Nat} (hv : v < n) (hk : k ≤ q) (h : a'.get v k l = a.get v k l) :
        a'.jet l v k = a.jet l v k := by
      rw [ha'.get_eq hv (hlayout ▸ Nat.lt_of_le_of_lt hk hq) (hlayout ▸ hl),
        ha.get_eq hv (Nat.lt_of_le_of_lt hk hq) hl] at h
      exact Except.ok.inj h
    have hseen : SeenAlike q x y (a.jet l) (a'.jet l) := by
      refine ⟨fun k hk => hcoeff hx hk (hleft k hk), fun k hk hne => ?_⟩
      refine hcoeff hy (Nat.sub_le q k) (hright k hk fun hvanishes => ?_)
      rw [ha.vanishes_iff hx (Nat.lt_of_le_of_lt hk hq) hl, hne] at hvanishes
      cases hvanishes
    refine ⟨_, hget l hl, (hget' l hl).trans (congrArg Except.ok ?_)⟩
    refine (Jet.beforeLast_induct _ _ hseen ?_).convolution_eq
    rintro rfl j j' h
    exact h.give
  · have hzeros : ∀ k ≤ q, Scalar.eq (a.jet l x k) 0 = true := fun k hk =>
      (ha.vanishes_iff hx (Nat.lt_of_le_of_lt hk hq) hl).mp (hzero k hk)
    rw [hget l hl]
    refine congrArg Except.ok (Series.convolution_zmul_eq_zero ?_ _)
    refine Jet.beforeLast_induct (R := fun j _ => ∀ k ≤ q, Scalar.eq (j x k) 0 = true)
      (a.jet l) (a.jet l) hzeros fun _ j _ h k hk => ?_
    exact eq_zero_give (Series.convolution_zmul_eq_zero h _) (h k hk)

omit [Scalar.LawfulZero F] in
/-- A zero parameter gives a row of zeros. -/
theorem exists_zmulPV {params : Array F} {p : Nat} (rest : List Nat) (ha : a.Shaped n)
    (hq : q < a.layout.capOrder) (hz : z < n) (hy : y < n) (hp : p < params.size)
    (hzero : Scalar.eq params[p] 0 = true) :
    ∃ b, arithmetic .zmulPV q z (p :: y :: rest) params a = .ok () b ∧
      ∀ l < a.layout.directions, b.get z q l = .ok 0 := by
  obtain ⟨b, hb, hget⟩ := exists_linear_get (Scalar.zmul params[p]) ha hq hz hy
  refine ⟨b, ?_, fun l hl => ?_⟩
  · have hparam : Index.get params p = .ok params[p] := dif_pos hp
    simp only [arithmetic, Index.arg, List.getElem?_cons_zero, List.getElem?_cons_succ,
      Arena.ok_bind, hparam]
    exact hb
  · rw [hget l hl]
    exact congrArg Except.ok (Scalar.zmul_of_eq_zero hzero _)

/-- Where the variable is zero the product with a parameter is. -/
theorem exists_zmulVP {params : Array F} {p : Nat} (rest : List Nat) (ha : a.Shaped n)
    (hq : q < a.layout.capOrder) (hz : z < n) (hx : x < n) (hp : p < params.size) :
    ∃ b, arithmetic .zmulVP q z (x :: p :: rest) params a = .ok () b ∧
      ∀ l < a.layout.directions, a.Vanishes x q l → b.get z q l = .ok 0 := by
  obtain ⟨b, hb, hget⟩ := exists_linear_get (Scalar.zmul · params[p]) ha hq hz hx
  refine ⟨b, ?_, fun l hl hzero => ?_⟩
  · have hparam : Index.get params p = .ok params[p] := dif_pos hp
    simp only [arithmetic, Index.arg, List.getElem?_cons_zero, List.getElem?_cons_succ,
      Arena.ok_bind, hparam]
    exact hb
  · rw [ha.vanishes_iff hx hq hl] at hzero
    rw [hget l hl]
    refine congrArg Except.ok (Scalar.zmul_of_eq_zero ?_ _)
    refine Jet.beforeLast_induct (R := fun j _ => Scalar.eq (j x q) 0 = true)
      (a.jet l) (a.jet l) hzero fun _ j _ h => ?_
    exact eq_zero_give (Scalar.zmul_of_eq_zero h _) h

/-- Over a field the absorbing products are the ordinary ones. -/
theorem zmul_eq_mul_of_field (K : Type) [Field K] [LinearOrder K] [ExactScalar K] :
    (arithmetic .zmulVV : Recurrence K) = arithmetic .mulVV ∧
      (arithmetic .zmulPV : Recurrence K) = arithmetic .mulPV ∧
      ∀ q z x p rest (params : Array K), arithmetic .zmulVP q z (x :: p :: rest) params =
        arithmetic .mulPV q z (p :: x :: rest) params := by
  have hzmul : (Scalar.zmul : K → K → K) = (· * ·) := by
    funext x y
    exact Arithmetic.zmul_eq_mul x y
  refine ⟨?_, ?_, fun q z x p rest params => ?_⟩
  · funext q z args params
    simp only [arithmetic, hzmul]
  · funext q z args params
    simp only [arithmetic, hzmul]
  · simp only [arithmetic, hzmul, Index.arg, List.getElem?_cons_zero, List.getElem?_cons_succ,
      Arena.ok_bind]
    congr 1
    funext c
    exact congrArg (linear · q z x) (funext fun v => mul_comm v c)

/-- In absorbing products zero hides what it multiplies, at every order and along every direction by
itself. The coefficient of a product of variables is the same in two arenas that agree on the first
factor and on those coefficients of the second one that meet a coefficient that is not zero; where
all of the first factor is zero it is zero. A zero parameter gives zeros only, and so does a zero
coefficient for any parameter. Over a field the products are the ordinary ones. -/
theorem zmul_absorbs :
    (∀ {F : Type} [Scalar F] [Scalar.LawfulZero F] {n q z : Nat} {a : Arena F} (params : Array F)
        (rest : List Nat), a.Shaped n → q < a.layout.capOrder → z < n →
      (∀ x < n, ∀ y < n, ∀ a', SameShape a a' →
        ∃ b b', arithmetic .zmulVV q z (x :: y :: rest) params a = .ok () b ∧
          arithmetic .zmulVV q z (x :: y :: rest) params a' = .ok () b' ∧
          ∀ l < a.layout.directions,
            ((∀ k ≤ q, a'.get x k l = a.get x k l) →
              (∀ k ≤ q, ¬ a.Vanishes x k l → a'.get y (q - k) l = a.get y (q - k) l) →
              ∃ c, b.get z q l = .ok c ∧ b'.get z q l = .ok c) ∧
            ((∀ k ≤ q, a.Vanishes x k l) → b.get z q l = .ok 0)) ∧
      (∀ p (hp : p < params.size), Scalar.eq params[p] 0 = true → ∀ y < n,
        ∃ b, arithmetic .zmulPV q z (p :: y :: rest) params a = .ok () b ∧
          ∀ l < a.layout.directions, b.get z q l = .ok 0) ∧
      ∀ x < n, ∀ p < params.size,
        ∃ b, arithmetic .zmulVP q z (x :: p :: rest) params a = .ok () b ∧
          ∀ l < a.layout.directions, a.Vanishes x q l → b.get z q l = .ok 0) ∧
    ∀ (K : Type) [Field K] [LinearOrder K] [ExactScalar K],
      (arithmetic .zmulVV : Recurrence K) = arithmetic .mulVV ∧
        (arithmetic .zmulPV : Recurrence K) = arithmetic .mulPV ∧
        ∀ q z x p rest (params : Array K), arithmetic .zmulVP q z (x :: p :: rest) params =
          arithmetic .mulPV q z (p :: x :: rest) params := by
  refine ⟨fun params rest ha hq hz => ⟨?_, ?_, ?_⟩, fun K _ _ _ => zmul_eq_mul_of_field K⟩
  · intro x hx y hy a' hshape
    exact exists_zmulVV params rest ha hq hz hx hy hshape
  · intro p hp hzero y hy
    exact exists_zmulPV rest ha hq hz hy hp hzero
  · intro x hx p hp
    exact exists_zmulVP rest ha hq hz hx hp

/-- Three orders of a parameter row, two factors and their product along two directions. The first
factor is zero but for one coefficient along the second direction; the second one is given. -/
def singularArena (y₀ : Float) (y₁ y₂ : Float × Float) : Arena Float :=
  ⟨⟨3, 2⟩, #[0.0, 0.0, 0.0, 0.0, 0.0, -0.0, 0.0, 2.0, 0.0, 0.0, y₀, y₁.1, y₁.2, y₂.1, y₂.2,
    7.0, 7.0, 7.0, 7.0, 7.0]⟩

/-- The first factor does not depend on what the second one is. -/
theorem singularArena_get_factor {k : Nat} (hk : k ≤ 2) :
    ∃ x, ∀ y₀ y₁ y₂, (singularArena y₀ y₁ y₂).get 1 k 1 = .ok x := by
  interval_cases k
  · exact ⟨-0.0, fun _ _ _ => rfl⟩
  · exact ⟨2.0, fun _ _ _ => rfl⟩
  · exact ⟨0.0, fun _ _ _ => rfl⟩

theorem singularArena_get_second (y₀ : Float) (y₁ y₂ : Float × Float) :
    (singularArena y₀ y₁ y₂).get 2 1 1 = .ok y₁.2 :=
  rfl

/-- Infinities and NaNs that meet a zero do not show, those of a parameter included. Rational
numbers have none. -/
theorem singularArena_zmul_absorbs :
    let nan : Float := 0.0 / 0.0
    let inf : Float := 1.0 / 0.0
    let a := singularArena inf (nan, 5.0) (nan, inf)
    let a' := singularArena 1.0 (2.0, 5.0) (3.0, nan)
    (∃ b b', arithmetic .zmulVV 2 3 [1, 2] #[] a = .ok () b ∧
      arithmetic .zmulVV 2 3 [1, 2] #[] a' = .ok () b' ∧ b.get 3 2 0 = .ok 0.0 ∧
      ∃ c, b.get 3 2 1 = .ok c ∧ b'.get 3 2 1 = .ok c) ∧
    (∃ b, arithmetic .zmulPV 2 3 [0, 2] #[-0.0, nan] a = .ok () b ∧ b.get 3 2 1 = .ok 0.0) ∧
    (∃ b, arithmetic .zmulVP 2 3 [1, 1] #[-0.0, nan] a = .ok () b ∧ b.get 3 2 1 = .ok 0.0) ∧
    (arithmetic .zmulVV : Recurrence ℚ) = arithmetic .mulVV := by
  intro nan inf a a'
  have hsigned : Scalar.eq (-0.0 : Float) 0.0 = true := rfl
  have hzero (k : Nat) (hk : k ≤ 2) : a.Vanishes 1 k 0 := by
    interval_cases k
    · exact ⟨-0.0, rfl, hsigned⟩
    · exact ⟨0.0, rfl, rfl⟩
    · exact ⟨0.0, rfl, rfl⟩
  have hlast : a.Vanishes 1 2 1 := ⟨0.0, rfl, rfl⟩
  have ha : a.Shaped 4 := ⟨rfl, by decide⟩
  obtain ⟨hvv, -⟩ := zmul_absorbs.1 #[] [] ha (q := 2) (z := 3) (by decide) (by decide)
  obtain ⟨-, hpv, hvp⟩ := zmul_absorbs.1 #[-0.0, nan] [] ha (q := 2) (z := 3) (by decide)
    (by decide)
  refine ⟨?_, ?_, ?_, (zmul_absorbs.2 ℚ).1⟩
  · obtain ⟨b, b', hb, hb', hget⟩ := hvv 1 (by decide) 2 (by decide) a' ⟨rfl, by decide⟩
    refine ⟨b, b', hb, hb', (hget 0 (by decide)).2 hzero, (hget 1 (by decide)).1 ?_ ?_⟩
    · intro k hk
      obtain ⟨x, hx⟩ := singularArena_get_factor hk
      rw [hx, hx]
    · intro k hk hne
      interval_cases k
      · exact absurd (hzero 0 (by decide)) hne
      · rw [singularArena_get_second, singularArena_get_second]
      · exact absurd hlast hne
  · obtain ⟨b, hb, hget⟩ := hpv 0 (by decide) hsigned 2 (by decide)
    exact ⟨b, hb, hget 1 (by decide)⟩
  · obtain ⟨b, hb, hget⟩ := hvp 1 (by decide) 1 (by decide)
    exact ⟨b, hb, hget 1 (by decide) hlast⟩

end Recurrence

end JetTape
