import JetTape.Proofs.Arena.Along
import JetTape.Proofs.Recurrence.Advance
import JetTape.Proofs.Tape.Valid

/-!
Recurrences act along directions. Inside an arena that has room for order `q`, every recurrence
succeeds and advances the jet of each direction by itself.
-/
namespace JetTape

open Arena (Read Update Along OnLane Shared Fits coeff assign setCoeff eachDirection)

variable {F : Type} {n q : Nat}

theorem Arena.read_of_eq {α β : Type} {m : Read F α} {k : α → Read F β} {a : Arena F} {v : α}
    (h : m a = .ok v) : (m >>= k) a = k v a := by
  show Except.bind (m a) (fun v => k v a) = _
  rw [h]
  rfl

/-- A loop whose every step can be read. -/
theorem Loop.fold_eq_ok {α : Type} {step : α → Nat → Read F α} {g : α → Nat → α} {a : Arena F}
    {i c : Nat} (h : ∀ s k, i ≤ k → k < i + c → step s k a = .ok (g s k)) (s : α) :
    Loop.fold c i step s a = .ok ((List.range' i c).foldl g s) := by
  induction c generalizing i s with
  | zero => rfl
  | succ c ih =>
    rw [Loop.fold, Arena.read_of_eq (h s i (Nat.le_refl i) (by omega)), List.range'_succ,
      List.foldl_cons]
    exact ih (fun s k hi hk => h s k (by omega) (by omega)) (g s i)

variable [Scalar F]

section Reading

variable {a : Arena F} {l x y z b : Nat}

theorem Arena.Shaped.coeff_eq (ha : a.Shaped n) (hl : l < a.layout.directions) (hx : x < n)
    {k : Nat} (hk : k < a.layout.capOrder) : (coeff x k l : Read F F) a = .ok (a.jet l x k) :=
  ha.get_eq hx hk hl

theorem Arena.Fits.coeff_eq (ha : a.Fits n q) (hl : l < a.layout.directions) (hx : x < n)
    {k : Nat} (hk : k ≤ q) : (coeff x k l : Read F F) a = .ok (a.jet l x k) :=
  ha.get_eq hx hk hl

/-- Convolutions can be read at order 0 too. -/
theorem Arena.Shaped.convolution_eq (ha : a.Shaped n) (hq : q < a.layout.capOrder)
    (hl : l < a.layout.directions) (product : F → F → F) (hx : x < n) (hy : y < n) :
    Recurrence.convolution product q x y l a =
      .ok (Series.convolution product q (a.jet l x) (a.jet l y)) := by
  apply Loop.fold_eq_ok
  intro s k _ hk
  rw [Arena.read_of_eq (ha.coeff_eq hl hx (k := k) (by omega)),
    Arena.read_of_eq (ha.coeff_eq hl hy (k := q - k) (by omega))]
  rfl

variable (ha : a.Fits n q) (hl : l < a.layout.directions)

include ha hl

theorem convolution_eq (product : F → F → F) (hx : x < n) (hy : y < n) :
    Recurrence.convolution product q x y l a =
      .ok (Series.convolution product q (a.jet l x) (a.jet l y)) :=
  ha.toShaped.convolution_eq ha.order_lt hl product hx hy

theorem weighted_eq {c : Nat} (hc : c ≤ q) (hx : x < n) (hy : y < n) :
    Recurrence.weighted c q x y l a = .ok (Series.weighted c q (a.jet l x) (a.jet l y)) := by
  apply Loop.fold_eq_ok
  intro s k _ hk
  rw [Arena.read_of_eq (ha.coeff_eq hl hx (by omega)),
    Arena.read_of_eq (ha.coeff_eq hl hy (by omega))]
  rfl

theorem lessInnerSquare_eq (start : F) (hx : x < n) :
    Recurrence.lessInnerSquare start q x l a =
      .ok (Series.lessInnerSquare start q (a.jet l x)) := by
  apply Loop.fold_eq_ok
  intro s k _ hk
  rw [Arena.read_of_eq (ha.coeff_eq hl hx (by omega)),
    Arena.read_of_eq (ha.coeff_eq hl hx (by omega))]
  rfl

theorem lessQuotientTerms_eq (start : F) (hz : z < n) (hy : y < n) :
    Recurrence.lessQuotientTerms start q z y l a =
      .ok (Series.lessQuotientTerms start q (a.jet l z) (a.jet l y)) := by
  apply Loop.fold_eq_ok
  intro s k _ hk
  rw [Arena.read_of_eq (ha.coeff_eq hl hz (by omega)),
    Arena.read_of_eq (ha.coeff_eq hl hy (by omega))]
  rfl

theorem weightedPair_eq (hx : x < n) (hz : z < n) (hy : y < n) :
    Recurrence.weightedPair q x z y l a =
      .ok (Series.weightedPair q (a.jet l x) (a.jet l z) (a.jet l y)) := by
  apply Loop.fold_eq_ok
  intro s k _ hk
  rw [Arena.read_of_eq (ha.coeff_eq hl hx (by omega)),
    Arena.read_of_eq (ha.coeff_eq hl hy (by omega)),
    Arena.read_of_eq (ha.coeff_eq hl hz (by omega))]
  rfl

theorem lessWeighted_eq (start : F) (hz : z < n) (hb : b < n) :
    (Loop.fold (q - 1) 1 (fun sum k => do
      return sum - Scalar.ofNat k * (← coeff z k l) * (← coeff b (q - k) l)) start : Read F F) a =
      .ok (Series.lessWeighted start q (a.jet l z) (a.jet l b)) := by
  apply Loop.fold_eq_ok
  intro s k _ hk
  rw [Arena.read_of_eq (ha.coeff_eq hl hz (by omega)),
    Arena.read_of_eq (ha.coeff_eq hl hb (by omega))]
  rfl

end Reading

namespace Recurrence

variable {x y z b c : Nat}

theorem along_add (hz : z < n) (hx : x < n) (hy : y < n) :
    Along n q (add q z x y : Update F Unit) fun _ j => j.set z q (j x q + j y q) := by
  apply Arena.along_assign hz
  intro a ha l hl
  rw [Arena.read_of_eq (ha.coeff_eq hl hx (Nat.le_refl q)),
    Arena.read_of_eq (ha.coeff_eq hl hy (Nat.le_refl q))]
  rfl

theorem along_sub (hz : z < n) (hx : x < n) (hy : y < n) :
    Along n q (sub q z x y : Update F Unit) fun _ j => j.set z q (j x q - j y q) := by
  apply Arena.along_assign hz
  intro a ha l hl
  rw [Arena.read_of_eq (ha.coeff_eq hl hx (Nat.le_refl q)),
    Arena.read_of_eq (ha.coeff_eq hl hy (Nat.le_refl q))]
  rfl

theorem along_linear (f : F → F) (hz : z < n) (hy : y < n) :
    Along n q (linear f q z y : Update F Unit) fun _ j => j.set z q (f (j y q)) := by
  apply Arena.along_assign hz
  intro a ha l hl
  rw [Arena.read_of_eq (ha.coeff_eq hl hy (Nat.le_refl q))]
  rfl

theorem along_negate (hz : z < n) (hy : y < n) :
    Along n q (negate q z y : Update F Unit) fun _ j => j.set z q (-j y q) :=
  along_linear (fun v => -v) hz hy

theorem along_product (mul : F → F → F) (hz : z < n) (hx : x < n) (hy : y < n) :
    Along n q (product mul q z x y : Update F Unit) fun _ j =>
      j.set z q (Series.convolution mul q (j x) (j y)) := by
  apply Arena.along_assign hz
  intro a ha l hl
  exact convolution_eq ha hl mul hx hy

theorem along_quotient (hz : z < n) (hx : x < n) (hy : y < n) :
    Along n q (quotient q z x y : Update F Unit) fun _ j =>
      j.set z q (Series.quotient q (j x) (j y) (j z)) := by
  apply Along.read (Arena.shared_coeff hy)
    (f := fun y0 _ j => j.set z q (Series.lessQuotientTerms (j x q) q (j z) (j y) / y0))
  intro y0
  apply Arena.along_assign hz
  intro a ha l hl
  rw [Arena.read_of_eq (ha.coeff_eq hl hx (Nat.le_refl q)),
    Arena.read_of_eq (lessQuotientTerms_eq ha hl _ hz hy)]
  rfl

theorem along_reciprocalOf (hz : z < n) (hy : y < n) :
    Along n q (reciprocalOf q z y : Update F Unit) fun _ j =>
      j.set z q (Series.reciprocalOf q (j y) (j z)) := by
  apply Along.read (Arena.shared_coeff hy)
    (f := fun y0 _ j => j.set z q (Series.lessQuotientTerms 0 q (j z) (j y) / y0))
  intro y0
  apply Arena.along_assign hz
  intro a ha l hl
  rw [Arena.read_of_eq (lessQuotientTerms_eq ha hl _ hz hy)]
  rfl

theorem along_exp (hz : z < n) (hx : x < n) :
    Along n q (exp q x z : Update F Unit) fun _ j =>
      j.set z q (Series.integral q (j x) (j z)) := by
  apply Arena.along_assign hz
  intro a ha l hl
  rw [Arena.read_of_eq (weighted_eq ha hl (Nat.le_refl q) hx hz)]
  rfl

theorem along_integral (hz : z < n) (hx : x < n) (hb : b < n) :
    Along n q (integral q x b z : Update F Unit) fun _ j =>
      j.set z q (Series.integral q (j x) (j b)) := by
  apply Arena.along_assign hz
  intro a ha l hl
  rw [Arena.read_of_eq (weighted_eq ha hl (Nat.le_refl q) hx hb)]
  rfl

theorem along_expm1 (hz : z < n) (hx : x < n) :
    Along n q (expm1 q x z : Update F Unit) fun _ j =>
      j.set z q (Series.expm1 q (j x) (j z)) := by
  apply Arena.along_assign hz
  intro a ha l hl
  rw [Arena.read_of_eq (weighted_eq ha hl (Nat.le_refl q) hx hz),
    Arena.read_of_eq (ha.coeff_eq hl hx (Nat.le_refl q))]
  rfl

theorem along_logShifted (shift : F) (hz : z < n) (hx : x < n) :
    Along n q (logShifted shift q x z : Update F Unit) fun _ j =>
      j.set z q (Series.logShifted q shift (j x) (j z)) := by
  apply Along.read (Arena.shared_coeff hx)
    (f := fun x0 _ j => j.set z q ((j x q - Series.weighted (q - 1) q (j z) (j x) * reciprocal q) /
      (x0 + shift)))
  intro x0
  apply Arena.along_assign hz
  intro a ha l hl
  rw [Arena.read_of_eq (weighted_eq ha hl (Nat.sub_le q 1) hz hx),
    Arena.read_of_eq (ha.coeff_eq hl hx (Nat.le_refl q))]
  rfl

theorem along_sqrt (hz : z < n) (hx : x < n) :
    Along n q (sqrt q x z : Update F Unit) fun _ j =>
      j.set z q (Series.sqrt q (j x) (j z)) := by
  apply Along.read (Arena.shared_coeff hz)
    (f := fun z0 _ j => j.set z q (Series.lessInnerSquare (j x q) q (j z) /
      (Scalar.ofNat 2 * z0)))
  intro z0
  apply Arena.along_assign hz
  intro a ha l hl
  rw [Arena.read_of_eq (ha.coeff_eq hl hx (Nat.le_refl q)),
    Arena.read_of_eq (lessInnerSquare_eq ha hl _ hz)]
  rfl

theorem along_abs (hz : z < n) (hx : x < n) :
    Along n q (abs q x z : Update F Unit) fun _ j =>
      j.set z q (Scalar.sign (j x 0) * j x q) := by
  apply Along.read (Arena.shared_coeff hx) (f := fun x0 _ j => j.set z q (Scalar.sign x0 * j x q))
  intro x0
  apply Arena.along_assign hz
  intro a ha l hl
  rw [Arena.read_of_eq (ha.coeff_eq hl hx (Nat.le_refl q))]
  rfl

theorem along_sineCosine (hyperbolic : Bool) (hx : x < n) (hz : z < n) (hc : c < n) :
    Along n q (sineCosine hyperbolic q x z c : Update F Unit) fun _ j =>
      j.sineCosine hyperbolic q x z c := by
  apply Arena.along_eachDirection
  intro l
  apply OnLane.read (fun a ha hl => weightedPair_eq ha hl hx hz hc)
    (f := fun (sums : F × F) j => (j.set z q (sums.1 * reciprocal q)).set c q
      ((if hyperbolic then sums.2 else -sums.2) * reciprocal q))
  intro sums
  exact (Arena.onLane_setCoeff hz _).bind (Arena.onLane_setCoeff hc _)

theorem along_tangent (sign : F) (hx : x < n) (hz : z < n) (hy : y < n) :
    Along n q (tangent sign q x z y : Update F Unit) fun _ j => j.tangent sign q x z y := by
  apply Arena.along_eachDirection
  intro l
  apply OnLane.read (fun a ha hl => weighted_eq ha hl (Nat.le_refl q) hx hy)
    (f := fun sum j =>
      (fun j' => j'.set y q (Series.convolution (· * ·) q (j' z) (j' z)))
        (j.set z q (j x q + sign * sum * reciprocal q)))
  intro sum
  apply OnLane.read (fun a ha hl => ha.coeff_eq hl hx (Nat.le_refl q))
    (f := fun xq j =>
      (fun j' => j'.set y q (Series.convolution (· * ·) q (j' z) (j' z)))
        (j.set z q (xq + sign * sum * reciprocal q)))
  intro xq
  refine OnLane.bind (g := fun j => j.set y q (Series.convolution (· * ·) q (j z) (j z)))
    (Arena.onLane_setCoeff hz _) ?_
  exact OnLane.read (fun a ha hl => convolution_eq ha hl _ hz hz) fun square =>
    Arena.onLane_setCoeff hy square

theorem along_squareFactor (sign : F) (hx : x < n) (hb : b < n) :
    Along n q (squareFactor sign q x b : Update F Unit) fun _ j =>
      j.set b q (Series.squareFactor q sign (j x)) := by
  apply Along.read (Arena.shared_coeff hb)
    (f := fun _ _ j => j.set b q (Series.squareFactor q sign (j x)))
  intro _
  apply Arena.along_assign hb
  intro a ha l hl
  rw [Arena.read_of_eq (convolution_eq ha hl _ hx hx)]
  rfl

theorem along_rootFactor (sign : F) (hx : x < n) (hb : b < n) :
    Along n q (rootFactor sign q x b : Update F Unit) fun _ j =>
      j.set b q (Series.rootFactor q sign (j x) (j b)) := by
  apply Along.read (Arena.shared_coeff hb)
    (f := fun b0 _ j => j.set b q (Series.lessInnerSquare
      (sign * Series.convolution (· * ·) q (j x) (j x)) q (j b) / (Scalar.ofNat 2 * b0)))
  intro b0
  apply Arena.along_assign hb
  intro a ha l hl
  rw [Arena.read_of_eq (convolution_eq ha hl _ hx hx),
    Arena.read_of_eq (lessInnerSquare_eq ha hl _ hb)]
  rfl

theorem along_inverse (sign : F) (hx : x < n) (hz : z < n) (hb : b < n) :
    Along n q (inverse sign q x z b : Update F Unit) fun _ j =>
      j.set z q (Series.inverse q sign (j x) (j z) (j b)) := by
  apply Along.read (Arena.shared_coeff hb)
    (f := fun b0 _ j => j.set z q (Series.lessWeighted (sign * Scalar.ofNat q * j x q) q (j z)
      (j b) / (Scalar.ofNat q * b0)))
  intro b0
  apply Arena.along_assign hz
  intro a ha l hl
  rw [Arena.read_of_eq (ha.coeff_eq hl hx (Nat.le_refl q)),
    Arena.read_of_eq (lessWeighted_eq ha hl _ hz hb)]
  rfl

theorem along_inverseOfRoot (factor sign : F) (hx : x < n) (hz : z < n) (hb : b < n) :
    Along n q (do rootFactor factor q x b; inverse sign q x z b : Update F Unit) fun _ j =>
      j.inverse factor true sign q x z b :=
  Along.bind (g := fun _ j => j.set z q (Series.inverse q sign (j x) (j z) (j b)))
    (along_rootFactor factor hx hb) (along_inverse sign hx hz hb)

theorem along_inverseOfSquare (factor sign : F) (hx : x < n) (hz : z < n) (hb : b < n) :
    Along n q (do squareFactor factor q x b; inverse sign q x z b : Update F Unit) fun _ j =>
      j.inverse factor false sign q x z b :=
  Along.bind (g := fun _ j => j.set z q (Series.inverse q sign (j x) (j z) (j b)))
    (along_squareFactor factor hx hb) (along_inverse sign hx hz hb)

end Recurrence

namespace Recurrence

variable {z : Nat} {params : Array F}

private theorem index_sub {k : Nat} (h : k ≤ z) : Index.sub z k = .ok (z - k) := by
  simp [Index.sub, h]

theorem along_arithmetic (f : Arithmetic) {s t : Source} {a b : Nat} (hf : f.sources = [s, t])
    (ha : s.Below n params.size a) (hb : t.Below n params.size b) (hz : z < n) :
    Along n q (arithmetic f q z [a, b] params : Update F Unit) fun _ j =>
      j.set z q (j.arithmeticCoeff f q z [a, b] params) := by
  have param {i : Nat} (hi : i < params.size) : Index.get params i = .ok (params.getD i 0) := by
    simp [Index.get, hi]
  cases f <;> cases hf <;>
    simp only [arithmetic, Index.arg, List.getElem?_cons_zero, List.getElem?_cons_succ,
      Arena.ok_bind]
  case addVV => exact along_add hz ha hb
  case addPV => exact Arena.along_copyOrder hz hb
  case subVV => exact along_sub hz ha hb
  case subPV => exact along_negate hz hb
  case subVP => exact Arena.along_copyOrder hz ha
  case mulVV => exact along_product _ hz ha hb
  case mulPV => rw [param ha]; exact along_linear _ hz hb
  case divVV => exact along_quotient hz ha hb
  case divPV => exact along_reciprocalOf hz hb
  case divVP => rw [param hb]; exact along_linear _ hz ha
  case zmulVV => exact along_product _ hz ha hb
  case zmulPV => rw [param ha]; exact along_linear _ hz hb
  case zmulVP => rw [param hb]; exact along_linear _ hz ha

theorem along_power (f : Power) {s t : Source} {a b : Nat} (hf : f.sources = [s, t])
    (ha : s.Valid n params.size a) (hb : t.Valid n params.size b) (hz : z < n) (h2 : 2 ≤ z)
    (hbound : z < Index.argBound) :
    Along n q (power f q z [a, b] params : Update F Unit) fun _ j =>
      j.power f q z [a, b] params := by
  have hlog : z - 2 < n := by omega
  have hscaled : z - 1 < n := by omega
  have hexp := along_exp (F := F) (q := q) hz hscaled
  cases f <;> cases hf <;>
    simp only [power, Index.arg, List.getElem?_cons_zero, List.getElem?_cons_succ,
      Arena.ok_bind, index_sub h2, index_sub (Nat.le_of_succ_le h2)]
  case vv =>
    rw [Index.toArg_of_lt (by omega)]
    exact (along_logShifted 0 hlog ha.2).bind
      ((along_product (F := F) (· * ·) hscaled hlog hb.2).bind hexp)
  case pv =>
    let exp (j : Jet F) : Jet F := j.set z q (Series.integral q (j (z - 1)) (j z))
    apply (Arena.along_zeroOrder hlog).bind
      (g := fun _ (j : Jet F) => exp (j.set (z - 1) q (j (z - 2) 0 * j b q)))
    apply Along.read (Arena.shared_coeff hlog)
      (f := fun c _ (j : Jet F) => exp (j.set (z - 1) q (c * j b q)))
    intro c
    exact (along_linear (c * ·) hscaled hb.2).bind hexp
  case vp =>
    have hp : Index.get params b = .ok (params.getD b 0) := by
      have : b < params.size := hb
      simp [Index.get, this]
    rw [hp]
    exact (along_logShifted 0 hlog ha.2).bind
      ((along_linear (· * params.getD b 0) hscaled hlog).bind hexp)

theorem along_elementary (f : Elementary) {x : Nat} (hx : x < n) (hz : z < n)
    (hrows : f.resultCount ≤ z) :
    Along n q (elementary f q z [x] params : Update F Unit) fun _ j => j.elementary f q z x := by
  have hb : z - 1 < n := by omega
  cases f <;>
    simp only [elementary, Index.arg, List.getElem?_cons_zero, Arena.ok_bind]
  case exp => exact along_exp hz hx
  case expm1 => exact along_expm1 hz hx
  case log => exact along_logShifted 0 hz hx
  case log1p => exact along_logShifted 1 hz hx
  case sqrt => exact along_sqrt hz hx
  case abs => exact along_abs hz hx
  case sign => exact Arena.along_zeroOrder hz
  all_goals rw [index_sub (by simp only [Elementary.resultCount] at hrows; omega)]
  case sin => exact along_sineCosine false hx hz hb
  case cos => exact along_sineCosine false hx hb hz
  case sinh => exact along_sineCosine true hx hz hb
  case cosh => exact along_sineCosine true hx hb hz
  case tan => exact along_tangent 1 hx hz hb
  case tanh => exact along_tangent (-1) hx hz hb
  case asin => exact along_inverseOfRoot (-1) 1 hx hz hb
  case acos => exact along_inverseOfRoot (-1) (-1) hx hz hb
  case atan => exact along_inverseOfSquare 1 1 hx hz hb
  case asinh => exact along_inverseOfRoot 1 1 hx hz hb
  case acosh => exact along_inverseOfRoot 1 1 hx hz hb
  case atanh => exact along_inverseOfSquare (-1) 1 hx hz hb

theorem along_erf {x i k : Nat} (hx : x < n) (hk : k < params.size) (hz : z < n) (h4 : 4 ≤ z)
    (hbound : z < Index.argBound) :
    Along n q (erf q z [x, i, k] params : Update F Unit) fun _ j =>
      j.erf q z [x, i, k] params := by
  have hsquare : z - 4 < n := by omega
  have hnegated : z - 3 < n := by omega
  have hgauss : z - 2 < n := by omega
  have hscaled : z - 1 < n := by omega
  have hp : Index.get params k = .ok (params.getD k 0) := by simp [Index.get, hk]
  simp only [erf, Index.arg, List.getElem?_cons_zero, List.getElem?_cons_succ, Arena.ok_bind,
    index_sub h4, index_sub (show 3 ≤ z by omega), index_sub (show 2 ≤ z by omega),
    index_sub (show 1 ≤ z by omega), hp]
  rw [Index.toArg_of_lt (show z - 4 < Index.argBound by omega),
    Index.toArg_of_lt (show z - 2 < Index.argBound by omega)]
  exact (along_product (F := F) (· * ·) hsquare hx hx).bind ((along_negate hnegated hsquare).bind
    ((along_exp hgauss hnegated).bind ((along_linear (params.getD k 0 * ·) hscaled hgauss).bind
      (along_integral hz hx hscaled))))

private theorem shared_conditionValue {flags bit : Nat} {a : Operand}
    (hbit : flags.testBit bit = (a.source = .var)) (ha : a.source.Below n params.size a.index) :
    Shared n q (conditionValue flags bit a.index params : Read F F) fun j =>
      j.conditionValue flags bit a.index params := by
  cases a with
  | var x =>
    simp only [conditionValue, Jet.conditionValue, hbit, Operand.source, if_true]
    exact Arena.shared_coeff ha
  | par i =>
    have hget : Index.get params i = .ok (params.getD i 0) := by
      have : i < params.size := ha
      simp [Index.get, this]
    simp only [conditionValue, Jet.conditionValue, hbit, Operand.source, Operand.index, hget]
    exact Arena.shared_pure n q _

theorem along_choose (r : Relation) {left right ifTrue ifFalse : Operand} {flags : Nat}
    (hflags : flags = chooseFlags left right ifTrue ifFalse)
    (hl : left.source.Below n params.size left.index)
    (hr : right.source.Below n params.size right.index)
    (ht : ifTrue.source.Below n params.size ifTrue.index)
    (hf : ifFalse.source.Below n params.size ifFalse.index) (hz : z < n) :
    let args := [r.code, flags, left.index, right.index, ifTrue.index, ifFalse.index]
    Along n q (choose q z args params : Update F Unit) fun _ j =>
      j.set z q (j.chooseCoeff q args params) := by
  intro args
  obtain ⟨h0, h1, h2, h3⟩ := testBit_chooseFlags left right ifTrue ifFalse
  rw [← hflags] at h0 h1 h2 h3
  let branch (bit : Nat) (a : Operand) (j : Jet F) : F :=
    if flags.testBit bit then j a.index q else 0
  have along_branch {a : Operand} (ha : a.source.Below n params.size a.index) (bit : Nat)
      (hbit : flags.testBit bit = (a.source = .var)) :
      Along n q (if flags.testBit bit then Arena.copyOrder z a.index q else Arena.zeroOrder z q :
        Update F Unit) fun _ j => j.set z q (branch bit a j) := by
    cases a with
    | var x =>
      simp only [branch, hbit, Operand.source, if_true]
      exact Arena.along_copyOrder hz ha
    | par i =>
      simp only [branch, hbit, Operand.source]
      exact Arena.along_zeroOrder hz
  simp only [args, choose, Relation.ofCode_code, Arena.ok_bind]
  simp only [Jet.chooseCoeff, Jet.condition, List.getD_cons_zero, List.getD_cons_succ,
    Relation.ofCode_code]
  apply Along.read (shared_conditionValue h0 hl) (f := fun x _ j => j.set z q
    (if r.holds x (j.conditionValue flags 1 right.index params) then branch 2 ifTrue j
      else branch 3 ifFalse j))
  intro x
  apply Along.read (shared_conditionValue h1 hr) (f := fun y _ j => j.set z q
    (if r.holds x y then branch 2 ifTrue j else branch 3 ifFalse j))
  intro y
  by_cases h : r.holds x y
  · simp only [h, if_true]
    exact along_branch ht 2 h2
  · simp only [h]
    exact along_branch hf 3 h3

private theorem foldlM_read {a : Arena F} {l : Nat} {op : F → F → F} {step : F → Nat → Read F F}
    (hstep : ∀ s x, x < n → step s x a = .ok (op s (a.jet l x q))) {xs : List Nat}
    (hx : ∀ x ∈ xs, x < n) (s : F) :
    (xs.foldlM step s : Read F F) a = .ok (xs.foldl (fun s x => op s (a.jet l x q)) s) := by
  induction xs generalizing s with
  | nil => rfl
  | cons x xs ih =>
    rw [List.foldlM_cons, Arena.read_of_eq (hstep s x (hx x (by simp))), List.foldl_cons]
    exact ih (fun y hy => hx y (by simp [hy])) _

theorem along_sum (params : Array F) {i : Nat} {xs ys : List Nat} (hx : ∀ x ∈ xs ++ ys, x < n)
    (hz : z < n) (hcount : xs.length + ys.length < Index.argBound) :
    let args := [Index.toArg xs.length, Index.toArg ys.length, i] ++ xs ++ ys ++
      [Index.toArg (xs.length + ys.length)]
    Along n q (sum q z args params : Update F Unit) fun _ j => j.set z q (j.sumCoeff q args) := by
  rw [Index.toArg_of_lt (show xs.length < Index.argBound by omega),
    Index.toArg_of_lt (show ys.length < Index.argBound by omega), Index.toArg_of_lt hcount]
  intro args
  have hadded : Index.arg args 0 = .ok xs.length := rfl
  have hsubtracted : Index.arg args 1 = .ok ys.length := rfl
  have hlen : args.length = 4 + xs.length + ys.length := by
    simp [args]
    omega
  have hlast : Index.arg args (3 + xs.length + ys.length) = .ok (xs.length + ys.length) := by
    have hfront : ([xs.length, ys.length, i] ++ xs ++ ys).length = 3 + xs.length + ys.length := by
      simp
      omega
    rw [Index.arg_eq_ok_iff, ← hfront]
    exact List.getElem?_concat_length
  have hdrop : (args.drop 3).take xs.length = xs := by simp [args]
  have hdrop' : (args.drop (3 + xs.length)).take ys.length = ys := by
    simp [args, ← List.drop_drop]
  simp only [sum, hadded, hsubtracted, hlast, hlen, require, if_true, Arena.ok_bind]
  refine Arena.along_assign hz ?_
  intro a ha l hl
  rw [hdrop, hdrop']
  have hread : ∀ x, x < n → (coeff x q l : Read F F) a = .ok (a.jet l x q) := fun x hx =>
    ha.coeff_eq hl hx (Nat.le_refl q)
  have hplus (s : F) : plusRows q l s xs a = .ok (xs.foldl (fun s x => s + a.jet l x q) s) := by
    apply foldlM_read
    · intro s x hx
      rw [Arena.read_of_eq (hread x hx)]
      rfl
    · exact fun x h => hx x (List.mem_append_left ys h)
  have hminus (s : F) : minusRows q l s ys a = .ok (ys.foldl (fun s x => s - a.jet l x q) s) := by
    apply foldlM_read
    · intro s x hx
      rw [Arena.read_of_eq (hread x hx)]
      rfl
    · exact fun x h => hx x (List.mem_append_right xs h)
  rw [Arena.read_of_eq (hplus 0), hminus]
  have hfirst : args.getD 0 0 = xs.length := rfl
  have hsecond : args.getD 1 0 = ys.length := rfl
  rw [Jet.sumCoeff, hfirst, hsecond, hdrop, hdrop']

theorem along_load {resolved : Array Nat} {offset index slot : Nat} (hs : slot < resolved.size)
    (hy : resolved.getD slot 0 < z) (hz : z < n) :
    Along n q (load q z [offset, index, slot] resolved : Update F Unit) fun _ j =>
      j.set z q (j.loadCoeff q [offset, index, slot] resolved) := by
  have hget : Index.get resolved slot = .ok (resolved.getD slot 0) := by simp [Index.get, hs]
  simp only [load, Index.arg, List.getElem?_cons_zero, List.getElem?_cons_succ, hget, require, hs,
    hy, if_true, Arena.ok_bind]
  by_cases h : 0 < resolved.getD slot 0
  · simp only [h, if_true, Jet.loadCoeff, Jet.loadedRow, List.getD_cons_succ, List.getD_cons_zero]
    exact Arena.along_copyOrder hz (by omega)
  · simp only [h, if_false, Jet.loadCoeff, Jet.loadedRow, List.getD_cons_succ, List.getD_cons_zero]
    exact Arena.along_zeroOrder hz

/-- What an instruction outside call blocks does to an arena. -/
def update (q : Nat) (params : Array F) (resolved : Array Nat) (ins : Instr) : Update F Unit :=
  match ins.op with
  | .load _ => load q ins.row ins.args resolved
  | op =>
    match ofOpcode? op with
    | some recurrence => recurrence q ins.row ins.args params
    | none => pure ()

/-- A valid instruction after `n'` rows, in an arena that has its result rows. -/
theorem along_update {resolved : Array Nat} {ins : Instr} {n' : Nat}
    (hvalid : Instr.Valid n' params.size resolved.size ins.op ins.args) (hpos : 0 < n')
    (hrow : ins.row + 1 = n' + ins.op.resultCount) (hn : ins.row < n)
    (hbound : n ≤ Index.argBound) (hargs : ins.args.length < Index.argBound)
    (hload : ∀ s, ins.op = .load s → Jet.loadedRow ins.args resolved < ins.row) :
    Along n q (update q params resolved ins) fun _ => Jet.advance q params resolved ins := by
  obtain ⟨op, args, z⟩ := ins
  simp only at hvalid hrow hn hargs hload
  have hle : n' ≤ n := by omega
  have hp : params.size ≤ params.size := Nat.le_refl _
  have hz : z < Index.argBound := by omega
  cases hvalid with
  | constant hi => exact Arena.along_zeroOrder hn
  | arithmetic f hf ha hb =>
    exact along_arithmetic f hf (ha.mono hle hp).below (hb.mono hle hp).below hn
  | power f hf ha hb =>
    simp only [Opcode.resultCount] at hrow
    have h2 : 2 ≤ z := by omega
    exact along_power f hf (ha.mono hle hp) (hb.mono hle hp) hn h2 hz
  | elementary f hx =>
    simp only [Opcode.resultCount] at hrow
    have hrows : f.resultCount ≤ z := by omega
    exact along_elementary f (Nat.lt_of_lt_of_le hx.2 hle) hn hrows
  | erf hx hi hk =>
    simp only [Opcode.resultCount] at hrow
    have h4 : 4 ≤ z := by omega
    exact along_erf (Nat.lt_of_lt_of_le hx.2 hle) hk hn h4 hz
  | discrete f hx => exact Arena.along_zeroOrder hn
  | choose r hl hr ht hf =>
    exact along_choose r rfl (hl.mono hle hp).below (hr.mono hle hp).below (ht.mono hle hp).below
      (hf.mono hle hp).below hn
  | sum hi hx =>
    simp only [List.length_append, List.length_cons, List.length_nil] at hargs
    exact along_sum params (fun x h => Nat.lt_of_lt_of_le (hx x h).2 hle) hn (by omega)
  | load offset hi hs => exact along_load hs (hload _ rfl) hn
  | skip r s t hl hr => exact Arena.along_pure
  | store offset hi hv => exact Arena.along_pure
  | compare f hl hr => exact Arena.along_pure
  | print before after hp hv => exact Arena.along_pure

end Recurrence

end JetTape
