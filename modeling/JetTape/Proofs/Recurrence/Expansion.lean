import JetTape.Proofs.Recurrence.Equations
import JetTape.Proofs.Recurrence.Operands
import JetTape.Proofs.Replay.Rewriting

/-!
Operations with several rows, taken apart. The recurrence of a power fills its three rows as a
logarithm, a product and an exponential would, and the error function fills its first four rows as
products, a negation and an exponential would. The instructions that a power is taken apart into may
read parameters that are not on the tape yet, so they come with a longer table.
-/
namespace JetTape

variable {F : Type} [Scalar F]

section LongerTables

variable {n m q z a b : Nat} {s t : Source} {params extra : Array F} {resolved : Array Nat}
variable {j : Jet F}

theorem getD_append_params {i : Nat} (hi : i < params.size) :
    (params ++ extra).getD i 0 = params.getD i 0 := by
  simp [Array.getD_eq_getD_getElem?, Array.getElem?_append_left hi]

namespace Jet

theorem arithmeticCoeff_append (f : Arithmetic) (hf : f.sources = [s, t])
    (ha : s.Valid n params.size a) (hb : t.Valid n params.size b) :
    j.arithmeticCoeff f q z [a, b] (params ++ extra) = j.arithmeticCoeff f q z [a, b] params := by
  cases f <;> cases hf <;>
    simp only [arithmeticCoeff, List.getD_cons_zero, List.getD_cons_succ]
  all_goals first | rw [getD_append_params ha] | rw [getD_append_params hb]

theorem power_append (f : Power) (hf : f.sources = [s, t]) (hb : t.Valid n params.size b) :
    j.power f q z [a, b] (params ++ extra) = j.power f q z [a, b] params := by
  cases f <;> cases hf
  · rfl
  · rfl
  · simp only [power, List.getD_cons_succ, List.getD_cons_zero, getD_append_params hb]

theorem first_append {x : Operand} (hx : x.Valid n params.size) :
    x.first (params ++ extra) j = x.first params j := by
  cases x with
  | var v => rfl
  | par i => exact getD_append_params hx

/-- An instruction that is valid for a table does the same with a longer one. -/
theorem advance_append {ins : Instr} (h : Instr.Valid n params.size m ins.op ins.args) :
    j.advance q (params ++ extra) resolved ins = j.advance q params resolved ins := by
  obtain ⟨op, args, z⟩ := ins
  cases h with
  | arithmetic f hf ha hb => exact congrArg (j.set z q) (arithmeticCoeff_append f hf ha hb)
  | power f hf ha hb => exact power_append f hf hb
  | erf hx hi hk =>
    simp only [advance, erf, List.getD_cons_zero, List.getD_cons_succ, getD_append_params hk]
  | @choose r left right ifTrue ifFalse hl hr ht hf =>
    simp only [advance, chooseCoeff_operands, first_append hl, first_append hr]
  | constant | elementary | discrete | sum | skip | load | store | compare | print => rfl

end Jet

end LongerTables

/-- Instructions that stand by themselves, one after another. -/
theorem validItems_plain_cons {p m k n : Nat} {ins : Instr} {l : List Instr} :
    ValidItems p m k n ((ins :: l).map .plain) ↔ Instr.Valid n p m ins.op ins.args ∧
      ins.row + 1 = n + ins.op.resultCount ∧
      ValidItems p m k (n + ins.op.resultCount) (l.map .plain) := by
  simp only [List.map_cons, ValidItems, Item.Valid, Placed, Item.instrs, rowCount_cons,
    rowCount_nil, Nat.add_zero, and_true, and_assoc]

/-!
### Powers
-/

/-- The instructions that fill the rows of a power one by one. Where the base is a parameter its
logarithm is a constant, and the exponent is multiplied by a parameter with the `value` of order 0
that the row of the logarithm has. -/
inductive Power.Expansion (value : Nat → F) (params : Array F) : Instr → List Instr → Prop where
  | vv (x y z : Nat) : Expansion value params ⟨.power .vv, [x, y], z⟩
      [⟨.elementary .log, [x], z - 2⟩, ⟨.arithmetic .mulVV, [z - 2, y], z - 1⟩,
        ⟨.elementary .exp, [z - 1], z⟩]
  | vp (x i z : Nat) : Expansion value params ⟨.power .vp, [x, i], z⟩
      [⟨.elementary .log, [x], z - 2⟩, ⟨.arithmetic .mulPV, [i, z - 2], z - 1⟩,
        ⟨.elementary .exp, [z - 1], z⟩]
  | pv (c y z i k : Nat) (hi : i < params.size) (hk : params[k]? = some (value (z - 2))) :
      Expansion value params ⟨.power .pv, [c, y], z⟩
      [⟨.constant, [i], z - 2⟩, ⟨.arithmetic .mulPV, [k, y], z - 1⟩,
        ⟨.elementary .exp, [z - 1], z⟩]

namespace Power.Expansion

variable {n p m k q : Nat} {value : Nat → F} {params extra : Array F} {resolved : Array Nat}
variable {ins : Instr} {l : List Instr}

omit [Scalar F] in
theorem op_eq (h : Expansion value params ins l) : ∃ f, ins.op = .power f := by
  cases h <;> exact ⟨_, rfl⟩

omit [Scalar F] in
theorem not_load (h : Expansion value params ins l) : ∀ ins ∈ l, ∀ s, ins.op ≠ .load s := by
  cases h <;> simp

/-- Two instructions with one row each and the exponential of the second row. -/
theorem validItems_exp {z : Nat} {op op' : Opcode} {args args' : List Nat}
    (h : Instr.Valid n p m op args) (hone : op.resultCount = 1)
    (h' : Instr.Valid (n + 1) p m op' args') (hone' : op'.resultCount = 1) (hz : z + 1 = n + 3) :
    ValidItems p m k n
      ([⟨op, args, z - 2⟩, ⟨op', args', z - 1⟩, ⟨.elementary .exp, [z - 1], z⟩].map .plain) := by
  simp only [validItems_plain_cons, hone, hone']
  exact ⟨h, by omega, h', by omega, .elementary .exp ⟨by omega, by omega⟩, hz, trivial⟩

omit [Scalar F] in
/-- The instructions can be recorded where the power was, with the same rows. -/
theorem givesWay (h : Expansion value params ins l) (hitem : (Item.plain ins).Valid n p m k)
    (hp : p ≤ params.size) :
    ValidItems params.size m k n (l.map .plain) ∧ rowCount l = ins.op.resultCount := by
  obtain ⟨hvalid, hrow, -⟩ := hitem
  have hvalid := hvalid.mono hp (Nat.le_refl m)
  have later {y : Nat} (hy : Source.var.Valid n params.size y) :
      Source.var.Valid (n + 1) params.size y :=
    hy.mono (Nat.le_succ n) (Nat.le_refl _)
  have hlog {z : Nat} (hn : 0 < n) (hz : z + 1 = n + 3) :
      Source.var.Valid (n + 1) params.size (z - 2) :=
    ⟨by omega, by omega⟩
  cases h with
  | vv x y z =>
    cases hvalid with
    | power f hf hx hy =>
      cases hf
      exact ⟨validItems_exp (.elementary .log hx) rfl (.arithmetic .mulVV rfl
        (hlog (Nat.zero_lt_of_lt hx.2) hrow) (later hy)) rfl hrow, rfl⟩
  | vp x i z =>
    cases hvalid with
    | power f hf hx hi =>
      cases hf
      exact ⟨validItems_exp (.elementary .log hx) rfl (.arithmetic .mulPV rfl hi
        (hlog (Nat.zero_lt_of_lt hx.2) hrow)) rfl hrow, rfl⟩
  | pv c y z i k hi hk =>
    cases hvalid with
    | power f hf hc hy =>
      cases hf
      exact ⟨validItems_exp (.constant hi) rfl (.arithmetic .mulPV rfl
        (Array.getElem?_eq_some_iff.mp hk).1 (later hy)) rfl hrow, rfl⟩

/-- On jets with the values of order 0 the instructions do what the power does. The exponent of a
base that is a variable and the logarithm are multiplied in the other order, if the exponent is a
parameter. -/
theorem advance (hmul : ∀ x y : F, x * y = y * x) (h0 : 0 < q)
    (h : Expansion value (params ++ extra) ins l)
    (hvalid : Instr.Valid n params.size m ins.op ins.args) {j : Jet F}
    (hj : ∀ v, j v 0 = value v) :
    l.foldl (fun j ins => j.advance q (params ++ extra) resolved ins) j =
      j.advance q params resolved ins := by
  cases h with
  | vv x y z => rfl
  | vp x i z =>
    cases hvalid with
    | power f hf ha hb =>
      cases hf
      simp only [List.foldl_cons, List.foldl_nil, Jet.advance, Jet.power, Jet.elementary,
        Jet.arithmeticCoeff, List.getD_cons_zero, List.getD_cons_succ, getD_append_params hb]
      rw [hmul]
  | pv c y z i k hi hk =>
    have hvalue : (params ++ extra).getD k 0 = j (z - 2) 0 := by
      rw [Array.getD_eq_getD_getElem?, hk, hj]
      rfl
    simp only [List.foldl_cons, List.foldl_nil, Jet.advance, Jet.power, Jet.elementary,
      Jet.arithmeticCoeff, List.getD_cons_zero, List.getD_cons_succ, hvalue]
    rw [Jet.set_of_order_ne (Nat.ne_of_lt h0)]

end Power.Expansion

/-!
### The error function
-/

/-- The instructions that fill the first four rows of an error function, and a constant in the row
of its integral. -/
def erfRows (x i k z : Nat) : List Instr :=
  [⟨.arithmetic .mulVV, [x, x], z - 4⟩, ⟨.arithmetic .subPV, [i, z - 4], z - 3⟩,
    ⟨.elementary .exp, [z - 3], z - 2⟩, ⟨.arithmetic .mulPV, [k, z - 2], z - 1⟩,
    ⟨.constant, [k], z⟩]

/-- Takes the error function with primary row `z` apart. -/
def splitErf (z : Nat) (ins : Instr) : List Instr :=
  if ins.op = .erf ∧ ins.row = z then
    erfRows (ins.args.getD 0 0) (ins.args.getD 1 0) (ins.args.getD 2 0) z
  else [ins]

section Erf

variable {n p m k q z : Nat} {ins : Instr}

theorem splitErf_of_ne (h : ins.op ≠ .erf ∨ ins.row ≠ z) : splitErf z ins = [ins] :=
  if_neg fun heq => h.elim (· heq.1) (· heq.2)

theorem keepsRest_splitErf (z : Nat) : KeepsRest (splitErf z) := by
  intro ins hplain _
  refine splitErf_of_ne (.inl ?_)
  rintro hop
  rw [hop] at hplain
  cases hplain

theorem givesWay_splitErf {item : Item} (h : item.Valid n p m k) :
    item.GivesWay n p m k (splitErf z) := by
  by_cases hkept : ∀ ins ∈ item.instrs, splitErf z ins = [ins]
  · exact item.givesWay_of_kept h (Nat.le_refl p) hkept
  push Not at hkept
  obtain ⟨ins, hins, hne⟩ := hkept
  obtain ⟨hop, rfl⟩ : ins.op = .erf ∧ ins.row = z := by
    by_contra hnot
    exact hne (if_neg hnot)
  cases item with
  | call b =>
    have hplain := Block.Valid.not_plain h ins hins
    rw [hop] at hplain
    cases hplain
  | plain ins' =>
    obtain rfl := List.mem_singleton.mp hins
    obtain ⟨op, args, z⟩ := ins
    subst hop
    obtain ⟨hvalid, hrow, -⟩ := h
    have hrow : z + 1 = n + 5 := hrow
    cases hvalid with
    | @erf x i c hx hi hc =>
      have hn : 0 < n := Nat.zero_lt_of_lt hx.2
      simp only [Item.GivesWay, splitErf, and_self, if_true, erfRows, List.getD_cons_zero,
        List.getD_cons_succ]
      refine ⟨?_, rfl⟩
      simp only [validItems_plain_cons, Opcode.resultCount, Elementary.resultCount]
      exact ⟨.arithmetic .mulVV rfl hx hx, by omega,
        .arithmetic .subPV rfl hi ⟨by omega, by omega⟩, by omega,
        .elementary .exp ⟨by omega, by omega⟩, by omega,
        .arithmetic .mulPV rfl hc ⟨by omega, by omega⟩, by omega,
        .constant hc, by omega, trivial⟩

/-- The instructions do what the error function does, but for the last row. -/
theorem advance_erfRows {x i c : Nat} {params : Array F} {resolved : Array Nat} {j : Jet F}
    {v o : Nat} (hv : v ≠ z) :
    (erfRows x i c z).foldl (fun j ins => j.advance q params resolved ins) j v o =
      j.advance q params resolved ⟨.erf, [x, i, c], z⟩ v o := by
  simp only [erfRows, List.foldl_cons, List.foldl_nil, Jet.advance, Jet.erf, Jet.elementary,
    Jet.arithmeticCoeff, List.getD_cons_zero, List.getD_cons_succ, Jet.set_of_row_ne hv]

/-- Where an error function is settled its last row is the integral of the row below it. The rows
before the last are settled too, so the last one is integrated from what is there. -/
theorem integral_of_erf {args : List Nat} {params : Array F} {j : Jet F} (hz : 0 < z)
    (h : j.erf q z args params = j) :
    j z q = Series.integral q (j (args.getD 0 0)) (j (z - 1)) := by
  obtain ⟨j', hj', hrow⟩ : ∃ j' : Jet F, j.erf q z args params =
      j'.set z q (Series.integral q (j' (args.getD 0 0)) (j' (z - 1))) ∧ j' z = j z := by
    refine ⟨_, rfl, ?_⟩
    funext o
    rw [Jet.set_of_row_ne (by omega), Jet.set_of_row_ne (by omega), Jet.set_of_row_ne (by omega),
      Jet.set_of_row_ne (by omega)]
  have hsame : j' = j := by
    funext v
    by_cases hv : v = z
    · rw [hv, hrow]
    · funext o
      rw [← congrFun (congrFun (hj'.symm.trans h) v) o, Jet.set_of_row_ne hv]
  rw [hj', hsame] at h
  exact Jet.eq_of_set h

end Erf

end JetTape
