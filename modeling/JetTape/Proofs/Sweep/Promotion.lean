import JetTape.Proofs.Recurrence.Promotion
import JetTape.Proofs.Sweep.Evaluation
import JetTape.Proofs.Sweep.Rewriting

/-!
Sweeps of tapes with variables in the place of parameters. The variables are recorded on the tape as
constants. Along the sweeps of all orders their rows keep no higher coefficients, and neither does
the logarithm of a base that is a parameter, so whatever takes a variable in the place of a
parameter computes the same.
-/
namespace JetTape

variable {F : Type} [Scalar F]

/-- The instruction leaves a row without higher coefficients: that of a constant, or that of the
logarithm of a parameter. -/
def Instr.Flattens (ins : Instr) (v : Nat) : Prop :=
  ins.op = .constant ∧ v = ins.row ∨ ins.op = .power .pv ∧ v + 2 = ins.row

namespace Instr.Flattens

variable {ins : Instr} {v q : Nat}

theorem isPlain (h : ins.Flattens v) : ins.op.isPlain = true := by
  rcases h with ⟨hop, -⟩ | ⟨hop, -⟩ <;> rw [hop] <;> rfl

theorem owns (h : ins.Flattens v) : ins.Owns v := by
  rcases h with ⟨hop, hv⟩ | ⟨hop, hv⟩ <;> simp only [Owns, hop, Opcode.resultCount] <;> omega

theorem advance (h : ins.Flattens v) (params : Array F) (resolved : Array Nat) (j : Jet F) :
    j.advance q params resolved ins v q = 0 := by
  obtain ⟨op, args, z⟩ := ins
  rcases h with ⟨rfl, rfl⟩ | ⟨rfl, rfl⟩
  · exact Jet.set_self ..
  · have hlog : v + 2 - 2 = v := rfl
    simp only [Jet.advance, Jet.power, hlog, Jet.set_of_row_ne (show v ≠ v + 2 by omega),
      Jet.set_of_row_ne (show v ≠ v + 2 - 1 by omega), Jet.set_self]

end Instr.Flattens

namespace Tape

variable {t : Tape F} {items : List Item} {tail : List Instr} {b : Buffer F} {q : Nat}
variable {resolved : Array Nat}

/-- The constants of a tape, with the values of order 0 of a buffer. -/
def constants (t : Tape F) (b : Buffer F) : Constants F where
  params := t.params
  value v := b.coeff v 0 0
  recorded i v := ∃ k, t.instr k = .ok ⟨.constant, [i], v⟩

/-- A row that an instruction among the items leaves without higher coefficients. -/
def FlatRow (items : List Item) (v : Nat) : Prop := ∃ ins, .plain ins ∈ items ∧ ins.Flattens v

/-- The replacements of form `Form` fill the same rows, where the jets are flat. -/
def FormsAgree (t : Tape F) (items : List Item) (b : Buffer F) (resolved : Array Nat)
    (Form : Instr → Instr → Prop) (q : Nat) : Prop :=
  ∀ ins ins', Form ins ins' → ∀ j : Jet F, (ins.op = .power .pv → FlatRow items (ins.row - 2)) →
    j.FlatBelow (t.constants b).value (FlatRow items) q (ins.row + 1 - ins.op.resultCount) →
    j.advance q t.params resolved ins' = j.advance q t.params resolved ins

section Flat

variable (h : t.Spells items tail) (hc : t.Countable)

include h

/-- An item of the sweep keeps the rows flat that it finds flat, and leaves those flat that it
owns. -/
theorem Spells.flatBelow_advance {n : Nat} {item : Item} {value : Nat → F} {j : Jet F}
    (hq : 0 < q) (hmem : item ∈ items)
    (hitem : item.Valid n t.params.size t.loads t.registry.size)
    (hj : j.FlatBelow value (FlatRow items) q n) :
    ((t.plan q t.noSkip resolved).advance item j).FlatBelow value (FlatRow items) q
      (n + rowCount item.instrs) where
  values v := (Plan.advance_of_ne hitem (.inl (Nat.ne_of_lt hq))).trans (hj.values v)
  lower v hv o h0 ho :=
    (Plan.advance_of_ne hitem (.inl (Nat.ne_of_lt ho))).trans (hj.lower v hv o h0 ho)
  swept v hv hlt := by
    by_cases hn : v < n
    · exact (Plan.advance_of_ne hitem (.inr (.inl hn))).trans (hj.swept v hv hn)
    -- The row has one owner, which is the instruction that leaves it flat.
    obtain ⟨ins, hflat, hflattens⟩ := hv
    obtain ⟨ins', hins', howns⟩ := hitem.placed.exists_owner (Nat.not_lt.mp hn) hlt
    obtain rfl : ins = ins' := h.valid.placed.eq_of_owns
      (List.mem_flatMap.mpr ⟨_, hflat, List.mem_cons_self⟩)
      (List.mem_flatMap.mpr ⟨item, hmem, hins'⟩) hflattens.owns howns
    cases item with
    | plain ins' =>
      obtain rfl := List.mem_singleton.mp hins'
      exact hflattens.advance _ _ _
    | call block =>
      have hplain := Block.Valid.not_plain hitem ins hins'
      rw [hflattens.isPlain] at hplain
      cases hplain

include hc

theorem Spells.flatRow_of_recorded {i v : Nat} (hv : (t.constants b).recorded i v) :
    FlatRow items v ∧ 0 < v := by
  obtain ⟨k, hins⟩ := hv
  obtain ⟨before, after, rfl, -⟩ := h.exists_plain hc hins rfl
  exact ⟨⟨_, List.mem_append_right before List.mem_cons_self, .inl ⟨rfl, rfl⟩⟩,
    h.row_pos hc hins rfl Nat.zero_lt_one⟩

end Flat

section Promote

variable {promote : Instr → Instr} {Form : Instr → Instr → Prop}
variable (h : t.Spells items tail) (ht : t.Ready b resolved)
variable (hpromote : ∀ ins, promote ins = ins ∨ ins.Promotes (t.constants b) (promote ins) ∨
  Form ins (promote ins))
variable (hform : ∀ ins ins', Form ins ins' → ins.PromotesForm (t.constants b) ins')

include h ht hpromote hform

omit h ht in
/-- What is not kept is a conditional, a call argument, an arithmetic operation or a power, and stays
one. -/
theorem promote_cases (ins : Instr) : promote ins = ins ∨
    ins.op = .choose ∧ (promote ins).op = .choose ∨
    ins.op = .callArg .par ∧ (promote ins).op = .callArg .var ∨
    (∃ f f', ins.op = .arithmetic f ∧ (promote ins).op = .arithmetic f') ∨
    ∃ f f', ins.op = .power f ∧ (promote ins).op = .power f' := by
  rcases hpromote ins with hkept | hpromotes | hother
  · exact .inl hkept
  · exact .inr (hpromotes.op_eq.imp_right .inl)
  · exact .inr (.inr (.inr (hform _ _ hother).op_eq))

theorem Spells.allows_promote : t.Allows t.params fun ins => [promote ins] where
  keeps ins hplain hcall := by
    rcases promote_cases hpromote hform ins with
      hkept | ⟨hop, -⟩ | ⟨hop, -⟩ | ⟨_, _, hop, -⟩ | ⟨_, _, hop, -⟩
    · exact congrArg ([·]) hkept
    · cases hop ▸ hplain
    · exact absurd hop (hcall .par)
    · cases hop ▸ hplain
    · cases hop ▸ hplain
  table := Nat.le_refl _
  loads ins ins' hins s hload := by
    obtain rfl := List.mem_singleton.mp hins
    rcases promote_cases hpromote hform ins with
      hkept | ⟨-, hop⟩ | ⟨-, hop⟩ | ⟨_, _, -, hop⟩ | ⟨_, _, -, hop⟩
    · exact hkept
    all_goals cases hop.symm.trans hload
  gives n item hitem := by
    have hpos (i v : Nat) (hv : (t.constants b).recorded i v) : 0 < v :=
      (h.flatRow_of_recorded ht.countable hv).2
    cases item with
    | plain ins =>
      obtain ⟨hvalid, hcount⟩ : (Item.plain (promote ins)).Valid n t.params.size t.loads
          t.registry.size ∧ (promote ins).op.resultCount = ins.op.resultCount := by
        rcases hpromote ins with hkept | hpromotes | hother
        · rw [hkept]
          exact ⟨hitem, rfl⟩
        · exact hpromotes.valid hpos hitem
        · exact (hform _ _ hother).valid hpos hitem
      exact ⟨⟨hvalid, trivial⟩, hcount⟩
    | call block =>
      have hblock : block.Valid n t.params.size t.registry.size := hitem
      intro ins hins
      obtain ⟨a, ha, hop, hargs⟩ := hblock.args ins hins
      rcases hpromote ins with hkept | hpromotes | hother
      · refine ⟨a, ha, ?_⟩
        show [promote ins] = _
        rw [hkept, ← hop, ← hargs]
      · obtain ⟨i, v, heq, ⟨hlt, hrecorded⟩, -⟩ := hpromotes.of_callArg hop
        rw [hblock.row_of_arg ins hins] at hlt
        exact ⟨.var v, ⟨hpos i v hrecorded, hlt⟩, congrArg ([·]) heq⟩
      · rcases (hform _ _ hother).op_eq with ⟨_, _, hop', -⟩ | ⟨_, _, hop', -⟩ <;>
          cases hop.symm.trans hop'

section Item

variable {n : Nat} {j : Jet F}
variable (hj : j.FlatBelow (t.constants b).value (FlatRow items) q n)

include hj

omit hform in
/-- What takes the place of an instruction fills the same rows, where the jet is flat. -/
theorem Spells.advance_promote {ins : Instr} (hq : 0 < q)
    (hsame : FormsAgree t items b resolved Form q) (hmem : .plain ins ∈ items)
    (hitem : (Item.plain ins).Valid n t.params.size t.loads t.registry.size) :
    j.advance q t.params resolved (promote ins) = j.advance q t.params resolved ins := by
  have hrow : ins.row + 1 = n + ins.op.resultCount := hitem.2.1
  rcases hpromote ins with hkept | hpromotes | hother
  · rw [hkept]
  · have hop : ins.op = .choose := hpromotes.op_eq.elim (·.1) fun hop => by
      have hplain := hitem.1.isPlain
      rw [hop.1] at hplain
      cases hplain
    refine hpromotes.advance (fun i v hv => (h.flatRow_of_recorded ht.countable hv).1) hop hq ?_
    rw [hop] at hrow
    rwa [Nat.succ.inj hrow]
  · refine hsame ins _ hother j (fun hop => ⟨ins, hmem, .inr ⟨hop, ?_⟩⟩) ?_
    · rw [hop] at hrow
      exact Nat.sub_add_cancel (by simp only [Opcode.resultCount] at hrow; omega)
    · rwa [hrow, Nat.add_sub_cancel]

/-- What takes the place of a call argument has the same series there. -/
theorem Spells.callSeries_promote {block : Block} {p : Plan F} {ins : Instr}
    (hblock : block.Valid n t.params.size t.registry.size) (hins : ins ∈ block.args)
    (horder : p.order = q) (hparams : p.params = t.params) :
    p.callSeries (promote ins) j = p.callSeries ins j := by
  obtain ⟨a, -, hop, -⟩ := hblock.args ins hins
  rcases hpromote ins with hkept | hpromotes | hother
  · rw [hkept]
  · refine hpromotes.callSeries (fun i v hv => (h.flatRow_of_recorded ht.countable hv).1) hop
      hparams ?_
    rwa [horder, hblock.row_of_arg ins hins]
  · rcases (hform _ _ hother).op_eq with ⟨_, _, hop', -⟩ | ⟨_, _, hop', -⟩ <;>
      cases hop.symm.trans hop'

end Item

/-- What takes the place of an item does what the item does, where the jets are flat. -/
theorem Spells.refines_promote (hq : 0 < q) (hsame : FormsAgree t items b resolved Form q)
    {n : Nat} {item : Item} (hmem : item ∈ items)
    (hitem : item.Valid n t.params.size t.loads t.registry.size) :
    (t.plan q t.noSkip resolved).Refines ((t.rewrite t.params fun ins => [promote ins]).plan q
      (t.rewrite t.params fun ins => [promote ins]).noSkip resolved) b.layout.directions
      (Jet.FlatBelow (t.constants b).value (FlatRow items) q n)
      (Jet.FlatBelow (t.constants b).value (FlatRow items) q (n + rowCount item.instrs)) item
      (item.rewrite fun ins => [promote ins]) := by
  have hmarks := marks_noSkip (t.rewrite t.params fun ins => [promote ins]) q resolved
  have hkeeps (j : Jet F) (hj : j.FlatBelow (t.constants b).value (FlatRow items) q n) :
      ((t.plan q t.noSkip resolved).advance item j).FlatBelow (t.constants b).value (FlatRow items)
        q (n + rowCount item.instrs) :=
    h.flatBelow_advance hq hmem hitem hj
  rw [plan_rewrite] at hmarks ⊢
  cases item with
  | plain ins =>
    exact Plan.refines_plain hmarks fun j hj =>
      ⟨h.advance_promote ht hpromote hj hq hsame hmem hitem, hkeeps j hj⟩
  | call block =>
    refine Plan.refines_call hmarks rfl rfl (fun operator => ?_) rfl (fun j hj => ?_) hkeeps
    · simp [Block.site, Block.rewrite]
    · refine Plan.request_rewrite rfl (fun ins hins => ?_) fun _ _ => rfl
      rw [List.flatMap_singleton]
      exact h.callSeries_promote ht hpromote hform hj hitem hins rfl rfl

/-- Along the sweeps of all orders the jets stay flat, so the tape with variables in the place of
parameters is swept alike. -/
theorem Spells.sweepOrders_promote (options options' : Options)
    (hsame : ∀ k, 0 < k → FormsAgree t items b resolved Form k) :
    (t.sweepOrders q b t.noSkip resolved options).Agrees
      ((t.rewrite t.params fun ins => [promote ins]).sweepOrders q b
        (t.rewrite t.params fun ins => [promote ins]).noSkip resolved options') := by
  have hrule := h.allows_promote ht hpromote hform
  have hc : (t.rewrite t.params fun ins => [promote ins]).Countable := by
    refine h.countable_rewrite ht.countable hrule.keeps hrule.table
      (fun n item _ => hrule.gives n item) (fun _ => rfl) fun ins => ?_
    rw [List.flatMap_singleton]
    rcases hpromote ins with hkept | hpromotes | hother
    · rw [hkept]
    · exact hpromotes.length_args
    · exact (hform _ _ hother).length_args
  have hbounds {v : Nat} (hv : FlatRow items v) : 1 + t.independents ≤ v ∧ v < t.rows := by
    obtain ⟨ins, hmem, hflattens⟩ := hv
    rw [h.rows]
    exact h.valid.placed.owner_bounds (List.mem_flatMap.mpr ⟨_, hmem, List.mem_cons_self⟩)
      hflattens.owns.1 hflattens.owns.2
  -- No flat row comes before the items, so none has been swept when an order begins.
  have hunswept {v : Nat} (hv : FlatRow items v) : ¬v < 1 + t.independents :=
    Nat.not_lt.mpr (hbounds hv).1
  let flat (k n : Nat) (j : Jet F) : Prop :=
    j.FlatBelow (t.constants b).value (FlatRow items) k n
  refine h.sweepOrders_rewrite (I := flat) (J := fun k => flat (k + 1) (1 + t.independents)) ht
    hrule hc options options' (fun l hl => ?_) (fun _ _ _ hj => hj) (fun k _ j hj => ?_)
    fun k _ n item hmem hitem => h.refines_promote ht hpromote hform (Nat.succ_pos k)
      (hsame _ (Nat.succ_pos k)) hmem hitem
  · exact ⟨ht.fits.jet_zero_eq hl, fun v _ o h0 ho => absurd h0 (by omega),
      fun v hv hlt => absurd hlt (hunswept hv)⟩
  · exact ⟨hj.values, fun v hv o h0 ho => hj.eq_zero hv (hbounds hv).2 h0 (Nat.lt_succ_iff.mp ho),
      fun v hv hlt => absurd hlt (hunswept hv)⟩

end Promote

/-- Two parameters that are recorded as variables too, and operations, a conditional and a call that
take them as parameters. -/
def parameterTape : Tape ℚ := .ofSession
  [.independents 2, .parameter 3, .parameter 2, .constant 0, .constant 1,
    .operation (.arithmetic .addPV) [0, 1], .operation (.arithmetic .divVP) [5, 1],
    .operation (.arithmetic .zmulPV) [0, 6], .operation (.power .pv) [1, 2],
    .operation (.power .vp) [7, 0], .choose .lt (.par 0) (.var 1) (.par 1) (.var 13),
    .register .echo, .call 0 7 [.var 14, .par 1] [.var], .finish]

/-- A buffer for the parameter tape: orders below 4, two directions. Rows 3 and 4 have the values of
the parameters, and no two of the other coefficients are alike. -/
def parameterBuffer : Buffer ℚ :=
  ⟨⟨⟨4, 2⟩, (((List.range' 1 112).map fun i : Nat => (i : ℚ)).toArray.setIfInBounds 21 3
    |>.setIfInBounds 28 2)⟩, 16⟩

/-- Takes the variables in the conditional and in the call. -/
def promoteChoices : Instr → Instr
  | ⟨.choose, [0, 10, 0, 1, 1, 13], 14⟩ => ⟨.choose, [0, 15, 3, 1, 4, 13], 14⟩
  | ⟨.callArg .par, [1], 14⟩ => ⟨.callArg .var, [4], 14⟩
  | ins => ins

/-- Takes them in the operations as well. -/
def promoteAll : Instr → Instr
  | ⟨.arithmetic .addPV, [0, y], 5⟩ => ⟨.arithmetic .addVV, [3, y], 5⟩
  | ⟨.arithmetic .divVP, [x, 1], 6⟩ => ⟨.arithmetic .divVV, [x, 4], 6⟩
  | ⟨.arithmetic .zmulPV, [0, y], 7⟩ => ⟨.arithmetic .zmulVV, [3, y], 7⟩
  | ⟨.power .pv, [1, y], 10⟩ => ⟨.power .vv, [4, y], 10⟩
  | ⟨.power .vp, [x, 0], 13⟩ => ⟨.power .vv, [x, 3], 13⟩
  | ins => promoteChoices ins

theorem parameterTape_holds {n : Nat} (hn : 4 < n) :
    (parameterTape.constants parameterBuffer).Holds n 0 3 ∧
      (parameterTape.constants parameterBuffer).Holds n 1 4 :=
  ⟨⟨⟨by omega, 3, by decide +kernel⟩, by decide +kernel⟩,
    ⟨⟨hn, 4, by decide +kernel⟩, by decide +kernel⟩⟩

theorem promoteChoices_promotes (ins : Instr) : promoteChoices ins = ins ∨
    ins.Promotes (parameterTape.constants parameterBuffer) (promoteChoices ins) := by
  unfold promoteChoices
  split
  · obtain ⟨h0, h1⟩ := parameterTape_holds (n := 14) (by decide)
    exact .inr (.choose .lt (.par h0) (.refl (.var 1)) (.par h1.1) (.refl (.var 13)))
  · exact .inr (.callArg (parameterTape_holds (by decide)).2)
  · exact .inl rfl

theorem promoteAll_promotes (ins : Instr) : promoteAll ins = ins ∨
    ins.Promotes (parameterTape.constants parameterBuffer) (promoteAll ins) ∨
    ins.PromotesForm (parameterTape.constants parameterBuffer) (promoteAll ins) := by
  have held {n : Nat} (hn : 4 < n) := parameterTape_holds hn
  unfold promoteAll
  split
  · exact .inr (.inr (.arithmetic .addPV rfl (.par (held (by decide)).1) (.refl _)))
  · exact .inr (.inr (.arithmetic .divVP rfl (.refl (.var _)) (.par (held (by decide)).2)))
  · exact .inr (.inr (.arithmetic .zmulPV rfl (.par (held (by decide)).1) (.refl _)))
  · exact .inr (.inr (.power .pv rfl (.par (held (by decide)).2) (.refl _)))
  · exact .inr (.inr (.power .vp rfl (.refl (.var _)) (.par (held (by decide)).1)))
  · exact (promoteChoices_promotes _).imp_right .inl

end Tape

end JetTape
