import JetTape.Proofs.Recurrence.Expansion
import JetTape.Proofs.Sweep.Equations
import JetTape.Proofs.Sweep.Rewriting
import JetTape.Proofs.Tape.Overflow

/-!
Sweeps of tapes whose powers and error functions are taken apart. Powers can be replaced by the
instructions that fill their rows one by one, whatever the operations on the coefficients are, as
long as they multiply in either order. Of an error function this holds for the first four rows, and
the last row is an integral.
-/
namespace JetTape

open PowerSeries (derivative)

variable {F : Type} [Scalar F]

/-- A call asks the same with a longer table of parameters. -/
theorem Plan.request_append {p p' : Plan F} {extra : Array F} (horder : p'.order = p.order)
    (hparams : p'.params = p.params ++ extra) {block : Block} {n k : Nat}
    (hblock : block.Valid n p.params.size k) (j : Jet F) :
    p'.request block j = p.request block j := by
  have hseries {ins : Instr} (h : ins.op = .callArg .var ∨ ins.op = .callResult .var ∨
      ∃ i < p.params.size, ins.args = [i]) : p'.callSeries ins j = p.callSeries ins j := by
    rcases h with hop | hop | ⟨i, hi, hargs⟩
    · simp only [callSeries, hop, horder]
    · simp only [callSeries, hop, horder]
    · simp only [callSeries, horder, hparams, hargs, List.getD_cons_zero, getD_append_params hi]
  have hkept : block.rewrite (fun ins => [ins]) = block := block.rewrite_of_kept fun _ _ => rfl
  refine (congrArg (p'.request · j) hkept.symm).trans
    (request_rewrite horder (fun ins hins => ?_) fun ins hins => hseries ?_)
  · rw [List.flatMap_singleton]
    obtain ⟨a, ha, hop, hargs⟩ := hblock.args ins hins
    apply hseries
    cases a with
    | var x => exact .inl hop
    | par i => exact .inr (.inr ⟨i, ha, hargs⟩)
  · rcases hblock.results ins hins with hop | ⟨i, hi, -, hargs⟩
    · exact .inr (.inl hop)
    · exact .inr (.inr ⟨i, hi, hargs⟩)

/-- Replays of items with an error function and of items with it taken apart leave the same in the
rows before its integral, whatever comes later. -/
theorem Plan.replayItems_erfRows {p : Plan F} {mask : Array Bool} (hmarks : ∀ i, p.marks i = false)
    (hmarks' : ∀ i, { p with mask }.marks i = false) {n m s k x c d z : Nat}
    {before after after' : List Item} (hbefore : ValidItems m s k n before)
    (hz : z + 1 = n + rowCount (instrsOf before) + 5) (hafter : ValidItems m s k (z + 1) after)
    (hafter' : ValidItems m s k (z + 1) after') (i i' : Nat) (js : Nat → Jet F) {r l v o : Nat}
    (hl : l < r) (hv : v < z) :
    ({ p with mask }.replayItems r i' (before ++ (erfRows x c d z).map Item.plain ++ after')
        js).jets l v o =
      (p.replayItems r i (before ++ [.plain ⟨.erf, [x, c, d], z⟩] ++ after) js).jets l v o := by
  have hrows (middle : List Item) (hcount : rowCount (instrsOf middle) = 5) :
      n + rowCount (instrsOf (before ++ middle)) = z + 1 := by
    rw [instrsOf_append, rowCount_append, hcount]
    omega
  have hend := hrows ((erfRows x c d z).map Item.plain) (by rw [instrsOf_map_plain]; rfl)
  have hend' := hrows [.plain ⟨.erf, [x, c, d], z⟩] rfl
  rw [replayItems_append_of_lt hmarks' (hend ▸ hafter') (by omega),
    replayItems_append_of_lt hmarks (hend' ▸ hafter) (by omega), replayItems_append_eq hmarks',
    replayItems_append_eq hmarks]
  obtain ⟨hstops, -, hjets⟩ := replayItems_mask mask hmarks hmarks' hbefore i i' js
  cases hstop : (p.replayItems r i before js).stop with
  | some stop =>
    rw [Outcome.andThen_of_some hstop, Outcome.andThen_of_some (hstops.trans hstop), hjets l hl]
  | none =>
    rw [Outcome.andThen_of_none hstop, Outcome.andThen_of_none (hstops.trans hstop),
      replayItems_plain hmarks', ← List.map_singleton, replayItems_plain hmarks]
    simp only [hjets l hl]
    exact advance_erfRows (Nat.ne_of_lt hv)

namespace Tape

variable {t : Tape F} {b : Buffer F} {q : Nat} {resolved : Array Nat} {extra : Array F}
variable {rule : Instr → List Instr}

/-- The rule takes some of the powers apart, for the values of order 0 that the buffer holds. -/
def ExpandsPowers (b : Buffer F) (params : Array F) (rule : Instr → List Instr) : Prop :=
  ∀ ins, rule ins = [ins] ∨ Power.Expansion (b.coeff · 0 0) params ins (rule ins)

section Powers

variable (hrule : ExpandsPowers b (t.params ++ extra) rule)

include hrule

theorem ExpandsPowers.kept {ins : Instr} (h : ∀ f, ins.op ≠ .power f) : rule ins = [ins] :=
  (hrule ins).resolve_right fun hexpansion => by
    obtain ⟨f, hop⟩ := hexpansion.op_eq
    exact h f hop

theorem ExpandsPowers.kept_call {n p k : Nat} {block : Block} (hblock : block.Valid n p k) :
    ∀ ins ∈ block.instrs, rule ins = [ins] := by
  intro ins hins
  refine hrule.kept fun f hop => ?_
  have hplain := hblock.not_plain ins hins
  rw [hop] at hplain
  cases hplain

theorem ExpandsPowers.allows : t.Allows (t.params ++ extra) rule where
  keeps ins hplain _ := hrule.kept fun f hop => by
    rw [hop] at hplain
    cases hplain
  table := by simp
  loads ins ins' hins s hop := by
    rcases hrule ins with hkept | hexpansion
    · rw [hkept] at hins
      exact List.mem_singleton.mp hins
    · exact absurd hop (hexpansion.not_load _ hins s)
  gives n item hitem := by
    have hle : t.params.size ≤ (t.params ++ extra).size := by simp
    cases item with
    | plain ins =>
      rcases hrule ins with hkept | hexpansion
      · refine Item.givesWay_of_kept hitem hle fun ins' hins' => ?_
        rw [List.mem_singleton.mp hins', hkept]
      · exact hexpansion.givesWay hitem hle
    | call block => exact Item.givesWay_of_kept hitem hle (hrule.kept_call hitem)

/-- What a rule puts in the place of an item does what the item does, on jets with the values of
order 0 that the buffer holds. -/
theorem ExpandsPowers.refines (hmul : ∀ x y : F, x * y = y * x) (hq : 0 < q) {n : Nat}
    {item : Item} (hitem : item.Valid n t.params.size t.loads t.registry.size) :
    (t.plan q t.noSkip resolved).Refines ((t.rewrite (t.params ++ extra) rule).plan q
      (t.rewrite (t.params ++ extra) rule).noSkip resolved) b.layout.directions
      (fun j => ∀ v, j v 0 = b.coeff v 0 0) (fun j => ∀ v, j v 0 = b.coeff v 0 0) item
      (item.rewrite rule) := by
  have hmarks := marks_noSkip (t.rewrite (t.params ++ extra) rule) q resolved
  have hvalues (j : Jet F) (hj : ∀ v, j v 0 = b.coeff v 0 0) (v : Nat) :
      (t.plan q t.noSkip resolved).advance item j v 0 = b.coeff v 0 0 :=
    (Plan.advance_of_ne hitem (.inl (Nat.ne_of_lt hq))).trans (hj v)
  cases item with
  | plain ins =>
    refine Plan.refines_plain hmarks fun j hj => ⟨?_, hvalues j hj⟩
    simp only [Plan.advance, plan, params_rewrite]
    rcases hrule ins with hkept | hexpansion
    · rw [hkept]
      exact Jet.advance_append hitem.1
    · exact hexpansion.advance hmul hq hitem.1 hj
  | call block =>
    have hblock : block.Valid n t.params.size t.registry.size := hitem
    have hsame : block.rewrite rule = block :=
      block.rewrite_of_kept fun ins hins =>
        hrule.kept_call hblock ins (by simp [Block.instrs, hins])
    rw [Item.rewrite, hsame]
    refine Plan.refines_call hmarks rfl ?_ (fun _ => rfl) rfl (fun j _ => ?_) hvalues
    · simp only [Plan.operator?, plan, registry_rewrite]
    · have hparams : ((t.rewrite (t.params ++ extra) rule).plan q
          (t.rewrite (t.params ++ extra) rule).noSkip resolved).params = t.params ++ extra :=
        params_rewrite
      exact Plan.request_append (p := t.plan q t.noSkip resolved) (by rfl) hparams hblock j

end Powers

section Erf

variable {items : List Item} {tail : List Instr} {z : Nat}

omit [Scalar F] in
theorem allows_splitErf (z : Nat) : t.Allows t.params (splitErf z) where
  keeps := keepsRest_splitErf z
  table := Nat.le_refl _
  loads ins ins' hins s hop := by
    unfold splitErf at hins
    split at hins
    · simp only [erfRows, List.mem_cons, List.not_mem_nil, or_false] at hins
      rcases hins with rfl | rfl | rfl | rfl | rfl <;> cases hop
    · exact List.mem_singleton.mp hins
  gives _ _ := givesWay_splitErf

/-- Replays of a tape with an error function and of the tape with it taken apart leave the same in
the rows before the integral. -/
theorem Spells.replayItems_splitErf (h : t.Spells items tail) (hc : t.Countable)
    {i : Nat} {ins : Instr} (hins : t.instr i = .ok ins) (hop : ins.op = .erf)
    (js : Nat → Jet F) {l v o : Nat} (hl : l < b.layout.directions) (hv : v < ins.row) :
    let u := t.rewrite t.params (splitErf ins.row)
    ((u.plan q u.noSkip resolved).replayItems b.layout.directions (u.independents + 1)
        (items.flatMap (Item.rewrite (splitErf ins.row))) js).jets l v o =
      ((t.plan q t.noSkip resolved).replayItems b.layout.directions (t.independents + 1) items
        js).jets l v o := by
  intro u
  obtain ⟨before, after, rfl, -⟩ := h.exists_plain hc hins (by rw [hop]; rfl)
  obtain ⟨hbefore, hitem, hafter⟩ := validItems_append.mp h.valid
  obtain ⟨op, args, z⟩ := ins
  subst hop
  obtain ⟨hvalid, hz, -⟩ := hitem
  have hz : z + 1 = 1 + t.independents + rowCount (instrsOf before) + 5 := hz
  have hnext : 1 + t.independents + rowCount (instrsOf before) +
      rowCount (Item.plain ⟨.erf, args, z⟩).instrs = z + 1 := hz.symm
  cases hvalid with
  | @erf x c d =>
  have hkept : before.flatMap (Item.rewrite (splitErf z)) = before := by
    refine (List.flatMap_congr fun item hmem => Item.rewrite_of_kept fun ins hins => ?_).trans
      (List.flatMap_singleton' _)
    have hrow := hbefore.placed.row_lt (by omega) ins (List.mem_flatMap.mpr ⟨item, hmem, hins⟩)
    exact splitErf_of_ne (.inr (by omega))
  have hrule : Item.rewrite (splitErf z) (.plain ⟨.erf, [x, c, d], z⟩) =
      (erfRows x c d z).map .plain := by
    simp [Item.rewrite, splitErf]
  have hplan : u.plan q u.noSkip resolved =
      { t.plan q t.noSkip resolved with mask := u.noSkip } := plan_rewrite _
  rw [List.flatMap_append, List.flatMap_cons, hkept, hrule, hplan, ← List.append_assoc,
    List.append_cons before]
  have hafter' := hafter.rewrite (Nat.le_refl _) (keepsRest_splitErf z)
    fun _ _ _ => givesWay_splitErf
  rw [hnext] at hafter hafter'
  exact Plan.replayItems_erfRows (marks_noSkip t q resolved)
    (fun i => (congrArg (·.marks i) hplan.symm).trans (marks_noSkip u q resolved i)) hbefore hz
    hafter hafter'.1 _ _ js hl hv

/-- In a sweep of one order an error function fills its first four rows as the instructions do that
it is taken apart into. -/
theorem sweep_splitErf (ht : t.Ready b resolved) (options options' : Options) {i : Nat}
    {ins : Instr} (hins : t.instr i = .ok ins) (hop : ins.op = .erf)
    (hc : (t.rewrite t.params (splitErf ins.row)).Countable) :
    let u := t.rewrite t.params (splitErf ins.row)
    let run := t.sweep q b t.noSkip resolved options
    let run' := u.sweep q b u.noSkip resolved options'
    ∀ v < ins.row, ∀ k < b.layout.capOrder, ∀ l < b.layout.directions,
      (b.withCells run'.cells).coeff v k l = (b.withCells run.cells).coeff v k l := by
  intro u run run' v hv k hk l hl
  obtain ⟨items, tail, h⟩ := ht.recorded.spells
  have hrule := allows_splitErf (t := t) ins.row
  obtain ⟨hrows, h'⟩ := h.spells_rewrite ht hrule
  have hstop' := h.isStopped_rewrite ht hrule
  have hfits' := ht.fits.of_rows hrows
  have hshapes : Replay.checkShapes u.program q u.noSkip resolved b.arena =
      Replay.checkShapes t.program q t.noSkip resolved b.arena :=
    Replay.checkShapes_congr hrows loads_rewrite (size_noSkip t) (size_noSkip u)
  cases hcheck : Replay.checkShapes t.program q t.noSkip resolved b.arena with
  | error f =>
    have hcells := cells_of_checkShapes_error ht.stopped ht.fits hcheck options
    have hcells' := cells_of_checkShapes_error hstop' hfits' (hshapes.trans hcheck) options'
    rw [show run.cells = _ from hcells, show run'.cells = _ from hcells']
  | ok _ =>
    obtain ⟨-, -, hshape, hjets⟩ := h.sweep ht.countable ht.stopped ht.fits hcheck
      (maskOk_noSkip t) ht.loads options
    obtain ⟨-, -, hshape', hjets'⟩ := h'.sweep hc hstop' hfits' (hshapes.trans hcheck)
      (maskOk_noSkip u) (h.loadsOk_rewrite ht hrule hc) options'
    rw [(ht.fits.withCells hshape).coeff_eq v hk hl, (hfits'.withCells hshape').coeff_eq v hk hl,
      hjets l hl, hjets' l hl]
    exact h.replayItems_splitErf ht.countable hins hop _ hl hv

end Erf

/-- After the sweeps of all orders the last row of an error function is the integral of the
operand's derivative times the row before it. -/
theorem integral_of_sweepOrders {K : Type} [Field K] [LinearOrder K] [IsStrictOrderedRing K]
    [ExactScalar K] {s : Tape K} {b : Buffer K} {options : Options} (hs : s.Recorded)
    (hc : s.Countable) (hb : b.Fits s)
    (hnone : (s.sweepOrders q b s.noSkip resolved options).stop = none) {i : Nat} {ins : Instr}
    (hins : s.instr i = .ok ins) (hop : ins.op = .erf) {l : Nat} (hl : l < b.layout.directions) :
    let series := (b.withCells (s.sweepOrders q b s.noSkip resolved options).cells).powerSeries l
    AgreeBelow q (derivative K (series ins.row))
      (derivative K (series (ins.args.getD 0 0)) * series (ins.row - 1)) := by
  intro series
  obtain ⟨items, tail, h⟩ := hs.spells
  have hrow := h.row_pos hc hins (by rw [hop]; rfl) (by simp [hop, Opcode.resultCount])
  have hsettled := advance_of_sweepOrders hs hc hb hnone hins (by rw [hop]; rfl) hl
  obtain ⟨op, args, z⟩ := ins
  subst hop
  exact Series.integral_solves fun k h0 hk => integral_of_erf hrow (hsettled k h0 hk)

/-- Powers and error functions are swept like the instructions that they can be taken apart into.
Any powers of a tape can be replaced, whatever the operations on the coefficients are, as long as
they multiply in either order: every row stays the same, in a sweep of one order and in the sweeps
of all orders. An error function can be replaced as far as its first four rows go, and over a field
its last row solves the equation of an integral. -/
theorem sweeps_expand (options options' : Options) :
    (t.Ready b resolved →
      ((∀ x y : F, x * y = y * x) → ∀ (extra : Array F) (rule : Instr → List Instr),
        ExpandsPowers b (t.params ++ extra) rule →
        let u := t.rewrite (t.params ++ extra) rule
        u.Countable → ∀ q,
          (t.sweep q b t.noSkip resolved options).Agrees
            (u.sweep q b u.noSkip resolved options') ∧
          (t.sweepOrders q b t.noSkip resolved options).Agrees
            (u.sweepOrders q b u.noSkip resolved options')) ∧
      (∀ i ins, t.instr i = .ok ins → ins.op = .erf →
        let u := t.rewrite t.params (splitErf ins.row)
        u.Countable → ∀ q,
          let run := t.sweep q b t.noSkip resolved options
          let run' := u.sweep q b u.noSkip resolved options'
          ∀ v < ins.row, ∀ k < b.layout.capOrder, ∀ l < b.layout.directions,
            (b.withCells run'.cells).coeff v k l = (b.withCells run.cells).coeff v k l)) ∧
    (∀ {K : Type} [Field K] [LinearOrder K] [IsStrictOrderedRing K] [ExactScalar K] {t : Tape K}
      {b : Buffer K} {q : Nat} {resolved : Array Nat}, t.Recorded → t.Countable → b.Fits t →
      (t.sweepOrders q b t.noSkip resolved options).stop = none →
      ∀ i ins, t.instr i = .ok ins → ins.op = .erf → ∀ l < b.layout.directions,
        let series :=
          (b.withCells (t.sweepOrders q b t.noSkip resolved options).cells).powerSeries l
        AgreeBelow q (derivative K (series ins.row))
          (derivative K (series (ins.args.getD 0 0)) * series (ins.row - 1))) := by
  constructor
  · intro ht
    constructor
    · intro hmul extra rule hrule u hc q
      obtain ⟨items, tail, h⟩ := ht.recorded.spells
      have hinit (l : Nat) (hl : l < b.layout.directions) (v : Nat) :
          b.arena.jet l v 0 = b.coeff v 0 0 := ht.fits.jet_zero_eq hl v
      exact ⟨h.sweep_rewrite ht hrule.allows hc options options' hinit
          fun hq _ _ _ hitem => hrule.refines hmul hq hitem,
        h.sweepOrders_rewrite (I := fun _ _ j => ∀ v, j v 0 = b.coeff v 0 0) ht hrule.allows hc
          options options' hinit (fun _ _ _ hj => hj) (fun _ _ _ hj => hj)
          fun k _ _ _ _ hitem => hrule.refines hmul (Nat.succ_pos k) hitem⟩
    · exact fun i ins hins hop hc q => sweep_splitErf ht options options' hins hop hc
  · exact fun ht hc hb hnone i ins hins hop l hl =>
      integral_of_sweepOrders ht hc hb hnone hins hop hl

/-- A power of each form and an error function. -/
def powerTape : Tape ℚ := .ofSession
  [.independents 2, .parameter 3, .operation (.power .vv) [1, 2], .operation (.power .vp) [1, 0],
    .operation (.power .pv) [0, 2], .erf 1, .finish]

/-- A buffer for the power tape: orders below 4, two directions, no two coefficients alike. -/
def powerBuffer : Buffer ℚ :=
  ⟨⟨⟨4, 2⟩, ((List.range' 1 119).map fun i : Nat => (i : ℚ)).toArray⟩, 17⟩

/-- Takes all powers apart whose base is a variable, and the one with last row 11. The logarithm of
its base is in the parameter after those of the tape. -/
def splitPowers : Instr → List Instr
  | ⟨.power .vv, [x, y], z⟩ =>
    [⟨.elementary .log, [x], z - 2⟩, ⟨.arithmetic .mulVV, [z - 2, y], z - 1⟩,
      ⟨.elementary .exp, [z - 1], z⟩]
  | ⟨.power .vp, [x, i], z⟩ =>
    [⟨.elementary .log, [x], z - 2⟩, ⟨.arithmetic .mulPV, [i, z - 2], z - 1⟩,
      ⟨.elementary .exp, [z - 1], z⟩]
  | ⟨.power .pv, [_, y], 11⟩ =>
    [⟨.constant, [0], 9⟩, ⟨.arithmetic .mulPV, [powerTape.params.size, y], 10⟩,
      ⟨.elementary .exp, [10], 11⟩]
  | ins => [ins]

theorem expandsPowers_splitPowers : ExpandsPowers powerBuffer
    (powerTape.params ++ #[powerBuffer.coeff 9 0 0]) splitPowers := by
  intro ins
  unfold splitPowers
  split
  · exact .inr (.vv _ _ _)
  · exact .inr (.vp _ _ _)
  · exact .inr (.pv _ _ 11 0 powerTape.params.size (by simp) (by simp))
  · exact .inl rfl

theorem powerTape_sweeps_expand :
    let u := powerTape.rewrite (powerTape.params ++ #[powerBuffer.coeff 9 0 0]) splitPowers
    let v := powerTape.rewrite powerTape.params (splitErf 16)
    let run := powerTape.sweepOrders 3 powerBuffer powerTape.noSkip #[] {}
    let run' := v.sweep 1 powerBuffer v.noSkip #[] {}
    let series := (powerBuffer.withCells run.cells).powerSeries
    u.ops.size = 14 ∧ v.ops.size = 12 ∧ run.stop = none ∧
      run.Agrees (u.sweepOrders 3 powerBuffer u.noSkip #[] {}) ∧
      (∀ z < 16, ∀ l < 2, (powerBuffer.withCells run'.cells).coeff z 1 l =
        (powerBuffer.withCells (powerTape.sweep 1 powerBuffer powerTape.noSkip #[] {}).cells).coeff
          z 1 l) ∧
      ∀ l < 2,
        AgreeBelow 3 (derivative ℚ (series l 16)) (derivative ℚ (series l 1) * series l 15) := by
  have hready : powerTape.Ready powerBuffer #[] :=
    ⟨ofSession_recorded (by decide), ⟨by decide, by decide⟩,
      by decide, by decide +kernel, by decide⟩
  have hnone : (powerTape.sweepOrders 3 powerBuffer powerTape.noSkip #[] {}).stop = none := by
    decide +kernel
  have herf : powerTape.instr 6 = .ok ⟨.erf, [1, 1, 2], 16⟩ := by decide
  obtain ⟨hexpand, hintegral⟩ := sweeps_expand (t := powerTape) (b := powerBuffer) {} {}
  obtain ⟨hpowers, hrows⟩ := hexpand hready
  refine ⟨by decide, by decide, hnone, ?_, ?_, ?_⟩
  · exact (hpowers mul_comm _ _ expandsPowers_splitPowers ⟨by decide, by decide⟩ 3).2
  · intro z hz l hl
    exact hrows 6 _ herf rfl ⟨by decide, by decide⟩ 1 z hz 1 (by decide) l hl
  · intro l hl
    exact hintegral hready.recorded hready.countable hready.fits hnone 6 _ herf rfl l hl

/-- The error function of row 1, recorded behind a skip that lists its own row. -/
def strayErf : Tape ℚ := overfull [.independents 1] [6, 0, 1] [.erf 1, .finish]

/-- What is recorded before the skip, and the parameters of the error function. -/
def erfHead : Tape ℚ :=
  .ofSession [.independents 1, .parameter 0, .parameter Scalar.twoOverSqrtPi]

/-- A buffer for seven rows, with something left in the last one. -/
def strayErfBuffer : Buffer ℚ :=
  ⟨⟨⟨2, 1⟩, #[0, 0, 1, 1, 1, 0, -1, 0, 1, 0, 2, 0, 3, 5]⟩, 7⟩

/-- Behind `2 ^ 32` words an error function may be read back as that of its own row, and its row is
then no integral along its recorded operand. -/
theorem strayErf_not_integral :
    let run := strayErf.sweepOrders 1 strayErfBuffer strayErf.noSkip #[] {}
    let series := (strayErfBuffer.withCells run.cells).powerSeries 0
    strayErf.Recorded ∧ strayErfBuffer.Fits strayErf ∧ run.stop = none ∧
      ¬ AgreeBelow 1 (derivative ℚ (series 6)) (derivative ℚ (series 1) * series 5) := by
  intro run series
  have hfill : Overfills [.independents 1] [.erf 1, .finish] erfHead
      [⟨.erf, [1, 0, 1], 6⟩, ⟨.stop, [], 6⟩] := fun _ => rfl
  have hlike : strayErf.Alike _ := hfill.alike (ofSession_recorded (by decide))
    ⟨rfl, rfl, trivial⟩ (Nat.le_refl 3)
    (show erfHead.args.size + 6 + 3 < Index.argBound by decide)
  have hrun : run = _ := hlike.sweepOrders_noSkip _ _ _ _
  have hcoeff : let after := strayErfBuffer.withCells run.cells
      after.coeff 1 1 0 = 1 ∧ after.coeff 5 0 0 = 2 ∧ after.coeff 6 1 0 = 10 := by
    rw [hrun]
    decide +kernel
  obtain ⟨hx, hg, hz⟩ := hcoeff
  refine ⟨hfill.recorded, hlike.fits (by decide), ?_, fun h => ?_⟩
  · rw [hrun]
    decide +kernel
  · have hfirst := h 0 Nat.one_pos
    simp only [series, PowerSeries.coeff_derivative, coeff_zero_mul, Buffer.coeff_powerSeries, hx,
      hg, hz] at hfirst
    norm_num at hfirst

end Tape

end JetTape
