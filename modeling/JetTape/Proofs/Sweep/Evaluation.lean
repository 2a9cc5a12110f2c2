import JetTape.Proofs.Recurrence.Rational
import JetTape.Proofs.Sweep.Orders
import JetTape.Proofs.Tape.Overflow

/-!
Sweeps evaluate. On a tape of rational operations the sweeps of orders 1 to `q` leave in every row
the value that the tape has on the series of the independents, in the ring of power series without
orders above `q`.
-/
namespace JetTape

section Coefficients

variable {F : Type} [Scalar F]

/-- The coefficient of a buffer, zero outside it. -/
def Buffer.coeff (b : Buffer F) (v k l : Nat) : F :=
  match b.get v k l with
  | .ok x => x
  | .error _ => 0

theorem Buffer.Fits.coeff_eq {b : Buffer F} {t : Tape F} (h : b.Fits t) {k l : Nat} (v : Nat)
    (hk : k < b.layout.capOrder) (hl : l < b.layout.directions) :
    b.coeff v k l = b.arena.jet l v k := by
  unfold coeff
  by_cases hv : v < t.rows
  · rw [h.get_eq hv hk hl]
  · rw [h.shaped.jet_of_le (by omega)]
    cases hget : b.get v k l with
    | error f => rfl
    | ok x =>
      obtain ⟨i, hoffset, hcell⟩ := bind_eq_ok_iff.mp hget
      obtain ⟨hlt, -⟩ := Array.getElem?_eq_some_iff.mp (Index.get_eq_ok_iff.mp hcell)
      have hsize := h.shaped.size_eq
      have hrow : t.rows * b.layout.rowSize ≤ v * b.layout.rowSize :=
        Nat.mul_le_mul_right _ (by omega)
      rw [Layout.eq_cell_of_offset hoffset, Layout.cell_eq] at hlt
      simp only [Buffer.cells, Buffer.layout] at hlt hrow
      omega

/-- The values of order 0, which all directions share. -/
theorem Buffer.Fits.jet_zero_eq {b : Buffer F} {t : Tape F} (h : b.Fits t) {l : Nat}
    (hl : l < b.layout.directions) (v : Nat) : b.arena.jet l v 0 = b.coeff v 0 0 := by
  have hcap : 0 < b.layout.capOrder := (Layout.stride_eq_ok_iff.mp h.shaped.stride_eq).1
  rw [h.coeff_eq v hcap h.shaped.directed]
  exact Arena.jet_zero hl h.shaped.directed v

end Coefficients

variable {K : Type} [Field K] [LinearOrder K] [ExactScalar K]

/-- The series of a row along direction `l`, without the orders above `q`. -/
noncomputable def Buffer.truncated (b : Buffer K) (q l v : Nat) : TruncatedSeries K q :=
  Series.truncate q fun k => b.coeff v k l

theorem Buffer.Fits.truncated_eq {b : Buffer K} {t : Tape K} (h : b.Fits t) {q l : Nat} (v : Nat)
    (hq : q < b.layout.capOrder) (hl : l < b.layout.directions) :
    b.truncated q l v = Series.truncate q (b.arena.jet l v) := by
  apply Series.truncate_eq_iff.mpr
  intro k hk
  exact h.coeff_eq v (by omega) hl

namespace Tape

variable {A : Type} [CommRing A] [Algebra K A]

/-- All operations of the tape have a meaning in an algebra. -/
def IsRational (t : Tape K) : Prop := ∀ i ins, t.instr i = .ok ins → ins.op.isRational = true

/-- The valuation by the rows that are given. -/
def valuation (t : Tape K) (resolved : Array Nat) (given : Nat → A) (constantTerm : A →ₐ[K] K) :
    Valuation K A :=
  ⟨t.params, resolved, given, constantTerm⟩

/-- The order-0 coefficients of the buffer satisfy every instruction, and no divisor is zero. -/
structure SolvedBy (t : Tape K) (b : Buffer K) (resolved : Array Nat) : Prop where
  satisfied : t.SatisfiedBy (t.valuation resolved (fun v => b.coeff v 0 0) (AlgHom.id K K))
    fun v => b.coeff v 0 0
  divisors : ∀ i ins f, t.instr i = .ok ins → ins.op = .arithmetic f → f.divides = true →
    (t.valuation resolved (fun v => b.coeff v 0 0) (AlgHom.id K K)).argument
      (fun v => b.coeff v 0 0) f.sources ins.args 1 ≠ 0

variable {t : Tape K} {items : List Item} {tail : List Instr} {b : Buffer K} {q : Nat}
variable {resolved : Array Nat}

/-- Values that agree with the given independents and satisfy the items of a tape are those of its
evaluation. -/
theorem Spells.evaluate_eq (h : t.Spells items tail) (hc : t.Countable) (hops : t.IsRational)
    {e : Valuation K A} (env : Nat → A) (hloads : t.LoadsOk e.resolved)
    (hgiven : ∀ v, 0 < v → v < 1 + t.independents → env v = e.given v)
    (hsat : ∀ ins ∈ instrsOf items, 0 < ins.op.resultCount → env ins.row = e.value env ins) :
    ∀ v, 0 < v → v < t.rows → t.evaluate e v = env v := by
  have hhead : ∀ v, 0 < v → v < 1 + t.independents →
      (headInstrs t.independents).foldl e.assign 0 v = env v := by
    intro v hpos hv
    rw [Valuation.foldl_assign_head t.independents 0 v hpos hv, hgiven v hpos hv]
  have hitems := Valuation.foldl_assign h.valid
    (fun ins hins => by
      obtain ⟨i, hi⟩ := h.exists_instr hc hins
      exact hops i ins hi)
    (fun ins hins => h.args_length_lt hc hins)
    (fun ins hins s hs => by
      obtain ⟨i, hi⟩ := h.exists_instr hc hins
      exact hloads i ins hi s hs)
    hsat hhead
  have htail (start : Nat → A) : tail.foldl e.assign start = start := by
    rcases h.tail with rfl | rfl <;> rfl
  intro v hpos hv
  unfold evaluate
  rw [h.lists.instrs_eq hc.args, List.foldl_append, List.foldl_append, htail]
  exact hitems v hpos (by rwa [← h.rows])

/-- Where all instructions are settled at the orders from 1 to `q` and order 0 is solved, the rows
of the items have the values of their instructions. -/
theorem Spells.satisfied_of_settled (h : t.Spells items tail) (hc : t.Countable)
    (hops : t.IsRational) (hplain : ∀ item ∈ items, ∃ ins, item = .plain ins)
    (hsolved : t.SolvedBy b resolved) {j : Jet K} (hzero : ∀ v, j v 0 = b.coeff v 0 0)
    (hsettled : ∀ k, 0 < k → k ≤ q → ∀ item ∈ items,
      (t.plan k t.noSkip resolved).Settled item j) {given : Nat → TruncatedSeries K q}
    (hgiven : ∀ v, TruncatedSeries.constantTerm q (given v) = j v 0) :
    ∀ ins ∈ instrsOf items, 0 < ins.op.resultCount → Series.truncate q (j ins.row) =
      (t.valuation resolved given (TruncatedSeries.constantTerm q)).value
        (fun v => Series.truncate q (j v)) ins := by
  intro ins hins hcount
  obtain ⟨i, hi⟩ := h.exists_instr hc hins
  obtain ⟨item, hitem, hmem⟩ := List.mem_flatMap.mp hins
  obtain ⟨n, hvalid⟩ := h.valid.exists_valid hitem
  obtain ⟨ins', rfl⟩ := hplain item hitem
  obtain rfl : ins = ins' := by simpa [Item.instrs] using hmem
  have hsame : (fun v => b.coeff v 0 0) = fun v => j v 0 := funext fun v => (hzero v).symm
  obtain ⟨hsatisfied, hdivisors⟩ := hsolved
  rw [hsame] at hsatisfied hdivisors
  exact Valuation.truncate_row hvalid.1 (hops i ins hi) hcount (h.args_length_lt hc hins) rfl rfl
    rfl rfl (hgiven ins.row)
    (hsatisfied i ins hi (h.valid.op_ne ins hins).1 hcount)
    (fun k hk0 hk => hsettled k hk0 hk _ hitem)
    (fun f => hdivisors i ins f hi)

/-- Sweeps of the orders from 1 to `q` evaluate a rational tape in truncated series, provided that
its order-0 coefficients do what the instructions say. -/
theorem sweepOrders_evaluates (ht : t.Recorded) (hstop : t.isStopped = true) (hc : t.Countable)
    (hops : t.IsRational) (hb : b.Fits t) (hq : q < b.layout.capOrder)
    (hresolved : resolved.size = t.loads) (hloads : t.LoadsOk resolved)
    (hsolved : t.SolvedBy b resolved) (options : Options) :
    let run := t.sweepOrders q b t.noSkip resolved options
    run.stop = none ∧ ∀ v, 0 < v → v < t.rows → ∀ l < b.layout.directions,
      (b.withCells run.cells).truncated q l v =
        t.evaluate (t.valuation resolved (b.truncated q l) (TruncatedSeries.constantTerm q)) v := by
  intro run
  obtain ⟨items, tail, h⟩ := ht.spells
  have hplain : ∀ item ∈ items, ∃ ins, item = .plain ins := by
    intro item hitem
    cases item with
    | plain ins => exact ⟨ins, rfl⟩
    | call block =>
      obtain ⟨n, hvalid⟩ := h.valid.exists_valid hitem
      have hblock : block.Valid n t.params.size t.registry.size := hvalid
      have hmem : block.opening ∈ instrsOf items :=
        List.mem_flatMap.mpr ⟨_, hitem, by simp [Item.instrs, Block.instrs]⟩
      obtain ⟨i, hi⟩ := h.exists_instr hc hmem
      have hop := hops i block.opening hi
      rw [hblock.opens] at hop
      cases hop
  obtain ⟨a, hshape, hleads, hjets⟩ := h.leads_orders hc hstop hplain hresolved hloads options #[]
    Nat.one_pos hb.shaped (n := q) (by
      show 1 + q ≤ b.layout.capOrder
      omega)
  have hrun : Replay.Leads (t.replayOrders b q t.noSkip resolved options) ⟨b.arena, none, #[]⟩
      (Replay.ended none) ⟨a, none, #[]⟩ := by
    apply (Replay.leads_require hq).bind
    rw [hb.rows]
    exact hleads
  obtain ⟨hnone, hcells, -⟩ := Replay.run_of_leads hrun
  refine ⟨hnone, ?_⟩
  have harena : (b.withCells run.cells).arena = a := hshape.withCells_eq hcells
  have hb' : (b.withCells run.cells).Fits t := hb.withCells (harena ▸ hshape)
  intro v hpos hv l hl
  obtain ⟨hkept, hsettled⟩ := hjets l hl
  have hzero (v : Nat) : a.jet l v 0 = b.coeff v 0 0 := by
    rw [hkept v 0 (Or.inl Nat.one_pos), hb.coeff_eq v (by omega) hb.shaped.directed]
    exact Arena.jet_zero hl hb.shaped.directed v
  have hgiven : ∀ v, 0 < v → v < 1 + t.independents →
      Series.truncate q (a.jet l v) = b.truncated q l v := by
    intro v _ hv
    rw [hb.truncated_eq v hq hl]
    apply Series.truncate_eq_iff.mpr
    intro k _
    exact hkept v k (Or.inr (Or.inr (Or.inl hv)))
  have hfirst : ∀ v, TruncatedSeries.constantTerm q (b.truncated q l v) = a.jet l v 0 := by
    intro v
    rw [hb.truncated_eq v hq hl, TruncatedSeries.constantTerm_truncate]
    exact (hkept v 0 (Or.inl Nat.one_pos)).symm
  have hsatisfied := h.satisfied_of_settled hc hops hplain hsolved hzero
    (fun k hk0 hk => hsettled k hk0 (by omega)) hfirst
  rw [hb'.truncated_eq v hq hl, harena]
  exact (h.evaluate_eq hc hops (fun v => Series.truncate q (a.jet l v)) hloads hgiven hsatisfied v
    hpos hv).symm

end Tape

/-- A rational tape: a product, a load of it, a quotient, a conditional, a sum and a comparison. -/
def rationalTape : Tape ℚ := .ofSession
  [.independents 2, .operation (.arithmetic .mulVV) [1, 2], .parameter 3, .load 0 (.var 1),
    .operation (.arithmetic .divPV) [0, 4], .choose .lt (.var 1) (.par 0) (.var 5) (.par 0),
    .sum 0 [5, 6] [1], .compare (.compare .ltVV) 1 2, .finish]

/-- A buffer for the rational tape, solved at order 0. Its higher orders are seeds and leftovers. -/
def solvedBuffer : Buffer ℚ :=
  ⟨⟨⟨3, 2⟩, #[0, 1, 2, 2, 2, 3 / 2, 3 / 2, 5].flatMap fun c => #[c, 1, 2, 0, 1]⟩, 8⟩

/-- The instructions of the rational tape that have a row, the phantom row apart. -/
def rationalInstrs : List Instr :=
  [⟨.independent, [], 1⟩, ⟨.independent, [], 2⟩, ⟨.arithmetic .mulVV, [1, 2], 3⟩,
    ⟨.load .var, [0, 1, 0], 4⟩, ⟨.arithmetic .divPV, [0, 4], 5⟩,
    ⟨.choose, [0, 5, 1, 0, 5, 0], 6⟩, ⟨.sum, [2, 1, 0, 5, 6, 1, 3], 7⟩]

theorem mem_rationalInstrs {i : Nat} {ins : Instr} (h : rationalTape.instr i = .ok ins)
    (hstart : ins.op ≠ .start) (hcount : 0 < ins.op.resultCount) : ins ∈ rationalInstrs := by
  have hall : ∀ i < rationalTape.ops.size, ∀ ins, rationalTape.instr i = .ok ins →
      ins.op = .start ∨ ins.op.resultCount = 0 ∨ ins ∈ rationalInstrs := by
    decide
  rcases hall i (Tape.lt_of_instr h) ins h with hop | hzero | hmem
  · exact absurd hop hstart
  · omega
  · exact hmem

theorem rationalTape_solvedBy : rationalTape.SolvedBy solvedBuffer #[3] := by
  have hparams : rationalTape.params = #[3] := by decide
  have h1 : solvedBuffer.coeff 1 0 0 = 1 := by decide
  have h2 : solvedBuffer.coeff 2 0 0 = 2 := by decide
  have h3 : solvedBuffer.coeff 3 0 0 = 2 := by decide
  have h4 : solvedBuffer.coeff 4 0 0 = 2 := by decide
  have h5 : solvedBuffer.coeff 5 0 0 = 3 / 2 := by decide +kernel
  have h6 : solvedBuffer.coeff 6 0 0 = 3 / 2 := by decide +kernel
  have h7 : solvedBuffer.coeff 7 0 0 = 5 := by decide
  constructor
  · intro i ins hi hstart hcount
    have hins := mem_rationalInstrs hi hstart hcount
    simp only [rationalInstrs, List.mem_cons, List.not_mem_nil, or_false] at hins
    rcases hins with rfl | rfl | rfl | rfl | rfl | rfl | rfl
    · rfl
    · rfl
    · simp [Valuation.value, Valuation.argument, Valuation.operand, Arithmetic.sources,
        Arithmetic.apply, h1, h2, h3]
    · simp [Valuation.value, Tape.valuation, Jet.loadedRow, h3, h4]
    · simp [Valuation.value, Valuation.argument, Valuation.operand, Tape.valuation,
        Arithmetic.sources, Arithmetic.apply, h4, h5, hparams]
      norm_num
    · have hleft : Nat.testBit 5 0 = true := by decide
      have hright : Nat.testBit 5 1 = false := by decide
      have hbranch : Nat.testBit 5 2 = true := by decide
      have hlt : Scalar.lt (1 : ℚ) 3 = true := by decide
      simp [Valuation.value, Valuation.choice, Valuation.side, Valuation.operand, Tape.valuation,
        Relation.ofCode, Relation.holds, hleft, hright, hbranch, hlt, hparams, h1, h5, h6]
    · simp [Valuation.value, Valuation.operand, Tape.valuation, h1, h5, h6, h7, hparams]
      norm_num
  · intro i ins f hi hop hdivides
    have hins := mem_rationalInstrs hi (by simp [hop]) (by simp [hop, Opcode.resultCount])
    simp only [rationalInstrs, List.mem_cons, List.not_mem_nil, or_false] at hins
    rcases hins with rfl | rfl | rfl | rfl | rfl | rfl | rfl <;> cases hop
    · cases hdivides
    · simp [Valuation.argument, Valuation.operand, Arithmetic.sources, h4]

namespace Tape

theorem rationalTape_sweepOrders_evaluates :
    let run := rationalTape.sweepOrders 2 solvedBuffer rationalTape.noSkip #[3] {}
    run.stop = none ∧ ∀ v, 0 < v → v < rationalTape.rows → ∀ l < solvedBuffer.layout.directions,
      (solvedBuffer.withCells run.cells).truncated 2 l v =
        rationalTape.evaluate (rationalTape.valuation #[3] (solvedBuffer.truncated 2 l)
          (TruncatedSeries.constantTerm 2)) v := by
  have hrational : ∀ i < rationalTape.ops.size, ∀ ins, rationalTape.instr i = .ok ins →
      ins.op.isRational = true := by
    decide
  exact sweepOrders_evaluates (ofSession_recorded (by decide)) (by decide)
    ⟨by decide, by decide⟩ (fun i ins hi => hrational i (lt_of_instr hi) ins hi)
    (by decide) (by decide) (by decide) (by decide) rationalTape_solvedBy {}

/-- The sum of row 1 and itself, recorded behind a skip that lists 2 and 1 first. -/
def straySum : Tape ℚ :=
  overfull [.independents 1] [2, 1] [.operation (.arithmetic .addVV) [1, 1], .finish]

/-- A seed and a leftover. At order 0 the sum is right. -/
def straySumBuffer : Buffer ℚ := ⟨⟨⟨2, 1⟩, #[0, 0, 0, 1, 0, 5]⟩, 3⟩

/-- Behind `2 ^ 32` words a sum may be read back with its own row for an operand, and is then not
the sum that was recorded. -/
theorem straySum_not_evaluated :
    let run := straySum.sweepOrders 1 straySumBuffer straySum.noSkip #[] {}
    straySum.Recorded ∧ straySum.isStopped = true ∧ straySum.IsRational ∧
      straySumBuffer.Fits straySum ∧
      straySumBuffer.coeff 2 0 0 = straySumBuffer.coeff 1 0 0 + straySumBuffer.coeff 1 0 0 ∧
      run.stop = none ∧ (straySumBuffer.withCells run.cells).truncated 1 0 2 ≠
        straySumBuffer.truncated 1 0 1 + straySumBuffer.truncated 1 0 1 := by
  intro run
  have hfill : Overfills [.independents 1] [.operation (.arithmetic .addVV) [1, 1], .finish]
      oneTape [⟨.arithmetic .addVV, [1, 1], 2⟩, ⟨.stop, [], 2⟩] := fun _ => rfl
  have hlike : straySum.Alike _ := hfill.alike oneTape_recorded ⟨rfl, rfl, trivial⟩
    (Nat.le_refl 2) (show oneTape.args.size + 6 + 2 < Index.argBound by decide)
  have hrun : run = _ := hlike.sweepOrders_noSkip _ _ _ _
  have hrational : ∀ op ∈ straySum.ops, op.isRational = true := by
    rw [hlike.ops]
    decide
  refine ⟨hfill.recorded, hlike.isStopped.trans (by decide), ?_,
    hlike.fits (by decide), by with_unfolding_all decide, ?_, fun h => ?_⟩
  · exact fun i ins hins => hrational _ (Array.mem_of_getElem? (of_instr hins).1)
  · rw [hrun]
    with_unfolding_all decide
  · have hsum : straySumBuffer.truncated 1 0 1 + straySumBuffer.truncated 1 0 1 =
        Series.truncate 1 fun k => straySumBuffer.coeff 1 k 0 + straySumBuffer.coeff 1 k 0 :=
      (Series.truncate_eq_add fun _ _ => rfl).symm
    rw [hsum] at h
    have hfirst := Series.truncate_eq_iff.mp h 1 (Nat.le_refl 1)
    revert hfirst
    rw [hrun]
    with_unfolding_all decide

end Tape

end JetTape
