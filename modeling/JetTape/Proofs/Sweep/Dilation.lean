import JetTape.Proofs.Recurrence.Dilation
import JetTape.Proofs.Sweep.Evaluation
import JetTape.Proofs.Tape.Overflow

/-!
Sweeps along dilated curves. If the coefficients of order `k` of the independents are multiplied by
the `k`-th power of a factor, then so are those of all rows that the sweeps compute. What a sweep
settles is determined by order 0 and by the independents, so it is enough that dilated jets are
settled too.
-/
namespace JetTape

variable {K : Type} [Field K] [LinearOrder K] [ExactScalar K]

/-- A plain item that is settled on a jet is settled on its dilations. -/
theorem Plan.Settled.dilate {p : Plan K} {ins : Instr} {j : Jet K}
    (h : p.Settled (.plain ins) j) (c : K) : p.Settled (.plain ins) (j.dilate c) := by
  have hj : j.advance p.order p.params p.resolved ins = j := h
  show (j.dilate c).advance p.order p.params p.resolved ins = j.dilate c
  rw [Jet.advance_dilate, hj]

namespace Tape

variable {t : Tape K} {items : List Item} {tail : List Instr} {b b' : Buffer K} {q : Nat}
variable {resolved : Array Nat}

/-- Where everything is settled, dilated independents make all rows dilated. -/
theorem Spells.dilate_of_settled (h : t.Spells items tail) (hc : t.Countable)
    (hplain : ∀ item ∈ items, ∃ ins, item = .plain ins) (hloads : t.LoadsOk resolved) {c : K}
    {j j' : Jet K} (hzero : ∀ v, j' v 0 = j v 0)
    (hseeds : ∀ v, 0 < v → v < 1 + t.independents → ∀ k, 0 < k → k ≤ q →
      j' v k = c ^ k * j v k)
    (hj : ∀ k, 0 < k → k ≤ q → ∀ item ∈ items, (t.plan k t.noSkip resolved).Settled item j)
    (hj' : ∀ k, 0 < k → k ≤ q → ∀ item ∈ items, (t.plan k t.noSkip resolved).Settled item j') :
    ∀ k ≤ q, ∀ v, 0 < v → v < t.rows → j' v k = c ^ k * j v k := by
  have hvalues (v : Nat) : j' v 0 = j.dilate c v 0 := by
    rw [Jet.dilate_value, hzero]
  show ∀ k ≤ q, ∀ v, 0 < v → v < t.rows → j' v k = j.dilate c v k
  refine h.eq_of_settled hc hplain hloads hvalues ?_ hj' ?_
  · intro v hpos hv k hk
    rcases Nat.eq_zero_or_pos k with rfl | hk0
    · exact hvalues v
    · exact hseeds v hpos hv k hk0 hk
  · intro k hk0 hk item hitem
    obtain ⟨ins, rfl⟩ := hplain item hitem
    exact (hj k hk0 hk _ hitem).dilate c

/-- Sweeps along curves whose parameters differ by a factor leave, in all rows but the phantom row,
coefficients that differ by its powers. A direction that is not seeded stays constant. Divisors may
vanish at order 0: over a field every quotient has a value. -/
theorem sweepOrders_dilates (ht : t.Recorded) (hstop : t.isStopped = true) (hc : t.Countable)
    (hcalls : Opcode.callMarker ∉ t.ops) (hb : b.Fits t) (hb' : b'.Fits t)
    (hdirections : b'.layout.directions = b.layout.directions) (hq : q < b.layout.capOrder)
    (hq' : q < b'.layout.capOrder) (hresolved : resolved.size = t.loads)
    (hloads : t.LoadsOk resolved) (c : Nat → K)
    (hzero : ∀ v < t.rows, b'.coeff v 0 0 = b.coeff v 0 0)
    (hseeds : ∀ l < b.layout.directions, ∀ v, 0 < v → v ≤ t.independents → ∀ k, 0 < k → k ≤ q →
      b'.coeff v k l = c l ^ k * b.coeff v k l)
    (options options' : Options) :
    let run := t.sweepOrders q b t.noSkip resolved options
    let run' := t.sweepOrders q b' t.noSkip resolved options'
    run.stop = none ∧ run'.stop = none ∧ ∀ l < b.layout.directions,
      (∀ k ≤ q, ∀ v, 0 < v → v < t.rows →
        (b'.withCells run'.cells).coeff v k l = c l ^ k * (b.withCells run.cells).coeff v k l) ∧
      ((∀ v, 0 < v → v ≤ t.independents → ∀ k, 0 < k → k ≤ q → b.coeff v k l = 0) →
        ∀ k, 0 < k → k ≤ q → ∀ v, 0 < v → v < t.rows →
          (b.withCells run.cells).coeff v k l = 0) := by
  intro run run'
  obtain ⟨items, tail, h⟩ := ht.spells
  have hplain := h.plain_of_no_marker hcalls
  obtain ⟨hnone, hfits, hjets⟩ :=
    h.sweepOrders_settles hc hstop hplain hb hq hresolved hloads options
  obtain ⟨hnone', hfits', hjets'⟩ :=
    h.sweepOrders_settles hc hstop hplain hb' hq' hresolved hloads options'
  refine ⟨hnone, hnone', ?_⟩
  intro l hl
  have hl' : l < b'.layout.directions := hdirections.symm ▸ hl
  obtain ⟨hkept, hsettled⟩ := hjets l hl
  obtain ⟨hkept', hsettled'⟩ := hjets' l hl'
  have hbefore {v k : Nat} (hk : k ≤ q) : b.arena.jet l v k = b.coeff v k l :=
    (hb.coeff_eq v (Nat.lt_of_le_of_lt hk hq) hl).symm
  have hbefore' {v k : Nat} (hk : k ≤ q) : b'.arena.jet l v k = b'.coeff v k l :=
    (hb'.coeff_eq v (Nat.lt_of_le_of_lt hk hq') hl').symm
  have hafter {v k : Nat} (hk : k ≤ q) : (b.withCells run.cells).coeff v k l =
      (b.withCells run.cells).arena.jet l v k :=
    hfits.coeff_eq v (Nat.lt_of_le_of_lt hk hq) hl
  have hafter' {v k : Nat} (hk : k ≤ q) : (b'.withCells run'.cells).coeff v k l =
      (b'.withCells run'.cells).arena.jet l v k :=
    hfits'.coeff_eq v (Nat.lt_of_le_of_lt hk hq') hl'
  have hvalues (v : Nat) : (b'.withCells run'.cells).arena.jet l v 0 =
      (b.withCells run.cells).arena.jet l v 0 := by
    rw [hkept v 0 (Or.inl rfl), hkept' v 0 (Or.inl rfl)]
    by_cases hv : v < t.rows
    · have hcommon := hzero v hv
      rw [hb.coeff_eq v (by omega) hb.shaped.directed,
        hb'.coeff_eq v (by omega) hb'.shaped.directed] at hcommon
      rw [Arena.jet_zero hl hb.shaped.directed, Arena.jet_zero hl' hb'.shaped.directed, hcommon]
    · rw [hb.shaped.jet_of_le (by omega), hb'.shaped.jet_of_le (by omega)]
  constructor
  · intro k hk v hpos hv
    rw [hafter hk, hafter' hk]
    refine h.dilate_of_settled hc hplain hloads hvalues ?_ hsettled hsettled' k hk v hpos hv
    intro v hpos hv k hk0 hk
    rw [hkept v k (Or.inr hv), hkept' v k (Or.inr hv), hbefore hk, hbefore' hk]
    exact hseeds l hl v hpos (by omega) k hk0 hk
  · intro hnoSeed k hk0 hk v hpos hv
    -- An unseeded jet is its own dilation by zero.
    have hself := h.dilate_of_settled hc hplain hloads (c := 0) (fun _ => rfl)
      (fun v hpos hv k hk0 hk => by
        rw [hkept v k (Or.inr hv), hbefore hk, hnoSeed v hpos (by omega) k hk0 hk, mul_zero])
      hsettled hsettled k hk v hpos hv
    rw [hafter hk, hself, zero_pow (Nat.ne_of_gt hk0), zero_mul]

end Tape

/-- A tape of curved operations: a load, a power, a tangent, an error function and a conditional. -/
def curvedTape : Tape ℚ := .ofSession
  [.independents 1, .parameter 3, .load 0 (.var 1), .operation (.power .vp) [2, 0],
    .operation (.elementary .tan) [5], .erf 7, .choose .lt (.var 1) (.par 0) (.var 12) (.par 0),
    .finish]

/-- A buffer for the curved tape: orders below 3, two directions, ones everywhere. -/
def unitBuffer : Buffer ℚ := ⟨⟨⟨3, 2⟩, Array.replicate 70 1⟩, 14⟩

/-- The unit buffer with the first direction twice as fast and the second one at rest. -/
def dilatedBuffer : Buffer ℚ :=
  unitBuffer.withCells
    ((((unitBuffer.cells.set! 6 2).set! 7 0).set! 8 4).set! 9 0)

namespace Tape

theorem curvedTape_sweepOrders_dilates :
    let run := curvedTape.sweepOrders 2 unitBuffer curvedTape.noSkip #[1] {}
    let run' := curvedTape.sweepOrders 2 dilatedBuffer curvedTape.noSkip #[1] {}
    run.stop = none ∧ run'.stop = none ∧ ∀ l < 2, ∀ k ≤ 2, ∀ v, 0 < v → v < 14 →
      (dilatedBuffer.withCells run'.cells).coeff v k l =
        (2 * (1 - l)) ^ k * (unitBuffer.withCells run.cells).coeff v k l := by
  have hrows : curvedTape.rows = 14 := by decide
  have hindependents : curvedTape.independents = 1 := by decide
  have hseeds : ∀ l < 2, ∀ k ≤ 2, 0 < k →
      dilatedBuffer.coeff 1 k l = (2 * (1 - l)) ^ k * unitBuffer.coeff 1 k l := by
    decide +kernel
  have hfits : dilatedBuffer.Fits curvedTape := by decide
  have hloads : curvedTape.LoadsOk #[1] := by decide
  obtain ⟨hnone, hnone', hrun⟩ := sweepOrders_dilates (t := curvedTape) (q := 2) (b := unitBuffer)
    (ofSession_recorded (by decide)) (by decide)
    ⟨by decide, by decide⟩ (by decide +kernel) (by decide) hfits rfl
    (by decide) (by decide) (by decide) hloads
    (fun l => 2 * (1 - l)) (by decide)
    (fun l hl v hpos hv k hk0 hk => by
      obtain rfl : v = 1 := by omega
      exact hseeds l hl k hk hk0)
    {} {}
  exact ⟨hnone, hnone', fun l hl k hk v hpos hv =>
    (hrun l hl).1 k hk v hpos (by rw [hrows]; exact hv)⟩

/-- Behind `2 ^ 32` words an exponential may be read back as that of its own row. Seeds that are
twice as large then do not make its coefficients twice as large. -/
theorem stray_not_dilated :
    let t := stray .exp 2
    let run := t.sweepOrders 1 (strayBuffer 1 5) t.noSkip #[] {}
    let run' := t.sweepOrders 1 (strayBuffer 2 5) t.noSkip #[] {}
    t.Recorded ∧ t.isStopped = true ∧ Opcode.callMarker ∉ t.ops ∧
      (strayBuffer 1 5).Fits t ∧ (strayBuffer 2 5).Fits t ∧ t.LoadsOk #[] ∧
      (∀ v < 3, (strayBuffer 2 5).coeff v 0 0 = (strayBuffer 1 5).coeff v 0 0) ∧
      (strayBuffer 2 5).coeff 1 1 0 = 2 * (strayBuffer 1 5).coeff 1 1 0 ∧
      run.stop = none ∧ run'.stop = none ∧
      ((strayBuffer 2 5).withCells run'.cells).coeff 2 1 0 ≠
        2 * ((strayBuffer 1 5).withCells run.cells).coeff 2 1 0 := by
  intro t run run'
  have hlike : t.Alike (strayRead .exp 2) := stray_alike .exp 2
  have hcalls : Opcode.callMarker ∉ t.ops := by
    rw [hlike.ops]
    with_unfolding_all decide
  have hrun : run = _ := hlike.sweepOrders_noSkip _ _ _ _
  have hrun' : run' = _ := hlike.sweepOrders_noSkip _ _ _ _
  obtain ⟨hnone, hcells⟩ := strayRead_sweepOrders 1 5
  obtain ⟨hnone', hcells'⟩ := strayRead_sweepOrders 2 5
  refine ⟨stray_recorded .exp 2, hlike.isStopped.trans (by decide), hcalls,
    hlike.fits (by decide), hlike.fits (by decide),
    hlike.loadsOk (by decide), by decide, by with_unfolding_all decide,
    ?_⟩
  rw [hrun, hrun', hcells, hcells']
  exact ⟨hnone, hnone', by with_unfolding_all decide⟩

end Tape

end JetTape
