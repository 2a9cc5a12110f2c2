import JetTape.Proofs.Recurrence.Slope
import JetTape.Proofs.Sweep.Dilation
import JetTape.Proofs.Tape.Overflow

/-!
Sweeps are affine in what is seeded at their own order. Two sweeps of order `q` over buffers that
agree below it leave coefficients of order `q` that differ by a directional derivative: by what a
sweep of order 1 computes along the differences of the seeds. The orders between 0 and `q` do not
enter into it.
-/
namespace JetTape

open Jet (Agree PassesOn Varies ofChange passesOn_advance passesOn_refl)

variable {K : Type} [Field K] [LinearOrder K] [ExactScalar K]

/-- Plain items commute with dilations. -/
theorem Plan.advanceItems_dilate (p : Plan K) {items : List Item}
    (hplain : ∀ item ∈ items, ∃ ins, item = .plain ins) (i : Nat) (c : K) (j : Jet K) :
    p.advanceItems i items (j.dilate c) = (p.advanceItems i items j).dilate c := by
  induction items generalizing i j with
  | nil => rfl
  | cons item rest ih =>
    obtain ⟨ins, rfl⟩ := hplain item List.mem_cons_self
    have hrest := ih fun item hi => hplain item (List.mem_cons_of_mem _ hi)
    rw [advanceItems, advanceItems]
    split
    · exact hrest _ j
    · rw [advance, Jet.advance_dilate]
      exact hrest _ _

namespace Tape

variable {t : Tape K} {items : List Item} {tail : List Instr} {b b' g : Buffer K} {q : Nat}
variable {resolved : Array Nat}

/-- A sweep without calls and without a mask advances every direction and comes to its end. -/
theorem Spells.sweep_advances (h : t.Spells items tail) (hc : t.Countable)
    (hstop : t.isStopped = true) (hplain : ∀ item ∈ items, ∃ ins, item = .plain ins)
    (hb : b.Fits t) (hq0 : 0 < q) (hq : q < b.layout.capOrder) (hresolved : resolved.size = t.loads)
    (hloads : t.LoadsOk resolved) (options : Options) :
    let run := t.sweep q b t.noSkip resolved options
    run.stop = none ∧ (b.withCells run.cells).Fits t ∧ ∀ l < b.layout.directions,
      (b.withCells run.cells).arena.jet l =
        (t.plan q t.noSkip resolved).advanceItems (t.independents + 1) items (b.arena.jet l) := by
  intro run
  have hshapes : Replay.checkShapes t.program q t.noSkip resolved b.arena = .ok () :=
    (Arena.Shaped.checkShapes_eq_ok_iff (P := t.program) hb.shaped).mpr
      ⟨⟨hb.shaped, hq0, hq⟩, Array.size_replicate, hresolved⟩
  obtain ⟨hout, -, hshape, hjets⟩ := h.sweep hc hstop hb hshapes (maskOk_noSkip t) hloads options
  have hnone := (Plan.replayItems_of_plain (t.plan q t.noSkip resolved) b.layout.directions
    (t.independents + 1) hplain b.arena.jet).1
  refine ⟨hout.trans hnone, hb.withCells hshape, ?_⟩
  intro l hl
  rw [hjets l hl, (Plan.replayItems_eq_none hnone).2]

/-- Jets that agree at the orders below `q`, and at order `q` on the independents, advance to jets
that agree on all rows of the tape. -/
theorem Spells.advanceItems_agree (h : t.Spells items tail) (hc : t.Countable)
    (hplain : ∀ item ∈ items, ∃ ins, item = .plain ins) (hresolved : resolved.size = t.loads)
    (hloads : t.LoadsOk resolved) (hq0 : 0 < q) {j j' : Jet K}
    (hj : Agree q (fun v => 0 < v ∧ v < 1 + t.independents) j j') :
    ∀ v, 0 < v → v < t.rows →
      (t.plan q t.noSkip resolved).advanceItems (t.independents + 1) items j v q =
        (t.plan q t.noSkip resolved).advanceItems (t.independents + 1) items j' v q := by
  let p := t.plan q t.noSkip resolved
  have hitems : ValidItems p.params.size resolved.size t.registry.size (1 + t.independents)
      items := by
    rw [hresolved]
    exact h.valid
  have hnone (j : Jet K) :=
    (Plan.replayItems_of_plain p 1 (t.independents + 1) hplain fun _ => j).1
  have hagree := (Plan.agree_replayItems (p := p) (r := 1) (i := t.independents + 1) hq0
    (fun _ _ => hj) (fun v hpos hv => ⟨hpos, hv⟩)
    (fun v hv => absurd hv (Plan.not_passedRow (marks_noSkip t q resolved) _ _ _ v)) hitems
    (fun item hitem => (h.serves hc hloads item hitem).admits)).2.2 (hnone j) 0 Nat.one_pos
  rw [(Plan.replayItems_eq_none (hnone j)).2, (Plan.replayItems_eq_none (hnone j')).2] at hagree
  intro v hpos hv
  have hrows := h.rows
  exact hagree v q (Or.inr ⟨rfl, by omega⟩)

variable [IsStrictOrderedRing K]

/-- Plain items pass changes on, as each of their instructions does. -/
theorem passesOn_advanceItems (t : Tape K) (mask : Array Bool) (resolved : Array Nat)
    {items : List Item} (hplain : ∀ item ∈ items, ∃ ins, item = .plain ins) (i : Nat)
    (a : Nat → K) :
    PassesOn a fun q j => (t.plan q mask resolved).advanceItems i items j := by
  induction items generalizing i with
  | nil => exact passesOn_refl a
  | cons item rest ih =>
    obtain ⟨ins, rfl⟩ := hplain item List.mem_cons_self
    have hrest := ih (fun item hi => hplain item (List.mem_cons_of_mem _ hi)) (i + 1)
    have hfirst := passesOn_advance a t.params resolved ins
    cases hmark : mask.getD i false with
    | true =>
      have heq (q : Nat) (j : Jet K) : (t.plan q mask resolved).advanceItems i (.plain ins :: rest) j =
          (t.plan q mask resolved).advanceItems (i + 1) rest j := by
        rw [Plan.advanceItems, if_pos (show (t.plan q mask resolved).marks i = true from hmark)]
        rfl
      simpa only [heq] using hrest
    | false =>
      have heq (q : Nat) (j : Jet K) : (t.plan q mask resolved).advanceItems i (.plain ins :: rest) j =
          (t.plan q mask resolved).advanceItems (i + 1) rest (j.advance q t.params resolved ins) := by
        have hmark : (t.plan q mask resolved).marks i = false := hmark
        rw [Plan.advanceItems, hmark]
        rfl
      simpa only [heq] using hfirst.trans hrest

/-- Jets that agree below order `q` advance to jets that differ at order `q` by the order-1
coefficients of the jet with their values and with their differences. -/
theorem Spells.advanceItems_change (h : t.Spells items tail) (hc : t.Countable)
    (hplain : ∀ item ∈ items, ∃ ins, item = .plain ins) (hresolved : resolved.size = t.loads)
    (hloads : t.LoadsOk resolved) (hq0 : 0 < q) {j j' s : Jet K}
    (hbelow : ∀ v, Series.EqBelow q (j v) (j' v)) (hvalues : ∀ v, s v 0 = j v 0)
    (hseeds : ∀ v, 0 < v → v < 1 + t.independents → s v 1 = j' v q - j v q) :
    let last := fun q => (t.plan q t.noSkip resolved).advanceItems (t.independents + 1) items
    ∀ v, 0 < v → v < t.rows → last q j' v q - last q j v q = last 1 s v 1 := by
  intro last v hpos hv
  let a (v : Nat) := j v 0
  let d (v : Nat) := j' v q - j v q
  obtain ⟨d', hpasses⟩ := passesOn_advanceItems t t.noSkip resolved hplain (t.independents + 1) a d
  have hj : Varies q j j' a d := fun v => ⟨rfl, hbelow v, rfl⟩
  -- At order 1 the change is counted from the jet at rest, which stays at rest.
  have hrest : Varies 1 ((ofChange a d).dilate 0) (ofChange a d) a d := by
    intro v
    refine ⟨Jet.dilate_value 0 _ v, fun k hk => ?_, ?_⟩
    · obtain rfl : k = 0 := by omega
      exact Jet.dilate_value 0 _ v
    · rw [Jet.dilate_order, pow_one, zero_mul, sub_zero]
      rfl
  have hslope : last 1 (ofChange a d) v 1 = d' v := by
    have hatRest : last 1 ((ofChange a d).dilate 0) = (last 1 (ofChange a d)).dilate 0 :=
      Plan.advanceItems_dilate _ hplain _ 0 _
    have hchange : last 1 (ofChange a d) v 1 - last 1 ((ofChange a d).dilate 0) v 1 = d' v :=
      (hpasses 1 Nat.one_pos _ _ hrest v).change
    rwa [hatRest, Jet.dilate_order, pow_one, zero_mul, sub_zero] at hchange
  have hagree : Agree 1 (fun v => 0 < v ∧ v < 1 + t.independents) s (ofChange a d) := by
    rintro v k (hk | ⟨rfl, hpos, hv⟩)
    · obtain rfl : k = 0 := by omega
      exact hvalues v
    · exact hseeds v hpos hv
  have hsame : last 1 s v 1 = last 1 (ofChange a d) v 1 :=
    h.advanceItems_agree hc hplain hresolved hloads Nat.one_pos hagree v hpos hv
  rw [hsame, hslope]
  exact (hpasses q hq0 _ _ hj v).change

/-- Two sweeps of order `q` over buffers that agree below that order differ in every row but the
phantom row by what a sweep of order 1 over the same order-0 values computes when the independents
are seeded with the differences of their seeds. Divisors may vanish at order 0: over a field every
quotient has a value. -/
theorem sweep_affine (ht : t.Recorded) (hstop : t.isStopped = true) (hc : t.Countable)
    (hcalls : Opcode.callMarker ∉ t.ops) (hb : b.Fits t) (hb' : b'.Fits t) (hg : g.Fits t)
    (hdirections : b'.layout.directions = b.layout.directions)
    (hdirections' : g.layout.directions = b.layout.directions) (hq0 : 0 < q)
    (hq : q < b.layout.capOrder) (hq' : q < b'.layout.capOrder) (hg1 : 1 < g.layout.capOrder)
    (hresolved : resolved.size = t.loads) (hloads : t.LoadsOk resolved)
    (hbelow : ∀ l < b.layout.directions, ∀ v < t.rows, ∀ k < q, b'.coeff v k l = b.coeff v k l)
    (hvalues : ∀ v < t.rows, g.coeff v 0 0 = b.coeff v 0 0)
    (hseeds : ∀ l < b.layout.directions, ∀ v, 0 < v → v ≤ t.independents →
      g.coeff v 1 l = b'.coeff v q l - b.coeff v q l)
    (options options' options'' : Options) :
    let run := t.sweep q b t.noSkip resolved options
    let run' := t.sweep q b' t.noSkip resolved options'
    let slope := t.sweep 1 g t.noSkip resolved options''
    run.stop = none ∧ run'.stop = none ∧ slope.stop = none ∧
      ∀ l < b.layout.directions, ∀ v, 0 < v → v < t.rows →
        (b'.withCells run'.cells).coeff v q l - (b.withCells run.cells).coeff v q l =
          (g.withCells slope.cells).coeff v 1 l := by
  intro run run' slope
  obtain ⟨items, tail, h⟩ := ht.spells
  have hplain := h.plain_of_no_marker hcalls
  obtain ⟨hnone, hfits, hjets⟩ :=
    h.sweep_advances hc hstop hplain hb hq0 hq hresolved hloads options
  obtain ⟨hnone', hfits', hjets'⟩ :=
    h.sweep_advances hc hstop hplain hb' hq0 hq' hresolved hloads options'
  obtain ⟨hnone'', hfits'', hjets''⟩ :=
    h.sweep_advances hc hstop hplain hg Nat.one_pos hg1 hresolved hloads options''
  refine ⟨hnone, hnone', hnone'', ?_⟩
  intro l hl v hpos hv
  have hl' : l < b'.layout.directions := hdirections.symm ▸ hl
  have hl'' : l < g.layout.directions := hdirections'.symm ▸ hl
  rw [hfits.coeff_eq v hq hl, hfits'.coeff_eq v hq' hl', hfits''.coeff_eq v hg1 hl'', hjets l hl,
    hjets' l hl', hjets'' l hl'']
  refine h.advanceItems_change hc hplain hresolved hloads hq0 ?_ ?_ ?_ v hpos hv
  · intro v k hk
    by_cases hv : v < t.rows
    · rw [← hb.coeff_eq v (by omega) hl, ← hb'.coeff_eq v (by omega) hl', hbelow l hl v hv k hk]
    · rw [hb.shaped.jet_of_le (by omega), hb'.shaped.jet_of_le (by omega)]
  · intro v
    by_cases hv : v < t.rows
    · have hcommon := hvalues v hv
      rw [hg.coeff_eq v (by omega) hg.shaped.directed,
        hb.coeff_eq v (by omega) hb.shaped.directed] at hcommon
      rw [Arena.jet_zero hl hb.shaped.directed, Arena.jet_zero hl'' hg.shaped.directed, hcommon]
    · rw [hg.shaped.jet_of_le (by omega), hb.shaped.jet_of_le (by omega)]
  · intro v hpos hv
    rw [← hg.coeff_eq v hg1 hl'', ← hb'.coeff_eq v hq' hl', ← hb.coeff_eq v hq hl]
    exact hseeds l hl v hpos (by omega)

end Tape

/-- The unit buffer with other seeds of order 2. -/
def bentBuffer : Buffer ℚ :=
  unitBuffer.withCells ((unitBuffer.cells.set! 8 4).set! 9 (1 / 2))

/-- A buffer of order 1 whose seeds are the differences of the seeds of order 2. -/
def slopeBuffer : Buffer ℚ :=
  ⟨⟨⟨2, 2⟩, ((Array.replicate 42 1).set! 4 3).set! 5 (-1 / 2)⟩, 14⟩

namespace Tape

theorem curvedTape_sweep_affine :
    let run := curvedTape.sweep 2 unitBuffer curvedTape.noSkip #[1] {}
    let run' := curvedTape.sweep 2 bentBuffer curvedTape.noSkip #[1] {}
    let slope := curvedTape.sweep 1 slopeBuffer curvedTape.noSkip #[1] {}
    run.stop = none ∧ run'.stop = none ∧ slope.stop = none ∧
      (∀ l < 2, (slopeBuffer.withCells slope.cells).coeff 13 1 l ≠ 0) ∧
      ∀ l < 2, ∀ v, 0 < v → v < 14 →
        (bentBuffer.withCells run'.cells).coeff v 2 l -
          (unitBuffer.withCells run.cells).coeff v 2 l =
            (slopeBuffer.withCells slope.cells).coeff v 1 l := by
  intro run run' slope
  have hrows : curvedTape.rows = 14 := by decide
  have hindependents : curvedTape.independents = 1 := by decide
  have hfits : unitBuffer.Fits curvedTape := by decide
  have hfits' : bentBuffer.Fits curvedTape := by decide
  have hfits'' : slopeBuffer.Fits curvedTape := by decide
  have hbelow : ∀ l < 2, ∀ v < curvedTape.rows, ∀ k < 2,
      bentBuffer.coeff v k l = unitBuffer.coeff v k l := by
    decide
  have hvalues : ∀ v < curvedTape.rows, slopeBuffer.coeff v 0 0 = unitBuffer.coeff v 0 0 := by
    decide
  have hseeds : ∀ l < 2,
      slopeBuffer.coeff 1 1 l = bentBuffer.coeff 1 2 l - unitBuffer.coeff 1 2 l := by
    decide +kernel
  have hloads : curvedTape.LoadsOk #[1] := by decide
  have hslope : ∀ l < 2, (slopeBuffer.withCells slope.cells).coeff 13 1 l ≠ 0 := by
    decide +kernel
  obtain ⟨hnone, hnone', hnone'', hrun⟩ := sweep_affine (t := curvedTape) (q := 2)
    (ofSession_recorded (by decide)) (by decide)
    ⟨by decide, by decide⟩ (by decide +kernel) hfits hfits' hfits'' rfl rfl
    (by decide) (by decide) (by decide) (by decide) (by decide) hloads hbelow hvalues
    (fun l hl v hpos hv => by
      obtain rfl : v = 1 := by omega
      exact hseeds l hl)
    {} {} {}
  exact ⟨hnone, hnone', hnone'', hslope, fun l hl v hpos hv =>
    hrun l hl v hpos (by rw [hrows]; exact hv)⟩

/-- Behind `2 ^ 32` words an exponential may be read back as that of its own row. Buffers with the
same seeds are then left with different coefficients. -/
theorem stray_not_affine :
    let t := stray .exp 2
    let run := t.sweep 1 (strayBuffer 1 5) t.noSkip #[] {}
    let run' := t.sweep 1 (strayBuffer 1 7) t.noSkip #[] {}
    let slope := t.sweep 1 (strayBuffer 0 0) t.noSkip #[] {}
    t.Recorded ∧ t.isStopped = true ∧ Opcode.callMarker ∉ t.ops ∧ (strayBuffer 1 5).Fits t ∧
      (strayBuffer 1 7).Fits t ∧ (strayBuffer 0 0).Fits t ∧ t.LoadsOk #[] ∧
      run.stop = none ∧ run'.stop = none ∧ slope.stop = none ∧
      ((strayBuffer 1 7).withCells run'.cells).coeff 2 1 0 -
          ((strayBuffer 1 5).withCells run.cells).coeff 2 1 0 ≠
        ((strayBuffer 0 0).withCells slope.cells).coeff 2 1 0 := by
  intro t run run' slope
  have hlike : t.Alike (strayRead .exp 2) := stray_alike .exp 2
  have hcalls : Opcode.callMarker ∉ t.ops := by
    rw [hlike.ops]
    with_unfolding_all decide
  have hrun : run = _ := hlike.sweep_noSkip _ _ _ _
  have hrun' : run' = _ := hlike.sweep_noSkip _ _ _ _
  have hslope : slope = _ := hlike.sweep_noSkip _ _ _ _
  obtain ⟨hnone, hcells⟩ := strayRead_sweep 1 5
  obtain ⟨hnone', hcells'⟩ := strayRead_sweep 1 7
  obtain ⟨hnone'', hcells''⟩ := strayRead_sweep 0 0
  refine ⟨stray_recorded .exp 2, hlike.isStopped.trans (by decide), hcalls,
    hlike.fits (by decide), hlike.fits (by decide),
    hlike.fits (by decide), hlike.loadsOk (by decide), ?_⟩
  rw [hrun, hrun', hslope, hcells, hcells', hcells'']
  exact ⟨hnone, hnone', hnone'', by with_unfolding_all decide⟩

end Tape

end JetTape
