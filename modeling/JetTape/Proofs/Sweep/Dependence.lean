import JetTape.Proofs.Sweep.Run
import JetTape.Proofs.Tape.Overflow

/-!
What a sweep may depend on: lower orders, its own order on the independents, and its own order on
the rows of skipped instructions. Two sweeps that agree on that end alike and leave the same
coefficients, so stale coefficients never influence a sweep, and a sweep that is repeated changes
nothing.
-/
namespace JetTape

open Jet (Agree)

variable {F : Type}

namespace Tape

/-- The buffers have one layout and agree on all that a sweep of order `q` may depend on. -/
structure AgreeBefore (t : Tape F) (q : Nat) (mask : Array Bool) (b b' : Buffer F) : Prop where
  layout : b'.layout = b.layout
  below : ∀ v < t.rows, ∀ k < q, ∀ l < b.layout.directions, b.get v k l = b'.get v k l
  independents : ∀ v, 0 < v → v ≤ t.independents → ∀ l < b.layout.directions,
    b.get v q l = b'.get v q l
  skipped : ∀ i ins v, t.instr i = .ok ins → t.Skipped mask i → ins.Owns v →
    ∀ l < b.layout.directions, b.get v q l = b'.get v q l

variable [Scalar F] {t : Tape F} {items : List Item} {tail : List Instr} {b b' : Buffer F}
variable {q : Nat} {mask : Array Bool} {resolved : Array Nat}

/-- The rows on which jets must agree at the order of the sweep. -/
def givenRow (t : Tape F) (q : Nat) (mask : Array Bool) (resolved : Array Nat)
    (items : List Item) (v : Nat) : Prop :=
  (0 < v ∧ v < 1 + t.independents) ∨
    (t.plan q mask resolved).PassedRow (t.independents + 1) (1 + t.independents) items v

/-- Buffers that agree before a sweep have jets that agree. -/
theorem AgreeBefore.agree (hagree : t.AgreeBefore q mask b b') (h : t.Spells items tail)
    (hc : t.Countable) (hb : b.Fits t) (hb' : b'.Fits t) (hq : q < b.layout.capOrder) :
    ∀ l < b.layout.directions,
      Agree q (t.givenRow q mask resolved items) (b.arena.jet l) (b'.arena.jet l) := by
  intro l hl v k hk
  by_cases hv : v < t.rows
  · have hlayout := hagree.layout
    have hget := hb.get_eq hv (show k < b.layout.capOrder by omega) hl
    have hget' := hb'.get_eq hv (show k < b'.layout.capOrder by rw [hlayout]; omega)
      (by rw [hlayout]; exact hl)
    have hsame : b.get v k l = b'.get v k l := by
      rcases hk with hk | ⟨rfl, ⟨hpos, hlt⟩ | hpassed⟩
      · exact hagree.below v hv k hk l hl
      · exact hagree.independents v hpos (by omega) l hl
      · obtain ⟨i, ins, hi, howns, hskipped⟩ := h.skipped_of_passedRow hc hpassed
        exact hagree.skipped i ins v hi hskipped howns l hl
    rw [hget, hget'] at hsame
    exact Except.ok.inj hsame
  · rw [hb.shaped.jet_of_le (by omega), hb'.shaped.jet_of_le (by omega)]

/-- Sweeps from jets that agree end alike and leave jets that agree on all rows of the tape. -/
theorem Spells.agree_sweep (h : t.Spells items tail) (hc : t.Countable)
    (hloads : t.LoadsOk resolved) (hresolved : resolved.size = t.loads) (hq : 0 < q) {r : Nat}
    {js js' : Nat → Jet F}
    (hagree : ∀ l < r, Agree q (t.givenRow q mask resolved items) (js l) (js' l)) :
    let out := (t.plan q mask resolved).replayItems r (t.independents + 1) items js
    let out' := (t.plan q mask resolved).replayItems r (t.independents + 1) items js'
    out.stop = out'.stop ∧ out.requests = out'.requests ∧
      (out.stop = none → ∀ v, 0 < v → v < t.rows → ∀ l < r, out.jets l v q = out'.jets l v q) := by
  intro out out'
  have hitems : ValidItems t.params.size resolved.size t.registry.size (1 + t.independents)
      items := by
    rw [hresolved]
    exact h.valid
  obtain ⟨hstop, hrequests, hjets⟩ := Plan.agree_replayItems (p := t.plan q mask resolved) hq
    hagree (fun v hpos hlt => Or.inl ⟨hpos, hlt⟩) (fun v hv => Or.inr hv) hitems
    (fun item hitem => (h.serves hc hloads item hitem).admits)
  refine ⟨hstop, hrequests, ?_⟩
  intro hnone v hpos hv l hl
  apply hjets hnone l hl v q
  refine Or.inr ⟨rfl, ?_⟩
  rw [h.rows] at hv
  by_cases hlt : v < 1 + t.independents
  · exact Or.inr (Or.inl ⟨hpos, hlt⟩)
  · exact Or.inl ⟨by omega, hv⟩

/-- The rows whose coefficients a sweep is given keep them, and so do all rows at other orders. -/
theorem Spells.sweep_of_ne (h : t.Spells items tail) {r l v k : Nat} {js : Nat → Jet F}
    (hk : k ≠ q ∨ v = 0 ∨ t.rows ≤ v ∨ t.givenRow q mask resolved items v) :
    ((t.plan q mask resolved).replayItems r (t.independents + 1) items js).jets l v k =
      js l v k := by
  apply Plan.replayItems_of_ne h.valid
  have hrows := h.rows
  rcases hk with hk | hv | hv | ⟨-, hv⟩ | hv
  · exact Or.inl hk
  · exact Or.inr (Or.inl (by omega))
  · exact Or.inr (Or.inr (Or.inl (by omega)))
  · exact Or.inr (Or.inl hv)
  · exact Or.inr (Or.inr (Or.inr hv))

/-- A sweep that came to its end has left nothing to change. -/
theorem Spells.sweep_again (h : t.Spells items tail) (hc : t.Countable)
    (hstop : t.isStopped = true) (hb : b.Fits t)
    (hshapes : Replay.checkShapes t.program q mask resolved b.arena = .ok ())
    (hmask : t.MaskOk mask) (hloads : t.LoadsOk resolved) {options : Options}
    (hnone : (t.sweep q b mask resolved options).stop = none) (options' : Options) :
    let c := b.withCells (t.sweep q b mask resolved options).cells
    (t.sweep q c mask resolved options').stop = none ∧
      (t.sweep q c mask resolved options').cells = c.cells := by
  intro c
  obtain ⟨hfit, -, hresolved⟩ :=
    (Arena.Shaped.checkShapes_eq_ok_iff (P := t.program) hb.shaped).mp hshapes
  obtain ⟨hout, -, hshape, hjets⟩ := h.sweep hc hstop hb hshapes hmask hloads options
  have hc' : c.Fits t := hb.withCells hshape
  have hshapes' : Replay.checkShapes t.program q mask resolved c.arena = .ok () := by
    rw [← hshapes, Replay.checkShapes, Replay.checkShapes, hshape.layout, hshape.size]
  obtain ⟨hout', -, hshape', hjets'⟩ := h.sweep hc hstop hc' hshapes' hmask hloads options'
  have hagree : ∀ l < b.layout.directions,
      Agree q (t.givenRow q mask resolved items) (b.arena.jet l) (c.arena.jet l) := by
    intro l hl v k hk
    rw [hjets l hl]
    symm
    apply h.sweep_of_ne
    rcases hk with hk | ⟨-, hv⟩
    · exact Or.inl (by omega)
    · exact Or.inr (Or.inr (Or.inr hv))
  obtain ⟨hsame, -, hrows⟩ := h.agree_sweep hc hloads hresolved hfit.order_pos hagree
  have hnone : _ = none := hout.symm.trans hnone
  refine ⟨(hout'.trans hsame.symm).trans hnone, ?_⟩
  apply Arena.cells_eq_of_jet hc'.shaped hshape'.layout hshape'.size
  intro l hl
  rw [hjets' l hl]
  funext v k
  by_cases hk : k = q ∧ 0 < v ∧ v < t.rows
  · obtain ⟨rfl, hpos, hv⟩ := hk
    rw [hjets l hl]
    exact (hrows hnone v hpos hv l hl).symm
  · apply h.sweep_of_ne
    omega

/-- A sweep depends on what it may read only: it ends alike, makes the same requests and leaves the
same coefficients of its order. Repeating it changes nothing. -/
theorem sweep_depends_only (ht : t.Recorded) (hstop : t.isStopped = true) (hc : t.Countable)
    (hb : b.Fits t) (hb' : b'.Fits t) (hmask : t.MaskOk mask) (hloads : t.LoadsOk resolved)
    (hagree : t.AgreeBefore q mask b b') (options options' : Options) :
    let run := t.sweep q b mask resolved options
    let run' := t.sweep q b' mask resolved options'
    run.stop = run'.stop ∧ run.requests = run'.requests ∧
      (run.stop = none →
        (∀ v, 0 < v → v < t.rows → ∀ l < b.layout.directions,
          (b.withCells run.cells).get v q l = (b'.withCells run'.cells).get v q l) ∧
        (t.sweep q (b.withCells run.cells) mask resolved options').stop = none ∧
        (t.sweep q (b.withCells run.cells) mask resolved options').cells = run.cells) := by
  intro run run'
  obtain ⟨items, tail, h⟩ := ht.spells
  have hlayout : b'.arena.layout = b.arena.layout := hagree.layout
  have hcheck {c : Buffer F} (hc : c.Fits t) (hlayout : c.arena.layout = b.arena.layout) :
      Replay.checkShapes t.program q mask resolved c.arena =
        Replay.checkShapes t.program q mask resolved b.arena := by
    have hsize : c.arena.cells.size = b.arena.cells.size := by
      rw [hc.shaped.size_eq, hb.shaped.size_eq, hlayout]
    unfold Replay.checkShapes
    rw [hlayout, hsize]
  cases hshapes : Replay.checkShapes t.program q mask resolved b.arena with
  | error f =>
    have hrun := sweep_of_checkShapes_error hstop hb hshapes options
    have hrun' := sweep_of_checkShapes_error hstop hb' ((hcheck hb' hlayout).trans hshapes) options'
    refine ⟨hrun.1.trans hrun'.1.symm, hrun.2.trans hrun'.2.symm, ?_⟩
    intro hnone
    rw [hrun.1] at hnone
    cases hnone
  | ok u =>
    obtain ⟨hfit, -, hresolved⟩ :=
      (Arena.Shaped.checkShapes_eq_ok_iff (P := t.program) hb.shaped).mp hshapes
    have hpos : 0 < q := hfit.order_pos
    have hdirections : b'.layout.directions = b.layout.directions :=
      congrArg Layout.directions hlayout
    obtain ⟨hout, hasked, hshape, hjets⟩ :=
      h.sweep hc hstop hb hshapes hmask hloads options
    obtain ⟨hout', hasked', hshape', hjets'⟩ :=
      h.sweep hc hstop hb' ((hcheck hb' hlayout).trans hshapes) hmask hloads options'
    rw [hdirections] at hout' hasked' hjets'
    obtain ⟨hsame, hsameAsked, hsameJets⟩ := h.agree_sweep hc hloads hresolved hpos
      (hagree.agree h hc hb hb' hfit.order_lt)
    refine ⟨by rw [hout, hout', hsame], by rw [hasked, hasked', hsameAsked], ?_⟩
    intro hnone
    have hnone : _ = none := hout.symm.trans hnone
    have hb₁ := hb.withCells hshape
    have hb₁' := hb'.withCells hshape'
    constructor
    · intro v hv hlt l hl
      rw [hb₁.get_eq hlt hfit.order_lt hl, hb₁'.get_eq hlt (by
        show q < b'.arena.layout.capOrder
        rw [hlayout]
        exact hfit.order_lt) (by
        show l < b'.arena.layout.directions
        rw [hlayout]
        exact hl), hjets l hl, hjets' l hl, hsameJets hnone v hv hlt l hl]
    · exact h.sweep_again hc hstop hb hshapes hmask hloads (hout.trans hnone) options'

/-- The sample buffer with stale coefficients: one of the call's result at the order of the sweep,
and one of a higher order. -/
def staleBuffer : Buffer ℚ :=
  sampleBuffer.withCells ((sampleBuffer.cells.setIfInBounds 26 9).setIfInBounds 44 8)

theorem sampleBuffer_agreeBefore :
    sampleTape.AgreeBefore 1 sampleMask sampleBuffer staleBuffer where
  layout := rfl
  below := by decide +kernel
  independents := by
    have h : ∀ v ≤ sampleTape.independents, ∀ l < sampleBuffer.layout.directions,
        sampleBuffer.get v 1 l = staleBuffer.get v 1 l := by
      decide +kernel
    exact fun v _ hv => h v hv
  skipped := by
    -- The sum is all that is skipped, and it owns row 6.
    have hrow : ∀ i < sampleTape.ops.size, ∀ ins, sampleTape.instr i = .ok ins →
        sampleTape.Skipped sampleMask i → ins.row = 6 ∧ ins.op.resultCount = 1 := by
      decide +kernel
    have h : ∀ l < sampleBuffer.layout.directions,
        sampleBuffer.get 6 1 l = staleBuffer.get 6 1 l := by
      decide +kernel
    rintro i ins v hi hskipped ⟨hlt, hle⟩
    have hsum := hrow i (lt_of_instr hi) ins hi hskipped
    obtain rfl : v = 6 := by omega
    exact h

theorem sampleTape_sweep_depends_only :
    let run := sampleTape.sweep 1 sampleBuffer sampleMask #[3] {}
    let run' := sampleTape.sweep 1 staleBuffer sampleMask #[3] { trace := true }
    run.stop = run'.stop ∧ run.requests = run'.requests ∧
      (run.stop = none →
        (∀ v, 0 < v → v < sampleTape.rows → ∀ l < sampleBuffer.layout.directions,
          (sampleBuffer.withCells run.cells).get v 1 l =
            (staleBuffer.withCells run'.cells).get v 1 l) ∧
        (sampleTape.sweep 1 (sampleBuffer.withCells run.cells) sampleMask #[3]
          { trace := true }).stop = none ∧
        (sampleTape.sweep 1 (sampleBuffer.withCells run.cells) sampleMask #[3]
          { trace := true }).cells = run.cells) :=
  sweep_depends_only sampleTape_recorded (by decide +kernel) sampleTape_countable
    sampleBuffer_fits (by decide +kernel) (by decide +kernel) (by decide +kernel)
    sampleBuffer_agreeBefore {} { trace := true }

/-- Behind `2 ^ 32` words an exponential may be read back as that of its own row, and the sweep
passes on what was left there at its order. -/
theorem stray_depends_on_leftover :
    let t := stray .exp 2
    let run := t.sweep 1 (strayBuffer 1 5) t.noSkip #[] {}
    let run' := t.sweep 1 (strayBuffer 1 7) t.noSkip #[] {}
    t.Recorded ∧ t.isStopped = true ∧ (strayBuffer 1 5).Fits t ∧ (strayBuffer 1 7).Fits t ∧
      t.MaskOk t.noSkip ∧ t.LoadsOk #[] ∧
      t.AgreeBefore 1 t.noSkip (strayBuffer 1 5) (strayBuffer 1 7) ∧
      run.stop = none ∧ run'.stop = none ∧
      ((strayBuffer 1 5).withCells run.cells).get 2 1 0 = .ok 10 ∧
      ((strayBuffer 1 7).withCells run'.cells).get 2 1 0 = .ok 14 := by
  intro t run run'
  have hlike : t.Alike (strayRead .exp 2) := stray_alike .exp 2
  have hrows : t.rows = 3 := hlike.rows.trans (by decide)
  have hindependents : t.independents = 1 := congrArg Program.independentCount hlike.program
  have hmask : t.MaskOk t.noSkip := by
    rw [hlike.noSkip]
    exact hlike.maskOk (by decide)
  have hskipped : ∀ i, (strayRead .exp 2).noSkip.getD i false = false := by
    intro i
    rw [noSkip, Array.getD_eq_getD_getElem?, Array.getElem?_replicate]
    split <;> rfl
  have hagree : t.AgreeBefore 1 t.noSkip (strayBuffer 1 5) (strayBuffer 1 7) := by
    refine ⟨rfl, by rw [hrows]; decide, fun v hpos hv => ?_, fun i ins v _ hskip => ?_⟩
    · obtain rfl : v = 1 := by omega
      decide
    · rw [hlike.noSkip] at hskip
      simp [Skipped, hskipped] at hskip
  have hrun : run = _ := hlike.sweep_noSkip _ _ _ _
  have hrun' : run' = _ := hlike.sweep_noSkip _ _ _ _
  obtain ⟨hnone, hcells⟩ := strayRead_sweep 1 5
  obtain ⟨hnone', hcells'⟩ := strayRead_sweep 1 7
  refine ⟨stray_recorded .exp 2, hlike.isStopped.trans (by decide),
    hlike.fits (by decide), hlike.fits (by decide), hmask,
    hlike.loadsOk (by decide), hagree, ?_⟩
  rw [hrun, hrun', hcells, hcells']
  exact ⟨hnone, hnone', by with_unfolding_all decide, by with_unfolding_all decide⟩

end Tape

end JetTape
