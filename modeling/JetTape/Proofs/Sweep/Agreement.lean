import JetTape.Proofs.Replay.Rewriting
import JetTape.Proofs.Sweep.Orders

/-!
Tapes that are swept alike. Two tapes with the same rows leave the same coefficients and end alike
where the replays of their items do. For the sweeps of all orders the jets may be known to satisfy
something at each order, which the sweep of that order establishes.
-/
namespace JetTape

variable {F : Type}

/-- The runs end alike and leave the same coefficients and requests. -/
structure Run.Agrees (run run' : Run F) : Prop where
  stop : run'.stop = run.stop
  cells : run'.cells = run.cells
  requests : run'.requests = run.requests

namespace Tape

variable [Scalar F] {t u : Tape F} {items items' : List Item} {tail tail' : List Instr}
variable {b : Buffer F} {q : Nat} {mask mask' : Array Bool} {resolved : Array Nat}

section Agreement

variable (h : t.Spells items tail) (h' : u.Spells items' tail') (hc : t.Countable)
variable (hc' : u.Countable) (hstop : t.isStopped = true) (hstop' : u.isStopped = true)
variable (hrows : u.rows = t.rows) (hloadCount : u.loads = t.loads) (hloads : t.LoadsOk resolved)
variable (hloads' : u.LoadsOk resolved) (hb : b.Fits t) (options options' : Options)

include h h' hc hc' hstop hstop' hrows hloadCount hloads hloads' hb

/-- Stopped tapes with the same rows are swept alike if the replays of their items end alike and
leave the same jets. -/
theorem Spells.sweep_agrees (hsize : mask.size = t.ops.size) (hsize' : mask'.size = u.ops.size)
    (hmask : t.MaskOk mask) (hmask' : u.MaskOk mask')
    (hagrees : 0 < q →
      let out := (t.plan q mask resolved).replayItems b.layout.directions (t.independents + 1)
        items b.arena.jet
      let out' := (u.plan q mask' resolved).replayItems b.layout.directions (u.independents + 1)
        items' b.arena.jet
      out'.stop = out.stop ∧ ∀ l < b.layout.directions, out'.jets l = out.jets l) :
    let out := (t.plan q mask resolved).replayItems b.layout.directions (t.independents + 1)
      items b.arena.jet
    let out' := (u.plan q mask' resolved).replayItems b.layout.directions (u.independents + 1)
      items' b.arena.jet
    let run := t.sweep q b mask resolved options
    let run' := u.sweep q b mask' resolved options'
    run'.stop = run.stop ∧ run'.cells = run.cells ∧
      ((0 < q → out'.requests = out.requests) → run'.requests = run.requests) := by
  intro out out' run run'
  have hfits' := hb.of_rows hrows
  have hshapes : Replay.checkShapes u.program q mask' resolved b.arena =
      Replay.checkShapes t.program q mask resolved b.arena :=
    Replay.checkShapes_congr hrows hloadCount hsize hsize'
  cases hcheck : Replay.checkShapes t.program q mask resolved b.arena with
  | error f =>
    have hcheck' := hshapes.trans hcheck
    obtain ⟨hend, hasked⟩ := sweep_of_checkShapes_error hstop hb hcheck options
    obtain ⟨hend', hasked'⟩ := sweep_of_checkShapes_error hstop' hfits' hcheck' options'
    have hcells := cells_of_checkShapes_error hstop hb hcheck options
    have hcells' := cells_of_checkShapes_error hstop' hfits' hcheck' options'
    exact ⟨hend'.trans hend.symm, hcells'.trans hcells.symm, fun _ => hasked'.trans hasked.symm⟩
  | ok _ =>
    obtain ⟨hend, hasked, hshape, hjets⟩ := h.sweep hc hstop hb hcheck hmask hloads options
    obtain ⟨hend', hasked', hshape', hjets'⟩ :=
      h'.sweep hc' hstop' hfits' (hshapes.trans hcheck) hmask' hloads' options'
    have hpos : 0 < q :=
      (Arena.Shaped.checkShapes_eq_ok_iff (P := t.program) hb.shaped |>.mp hcheck).1.order_pos
    obtain ⟨hstops, hsame⟩ := hagrees hpos
    refine ⟨hend'.trans (hstops.trans hend.symm), ?_, fun hrequests => ?_⟩
    · refine Arena.cells_eq_of_jet (a := (b.withCells run.cells).arena)
        (b := (b.withCells run'.cells).arena) (hshape.shaped hb.shaped)
        (hshape'.layout.trans hshape.layout.symm) (hshape'.size.trans hshape.size.symm) ?_
      intro l hl
      have hl : l < b.layout.directions := by rwa [hshape.layout] at hl
      rw [hjets l hl, hjets' l hl, hsame l hl]
    · exact hasked'.trans ((congrArg List.toArray (hrequests hpos)).trans hasked.symm)

/-- The sweeps up to order `q + 1`, where the sweep of that order is replayed alike on the jets that
the sweeps up to order `q` leave. -/
theorem Spells.sweepOrders_agrees_succ {I : Nat → Jet F → Prop} (hq : q + 1 < b.layout.capOrder)
    (hagrees : (t.sweepOrders q b t.noSkip resolved options).Agrees
      (u.sweepOrders q b u.noSkip resolved options'))
    (hlower : (t.sweepOrders q b t.noSkip resolved options).stop = none →
      ∀ l < b.layout.directions, I q ((b.withCells
        (t.sweepOrders q b t.noSkip resolved options).cells).arena.jet l))
    (hstep : ∀ js : Nat → Jet F, (∀ l < b.layout.directions, I q (js l)) →
      let out := (t.plan (q + 1) t.noSkip resolved).replayItems b.layout.directions
        (t.independents + 1) items js
      let out' := (u.plan (q + 1) u.noSkip resolved).replayItems b.layout.directions
        (u.independents + 1) items' js
      out.AgreesBelow b.layout.directions out' ∧
        (out.stop = none → ∀ l < b.layout.directions, I (q + 1) (out.jets l))) :
    (t.sweepOrders (q + 1) b t.noSkip resolved options).Agrees
        (u.sweepOrders (q + 1) b u.noSkip resolved options') ∧
      ((t.sweepOrders (q + 1) b t.noSkip resolved options).stop = none →
        ∀ l < b.layout.directions, I (q + 1) ((b.withCells
          (t.sweepOrders (q + 1) b t.noSkip resolved options).cells).arena.jet l)) := by
  have hfits' := hb.of_rows hrows
  obtain ⟨hstops, hcells, hasked⟩ := hagrees
  obtain ⟨hgoes, hends⟩ := h.sweepOrders_succ hc hstop hb hq (maskOk_noSkip t) hloads options
  obtain ⟨hgoes', hends'⟩ :=
    h'.sweepOrders_succ hc' hstop' hfits' hq (maskOk_noSkip u) hloads' options'
  cases hfirst : (t.sweepOrders q b t.noSkip resolved options).stop with
  | some stop =>
    obtain ⟨hrun, hrunCells, hrunAsked⟩ := hends stop hfirst
    obtain ⟨hrun', hrunCells', hrunAsked'⟩ := hends' stop (hstops.trans hfirst)
    refine ⟨⟨hrun'.trans hrun.symm, ?_, ?_⟩, fun hnone => ?_⟩
    · rw [hrunCells', hrunCells, hcells]
    · rw [hrunAsked', hrunAsked, hasked]
    · cases hrun.symm.trans hnone
  | none =>
    obtain ⟨hrun, hrunCells, hrunAsked⟩ := hgoes hfirst
    obtain ⟨hrun', hrunCells', hrunAsked'⟩ := hgoes' (hstops.trans hfirst)
    have hshape := (h.leads_runOrders hc hstop hb (Nat.lt_of_succ_lt hq) (maskOk_noSkip t)
      hloads options).1
    have hfits := hb.withCells hshape
    obtain ⟨hsweep, hkept⟩ := hstep _ (hlower hfirst)
    rw [hcells] at hrun' hrunCells' hrunAsked'
    obtain ⟨hlast, hlastCells, hlastAsked⟩ := h.sweep_agrees h' hc hc' hstop hstop' hrows
      hloadCount hloads hloads' hfits options options' (size_noSkip t) (size_noSkip u)
      (maskOk_noSkip t) (maskOk_noSkip u) fun _ => ⟨hsweep.stop, hsweep.jets⟩
    refine ⟨⟨?_, ?_, ?_⟩, fun hnone => ?_⟩
    · rw [hrun', hrun, hlast]
    · rw [hrunCells', hrunCells, hlastCells]
    · rw [hrunAsked', hrunAsked, hasked, hlastAsked fun _ => hsweep.requests]
    · rw [hrun] at hnone
      have hcheck := checkShapes_of_sweep hstop hfits hnone
      obtain ⟨hout, -, -, hjets⟩ := h.sweep hc hstop hfits hcheck (maskOk_noSkip t) hloads options
      intro l hl
      rw [hrunCells]
      exact (hjets l hl).symm ▸ hkept (hout.symm.trans hnone) l hl

/-- Stopped tapes with the same rows are swept alike over all orders if the sweeps of one order are
replayed alike on jets that satisfy what holds below it. By induction on the orders: where the sweep
of an order comes to its end, its jets satisfy what the next one can rely on. -/
theorem Spells.sweepOrders_agrees {I : Nat → Jet F → Prop}
    (hinit : ∀ l < b.layout.directions, I 0 (b.arena.jet l))
    (hstep : ∀ k < q, ∀ js : Nat → Jet F, (∀ l < b.layout.directions, I k (js l)) →
      let out := (t.plan (k + 1) t.noSkip resolved).replayItems b.layout.directions
        (t.independents + 1) items js
      let out' := (u.plan (k + 1) u.noSkip resolved).replayItems b.layout.directions
        (u.independents + 1) items' js
      out.AgreesBelow b.layout.directions out' ∧
        (out.stop = none → ∀ l < b.layout.directions, I (k + 1) (out.jets l))) :
    (t.sweepOrders q b t.noSkip resolved options).Agrees
      (u.sweepOrders q b u.noSkip resolved options') := by
  rcases Nat.lt_or_ge q b.layout.capOrder with hq | hq
  · suffices hall : (t.sweepOrders q b t.noSkip resolved options).Agrees
        (u.sweepOrders q b u.noSkip resolved options') ∧
        ((t.sweepOrders q b t.noSkip resolved options).stop = none →
          ∀ l < b.layout.directions, I q ((b.withCells
            (t.sweepOrders q b t.noSkip resolved options).cells).arena.jet l)) from hall.1
    induction q with
    | zero =>
      obtain ⟨hnone, hcells, hasked⟩ := sweepOrders_zero (t := t) hq t.noSkip resolved options
      obtain ⟨hnone', hcells', hasked'⟩ := sweepOrders_zero (t := u) hq u.noSkip resolved options'
      refine ⟨⟨hnone'.trans hnone.symm, hcells'.trans hcells.symm, hasked'.trans hasked.symm⟩, ?_⟩
      intro _
      rw [hcells]
      exact hinit
    | succ q ih =>
      obtain ⟨hagrees, hlower⟩ :=
        ih (fun k hk => hstep k (Nat.lt_succ_of_lt hk)) (Nat.lt_of_succ_lt hq)
      exact h.sweepOrders_agrees_succ h' hc hc' hstop hstop' hrows hloadCount hloads hloads' hb
        options options' hq hagrees hlower (hstep q (Nat.lt_succ_self q))
  · obtain ⟨hend, hcells, hasked⟩ := sweepOrders_past (t := t) hq t.noSkip resolved options
    obtain ⟨hend', hcells', hasked'⟩ := sweepOrders_past (t := u) hq u.noSkip resolved options'
    exact ⟨hend'.trans hend.symm, hcells'.trans hcells.symm, hasked'.trans hasked.symm⟩

end Agreement

end Tape

end JetTape
