import JetTape.Proofs.Recurrence.Respelling
import JetTape.Proofs.Sweep.Completed

/-!
Sweeps of two spellings of one function. If a tape computes a function by one instruction and by
several others, sweeps give both results the same coefficients. Only the values of order 0, which
the sweeps do not compute, have to be given in a way that fits.
-/
namespace JetTape

namespace Tape

variable {K : Type} [Field K] [LinearOrder K] [IsStrictOrderedRing K] [ExactScalar K]
variable {t : Tape K} {b : Buffer K} {q : Nat}

/-- If the tape has an instruction and others that spell the same function on the stored values of
order 0, the sweeps of the orders from 1 to `q` leave the same coefficients in their results. -/
theorem sweepOrders_respells (ht : t.Recorded) (hc : t.Countable) (hb : b.Fits t)
    {ins last : Instr} {before : List Instr}
    (hinstrs : ∀ ins' ∈ ins :: last :: before, ∃ i, t.instr i = .ok ins')
    (h : Respells (fun v => b.coeff v 0 0) t.params ins before last) (resolved : Array Nat)
    (options : Options) :
    let run := t.sweepOrders q b t.noSkip resolved options
    let after := b.withCells run.cells
    (t.isStopped = true → Opcode.callMarker ∉ t.ops → q < b.layout.capOrder →
      resolved.size = t.loads → t.LoadsOk resolved → run.stop = none) ∧
    (run.stop = none → ∀ l < b.layout.directions, ∀ k, 0 < k → k ≤ q →
      after.coeff ins.row k l = after.coeff last.row k l) := by
  intro run after
  obtain ⟨items, tail, hspells⟩ := ht.spells
  constructor
  · intro hstop hcalls hq hresolved hloads
    exact (hspells.sweepOrders_settles hc hstop (hspells.plain_of_no_marker hcalls) hb hq
      hresolved hloads options).1
  · intro hnone l hl k h0 hk
    obtain ⟨hzero, -⟩ := coeff_of_sweepOrders ht hc hb hnone hl
    have hvalues : (fun v => b.coeff v 0 0) = fun v => after.along l v 0 :=
      funext fun v => (hzero v).symm
    have hplain := h.isPlain
    rw [hvalues] at h
    have hsettled (i : Instr) (hi : i ∈ ins :: last :: before) : i.op.resultCount ≤ i.row ∧
        ∀ k, 0 < k → k ≤ q →
          (after.along l).advance k t.params resolved i = after.along l := by
      obtain ⟨n, hn⟩ := hinstrs i hi
      have hi := hplain i hi
      exact ⟨hspells.resultCount_le_row hc hn hi,
        advance_of_sweepOrders ht hc hb hnone hn hi hl⟩
    have hagree := h.agree hsettled k h0 hk
    rwa [PowerSeries.coeff_mk, PowerSeries.coeff_mk] at hagree

end Tape

/-- Every function with two spellings, in both of them. -/
def respelledTape : Tape ℚ := .ofSession
  [.independents 1, .parameter 1, .parameter (1 / 2),
    .operation (.elementary .tan) [1], .operation (.elementary .sin) [1],
    .operation (.elementary .cos) [1], .operation (.arithmetic .divVV) [5, 7],
    .operation (.elementary .tanh) [1], .operation (.elementary .sinh) [1],
    .operation (.elementary .cosh) [1], .operation (.arithmetic .divVV) [12, 14],
    .operation (.elementary .expm1) [1], .operation (.elementary .exp) [1],
    .operation (.elementary .log1p) [1], .operation (.arithmetic .addPV) [0, 1],
    .operation (.elementary .log) [19], .operation (.elementary .sqrt) [1],
    .operation (.power .vp) [1, 1], .finish]

/-- A buffer for the respelled tape: orders below 4, two directions. -/
def respelledBuffer : Buffer ℚ :=
  ⟨⟨⟨4, 2⟩, ([0, 4, 9 / 16, 3 / 4, 4 / 5, 3 / 5, 3 / 5, 4 / 5, 3 / 4, 9 / 25, 3 / 5, 5 / 4, 3 / 4,
    3 / 4, 5 / 4, 3 / 5, 6, 7, 1, 5, 2, 2, 1, 8, 2].flatMap
    fun c => [c, 1, 2, 0, 1, 3, 5]).toArray⟩, 25⟩

namespace Tape

theorem respelledTape_sweepOrders_respells :
    let run := respelledTape.sweepOrders 3 respelledBuffer respelledTape.noSkip #[] {}
    let after := respelledBuffer.withCells run.cells
    run.stop = none ∧ ∀ pair ∈ [(3, 8), (10, 15), (16, 17), (18, 20), (21, 24)], ∀ l < 2,
      ∀ k, 0 < k → k ≤ 3 → after.coeff pair.1 k l = after.coeff pair.2 k l := by
  have hrespells {ins last : Instr} {before : List Instr}
      (hinstrs : (ins :: last :: before).all fun ins' =>
        (List.range 17).any fun i => respelledTape.instr i = .ok ins')
      (h : Respells (fun v => respelledBuffer.coeff v 0 0) respelledTape.params ins before last) :=
    sweepOrders_respells (t := respelledTape) (q := 3) (ofSession_recorded (by decide +kernel))
      ⟨by decide +kernel, by decide +kernel⟩ (by decide +kernel) (fun ins' hmem => by
        obtain ⟨i, -, hi⟩ := List.any_eq_true.mp (List.all_eq_true.mp hinstrs ins' hmem)
        exact ⟨i, of_decide_eq_true hi⟩) h #[] {}
  have htan := hrespells (by decide +kernel) (.ratio (f := .tan) (x := 1) (z := 3) (s := 5)
    (c := 7) (w := 8) rfl (by decide +kernel) (by decide +kernel) (by decide +kernel)
    (by decide +kernel) (by decide +kernel) (by decide +kernel))
  have htanh := hrespells (by decide +kernel) (.ratio (f := .tanh) (x := 1) (z := 10) (s := 12)
    (c := 14) (w := 15) rfl (by decide +kernel) (by decide +kernel) (by decide +kernel)
    (by decide +kernel) (by decide +kernel) (by decide +kernel))
  have hexpm1 := hrespells (by decide +kernel)
    (.expm1 (x := 1) (z := 16) (w := 17) (by decide +kernel))
  have hlog1p := hrespells (by decide +kernel) (.log1p (x := 1) (z := 18) (i := 0) (s := 19)
    (w := 20) (by decide +kernel) (by decide +kernel))
  have hsqrt := hrespells (by decide +kernel) (.sqrt (x := 1) (z := 21) (i := 1) (w := 24)
    (by decide +kernel) (by decide +kernel) (by decide +kernel) (by decide +kernel))
  have hnone := htan.1 (by decide +kernel) (by decide +kernel) (by decide) (by decide +kernel)
    (by decide +kernel)
  refine ⟨hnone, ?_⟩
  simp only [List.forall_mem_cons]
  exact ⟨htan.2 hnone, htanh.2 hnone, hexpm1.2 hnone, hlog1p.2 hnone, hsqrt.2 hnone, nofun⟩

end Tape

end JetTape
