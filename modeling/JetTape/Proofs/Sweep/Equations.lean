import JetTape.Proofs.Recurrence.Equations
import JetTape.Proofs.Sweep.Completed
import JetTape.Proofs.Tape.Overflow

/-!
Sweeps solve equations. If the sweeps of the orders from 1 to `q` come to their end, the power
series of the rows satisfy the equations of every function on the tape up to order `q`. Equations
between derivatives hold below order `q`. It makes no difference which values of order 0 the buffer
holds, except that an equation that is divided by such a value needs it not to be zero.
-/
namespace JetTape

open PowerSeries (derivative)
open scoped PowerSeries

variable {K : Type} [Field K] [LinearOrder K] [ExactScalar K]

/-- The power series of a row along direction `l`. -/
noncomputable def Buffer.powerSeries (b : Buffer K) (l v : Nat) : K⟦X⟧ :=
  PowerSeries.mk (b.along l v)

@[simp] theorem Buffer.coeff_powerSeries (b : Buffer K) (l v k : Nat) :
    PowerSeries.coeff k (b.powerSeries l v) = b.coeff v k l :=
  PowerSeries.coeff_mk k _

namespace Tape

variable [IsStrictOrderedRing K] {t : Tape K} {b : Buffer K} {q : Nat} {resolved : Array Nat}
variable {options : Options}

/-- Sweeps that come to their end leave rows that solve the equations of every function on the
tape. -/
theorem solves_of_sweepOrders (ht : t.Recorded) (hc : t.Countable) (hb : b.Fits t)
    (hnone : (t.sweepOrders q b t.noSkip resolved options).stop = none) {i : Nat} {ins : Instr}
    (hins : t.instr i = .ok ins) {f : Elementary} (hop : ins.op = .elementary f) {l : Nat}
    (hl : l < b.layout.directions) :
    let after := b.withCells (t.sweepOrders q b t.noSkip resolved options).cells
    f.Solves q (after.powerSeries l (ins.args.getD 0 0)) (after.powerSeries l (ins.row - 1))
      (after.powerSeries l ins.row) := by
  intro after
  obtain ⟨items, tail, h⟩ := ht.spells
  obtain ⟨op, args, row⟩ := ins
  subst hop
  have hrow := h.row_pos hc hins rfl f.resultCount_pos
  exact f.solves_of_settled hrow (advance_of_sweepOrders ht hc hb hnone hins rfl hl)

/-- Sweeps solve the equations of exponentials, logarithms and square roots. -/
theorem sweepOrders_exponential (ht : t.Recorded) (hc : t.Countable) (hb : b.Fits t)
    (hnone : (t.sweepOrders q b t.noSkip resolved options).stop = none) {i : Nat} {ins : Instr}
    (hins : t.instr i = .ok ins) {l : Nat} (hl : l < b.layout.directions) :
    let after := b.withCells (t.sweepOrders q b t.noSkip resolved options).cells
    let x := after.powerSeries l (ins.args.getD 0 0)
    let z := after.powerSeries l ins.row
    (ins.op = .elementary .exp → AgreeBelow q (derivative K z) (derivative K x * z)) ∧
    (ins.op = .elementary .expm1 → AgreeBelow q (derivative K z) (derivative K x * (1 + z))) ∧
    (ins.op = .elementary .log → b.coeff (ins.args.getD 0 0) 0 0 ≠ 0 →
      AgreeBelow q (x * derivative K z) (derivative K x)) ∧
    (ins.op = .elementary .log1p → 1 + b.coeff (ins.args.getD 0 0) 0 0 ≠ 0 →
      AgreeBelow q ((1 + x) * derivative K z) (derivative K x)) ∧
    (ins.op = .elementary .sqrt → b.coeff ins.row 0 0 ≠ 0 → AgreeHigher q (z * z) x) := by
  intro after x z
  obtain ⟨hzero, -⟩ := coeff_of_sweepOrders ht hc hb hnone hl
  have hsolves {f : Elementary} (hop : ins.op = .elementary f) :=
    solves_of_sweepOrders ht hc hb hnone hins hop hl
  refine ⟨fun hop => hsolves hop, fun hop => hsolves hop, ?_, ?_, ?_⟩
  · intro hop hx
    apply hsolves hop
    rwa [Buffer.coeff_powerSeries, hzero]
  · intro hop hx
    apply hsolves hop
    rwa [Buffer.coeff_powerSeries, hzero]
  · intro hop hz
    apply hsolves hop
    rwa [Buffer.coeff_powerSeries, hzero]

/-- An exponential, one less 1, two logarithms and a square root. -/
def growthTape : Tape ℚ := .ofSession
  [.independents 1, .operation (.elementary .exp) [1], .operation (.elementary .expm1) [1],
    .operation (.elementary .log) [1], .operation (.elementary .log1p) [1],
    .operation (.elementary .sqrt) [1], .finish]

/-- A buffer for the growth tape: orders below 4, two directions, ones everywhere. -/
def growthBuffer : Buffer ℚ := ⟨⟨⟨4, 2⟩, Array.replicate 49 1⟩, 7⟩

theorem growthTape_sweepOrders_exponential :
    let run := growthTape.sweepOrders 3 growthBuffer growthTape.noSkip #[] {}
    let series := (growthBuffer.withCells run.cells).powerSeries
    run.stop = none ∧ ∀ l < 2,
      AgreeBelow 3 (derivative ℚ (series l 2)) (derivative ℚ (series l 1) * series l 2) ∧
      AgreeBelow 3 (derivative ℚ (series l 3)) (derivative ℚ (series l 1) * (1 + series l 3)) ∧
      AgreeBelow 3 (series l 1 * derivative ℚ (series l 4)) (derivative ℚ (series l 1)) ∧
      AgreeBelow 3 ((1 + series l 1) * derivative ℚ (series l 5)) (derivative ℚ (series l 1)) ∧
      AgreeHigher 3 (series l 6 * series l 6) (series l 1) := by
  have hnone : (growthTape.sweepOrders 3 growthBuffer growthTape.noSkip #[] {}).stop = none := by
    decide +kernel
  have hsolves {i : Nat} {ins : Instr} (hins : growthTape.instr i = .ok ins) {l : Nat}
      (hl : l < 2) :=
    sweepOrders_exponential (t := growthTape) (b := growthBuffer)
      (ofSession_recorded (by decide)) ⟨by decide, by decide⟩
      (by decide) hnone hins hl
  have hexp : growthTape.instr 2 = .ok ⟨.elementary .exp, [1], 2⟩ := by decide
  have hexpm1 : growthTape.instr 3 = .ok ⟨.elementary .expm1, [1], 3⟩ := by decide
  have hlog : growthTape.instr 4 = .ok ⟨.elementary .log, [1], 4⟩ := by decide
  have hlog1p : growthTape.instr 5 = .ok ⟨.elementary .log1p, [1], 5⟩ := by decide
  have hsqrt : growthTape.instr 6 = .ok ⟨.elementary .sqrt, [1], 6⟩ := by decide
  refine ⟨hnone, fun l hl => ⟨(hsolves hexp hl).1 rfl, (hsolves hexpm1 hl).2.1 rfl,
    (hsolves hlog hl).2.2.1 rfl ?_, (hsolves hlog1p hl).2.2.2.1 rfl ?_,
    (hsolves hsqrt hl).2.2.2.2 rfl ?_⟩⟩ <;> decide +kernel

/-- Behind `2 ^ 32` words an exponential may be read back as that of its own row, and the equation
of the recorded one fails. -/
theorem stray_not_exponential :
    let t := stray .exp 2
    let run := t.sweepOrders 1 (strayBuffer 1 5) t.noSkip #[] {}
    let series := ((strayBuffer 1 5).withCells run.cells).powerSeries 0
    t.Recorded ∧ (strayBuffer 1 5).Fits t ∧ run.stop = none ∧
      ¬ AgreeBelow 1 (derivative ℚ (series 2)) (derivative ℚ (series 1) * series 2) := by
  intro t run series
  have hlike : t.Alike (strayRead .exp 2) := stray_alike .exp 2
  have hrun : run = _ := hlike.sweepOrders_noSkip _ _ _ _
  obtain ⟨hnone, hcells⟩ := strayRead_sweepOrders 1 5
  have hcoeff : let after := (strayBuffer 1 5).withCells run.cells
      after.coeff 1 1 0 = 1 ∧ after.coeff 2 0 0 = 2 ∧ after.coeff 2 1 0 = 10 := by
    rw [hrun, hcells]
    with_unfolding_all decide
  obtain ⟨hx, hz, hz'⟩ := hcoeff
  refine ⟨stray_recorded .exp 2, hlike.fits (by decide), ?_, fun h => ?_⟩
  · rw [hrun]
    exact hnone
  · have hfirst := h 0 Nat.one_pos
    simp only [series, PowerSeries.coeff_derivative, coeff_zero_mul, Buffer.coeff_powerSeries, hx,
      hz, hz'] at hfirst
    norm_num at hfirst

/-- Sweeps solve the systems of trigonometric and hyperbolic functions, whatever the values of order
0 are. A sine has its cosine in the row below, and a cosine its sine. -/
theorem sweepOrders_circular (ht : t.Recorded) (hc : t.Countable) (hb : b.Fits t)
    (hnone : (t.sweepOrders q b t.noSkip resolved options).stop = none) {i : Nat} {ins : Instr}
    (hins : t.instr i = .ok ins) {l : Nat} (hl : l < b.layout.directions) :
    let after := b.withCells (t.sweepOrders q b t.noSkip resolved options).cells
    let x := after.powerSeries l (ins.args.getD 0 0)
    let y := after.powerSeries l (ins.row - 1)
    let z := after.powerSeries l ins.row
    (ins.op = .elementary .sin → SolvesPair (-1) q x z y) ∧
    (ins.op = .elementary .cos → SolvesPair (-1) q x y z) ∧
    (ins.op = .elementary .sinh → SolvesPair 1 q x z y) ∧
    (ins.op = .elementary .cosh → SolvesPair 1 q x y z) ∧
    (ins.op = .elementary .tan → SolvesTangent 1 q x y z) ∧
    (ins.op = .elementary .tanh → SolvesTangent (-1) q x y z) := by
  intro after x y z
  have hsolves {f : Elementary} (hop : ins.op = .elementary f) :=
    solves_of_sweepOrders ht hc hb hnone hins hop hl
  exact ⟨fun hop => hsolves hop, fun hop => hsolves hop, fun hop => hsolves hop,
    fun hop => hsolves hop, fun hop => hsolves hop, fun hop => hsolves hop⟩

/-- The trigonometric and hyperbolic functions of one variable. -/
def circularTape : Tape ℚ := .ofSession
  [.independents 1, .operation (.elementary .sin) [1], .operation (.elementary .cos) [1],
    .operation (.elementary .sinh) [1], .operation (.elementary .cosh) [1],
    .operation (.elementary .tan) [1], .operation (.elementary .tanh) [1], .finish]

/-- A buffer for the circular tape: orders below 4, two directions, no two coefficients alike. -/
def circularBuffer : Buffer ℚ :=
  ⟨⟨⟨4, 2⟩, ((List.range' 1 98).map fun i : Nat => (i : ℚ)).toArray⟩, 14⟩

theorem circularTape_sweepOrders_circular :
    let run := circularTape.sweepOrders 3 circularBuffer circularTape.noSkip #[] {}
    let series := (circularBuffer.withCells run.cells).powerSeries
    run.stop = none ∧ ∀ l < 2,
      SolvesPair (-1) 3 (series l 1) (series l 3) (series l 2) ∧
      SolvesPair (-1) 3 (series l 1) (series l 4) (series l 5) ∧
      SolvesPair 1 3 (series l 1) (series l 7) (series l 6) ∧
      SolvesPair 1 3 (series l 1) (series l 8) (series l 9) ∧
      SolvesTangent 1 3 (series l 1) (series l 10) (series l 11) ∧
      SolvesTangent (-1) 3 (series l 1) (series l 12) (series l 13) := by
  have hnone :
      (circularTape.sweepOrders 3 circularBuffer circularTape.noSkip #[] {}).stop = none := by
    decide +kernel
  have hsolves {i : Nat} {ins : Instr} (hins : circularTape.instr i = .ok ins) {l : Nat}
      (hl : l < 2) :=
    sweepOrders_circular (t := circularTape) (b := circularBuffer)
      (ofSession_recorded (by decide)) ⟨by decide, by decide⟩
      (by decide) hnone hins hl
  have hsin : circularTape.instr 2 = .ok ⟨.elementary .sin, [1], 3⟩ := by decide
  have hcos : circularTape.instr 3 = .ok ⟨.elementary .cos, [1], 5⟩ := by decide
  have hsinh : circularTape.instr 4 = .ok ⟨.elementary .sinh, [1], 7⟩ := by decide
  have hcosh : circularTape.instr 5 = .ok ⟨.elementary .cosh, [1], 9⟩ := by decide
  have htan : circularTape.instr 6 = .ok ⟨.elementary .tan, [1], 11⟩ := by decide
  have htanh : circularTape.instr 7 = .ok ⟨.elementary .tanh, [1], 13⟩ := by decide
  exact ⟨hnone, fun l hl => ⟨(hsolves hsin hl).1 rfl, (hsolves hcos hl).2.1 rfl,
    (hsolves hsinh hl).2.2.1 rfl, (hsolves hcosh hl).2.2.2.1 rfl,
    (hsolves htan hl).2.2.2.2.1 rfl, (hsolves htanh hl).2.2.2.2.2 rfl⟩⟩

/-- Behind `2 ^ 32` words a sine may be read back as that of its own row, and the system of the
recorded one fails. -/
theorem stray_not_circular :
    let t := stray .sin 3
    let run := t.sweepOrders 1 strayPairBuffer t.noSkip #[] {}
    let series := (strayPairBuffer.withCells run.cells).powerSeries 0
    t.Recorded ∧ strayPairBuffer.Fits t ∧ run.stop = none ∧
      ¬ SolvesPair (-1) 1 (series 1) (series 3) (series 2) := by
  intro t run series
  have hlike : t.Alike (strayRead .sin 3) := stray_alike .sin 3
  have hrun : run = _ := hlike.sweepOrders_noSkip _ _ _ _
  have hcoeff : let after := strayPairBuffer.withCells run.cells
      after.coeff 1 1 0 = 1 ∧ after.coeff 2 0 0 = 2 ∧ after.coeff 3 1 0 = 14 := by
    rw [hrun]
    with_unfolding_all decide
  obtain ⟨hx, hy, hz⟩ := hcoeff
  refine ⟨stray_recorded .sin 3, hlike.fits (by decide), ?_, fun h => ?_⟩
  · rw [hrun]
    with_unfolding_all decide
  · have hfirst := h.sine 0 Nat.one_pos
    simp only [series, PowerSeries.coeff_derivative, coeff_zero_mul, Buffer.coeff_powerSeries, hx,
      hy, hz] at hfirst
    norm_num at hfirst

/-- Sweeps solve the equations of an inverse function and of its factor `y`, provided that the
factor's value of order 0 is not zero. -/
theorem sweepOrders_inverse (ht : t.Recorded) (hc : t.Countable) (hb : b.Fits t)
    (hnone : (t.sweepOrders q b t.noSkip resolved options).stop = none) {i : Nat} {ins : Instr}
    (hins : t.instr i = .ok ins) {l : Nat} (hl : l < b.layout.directions)
    (hfactor : b.coeff (ins.row - 1) 0 0 ≠ 0) :
    let after := b.withCells (t.sweepOrders q b t.noSkip resolved options).cells
    let x := after.powerSeries l (ins.args.getD 0 0)
    let y := after.powerSeries l (ins.row - 1)
    let z := after.powerSeries l ins.row
    (ins.op = .elementary .asin → SolvesInverse true (-1) 1 q x y z) ∧
    (ins.op = .elementary .acos → SolvesInverse true (-1) (-1) q x y z) ∧
    (ins.op = .elementary .atan → SolvesInverse false 1 1 q x y z) ∧
    (ins.op = .elementary .asinh → SolvesInverse true 1 1 q x y z) ∧
    (ins.op = .elementary .acosh → SolvesInverse true 1 1 q x y z) ∧
    (ins.op = .elementary .atanh → SolvesInverse false (-1) 1 q x y z) := by
  intro after x y z
  obtain ⟨hzero, -⟩ := coeff_of_sweepOrders ht hc hb hnone hl
  have hsolves {f : Elementary} (hop : ins.op = .elementary f) :=
    solves_of_sweepOrders ht hc hb hnone hins hop hl
  have hy : PowerSeries.coeff 0 y ≠ 0 := by
    rwa [Buffer.coeff_powerSeries, hzero]
  exact ⟨fun hop => hsolves hop hy, fun hop => hsolves hop hy, fun hop => hsolves hop hy,
    fun hop => hsolves hop hy, fun hop => hsolves hop hy, fun hop => hsolves hop hy⟩

/-- The inverses of the trigonometric and hyperbolic functions of one variable. -/
def inverseTape : Tape ℚ := .ofSession
  [.independents 1, .operation (.elementary .asin) [1], .operation (.elementary .acos) [1],
    .operation (.elementary .atan) [1], .operation (.elementary .asinh) [1],
    .operation (.elementary .acosh) [1], .operation (.elementary .atanh) [1], .finish]

/-- The rows of the inverse functions solve their equations on the buffer of the circular ones. -/
theorem inverseTape_sweepOrders_inverse :
    let run := inverseTape.sweepOrders 3 circularBuffer inverseTape.noSkip #[] {}
    let series := (circularBuffer.withCells run.cells).powerSeries
    run.stop = none ∧ ∀ l < 2,
      SolvesInverse true (-1) 1 3 (series l 1) (series l 2) (series l 3) ∧
      SolvesInverse true (-1) (-1) 3 (series l 1) (series l 4) (series l 5) ∧
      SolvesInverse false 1 1 3 (series l 1) (series l 6) (series l 7) ∧
      SolvesInverse true 1 1 3 (series l 1) (series l 8) (series l 9) ∧
      SolvesInverse true 1 1 3 (series l 1) (series l 10) (series l 11) ∧
      SolvesInverse false (-1) 1 3 (series l 1) (series l 12) (series l 13) := by
  have hnone :
      (inverseTape.sweepOrders 3 circularBuffer inverseTape.noSkip #[] {}).stop = none := by
    decide +kernel
  have hsolves {i : Nat} {ins : Instr} (hins : inverseTape.instr i = .ok ins) {l : Nat}
      (hl : l < 2) (hfactor : circularBuffer.coeff (ins.row - 1) 0 0 ≠ 0) :=
    sweepOrders_inverse (t := inverseTape) (b := circularBuffer)
      (ofSession_recorded (by decide)) ⟨by decide, by decide⟩
      (by decide) hnone hins hl hfactor
  have hasin : inverseTape.instr 2 = .ok ⟨.elementary .asin, [1], 3⟩ := by decide
  have hacos : inverseTape.instr 3 = .ok ⟨.elementary .acos, [1], 5⟩ := by decide
  have hatan : inverseTape.instr 4 = .ok ⟨.elementary .atan, [1], 7⟩ := by decide
  have hasinh : inverseTape.instr 5 = .ok ⟨.elementary .asinh, [1], 9⟩ := by decide
  have hacosh : inverseTape.instr 6 = .ok ⟨.elementary .acosh, [1], 11⟩ := by decide
  have hatanh : inverseTape.instr 7 = .ok ⟨.elementary .atanh, [1], 13⟩ := by decide
  refine ⟨hnone, fun l hl => ⟨(hsolves hasin hl ?_).1 rfl, (hsolves hacos hl ?_).2.1 rfl,
    (hsolves hatan hl ?_).2.2.1 rfl, (hsolves hasinh hl ?_).2.2.2.1 rfl,
    (hsolves hacosh hl ?_).2.2.2.2.1 rfl, (hsolves hatanh hl ?_).2.2.2.2.2 rfl⟩⟩ <;>
    decide

/-- Behind `2 ^ 32` words an arcsine may be read back as that of its own row, and the equation of
the recorded one fails. -/
theorem stray_not_inverse :
    let t := stray .asin 3
    let run := t.sweepOrders 1 strayPairBuffer t.noSkip #[] {}
    let series := (strayPairBuffer.withCells run.cells).powerSeries 0
    t.Recorded ∧ strayPairBuffer.Fits t ∧ strayPairBuffer.coeff 2 0 0 ≠ 0 ∧ run.stop = none ∧
      ¬ SolvesInverse true (-1) 1 1 (series 1) (series 2) (series 3) := by
  intro t run series
  have hlike : t.Alike (strayRead .asin 3) := stray_alike .asin 3
  have hrun : run = _ := hlike.sweepOrders_noSkip _ _ _ _
  have hcoeff : let after := strayPairBuffer.withCells run.cells
      after.coeff 1 1 0 = 1 ∧ after.coeff 2 0 0 = 2 ∧ after.coeff 3 1 0 = 7 / 2 := by
    rw [hrun]
    with_unfolding_all decide
  obtain ⟨hx, hy, hz⟩ := hcoeff
  refine ⟨stray_recorded .asin 3, hlike.fits (by decide), by decide, ?_,
    fun h => ?_⟩
  · rw [hrun]
    with_unfolding_all decide
  · have hfirst := h.quotient 0 Nat.one_pos
    simp only [series, PowerSeries.coeff_derivative, coeff_zero_mul, Buffer.coeff_powerSeries, hx,
      hy, hz] at hfirst
    norm_num at hfirst

end Tape

end JetTape
