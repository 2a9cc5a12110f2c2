import JetTape.Proofs.Recurrence.Inversion
import JetTape.Proofs.Sweep.Completed

/-!
Sweeps of functions and their inverses. If an instruction on the tape undoes an earlier one, sweeps
give its result the coefficients of the operand that the earlier one has. Only order 0, which the
sweeps do not compute, has to be given in a way that fits.
-/
namespace JetTape

variable {K : Type} [Field K] [LinearOrder K] [IsStrictOrderedRing K] [ExactScalar K]

namespace Tape

variable {t : Tape K} {b : Buffer K} {q : Nat}

/-- If the second instruction undoes the first one on the stored values of order 0, the sweeps of
the orders from 1 to `q` leave the coefficients of the first operand in the last result. Where the
operand is an independent these are its seeds. Values of order 0 that the two equations do not read,
such as that of the product, may be any. -/
theorem sweepOrders_inverts (ht : t.Recorded) (hc : t.Countable) (hb : b.Fits t) {i i' : Nat}
    {first second : Instr} (hfirst : t.instr i = .ok first) (hsecond : t.instr i' = .ok second)
    (h : Undoes (fun v => b.coeff v 0 0) first second) (resolved : Array Nat)
    (options : Options) :
    let run := t.sweepOrders q b t.noSkip resolved options
    let after := b.withCells run.cells
    let operand := first.args.getD 0 0
    (t.isStopped = true → Opcode.callMarker ∉ t.ops → q < b.layout.capOrder →
      resolved.size = t.loads → t.LoadsOk resolved → run.stop = none) ∧
    (run.stop = none → ∀ l < b.layout.directions, ∀ k, 0 < k → k ≤ q →
      after.coeff second.row k l = after.coeff operand k l ∧
      (operand ≤ t.independents → after.coeff second.row k l = b.coeff operand k l)) := by
  intro run after operand
  obtain ⟨items, tail, hspells⟩ := ht.spells
  constructor
  · intro hstop hcalls hq hresolved hloads
    exact (hspells.sweepOrders_settles hc hstop (hspells.plain_of_no_marker hcalls) hb hq
      hresolved hloads options).1
  · intro hnone l hl k h0 hk
    obtain ⟨hzero, hkept⟩ := coeff_of_sweepOrders ht hc hb hnone hl
    have hvalues : (fun v => b.coeff v 0 0) = fun v => after.along l v 0 :=
      funext fun v => (hzero v).symm
    obtain ⟨hplain, hplain'⟩ := h.isPlain
    obtain ⟨hcount, hcount'⟩ := h.resultCount_pos
    rw [hvalues] at h
    have hagree := h.agree (hspells.row_pos hc hfirst hplain hcount)
      (hspells.row_pos hc hsecond hplain' hcount')
      (advance_of_sweepOrders ht hc hb hnone hfirst hplain hl)
      (advance_of_sweepOrders ht hc hb hnone hsecond hplain' hl) k h0 hk
    rw [PowerSeries.coeff_mk, PowerSeries.coeff_mk] at hagree
    have hsame : after.coeff second.row k l = after.coeff operand k l := hagree
    exact ⟨hsame, fun hoperand => hsame.trans (hkept operand hoperand k hk)⟩

end Tape

/-- Every function of one variable that can be undone, followed by its inverse, and a product that
is divided by one of its factors. -/
def undoneTape : Tape ℚ := .ofSession
  [.independents 2,
    .operation (.elementary .sin) [1], .operation (.elementary .asin) [4],
    .operation (.elementary .cos) [1], .operation (.elementary .acos) [8],
    .operation (.elementary .tan) [1], .operation (.elementary .atan) [12],
    .operation (.elementary .sinh) [1], .operation (.elementary .asinh) [16],
    .operation (.elementary .cosh) [1], .operation (.elementary .acosh) [20],
    .operation (.elementary .tanh) [1], .operation (.elementary .atanh) [24],
    .operation (.elementary .exp) [1], .operation (.elementary .log) [27],
    .operation (.arithmetic .mulVV) [1, 2], .operation (.arithmetic .divVV) [29, 2], .finish]

/-- A buffer for the undone tape: orders below 4, two directions. The values of order 0 satisfy the
identities of the functions at rational points. -/
def identityBuffer : Buffer ℚ :=
  ⟨⟨⟨4, 2⟩, ([0, 2, 3, 4 / 5, 3 / 5, 4 / 5, 2, 3 / 5, 4 / 5, 3 / 5, 2, 1 / 4, 1 / 2, 5 / 4, 2,
    5 / 4, 3 / 4, 5 / 4, 2, 3 / 4, 5 / 4, 3 / 4, 2, 1 / 4, 1 / 2, 3 / 4, 2, 7, 2, 6, 2].flatMap
    fun c => [c, 1, 2, 0, 1, 3, 5]).toArray⟩, 31⟩

namespace Tape

theorem undoneTape_sweepOrders_inverts :
    let run := undoneTape.sweepOrders 3 identityBuffer undoneTape.noSkip #[] {}
    run.stop = none ∧ ∀ v ∈ [6, 10, 14, 18, 22, 26, 28, 30], ∀ l < 2, ∀ k, 0 < k → k ≤ 3 →
      (identityBuffer.withCells run.cells).coeff v k l = identityBuffer.coeff 1 k l := by
  have hinverts {i i' : Nat} {first second : Instr} (hfirst : undoneTape.instr i = .ok first)
      (hsecond : undoneTape.instr i' = .ok second)
      (h : Undoes (fun v => identityBuffer.coeff v 0 0) first second) :=
    sweepOrders_inverts (t := undoneTape) (q := 3) (ofSession_recorded (by decide +kernel))
      ⟨by decide +kernel, by decide +kernel⟩ (by decide +kernel) hfirst hsecond h #[] {}
  have hproduct : undoneTape.instr 17 = .ok ⟨.arithmetic .mulVV, [1, 2], 29⟩ := by decide +kernel
  have hquotient : undoneTape.instr 18 = .ok ⟨.arithmetic .divVV, [29, 2], 30⟩ := by
    decide +kernel
  obtain ⟨hends, hdivided⟩ :=
    hinverts hproduct hquotient (.product (by decide +kernel) (by decide +kernel))
  have hnone := hends (by decide +kernel) (by decide +kernel) (by decide) (by decide +kernel)
    (by decide +kernel)
  have hundone (i : Nat) (f g : Elementary) (y z : Nat)
      (hfirst : undoneTape.instr i = .ok ⟨.elementary f, [1], y⟩)
      (hsecond : undoneTape.instr (i + 1) = .ok ⟨.elementary g, [y], z⟩)
      (hinverse : f.inverse? = some g)
      (hmatches : f.Matches (identityBuffer.coeff (y - 1) 0 0) (identityBuffer.coeff y 0 0)
        (identityBuffer.coeff (z - 1) 0 0)) :=
    (hinverts hfirst hsecond (.elementary hinverse hmatches)).2 hnone
  have hindependent : 1 ≤ undoneTape.independents := by decide +kernel
  have hsin := hundone 3 .sin .asin 4 6 (by decide +kernel) (by decide +kernel) rfl
    ⟨by decide +kernel, by decide +kernel⟩
  have hcos := hundone 5 .cos .acos 8 10 (by decide +kernel) (by decide +kernel) rfl
    ⟨by decide +kernel, by decide +kernel⟩
  have htan := hundone 7 .tan .atan 12 14 (by decide +kernel) (by decide +kernel) rfl
    ⟨by decide +kernel, by decide +kernel, by decide +kernel⟩
  have hsinh := hundone 9 .sinh .asinh 16 18 (by decide +kernel) (by decide +kernel) rfl
    ⟨by decide +kernel, by decide +kernel⟩
  have hcosh := hundone 11 .cosh .acosh 20 22 (by decide +kernel) (by decide +kernel) rfl
    ⟨by decide +kernel, by decide +kernel⟩
  have htanh := hundone 13 .tanh .atanh 24 26 (by decide +kernel) (by decide +kernel) rfl
    ⟨by decide +kernel, by decide +kernel, by decide +kernel⟩
  have hexp := hundone 15 .exp .log 27 28 (by decide +kernel) (by decide +kernel) rfl
    (by decide +kernel : identityBuffer.coeff 27 0 0 ≠ 0)
  refine ⟨hnone, ?_⟩
  intro v hv l hl k h0 hk
  simp only [List.mem_cons, List.not_mem_nil, or_false] at hv
  rcases hv with rfl | rfl | rfl | rfl | rfl | rfl | rfl | rfl
  · exact (hsin l hl k h0 hk).2 hindependent
  · exact (hcos l hl k h0 hk).2 hindependent
  · exact (htan l hl k h0 hk).2 hindependent
  · exact (hsinh l hl k h0 hk).2 hindependent
  · exact (hcosh l hl k h0 hk).2 hindependent
  · exact (htanh l hl k h0 hk).2 hindependent
  · exact (hexp l hl k h0 hk).2 hindependent
  · exact (hdivided hnone l hl k h0 hk).2 hindependent

end Tape

end JetTape
