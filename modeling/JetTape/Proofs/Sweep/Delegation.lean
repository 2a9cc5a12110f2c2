import JetTape.Proofs.Replay.Delegation
import JetTape.Proofs.Sweep.Agreement
import JetTape.Proofs.Sweep.Deletion
import JetTape.Proofs.Sweep.Loads
import JetTape.Proofs.Tape.Overflow

/-!
Delegation changes no sweep. In place of an instruction with one result a tape can call an operator
that applies the recurrence of the instruction to the series of the call. Every sweep of the tape
with the call leaves the coefficients that the sweep of the tape with the instruction leaves, and
ends as it ends.
-/
namespace JetTape

variable {F : Type}

/-- A mask of the tape in which a call with `n` arguments stands for instruction `i`. It marks the
opening marker of the call as `mask` marks the instruction, and all other instructions alike. -/
structure MasksAlike (i n : Nat) (mask mask' : Array Bool) : Prop where
  earlier : ∀ j ≤ i, mask'.getD j false = mask.getD j false
  later : ∀ j < mask.size, i < j → mask'.getD (j + (n + 2)) false = mask.getD j false

variable [Scalar F]

/-- An instruction that has a recurrence stands by itself. -/
theorem Recurrence.isPlain_of_ofOpcode? {op : Opcode} {rule : Recurrence F}
    (h : ofOpcode? op = some rule) : op.isPlain = true := by
  cases op <;> first | rfl | cases h

namespace Tape

variable {t u : Tape F} {b : Buffer F} {q : Nat} {mask mask' : Array Bool} {resolved : Array Nat}

section Matching

variable {items items' : List Item} {tail tail' : List Instr}

/-- Stopped tapes with the same rows whose items match are swept alike. -/
theorem Spells.sweep_matches (h : t.Spells items tail) (h' : u.Spells items' tail')
    (hc : t.Countable) (hc' : u.Countable) (hstop : t.isStopped = true)
    (hstop' : u.isStopped = true) (hrows : u.rows = t.rows)
    (hindependents : u.independents = t.independents) (hloadCount : u.loads = t.loads)
    (hsize : mask.size = t.ops.size) (hsize' : mask'.size = u.ops.size) (hmask : t.MaskOk mask)
    (hmask' : u.MaskOk mask') (hloads : t.LoadsOk resolved) (hloads' : u.LoadsOk resolved)
    (hb : b.arena.Shaped b.rows)
    (hmatches : 0 < q → (t.plan q mask resolved).Matches (u.plan q mask' resolved)
      b.layout.directions (t.independents + 1) (t.independents + 1) items items')
    (options options' : Options) :
    let run := t.sweep q b mask resolved options
    let run' := u.sweep q b mask' resolved options'
    run'.stop = run.stop ∧ run'.cells = run.cells := by
  intro run run'
  by_cases hmade : b.rows = t.rows
  · have hfits : b.Fits t := ⟨hmade, hmade ▸ hb⟩
    obtain ⟨hstops, hcells, -⟩ := h.sweep_agrees h' hc hc' hstop hstop' hrows hloadCount hloads
      hloads' hfits options options' hsize hsize' hmask hmask' fun hpos => by
        obtain ⟨hends, hjets⟩ := (hmatches hpos).replayItems b.arena.jet
        rw [hindependents]
        exact ⟨hends.symm, fun l _ => congrFun hjets.symm l⟩
    exact ⟨hstops, hcells⟩
  · -- The buffer is foreign to both tapes, and both say so with the same rows.
    have hmade' : b.rows ≠ u.rows := hrows ▸ hmade
    obtain ⟨hend, hcells⟩ : run.stop = _ ∧ run.cells = _ := sweep_foreign hstop hmade options
    obtain ⟨hend', hcells'⟩ : run'.stop = _ ∧ run'.cells = _ :=
      sweep_foreign hstop' hmade' options'
    rw [hrows] at hend'
    exact ⟨hend'.trans hend.symm, hcells'.trans hcells.symm⟩

end Matching

section Delegated

variable {before after : List Item} {tail : List Instr} {ins : Instr} {i callId : Nat}
variable {operator : Operator F}

omit [Scalar F] in
/-- A call stands for no earlier row, so the loads of the tape are those it had. -/
theorem Spells.loadsOk_delegate (h : t.Spells (before ++ .plain ins :: after) tail)
    (hc : t.Countable) (hone : ins.op.resultCount = 1)
    (hi : i = t.independents + 1 + (instrsOf before).length)
    (hc' : (t.delegate i ins callId operator).Countable) (hloads : t.LoadsOk resolved) :
    (t.delegate i ins callId operator).LoadsOk resolved := by
  have h' : (t.delegate i ins callId operator).Spells _ tail := h.delegate hc hone hi
  rw [h.loadsOk_iff hc] at hloads
  rw [h'.loadsOk_iff hc']
  intro ins' hins' s hop
  rw [instrsOf_append, instrsOf_cons, List.mem_append, List.mem_append] at hins'
  rcases hins' with hbefore | hcall | hafter
  · exact hloads ins' (by simp [hbefore]) s hop
  · obtain ⟨n, hblock⟩ := h'.valid.exists_valid (List.mem_append_right before List.mem_cons_self)
    have hplain := Block.Valid.not_plain hblock ins' hcall
    rw [hop] at hplain
    cases hplain
  · exact hloads ins' (by simp [hafter]) s hop

end Delegated

variable {rule : Recurrence F} {ins : Instr} {i : Nat}

/-- Let an instruction of a stopped tape have a recurrence and one result. In its place the tape can
call an operator that applies the recurrence to an arena of one direction, with the series of the
variable operands as its first rows and the series of the result as its last. With masks that mark
the call as they mark the instruction and the rest alike, the sweeps of both tapes leave the same
coefficients and end alike. -/
theorem sweep_delegate (ht : t.Recorded) (hstop : t.isStopped = true) (hc : t.Countable)
    (hins : t.instr i = .ok ins) (hrule : Recurrence.ofOpcode? ins.op = some rule)
    (hone : ins.op.resultCount = 1) (callId : Nat) :
    let u := t.delegate i ins callId (.ofInstr rule ins t.params)
    u.Countable → mask.size = t.ops.size → mask'.size = u.ops.size → t.MaskOk mask →
    u.MaskOk mask' → MasksAlike i ins.rows.length mask mask' → t.LoadsOk resolved →
    b.arena.Shaped b.rows → u.RoomOk q b.layout.directions →
    (ins.rows.length + 1) * (q + 1) < Index.bound → ∀ options options' : Options,
    let run := t.sweep q b mask resolved options
    let run' := u.sweep q b mask' resolved options'
    run'.stop = run.stop ∧ run'.cells = run.cells := by
  intro u hc' hsize hsize' hmask hmask' halike hloads hb hroom hbound options options'
  obtain ⟨items, tail, h⟩ := ht.spells
  obtain ⟨before, after, rfl, hi⟩ :=
    h.exists_plain hc hins (Recurrence.isPlain_of_ofOpcode? hrule)
  let call := callBlock t.registry.size callId ins.rows ins.row
  have h' : u.Spells (before ++ .call call :: after) tail := h.delegate hc hone hi
  have hstop' : u.isStopped = true := h'.isStopped_iff.mpr (h.isStopped_iff.mp hstop)
  -- The plans differ in the operator and in the mask alone, so all other items replay as they did.
  have hplan : u.plan q mask' resolved = (t.plan q mask resolved).withOperator
      (.ofInstr rule ins t.params) mask' := by
    simp only [u, plan, Plan.withOperator, params_delegate, registry_delegate]
  refine h.sweep_matches h' hc hc' hstop hstop' (h.rows_delegate hc hone hi) independents_delegate
    loads_delegate hsize hsize' hmask hmask' hloads (h.loadsOk_delegate hc hone hi hc' hloads) hb
    (fun hq => ?_) options options'
  have hopen : (u.plan q mask' resolved).openFault? b.layout.directions (.call call) = none :=
    h'.openFault?_eq_none hc' hroom hb.directed _
      (List.mem_append_right before List.mem_cons_self)
  have hargs : ins.args.length < Index.argBound := h.args_length_lt hc (by simp [Item.instrs])
  rw [hplan] at hopen ⊢
  refine Plan.matches_ofInstr (p := t.plan q mask resolved) h.valid hrule hone hargs hq hbound ?_ ?_
    hopen
  · intro d hd
    exact (halike.earlier _ (by omega)).symm
  · intro d hd
    have hlt : t.independents + 1 + (instrsOf before).length + 1 + d < mask.size := by
      rw [hsize, h.size_eq, instrsOf_append, instrsOf_cons, List.length_append, List.length_append,
        Item.instrs, List.length_singleton]
      omega
    refine (halike.later _ hlt (by omega)).symm.trans ?_
    congr 1
    omega

/-- A session with a product, a call, a quotient of its result by itself, a load and a sum. -/
def quotientSession : List (Recorder.Action ℚ) :=
  [.independents 2, .operation (.arithmetic .mulVV) [1, 2], .register .echo,
    .call 0 7 [.var 3] [.var], .operation (.arithmetic .divVV) [4, 4], .load 0 (.var 1),
    .operation (.arithmetic .addVV) [5, 6], .finish]

def quotientTape : Tape ℚ := .ofSession quotientSession

/-- The quotient of the tape. -/
def quotientInstr : Instr := ⟨.arithmetic .divVV, [4, 4], 5⟩

/-- Divides one series by another. -/
def quotientOperator : Operator ℚ := .ofInstr (Recurrence.arithmetic .divVV) quotientInstr #[]

/-- The tape that calls the operator for its quotient. -/
def delegatedTape : Tape ℚ := quotientTape.delegate 8 quotientInstr 9 quotientOperator

/-- Orders below 3, two directions, no two coefficients alike. -/
def quotientBuffer : Buffer ℚ :=
  ⟨⟨⟨3, 2⟩, ((List.range' 1 40).map fun i : Nat => (i : ℚ)).toArray⟩, 8⟩

/-- The tape is what a session with a call of the operator records. -/
example :
    let recorded : Tape ℚ := .ofSession [.independents 2, .operation (.arithmetic .mulVV) [1, 2],
      .register .echo, .register quotientOperator, .call 0 7 [.var 3] [.var],
      .call 1 9 [.var 4, .var 4] [.var], .load 0 (.var 1), .operation (.arithmetic .addVV) [5, 6],
      .finish]
    delegatedTape.ops = recorded.ops ∧ delegatedTape.argStart = recorded.argStart ∧
      delegatedTape.args = recorded.args ∧ delegatedTape.resultRows = recorded.resultRows := by
  decide +kernel

/-- The load stands for the product, and the sum is skipped. -/
theorem quotientTape_sweep_delegate :
    let run := quotientTape.sweep 2 quotientBuffer
      ((Array.replicate 12 false).setIfInBounds 10 true) #[3] {}
    let run' := delegatedTape.sweep 2 quotientBuffer
      ((Array.replicate 16 false).setIfInBounds 14 true) #[3] {}
    run.stop = none ∧ run.requests.size + 2 = run'.requests.size ∧
      run.cells[28]? ≠ quotientBuffer.cells[28]? ∧
      run'.stop = run.stop ∧ run'.cells = run.cells := by
  intro run run'
  have hnone : run.stop = none := by decide +kernel
  have hasked : run.requests.size + 2 = run'.requests.size := by decide +kernel
  have hcomputed : run.cells[28]? ≠ quotientBuffer.cells[28]? := by decide +kernel
  have hins : quotientTape.instr 8 = .ok quotientInstr := by decide +kernel
  refine ⟨hnone, hasked, hcomputed, ?_⟩
  exact sweep_delegate (ofSession_recorded (by decide +kernel)) (by decide +kernel)
    ⟨by decide +kernel, by decide +kernel⟩ hins rfl rfl 9
    ⟨by decide +kernel, by decide +kernel⟩ (by decide +kernel) (by decide +kernel)
    (by decide +kernel) (by decide +kernel) ⟨by decide +kernel, by decide +kernel⟩
    (by decide +kernel) ⟨by decide +kernel, by decide +kernel⟩ (by decide +kernel)
    (by decide +kernel) {} {}

/-- Words for nine arguments, the first of them a 1. -/
def lateWords : List Nat := [1, 0, 0, 0, 0, 0, 0, 0, 0]

/-- An exponential of row 1. -/
def lateInstr : Instr := ⟨.elementary .exp, [1], 2⟩

/-- Computes an exponential series. -/
def lateOperator : Operator ℚ := .ofInstr (Recurrence.elementary .exp) lateInstr #[]

/-- The exponential is recorded behind a skip that lists its operand. -/
def lateTape : Tape ℚ :=
  overfull [.independents 1] lateWords [.operation (.elementary .exp) [1], .finish]

/-- A call of the operator is recorded in its place. -/
def lateCall : Tape ℚ :=
  overfull [.register lateOperator, .independents 1] lateWords [.call 0 9 [.var 1] [.var], .finish]

/-- What is recorded before the skip. -/
def lateHead : Tape ℚ := .ofSession [.register lateOperator, .independents 1]

/-- The call in the place of the exponential, and the last instruction. -/
def lateBlock : List Instr :=
  (callBlock 0 9 lateInstr.rows lateInstr.row).instrs ++ [⟨.stop, [], 2⟩]

theorem overfills_lateCall : Overfills [.register lateOperator, .independents 1]
    [.call 0 9 [.var 1] [.var], .finish] lateHead lateBlock := by
  intro entries
  rfl

theorem lateHead_recorded : lateHead.Recorded := ofSession_recorded rfl

theorem placed_lateBlock : Placed lateHead.rows lateBlock :=
  ⟨rfl, rfl, rfl, rfl, rfl, trivial⟩

theorem lateCall_alike : lateCall.Alike (lateHead.misread lateWords lateBlock) :=
  overfills_lateCall.alike lateHead_recorded placed_lateBlock (by decide)
    (show lateHead.args.size + 6 + 9 < Index.argBound by decide)

theorem lateCall_lists : lateCall.Lists ([⟨.start, [0], 0⟩, ⟨.independent, [], 1⟩,
    longSkip (filler lateWords) 1] ++ lateBlock) := by
  have hinstrs : lateHead.instrs = [⟨.start, [0], 0⟩, ⟨.independent, [], 1⟩] := by decide
  exact overfills_lateCall.lists lateHead_recorded ⟨by decide, by decide⟩ hinstrs
    placed_lateBlock lateWords

/-- Behind `2 ^ 32` words an instruction may be read back as it was recorded where the call in its
place is not, since the call has more words. -/
theorem lateCall_faults :
    let l : List Instr := [⟨.start, [0], 0⟩, ⟨.independent, [], 1⟩, longSkip (filler lateWords) 1]
    let run := lateTape.sweep 1 (strayBuffer 1 5) lateTape.noSkip #[] {}
    let run' := lateCall.sweep 1 (strayBuffer 1 5) lateCall.noSkip #[] {}
    lateTape.Recorded ∧ lateCall.Recorded ∧ lateTape.isStopped = true ∧
      lateCall.registry = #[lateOperator] ∧
      lateTape.Lists (l ++ [lateInstr, ⟨.stop, [], 2⟩]) ∧
      lateCall.Lists (l ++ ((callBlock 0 9 lateInstr.rows lateInstr.row).instrs ++
        [⟨.stop, [], 2⟩])) ∧
      (strayBuffer 1 5).Fits lateTape ∧ (strayBuffer 1 5).Fits lateCall ∧
      run.stop = none ∧ run'.stop = some (.fault (.unknownOperator 1)) := by
  intro l run run'
  have hfill := overfills_stray .exp
  have hlike : lateTape.Alike _ := hfill.alike oneTape_recorded (placed_lateInstrs .exp)
    (show 1 ≤ lateWords.length by decide)
    (show oneTape.args.size + 6 + 9 < Index.argBound by decide)
  have hlists := hfill.lists oneTape_recorded oneTape_countable oneTape_instrs
    (placed_lateInstrs .exp) lateWords
  have hrun : run = _ := hlike.sweep_noSkip _ _ _ _
  have hrun' : run' = _ := lateCall_alike.sweep_noSkip _ _ _ _
  refine ⟨hfill.recorded, overfills_lateCall.recorded, hlike.isStopped.trans (by decide),
    lateCall_alike.registry.trans rfl, hlists, lateCall_lists, hlike.fits (by decide),
    lateCall_alike.fits (by decide), ?_⟩
  rw [hrun, hrun']
  with_unfolding_all decide

end Tape

end JetTape
