import JetTape.Proofs.Replay.Stopping
import JetTape.Proofs.Sweep.Calls
import JetTape.Proofs.Sweep.Directions
import JetTape.Proofs.Sweep.Skipping
import JetTape.Proofs.Tape.Overflow

/-!
Refused sweeps. When an operator refuses, the sweep ends with the coefficients that it had when it
came to the operator's block: what the operator has accepted along other directions is dropped, and
nothing behind the block is replayed. Sweeps of several orders end with the first that is refused.
-/
namespace JetTape

open Arena (SameShape)

variable {F : Type}

/-- The instructions of a program before instruction `o`, closed by a `stop`. -/
def Program.upTo (P : Program F) (o : Nat) : Program F :=
  { P with
    instrCount := o + 1
    instr := fun i => if i < o then P.instr i else .ok ⟨.stop, [], P.rowCount - 1⟩ }

theorem Program.upTo_holds {P : Program F} {l l' : List Instr} (h : P.Holds 0 (l ++ l')) :
    (P.upTo l.length).Holds 0 (l ++ [⟨.stop, [], P.rowCount - 1⟩]) := by
  refine Program.holds_append.mpr ⟨?_, ?_⟩
  · intro k hk
    have hget := (Program.holds_append.mp h).1 k hk
    rw [Nat.zero_add] at hget ⊢
    simp only [upTo, if_pos hk, hget]
  · intro k hk
    obtain rfl : k = 0 := by simpa using hk
    simp [upTo]

variable [Scalar F]

namespace Tape

/-- The block at instruction `o` makes the sweep of order `q` over the buffer `b` stop: its operator
refuses along direction `d`. -/
structure RefusedAt (t : Tape F) (q : Nat) (b : Buffer F) (mask : Array Bool)
    (resolved : Array Nat) (run : Run F) (o n : Nat) (block : Block) (operator : Operator F)
    (request : Nat → Request F) (d : Nat) : Prop where
  opens : t.InBlock o o
  hasBlock : t.HasBlock o n block
  unskipped : ∀ i, t.InBlock o i → ¬ t.Skipped mask i
  site : t.callSite block.opening.args = .ok (block.site operator)
  stop : run.stop = some (.refused operator.name q d)
  direction : d < b.layout.directions
  /-- The requests are for what the block gathers from the coefficients that are left. -/
  gathers : ∀ l < b.layout.directions,
    block.Gathers t.params q l (b.withCells run.cells).arena (request l)
  accepts : ∀ l < d, ∃ answer, operator.forward (request l) = .accept answer
  refuses : operator.forward (request d) = .refuse
  /-- The sweep of the instructions before the block leaves the same cells, and the requests after
  its own are those of the block up to the one that is refused. -/
  upTo : ∀ options, let before := (Replay.sweep (t.program.upTo o) q ((mask.take o).push false)
      resolved options).run b.arena
    before.stop = none ∧ run.cells = before.cells ∧
      run.requests = before.requests ++ ((List.range (d + 1)).map request).toArray
  /-- The rows of the block and those behind it hold at order `q` what they held before. -/
  kept : ∀ i ins v, o ≤ i → t.instr i = .ok ins → ins.Owns v → ∀ l < b.layout.directions,
    (b.withCells run.cells).get v q l = b.get v q l

variable {t : Tape F} {items : List Item} {tail : List Instr} {b : Buffer F} {q : Nat}
variable {mask : Array Bool} {resolved : Array Nat}

omit [Scalar F] in
/-- What comes behind some of the items owns rows behind theirs. -/
theorem Spells.le_of_owns (h : t.Spells items tail) (hc : t.Countable) {before after : List Item}
    (hitems : items = before ++ after) {i v : Nat} {ins : Instr} (hins : t.instr i = .ok ins)
    (hi : t.independents + 1 + (instrsOf before).length ≤ i) (howns : ins.Owns v) :
    1 + t.independents + rowCount (instrsOf before) ≤ v := by
  have hplaced := h.valid.placed
  rw [hitems, instrsOf_append, placed_append] at hplaced
  rcases h.place_of_instr hc hins with ⟨hle, -⟩ | ⟨c, rfl, hget⟩ | hop
  · omega
  · rw [hitems, instrsOf_append, List.getElem?_append_right (by omega)] at hget
    exact (hplaced.2.owner_bounds (List.mem_of_getElem? hget) howns.1 howns.2).1
  · have hlt := howns.1
    have hle := howns.2
    rw [hop] at hlt
    simp only [Opcode.resultCount] at hlt
    omega

/-- The sweep of the instructions before an item replays the items before it. -/
theorem Spells.sweep_upTo (h : t.Spells items tail) (hc : t.Countable) (hb : b.Fits t)
    (hshapes : Replay.checkShapes t.program q mask resolved b.arena = .ok ())
    (hmask : t.MaskOk mask) (hloads : t.LoadsOk resolved) {before after : List Item}
    (hitems : items = before ++ after) (options : Options) :
    let o := t.independents + 1 + (instrsOf before).length
    let out := (t.plan q mask resolved).replayItems b.layout.directions (t.independents + 1) before
      b.arena.jet
    let run := (Replay.sweep (t.program.upTo o) q ((mask.take o).push false) resolved
      options).run b.arena
    run.stop = out.stop ∧ run.requests = out.requests.toArray ∧
      SameShape b.arena (b.withCells run.cells).arena ∧
      ∀ l < b.layout.directions, (b.withCells run.cells).arena.jet l = out.jets l := by
  intro o out run
  obtain ⟨hfit, hmaskSize, hloadCount⟩ :=
    (Arena.Shaped.checkShapes_eq_ok_iff (P := t.program) hb.shaped).mp hshapes
  have hmaskSize : mask.size = t.ops.size := hmaskSize
  have hloadCount : resolved.size = t.loads := hloadCount
  have hsize := h.size_eq
  rw [hitems, instrsOf_append, List.length_append] at hsize
  have hinstrs := hc.instrs
  have hargBound : Index.argBound < Index.bound := by decide
  have hle : o ≤ mask.size := by omega
  have hcut : ((mask.take o).push false).size = o + 1 := by simp [hle]
  have hlast : ((mask.take o).push false).getD o false = false := by
    have hpush : ((mask.take o).push false)[(mask.take o).size]? = some false :=
      Array.getElem?_push_size
    rw [show (mask.take o).size = o by simp [hle]] at hpush
    rw [Array.getD_eq_getD_getElem?, hpush]
    rfl
  have hsame : ∀ k < o, ((mask.take o).push false).getD k false = mask.getD k false := by
    intro k hk
    have htake : (mask.take o).size = o := by simp [hle]
    rw [Array.getD_eq_getD_getElem?, Array.getElem?_push_lt (by omega)]
    simp [show k < mask.size by omega]
  have hhere : ∀ k < (instrsOf before).length,
      ((mask.take o).push false).getD (t.independents + 1 + k) false =
        mask.getD (t.independents + 1 + k) false :=
    fun k hk => hsame _ (Nat.add_lt_add_left hk _)
  have hvalid := h.valid
  rw [hitems, validItems_append, ← hloadCount] at hvalid
  have hrows := h.rows
  rw [hitems, instrsOf_append, rowCount_append] at hrows
  have hholds := h.program_holds hc
  rw [hitems, instrsOf_append, ← List.append_assoc, List.append_assoc _ _ tail] at hholds
  have hholds := Program.upTo_holds hholds
  have hlength : (headInstrs t.independents ++ instrsOf before).length = o := by
    rw [List.length_append, length_headInstrs]
  rw [hlength] at hholds
  have hconsistent := h.consistent hmask
  rw [hitems] at hconsistent
  obtain ⟨a, hshape, hjets, hleads⟩ := Replay.leads_sweep (P := t.program.upTo o)
    (p := t.plan q ((mask.take o).push false) resolved) ⟨rfl, rfl⟩ rfl hb.shaped
    ((Arena.Shaped.checkShapes_eq_ok_iff (P := t.program.upTo o) hb.shaped).mpr
      ⟨hfit, hcut, hloadCount⟩) hholds rfl (by show o + 1 < _; omega) (Nat.le_of_lt h.bound)
    hvalid.1 (by show 1 + t.independents + _ ≤ t.rows; omega)
    (fun item hitem => h.serves hc hloads item (by rw [hitems]; simp [hitem]))
    (hconsistent.of_append hhere) hlast options #[]
  have hout : (t.plan q ((mask.take o).push false) resolved).replayItems
      b.layout.directions (t.independents + 1) before b.arena.jet = out :=
    Plan.replayItems_withMask (p := t.plan q mask resolved) hhere
  obtain ⟨hstop, hcells, hasked⟩ := Replay.run_of_leads hleads
  have harena : (b.withCells run.cells).arena = a := hshape.withCells_eq hcells
  rw [harena]
  refine ⟨hstop.trans (congrArg Outcome.stop hout), ?_, hshape, fun l hl => ?_⟩
  · exact hasked.trans (by rw [Array.empty_append]; exact congrArg (·.requests.toArray) hout)
  · exact (hjets l hl).trans (congrArg (·.jets l) hout)

/-- A sweep of a recorded tape that is refused is refused at one of its blocks. -/
theorem Spells.refusedAt (h : t.Spells items tail) (hc : t.Countable) (hstop : t.isStopped = true)
    (hb : b.Fits t) (hmask : t.MaskOk mask) (hloads : t.LoadsOk resolved) (options : Options)
    {name : String} {k d : Nat}
    (hrefused : (t.sweep q b mask resolved options).stop = some (.refused name k d)) :
    k = q ∧ ∃ o n block operator request, name = operator.name ∧
      t.RefusedAt q b mask resolved (t.sweep q b mask resolved options) o n block operator request
        d := by
  cases hshapes : Replay.checkShapes t.program q mask resolved b.arena with
  | error f =>
    rw [(sweep_of_checkShapes_error hstop hb hshapes options).1] at hrefused
    cases hrefused
  | ok u =>
    let p := t.plan q mask resolved
    let run := t.sweep q b mask resolved options
    have hfit : b.arena.Fits t.rows q :=
      ((Arena.Shaped.checkShapes_eq_ok_iff (P := t.program) hb.shaped).mp hshapes).1
    obtain ⟨hout, hasked, hshape, hjets⟩ := h.sweep hc hstop hb hshapes hmask hloads options
    obtain ⟨before, item, after, hitems, hmark, hnone, hhere, hleft, hrequests⟩ :=
      Plan.exists_stopped (hout.symm.trans hrefused)
    obtain ⟨block, operator, rfl, hop, hname, hk, hd, haccepts, hrefuses, hmade⟩ :=
      Plan.exists_refused hhere
    have hblock := h.hasBlock hc hitems
    have hsite : t.callSite block.opening.args = .ok (block.site operator) := by
      obtain ⟨operator', hop', hsite⟩ := Plan.exists_site (p := p) hblock.valid hblock.counted.1
        hblock.counted.2
      rw [hop] at hop'
      cases hop'
      exact hsite
    have hjet : ∀ l < b.layout.directions, (b.withCells run.cells).arena.jet l =
        (p.replayItems b.layout.directions (t.independents + 1) before b.arena.jet).jets l := by
      intro l hl
      rw [← congrFun hleft l]
      exact hjets l hl
    have hrequest : ∀ l < b.layout.directions,
        p.request block ((b.withCells run.cells).arena.jet l) = p.request block
          ((p.replayItems b.layout.directions (t.independents + 1) before b.arena.jet).jets l) :=
      fun l hl => congrArg _ (hjet l hl)
    refine ⟨hk, t.independents + 1 + (instrsOf before).length,
      1 + t.independents + rowCount (instrsOf before), block, operator,
      fun l => p.request block ((b.withCells run.cells).arena.jet l), hname, ?_⟩
    constructor
    case opens => exact hblock.inside 0 (Nat.succ_pos _)
    case hasBlock => exact hblock
    case unskipped =>
      rintro i hin (hmarked | ⟨o, hin', hmarked⟩)
      · rw [hmask.blocks _ i hin hmark] at hmarked
        cases hmarked
      · rw [hin'.unique hin, show mask.getD _ false = false from hmark] at hmarked
        cases hmarked
    case site => exact hsite
    case stop =>
      rw [hrefused, hname, hk]
      rfl
    case direction => exact hd
    case gathers =>
      intro l hl
      exact Plan.gathers_request (p := p) (hshape.fits hfit) hblock.valid hblock.rows_le hl
    case accepts =>
      intro l hl
      rw [hrequest l (by omega)]
      exact haccepts l hl
    case refuses =>
      rw [hrequest d hd]
      exact hrefuses
    case upTo =>
      intro options'
      obtain ⟨hstop', hasked', hshape', hjets'⟩ :=
        h.sweep_upTo hc hb hshapes hmask hloads hitems options'
      refine ⟨hstop'.trans hnone, ?_, ?_⟩
      · refine Arena.cells_eq_of_jet (a := (b.withCells _).arena)
          (b := (b.withCells run.cells).arena) (hshape'.shaped hb.shaped)
          (hshape.layout.trans hshape'.layout.symm) (hshape.size.trans hshape'.size.symm) ?_
        intro l hl
        exact (hjet l hl).trans (hjets' l hl).symm
      · have hmade' : (List.range (d + 1)).map (fun l => p.request block
            ((b.withCells run.cells).arena.jet l)) = _ :=
          List.map_congr_left fun l hl => hrequest l (by
            have hl := List.mem_range.mp hl
            omega)
        rw [hmade', hasked', List.append_toArray, hasked, hrequests, hmade]
    case kept =>
      intro i ins v hi hins howns l hl
      have hv := h.le_of_owns hc hitems hins hi howns
      have hlt := h.lt_rows_of_owns hc hins howns
      rw [hb.get_eq hlt hfit.order_lt hl, (hb.withCells hshape).get_eq hlt hfit.order_lt hl,
        hjet l hl]
      have hvalid := h.valid
      rw [hitems, validItems_append] at hvalid
      exact congrArg _ (Plan.replayItems_of_ne (p := p) hvalid.1 (Or.inr (Or.inr (Or.inl hv))))

/-- Sweeps of all orders that are refused come to their end at the orders below the one at which
they are refused. -/
theorem Spells.sweepOrders_refused (h : t.Spells items tail) (hc : t.Countable)
    (hstop : t.isStopped = true) (hb : b.Fits t) (hmask : t.MaskOk mask)
    (hloads : t.LoadsOk resolved) (options : Options) {n : Nat} (hn : n < b.layout.capOrder)
    {name : String} {k d : Nat}
    (hrefused : (t.sweepOrders n b mask resolved options).stop = some (.refused name k d)) :
    let lower := t.sweepOrders (k - 1) b mask resolved options
    let last := t.sweep k (b.withCells lower.cells) mask resolved options
    let run := t.sweepOrders n b mask resolved options
    0 < k ∧ k ≤ n ∧ lower.stop = none ∧ run.stop = last.stop ∧ run.cells = last.cells ∧
      run.requests = lower.requests ++ last.requests := by
  intro lower last run
  induction n with
  | zero =>
    have hnone : run.stop = none :=
      (Replay.run_of_leads ((Replay.leads_require hn).bind (Replay.leads_pure ()))).1
    cases hnone.symm.trans hrefused
  | succ n ih =>
    have hn' : n < b.layout.capOrder := Nat.lt_of_succ_lt hn
    obtain ⟨hwent, hstopped⟩ := h.sweepOrders_succ hc hstop hb hn hmask hloads options
    cases hlower : (t.sweepOrders n b mask resolved options).stop with
    | some stop =>
      obtain ⟨hout, hcells, hasked⟩ := hstopped stop hlower
      rw [hrefused] at hout
      obtain ⟨hpos, hk, hnone, hlast, hcells', hasked'⟩ := ih hn' (hlower.trans hout.symm)
      exact ⟨hpos, Nat.le_succ_of_le hk, hnone,
        hrefused.trans (hout.trans (hlower.symm.trans hlast)), hcells.trans hcells',
        hasked.trans hasked'⟩
    | none =>
      obtain ⟨hout, hcells, hasked⟩ := hwent hlower
      have hshape := (h.leads_runOrders hc hstop hb hn' hmask hloads options).1
      obtain ⟨rfl, -⟩ := h.refusedAt hc hstop (hb.withCells hshape) hmask hloads options
        (hout.symm.trans hrefused)
      exact ⟨Nat.succ_pos n, Nat.le_refl _, hlower, hout, hcells, hasked⟩

/-- A sweep that is refused ends cleanly: it is refused at a block that it does not skip, with the
coefficients that the sweep of the instructions before the block leaves. Sweeps of all orders that
are refused come to their end at the orders below the one that is named, are refused at that order,
and leave the orders above as they were. -/
theorem sweep_refused (ht : t.Recorded) (hstop : t.isStopped = true) (hc : t.Countable)
    (hb : b.Fits t) (hmask : t.MaskOk mask) (hloads : t.LoadsOk resolved) (options : Options) :
    (∀ q name k d, (t.sweep q b mask resolved options).stop = some (.refused name k d) →
      k = q ∧ ∃ o n block operator request, name = operator.name ∧
        t.RefusedAt q b mask resolved (t.sweep q b mask resolved options) o n block operator request
          d) ∧
    ∀ qMax name k d,
      let lower := t.sweepOrders (k - 1) b mask resolved options
      let b' := b.withCells lower.cells
      let last := t.sweep k b' mask resolved options
      let run := t.sweepOrders qMax b mask resolved options
      run.stop = some (.refused name k d) →
        0 < k ∧ k ≤ qMax ∧ lower.stop = none ∧
        run.stop = last.stop ∧ run.cells = last.cells ∧
        run.requests = lower.requests ++ last.requests ∧
        (∃ o n block operator request, name = operator.name ∧
          t.RefusedAt k b' mask resolved last o n block operator request d) ∧
        ∀ v < t.rows, ∀ l < b.layout.directions, ∀ j < b.layout.capOrder,
          (j < k → (b.withCells run.cells).get v j l = b'.get v j l) ∧
          (k < j → (b.withCells run.cells).get v j l = b.get v j l) := by
  obtain ⟨items, tail, h⟩ := ht.spells
  refine ⟨fun q name k d => h.refusedAt hc hstop hb hmask hloads options, ?_⟩
  intro qMax name k d lower b' last run hrefused
  have hcap : qMax < b.layout.capOrder := by
    by_contra hcap
    cases (sweepOrders_stop_of_le (Nat.not_lt.mp hcap) mask resolved options).symm.trans hrefused
  obtain ⟨hpos, hk, hnone, hout, hcells, hasked⟩ :=
    h.sweepOrders_refused hc hstop hb hmask hloads options hcap hrefused
  have hlower : k - 1 < b.layout.capOrder := by omega
  obtain ⟨hshape, hkept, -⟩ := h.leads_runOrders hc hstop hb hlower hmask hloads options
  have hb' : b'.Fits t := hb.withCells hshape
  obtain ⟨-, hrefusedAt⟩ :=
    h.refusedAt hc hstop hb' hmask hloads options (hout.symm.trans hrefused)
  obtain ⟨hshape', hkept', -⟩ := h.leads_run (q := k) hc hstop hb' hmask hloads options #[]
  refine ⟨hpos, hk, hnone, hout, hcells, hasked, hrefusedAt, ?_⟩
  intro v hv l hl j hj
  have harena : b.withCells run.cells = b'.withCells last.cells := by rw [hcells]; rfl
  have hget := (hb'.withCells hshape').get_eq hv hj hl
  rw [harena, hget]
  constructor
  · intro hlt
    rw [hb'.get_eq hv hj hl, hkept' l hl v j (Nat.ne_of_lt hlt)]
  · intro hlt
    rw [hb.get_eq hv hj hl, hkept' l hl v j (Nat.ne_of_gt hlt), hkept l hl v j (by omega)]

/-- A tape with a call that is answered, a call that may be refused and a product of their
results. -/
def guardedTape : Tape ℚ :=
  .ofSession [.independents 2, .parameter 3, .register .echo, .register .picky,
    .call 0 7 [.var 1] [.var], .call 1 8 [.var 2, .par 0] [.var],
    .operation (.arithmetic .mulVV) [3, 4], .finish]

/-- A buffer for that tape: orders below 4, two directions, and a five that meets the second call at
order 2 along direction 1. -/
def forbiddenBuffer : Buffer ℚ :=
  ⟨⟨⟨4, 2⟩, (Array.replicate 42 1).setIfInBounds 18 5⟩, 6⟩

/-- The second call is refused along direction 1 at order 2, after it has been answered along
direction 0. -/
theorem guardedTape_sweep_refused :
    let mask := guardedTape.noSkip
    let lower := guardedTape.sweepOrders 1 forbiddenBuffer mask #[] {}
    let b' := forbiddenBuffer.withCells lower.cells
    let last := guardedTape.sweep 2 b' mask #[] {}
    let run := guardedTape.sweepOrders 3 forbiddenBuffer mask #[] {}
    run.stop = some (.refused "picky" 2 1) ∧ lower.stop = none ∧ run.cells = last.cells ∧
      ∃ o n block operator request, "picky" = operator.name ∧
        guardedTape.RefusedAt 2 b' mask #[] last o n block operator request 1 := by
  have hrefused : (guardedTape.sweepOrders 3 forbiddenBuffer guardedTape.noSkip #[] {}).stop =
      some (.refused "picky" 2 1) := by
    decide +kernel
  obtain ⟨-, -, hnone, -, hcells, -, hat, -⟩ :=
    (sweep_refused (ofSession_recorded (by decide +kernel)) (by decide +kernel)
      ⟨by decide +kernel, by decide +kernel⟩ (by decide +kernel) (by decide +kernel)
      (by decide +kernel) {}).2 3 "picky" 2 1 hrefused
  exact ⟨hrefused, hnone, hcells, hat⟩

/-- Behind `2 ^ 32` words the only block of a tape, recorded as a call of `echo`, may be read back
as a call of another operator, and that operator's refusal ends the sweep. -/
theorem strayCall_refused :
    let t := strayCall .picky
    t.Recorded ∧ t.isStopped = true ∧ t.registry[0]? = some .echo ∧
      (∃ l, t.Lists (l ++ echoCall) ∧ ∀ ins ∈ l, ins.op ≠ .callMarker) ∧
      (strayBuffer 5 0).Fits t ∧ t.MaskOk t.noSkip ∧ t.LoadsOk #[] ∧
      (t.sweep 1 (strayBuffer 5 0) t.noSkip #[] {}).stop = some (.refused "picky" 1 0) ∧
      (Operator.echo : Operator ℚ).name ≠ "picky" := by
  intro t
  have hlike := strayCall_alike .picky
  have hmask : t.MaskOk t.noSkip := by
    rw [hlike.noSkip]
    exact hlike.maskOk (by decide)
  refine ⟨strayCall_recorded .picky, hlike.isStopped.trans (by decide),
    by rw [hlike.registry]; rfl, ⟨_, strayCall_lists .picky, ?_⟩, hlike.fits (by decide),
    hmask, hlike.loadsOk (by decide), ?_, by decide⟩
  · simp [longSkip]
  · rw [hlike.sweep_noSkip]
    with_unfolding_all decide

end Tape

end JetTape
