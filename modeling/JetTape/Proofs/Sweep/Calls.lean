import JetTape.Proofs.Sweep.Openings
import JetTape.Proofs.Tape.Overflow

/-!
What a sweep of a recorded tape does with a call block. Its operator is asked along one direction
after another, each time with the coefficients of the block's arguments and results along that
direction and nothing else, and the results receive what it has answered for them. Neither the
blocks before nor what an operator leaves below the order of the sweep makes a difference.
-/
namespace JetTape

open Arena (SameShape)
open Replay (Leads Reaches)

variable {F : Type}

/-- An operator answers with as many cells as the results that it was given. -/
theorem Operator.size_of_answer {operator : Operator F} {r : Request F} {results : Array F}
    (h : operator.answer r = .ok results) : results.size = r.results.size := by
  unfold Operator.answer at h
  split at h <;> cases h
  exact Vector.size_toArray _

variable [Scalar F]

/-- The request holds the coefficients that a block gathers from an arena along direction `l` in a
sweep of order `q`: series by series those of its arguments up to order `q`, and those of its
results below order `q` with a zero after them. -/
structure Block.Gathers (b : Block) (params : Array F) (q l : Nat) (a : Arena F)
    (r : Request F) : Prop where
  callId : b.opening.args[1]? = some r.callId
  fromOrder : r.fromOrder = q
  toOrder : r.toOrder = q
  argFlags : r.argFlags = []
  resultFlags : r.resultFlags = []
  args_size : r.args.size = b.args.length * (q + 1)
  results_size : r.results.size = b.results.length * (q + 1)
  varArgs : ∀ j (hj : j < b.args.length), b.args[j].op = .callArg .var →
    ∃ row, b.args[j].args = [row] ∧ ∀ k ≤ q, ∃ x, a.get row k l = .ok x ∧
      r.args[j * (q + 1) + k]? = some x
  parArgs : ∀ j (hj : j < b.args.length), b.args[j].op = .callArg .par →
    ∃ i x, b.args[j].args = [i] ∧ params[i]? = some x ∧ ∀ k ≤ q,
      r.args[j * (q + 1) + k]? = some (if k = 0 then x else 0)
  varResults : ∀ i (hi : i < b.results.length), b.results[i].op = .callResult .var →
    ∀ k < q, ∃ x, a.get b.results[i].row k l = .ok x ∧ r.results[i * (q + 1) + k]? = some x
  parResults : ∀ i (hi : i < b.results.length), b.results[i].op = .callResult .par →
    ∃ j x, b.results[i].args = [j] ∧ params[j]? = some x ∧ ∀ k < q,
      r.results[i * (q + 1) + k]? = some (if k = 0 then x else 0)
  unknowns : ∀ i < b.results.length, r.results[i * (q + 1) + q]? = some 0

/-- The arena `a'` is `a` with the answers of a block filled in at order `q`: each variable result
has the cell that the operator has left for it along the direction, and all else is the same. -/
structure Block.Scatters (b : Block) (q : Nat) (answers : Nat → Array F) (a a' : Arena F) : Prop
    extends SameShape a a' where
  results : ∀ i (hi : i < b.results.length), b.results[i].op = .callResult .var →
    ∀ l < a.layout.directions, ∃ x, (answers l)[i * (q + 1) + q]? = some x ∧
      a'.get b.results[i].row q l = .ok x
  others : ∀ v k l, (k = q → ∀ ins ∈ b.results, ins.op = .callResult .var → v ≠ ins.row) →
    a'.get v k l = a.get v k l

namespace Plan

variable {p : Plan F} {b : Block} {a : Arena F} {n l rows k : Nat}

/-- The request of a block along a jet of an arena gathers from that arena. -/
theorem gathers_request (ha : a.Fits rows p.order) (hb : b.Valid n p.params.size k)
    (hrows : n + rowCount b.instrs ≤ rows) (hl : l < a.layout.directions) :
    b.Gathers p.params p.order l a (p.request b (a.jet l)) where
  callId := by
    obtain ⟨handle, callId, -, hopening⟩ := hb.header
    simp [request, hopening]
  fromOrder := rfl
  toOrder := rfl
  argFlags := rfl
  resultFlags := rfl
  args_size := size_request_args _
  results_size := size_request_results _
  varArgs := by
    intro j hj hop
    obtain ⟨x, hx, hsource, hargs⟩ := hb.args b.args[j] (List.getElem_mem hj)
    cases x with
    | par i =>
      rw [hop] at hsource
      cases hsource
    | var row =>
      refine ⟨row, hargs, ?_⟩
      intro k hk
      have hrow : row < rows := Nat.lt_of_lt_of_le hx.2 (by omega)
      refine ⟨_, ha.get_eq hrow hk hl, ?_⟩
      rw [getElem?_request_args hj hk]
      simp [callCoeff, hop, hargs, Operand.index]
  parArgs := by
    intro j hj hop
    obtain ⟨x, hx, hsource, hargs⟩ := hb.args b.args[j] (List.getElem_mem hj)
    cases x with
    | var row =>
      rw [hop] at hsource
      cases hsource
    | par i =>
      have hi : i < p.params.size := hx
      refine ⟨i, p.params[i], hargs, Array.getElem?_eq_getElem hi, ?_⟩
      intro k hk
      rw [getElem?_request_args hj hk]
      simp [callCoeff, hop, hargs, Operand.index, hi]
  varResults := by
    intro i hi hop k hk
    have hbounds := hb.row_of_result (List.getElem_mem hi) hop
    refine ⟨_, ha.get_eq (by omega) (Nat.le_of_lt hk) hl, ?_⟩
    rw [getElem?_request_results hi (Nat.le_of_lt hk), if_pos hk]
    simp [callCoeff, hop]
  parResults := by
    intro i hi hop
    rcases hb.results b.results[i] (List.getElem_mem hi) with hvar | ⟨j, hj, -, hargs⟩
    · rw [hop] at hvar
      cases hvar
    · refine ⟨j, p.params[j], hargs, Array.getElem?_eq_getElem hj, ?_⟩
      intro k hk
      rw [getElem?_request_results hi (Nat.le_of_lt hk), if_pos hk]
      simp [callCoeff, hop, hargs, hj]
  unknowns := by
    intro i hi
    rw [getElem?_request_results hi (Nat.le_refl _), if_neg (Nat.lt_irrefl _)]

/-- What a block fills in along every direction is scattered. -/
theorem scatters_fill {a' : Arena F} {answers : Nat → Array F} (ha : a.Fits rows p.order)
    (hb : b.Valid n p.params.size k) (hrows : n + rowCount b.instrs ≤ rows)
    (hshape : SameShape a a')
    (hsize : ∀ l < a.layout.directions, (answers l).size = b.results.length * (p.order + 1))
    (hjets : ∀ l < a.layout.directions,
      a'.jet l = (a.jet l).fill p.order (p.picked (answers l)) 0 b.results) :
    b.Scatters p.order answers a a' where
  toSameShape := hshape
  results := by
    intro i hi hop l hl
    have hbounds := hb.row_of_result (List.getElem_mem hi) hop
    have hplaced : Placed (n + rowCount (b.opening :: b.args)) b.results := by
      have hall := hb.placed
      rw [Block.instrs, placed_append, placed_append] at hall
      exact hall.1.2
    have hlt : i * (p.order + 1) + p.order < (answers l).size := by
      have hrow : (i + 1) * (p.order + 1) ≤ b.results.length * (p.order + 1) :=
        Nat.mul_le_mul_right _ hi
      rw [Nat.add_mul, Nat.one_mul] at hrow
      rw [hsize l hl]
      omega
    refine ⟨(answers l)[i * (p.order + 1) + p.order], Array.getElem?_eq_getElem hlt, ?_⟩
    have hl' : l < a'.layout.directions := by rwa [hshape.layout]
    rw [(hshape.fits ha).get_eq (by omega) (Nat.le_refl _) hl', hjets l hl,
      Jet.fill_self hplaced hi hop, Nat.zero_add, picked]
    simp [hlt]
  others := by
    intro v o l hother
    apply hshape.get_eq_of_jet
    intro hl
    rw [hjets l hl]
    apply Jet.fill_of_ne
    by_cases ho : o = p.order
    · exact Or.inr (hother ho)
    · exact Or.inl ho

end Plan

namespace Replay

variable {P : Program F} {p : Plan F} {options : Options} {requests : Array (Request F)}
  {a : Arena F} {out : Outcome F} {i i₀ n : Nat} {s : ReplayState F}

/-- An outcome that stops without having changed a coefficient. -/
theorem Brings.stopped (h : Brings P p options requests a out i₀ i) (ha : a.Shaped n)
    {stop : Stop} (hstop : out.stop = some stop) (hjets : out.jets = a.jet)
    (hs : s.core = ⟨a, none, requests⟩) :
    ∃ s', replayFrom P p.order p.mask p.resolved options i₀ s = .error stop s' ∧ s'.arena = a ∧
      s'.requests = requests ++ out.requests.toArray := by
  obtain ⟨a', hshape, hjets', herror, -⟩ := h
  have hcells : a'.cells = a.cells := by
    refine Arena.cells_eq_of_jet ha hshape.layout hshape.size fun l hl => ?_
    rw [hjets' l hl, hjets]
  obtain rfl : a' = a := by
    obtain ⟨layout, cells⟩ := a
    obtain ⟨layout', cells'⟩ := a'
    obtain rfl : layout' = layout := hshape.layout
    obtain rfl : cells' = cells := hcells
    rfl
  obtain ⟨s', hrun, hs'⟩ := herror stop hstop s hs
  exact ⟨s', hrun, congrArg Core.arena hs', congrArg Core.requests hs'⟩

/-- An outcome after which the replay goes on. -/
theorem Brings.went_on (h : Brings P p options requests a out i₀ i) (hstop : out.stop = none)
    (hs : s.core = ⟨a, none, requests⟩) :
    ∃ s', replayFrom P p.order p.mask p.resolved options i₀ s =
        replayFrom P p.order p.mask p.resolved options i s' ∧ s'.frame = none ∧
      s'.requests = requests ++ out.requests.toArray ∧ SameShape a s'.arena ∧
      ∀ l < a.layout.directions, s'.arena.jet l = out.jets l := by
  obtain ⟨a', hshape, hjets, -, hgo⟩ := h
  obtain ⟨s', hrun, hs'⟩ := hgo hstop s hs
  have harena : s'.arena = a' := congrArg Core.arena hs'
  rw [← harena] at hshape hjets
  exact ⟨s', hrun, congrArg Core.frame hs', congrArg Core.requests hs', hshape, hjets⟩

end Replay

/-- The ways in which a sweep goes on that comes to a block at instruction `o` in state `s`, where
the request along each direction is as given. -/
inductive Block.Called (P : Program F) (q : Nat) (mask : Array Bool) (resolved : Array Nat)
    (options : Options) (b : Block) (operator : Operator F) (request : Nat → Request F) (o : Nat)
    (s : ReplayState F) : EStateM.Result Stop (ReplayState F) Unit → Prop where
  /-- There is no room for the series of the block, and nothing is asked. -/
  | unopened {f : Fault} {s' : ReplayState F}
      (hnew : Call.Frame.new (b.site operator) q s.arena.layout.directions = .error f)
      (harena : s'.arena = s.arena) (hrequests : s'.requests = s.requests) :
      Called P q mask resolved options b operator request o s (.error (.fault f) s')
  /-- The operator accepts along the directions below `l` and halts along `l`, which is the last
  along which it is asked. -/
  | halts {l : Nat} {halt : Halt} {s' : ReplayState F} (hl : l < s.arena.layout.directions)
      (haccepts : ∀ d < l, ∃ results, operator.answer (request d) = .ok results)
      (hhalt : operator.answer (request l) = .error halt) (harena : s'.arena = s.arena)
      (hrequests : s'.requests = s.requests ++ ((List.range (l + 1)).map request).toArray) :
      Called P q mask resolved options b operator request o s (.error (halt.stop q l) s')
  /-- The operator accepts along all directions, and the sweep goes on behind the block. -/
  | closes {answers : Nat → Array F} {s' : ReplayState F}
      (haccepts : ∀ l < s.arena.layout.directions, operator.answer (request l) = .ok (answers l))
      (hframe : s'.frame = none)
      (hrequests : s'.requests =
        s.requests ++ ((List.range s.arena.layout.directions).map request).toArray)
      (hscatters : b.Scatters q answers s.arena s'.arena) :
      Called P q mask resolved options b operator request o s
        (Replay.replayFrom P q mask resolved options (o + b.instrs.length) s')

namespace Tape

variable {t : Tape F} {b : Buffer F} {q o n : Nat} {mask : Array Bool} {resolved : Array Nat}
  {options : Options} {s : ReplayState F}

/-- A sweep that comes to an unmarked block with no block open calls it. -/
theorem HasBlock.called {block : Block} {operator : Operator F} (h : t.HasBlock o n block)
    (hfits : s.arena.Fits t.rows q) (hframe : s.frame = none)
    (hmask : ∀ k < block.instrs.length, mask[o + k]? = some false)
    (hop : (t.plan q mask resolved).operator? block = some operator)
    (hsite : t.callSite block.opening.args = .ok (block.site operator)) :
    block.Called t.program q mask resolved options operator
      (fun l => (t.plan q mask resolved).request block (s.arena.jet l)) o s
      (Replay.replayFrom t.program q mask resolved options o s) := by
  let p := t.plan q mask resolved
  have hp : p.For t.program := plan_for t q mask resolved
  have hnext : Cursor.next t.program mask o = .ok o :=
    Cursor.next_of_unmarked (hmask 0 (Nat.succ_pos _))
  have hcore : s.core = ⟨s.arena, none, s.requests⟩ := by rw [← hframe]; rfl
  cases hnew : Call.Frame.new (block.site operator) q s.arena.layout.directions with
  | error f =>
    have hopen : p.openFault? s.arena.layout.directions (.call block) = some f := by
      simp only [Plan.openFault?, p, hop]
      rw [show (t.plan q mask resolved).order = q from rfl, hnew]
    have hbrings := Replay.brings_refused hp options s.requests h.valid h.holds hnext hop hsite hnew
    rw [Plan.replayItem_of_openFault hopen] at hbrings
    obtain ⟨s', hrun, harena, hrequests⟩ := hbrings.stopped hfits.toShaped rfl rfl hcore
    exact hrun ▸ .unopened hnew harena hrequests
  | ok f =>
    have hopen : p.openFault? s.arena.layout.directions (.call block) = none := by
      simp only [Plan.openFault?, p, hop]
      rw [show (t.plan q mask resolved).order = q from rfl, hnew]
    have hbrings := Replay.brings_block hp options s.requests hfits h.valid h.rows_pos h.rows_le
      h.holds hmask hnext hop hsite hnew
    cases hask : (p.ask block s.arena.jet s.arena.layout.directions 0).1 with
    | some stop =>
      rw [Plan.replayItem_call_some hopen hask] at hbrings
      obtain ⟨s', hrun, harena, hrequests⟩ := hbrings.stopped hfits.toShaped rfl rfl hcore
      obtain ⟨l, halt, hl, hbefore, hhalt, rfl, hasked⟩ := Plan.ask_eq_some hask
      rw [Nat.zero_add] at hhalt hrun
      rw [hasked, ← List.range_eq_range'] at hrequests
      have haccepts : ∀ d < l, ∃ results,
          operator.answer (p.request block (s.arena.jet d)) = .ok results :=
        fun d hd => ⟨_, Plan.answer_eq_results hop (hbefore d (Nat.zero_le d) (by omega))⟩
      exact hrun ▸ .halts hl haccepts (Plan.answer_eq_of_halt? hop hhalt) harena hrequests
    | none =>
      rw [Plan.replayItem_call_none hopen hask] at hbrings
      obtain ⟨s', hrun, hframe', hrequests, hshape', hjets⟩ := hbrings.went_on rfl hcore
      have hnone : ∀ l < s.arena.layout.directions, p.halt? (.call block) (s.arena.jet l) = none :=
        fun l hl => Plan.ask_eq_none hask l (Nat.zero_le l) (by omega)
      have haccepts : ∀ l < s.arena.layout.directions,
          operator.answer (p.request block (s.arena.jet l)) =
            .ok (p.results block (s.arena.jet l)) :=
        fun l hl => Plan.answer_eq_results hop (hnone l hl)
      rw [Plan.requests_of_ask_eq_none hask, ← List.range_eq_range'] at hrequests
      have hscatters : block.Scatters q (fun l => p.results block (s.arena.jet l)) s.arena
          s'.arena := by
        refine Plan.scatters_fill (p := p) hfits h.valid h.rows_le hshape' ?_ ?_
        · intro l hl
          rw [Operator.size_of_answer (haccepts l hl), Plan.size_request_results]
        · intro l hl
          rw [hjets l hl]
          exact Plan.advance_call (hnone l hl)
      exact hrun ▸ .closes haccepts hframe' hrequests hscatters

/-- The calls of a sweep are exact. Let a sweep of a recorded tape, over any coefficients and with
any load table, come to the opening marker of a block. It has come there with no block open if the
mask is consistent; with any other mask let that be so and the block be unmarked. The block's
operator is then asked along one direction after another until it halts, each time for what the
block gathers along that direction. If it accepts along all of them its answers are scattered and
the sweep goes on behind the block; otherwise the sweep ends with all coefficients as they were. -/
theorem sweep_calls (ht : t.Recorded) (hc : t.Countable) (hb : b.Fits t) (hin : t.InBlock o o)
    (hstation : (o, s) ∈ Replay.stations t.program q mask resolved options b.arena)
    (hreached : t.MaskOk mask ∨
      s.frame = none ∧ ∀ i, t.InBlock o i → mask.getD i false = false) :
    ∃ n block operator request, t.HasBlock o n block ∧
      t.callSite block.opening.args = .ok (block.site operator) ∧
      (∀ l < s.arena.layout.directions, block.Gathers t.params q l s.arena (request l)) ∧
      s.arena.layout = b.layout ∧
      block.Called t.program q mask resolved options operator request o s
        (Replay.sweep t.program q mask resolved options { arena := b.arena }) := by
  obtain ⟨items, tail, h⟩ := ht.spells
  obtain ⟨hshapes, -⟩ := Replay.mem_stationsFrom_of_mem_stations hstation
  have hshape := Replay.sameShape_of_mem_stations hstation
  obtain ⟨hfits, hsize, -⟩ :=
    (Arena.Shaped.checkShapes_eq_ok_iff (P := t.program) hb.shaped).mp hshapes
  have hfits : s.arena.Fits t.rows q := hshape.fits hfits
  have hunmarked := (Replay.le_of_mem_stations hstation).2
  have hframe : s.frame = none := by
    rcases hreached with hmask | hreached
    · exact h.frame_eq_none hc hmask hin hstation
    · exact hreached.1
  have hspared : ∀ i, t.InBlock o i → mask.getD i false = false := by
    rcases hreached with hmask | hreached
    · exact fun i hi => hmask.blocks o i hi (by simp [Array.getD_eq_getD_getElem?, hunmarked])
    · exact hreached.2
  obtain ⟨n, block, hblock⟩ := h.exists_block hc hin
  have hmask : ∀ k < block.instrs.length, mask[o + k]? = some false := by
    intro k hk
    have hsize : mask.size = t.ops.size := hsize
    have hle := hblock.size_le
    exact Plan.getElem?_of_marks (p := t.plan q mask resolved) (by show o + k < mask.size; omega)
      (hspared _ (hblock.inside k hk))
  obtain ⟨operator, hop, hsite⟩ := Plan.exists_site (p := t.plan q mask resolved) hblock.valid
    hblock.counted.1 hblock.counted.2
  refine ⟨n, block, operator, fun l => (t.plan q mask resolved).request block (s.arena.jet l),
    hblock, hsite, fun l hl => ?_, hshape.layout, ?_⟩
  · exact Plan.gathers_request (p := t.plan q mask resolved) hfits hblock.valid hblock.rows_le hl
  · rw [Replay.run_of_mem_stations hstation]
    exact hblock.called hfits hframe hmask hop hsite

/-- An operator that answers nine everywhere, also below the order that it is asked for. -/
def nines : Operator ℚ where
  name := "nines"
  forward request := .accept (Vector.replicate request.results.size 9)

def ninesTape : Tape ℚ := .ofSession (sampleSession nines)

/-- The sweep of order 2 comes to the block of the sample session, which has a variable and a
constant argument, and a variable and a constant result. -/
theorem ninesTape_sweep_calls :
    ∃ s, (5, s) ∈ Replay.stations ninesTape.program 2 sampleMask #[3] {} sampleBuffer.arena ∧
      ∃ n block operator request, ninesTape.HasBlock 5 n block ∧
        ninesTape.callSite block.opening.args = .ok (block.site operator) ∧
        (∀ l < s.arena.layout.directions,
          block.Gathers ninesTape.params 2 l s.arena (request l)) ∧
        s.arena.layout = sampleBuffer.layout ∧
        block.Called ninesTape.program 2 sampleMask #[3] {} operator request 5 s
          (Replay.sweep ninesTape.program 2 sampleMask #[3] {} { arena := sampleBuffer.arena }) := by
  have hindex : 5 ∈ (Replay.stations ninesTape.program 2 sampleMask #[3] {}
      sampleBuffer.arena).map (·.1) := by
    decide +kernel
  obtain ⟨⟨o, s⟩, hstation, ho⟩ := List.mem_map.mp hindex
  obtain rfl : o = 5 := ho
  refine ⟨s, hstation, ?_⟩
  exact sweep_calls (Tape.ofSession_recorded (by decide +kernel))
    ⟨by decide +kernel, by decide +kernel⟩ (by decide +kernel) (by decide +kernel) hstation
    (Or.inl (by decide +kernel))

/-- The tables of a recorded call: operator 0, call id 7, a variable argument and result. -/
def echoCall : List Instr :=
  [⟨.callMarker, [0, 7, 1, 1], 1⟩, ⟨.callArg .var, [1], 1⟩, ⟨.callResult .var, [], 2⟩,
    ⟨.callMarker, [0, 7, 1, 1], 2⟩, ⟨.stop, [], 2⟩]

/-- A recorded call of `echo`, behind a skip that lists the words of a call of `operator`. -/
def strayCall (operator : Operator ℚ) : Tape ℚ :=
  overfull [.register .echo, .register operator, .independents 1] [1, 9, 1, 1, 1, 1, 9, 1, 1]
    [.call 0 7 [.var 1] [.var], .finish]

/-- What is recorded before the skip. -/
def twoOperators (operator : Operator ℚ) : Tape ℚ :=
  .ofSession [.register .echo, .register operator, .independents 1]

section StrayCall

variable (operator : Operator ℚ)

theorem twoOperators_recorded : (twoOperators operator).Recorded := ofSession_recorded rfl

theorem placed_echoCall : Placed (twoOperators operator).rows echoCall :=
  ⟨rfl, rfl, rfl, rfl, rfl, trivial⟩

theorem overfills_strayCall :
    Overfills [.register .echo, .register operator, .independents 1]
      [.call 0 7 [.var 1] [.var], .finish] (twoOperators operator) echoCall := by
  intro entries
  rfl

theorem strayCall_recorded : (strayCall operator).Recorded :=
  (overfills_strayCall operator).recorded

theorem strayCall_lists : (strayCall operator).Lists
    ([⟨.start, [0], 0⟩, ⟨.independent, [], 1⟩, longSkip (filler [1, 9, 1, 1, 1, 1, 9, 1, 1]) 1] ++
      echoCall) := by
  have hinstrs : (twoOperators operator).instrs = [⟨.start, [0], 0⟩, ⟨.independent, [], 1⟩] := rfl
  exact (overfills_strayCall operator).lists (twoOperators_recorded operator)
    ⟨show 2 < Index.argBound by decide, show 1 < Index.argBound by decide⟩ hinstrs
    (placed_echoCall operator) [1, 9, 1, 1, 1, 1, 9, 1, 1]

theorem strayCall_alike : (strayCall operator).Alike
    ((twoOperators operator).misread [1, 9, 1, 1, 1, 1, 9, 1, 1] echoCall) :=
  (overfills_strayCall operator).alike (twoOperators_recorded operator) (placed_echoCall operator)
    (by decide) (show 1 + 6 + 9 < Index.argBound by decide)

end StrayCall

/-- Behind `2 ^ 32` words the markers of a block may be read back with another operator and another
call id: what was recorded as call 7 of `echo` is made as call 9 of `nines`. -/
theorem strayCall_misdirected :
    let t := strayCall nines
    let run := t.sweep 1 (strayBuffer 3 5) t.noSkip #[] {}
    t.Recorded ∧ t.isStopped = true ∧ t.registry[0]? = some .echo ∧
      (∃ l, t.Lists (l ++ echoCall) ∧ ∀ ins ∈ l, ins.op ≠ .callMarker) ∧
      (strayBuffer 3 5).Fits t ∧ t.MaskOk t.noSkip ∧ run.stop = none ∧
      run.requests.map (·.callId) = #[9] ∧
      ((strayBuffer 3 5).withCells run.cells).get 2 1 0 = .ok 9 := by
  intro t run
  have hlike := strayCall_alike nines
  have hmask : t.MaskOk t.noSkip := by
    rw [hlike.noSkip]
    exact hlike.maskOk (by decide +kernel)
  have hrun : run = _ := hlike.sweep_noSkip _ _ _ _
  refine ⟨strayCall_recorded nines, hlike.isStopped.trans (by decide +kernel),
    by rw [hlike.registry]; rfl, ⟨_, strayCall_lists nines, ?_⟩, hlike.fits (by decide +kernel),
    hmask, ?_⟩
  · simp [longSkip]
  · rw [hrun]
    decide +kernel

end Tape

end JetTape
