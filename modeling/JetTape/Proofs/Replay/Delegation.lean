import JetTape.Proofs.Call.Applying
import JetTape.Proofs.Replay.Gather
import JetTape.Proofs.Tape.Delegation

/-!
Replays of delegated instructions. The operator that applies the recurrence of an instruction never
makes a sweep halt, and its answer gives the row of the instruction the coefficient that the
recurrence itself gives it. So a replay does the same with the call as with the instruction.
-/
namespace JetTape

variable {F : Type} [Scalar F]

/-- The operator that computes an instruction by its recurrence. -/
def Operator.ofInstr (rule : Recurrence F) (ins : Instr) (params : Array F) : Operator F :=
  applying ins.op.name rule ins.rows.length ins.numberedArgs params

namespace Plan

variable {p : Plan F} {handle callId z : Nat} {rows : List Nat} {j : Jet F}

/-- The arena of a call holds the rows of its arguments and below the order of the sweep the row of
its result. -/
theorem numbers_request :
    let g := (p.request (callBlock handle callId rows z) j).arena.jet 0
    Jet.Numbers p.order rows g j ∧ Series.EqBelow p.order (g rows.length) (j z) := by
  intro g
  have hargs : (p.request (callBlock handle callId rows z) j).args.size =
      rows.length * (p.order + 1) := by
    rw [size_request_args]
    simp [callBlock]
  constructor
  · intro c x hx k hk
    obtain ⟨hc, rfl⟩ := List.getElem?_eq_some_iff.mp hx
    have hlen : c < (callBlock handle callId rows z).args.length := by simpa [callBlock] using hc
    have hget := getElem?_request_args (p := p) (j := j) hlen hk
    have hg : g c k = _ := Request.jet_arg hk hget
    simpa [callBlock, callCoeff] using hg
  · intro k hk
    have hlen : 0 < (callBlock handle callId rows z).results.length := Nat.zero_lt_one
    have hget := getElem?_request_results (p := p) (j := j) hlen (Nat.le_of_lt hk)
    rw [if_pos hk, Nat.zero_mul, Nat.zero_add] at hget
    exact Request.jet_result hargs (Nat.le_of_lt hk) hget

section Answer

variable {ins : Instr} {rule : Recurrence F} {n m : Nat}
variable (hrule : Recurrence.ofOpcode? ins.op = some rule) (hone : ins.op.resultCount = 1)
variable (hvalid : Instr.Valid n p.params.size m ins.op ins.args)
variable (hargs : ins.args.length < Index.argBound) (hq : 0 < p.order)
variable (hbound : (ins.rows.length + 1) * (p.order + 1) < Index.bound)
variable (hop : p.operator? (callBlock handle callId ins.rows ins.row) =
  some (.ofInstr rule ins p.params))

include hrule hone hvalid hargs hq hbound hop

/-- The operator stores what the instruction computes in the series of the result. -/
theorem answer_ofInstr :
    p.answer (callBlock handle callId ins.rows ins.row) j =
      .ok ((p.request (callBlock handle callId ins.rows ins.row) j).results.setIfInBounds p.order
        (p.advance (.plain ins) j ins.row p.order)) := by
  let r := p.request (callBlock handle callId ins.rows ins.row) j
  have hsize : r.args.size + r.results.size = (ins.rows.length + 1) * (p.order + 1) := by
    rw [size_request_args, size_request_results, ← Nat.add_mul]
    simp [callBlock]
  have hfits : r.arena.Fits (ins.rows.length + 1) r.toOrder :=
    ⟨Request.shaped hsize hbound (Nat.succ_pos _), hq, Nat.lt_succ_self _⟩
  have halong := Recurrence.along_numbered (q := r.toOrder) hrule hone hvalid hargs
    ins.picks_numberedArgs (Nat.le_refl _) (Nat.lt_succ_self _) p.resolved
  -- What the recurrence reads is in the arena: its operands, and its own row below the order.
  obtain ⟨hnumbers, hown⟩ : Jet.Numbers p.order ins.rows (r.arena.jet 0) j ∧
      Series.EqBelow p.order (r.arena.jet 0 ins.rows.length) (j ins.row) := numbers_request
  have hcomputed : Jet.advance r.toOrder p.params p.resolved
      ⟨ins.op, ins.numberedArgs, ins.rows.length⟩ (r.arena.jet 0) ins.rows.length r.toOrder =
      p.advance (.plain ins) j ins.row p.order :=
    Jet.advance_numbered hq hrule hone hvalid hargs ins.picks_numberedArgs hnumbers hown
  rw [answer, hop]
  show Operator.answer _ r = _
  rw [Operator.answer, Operator.ofInstr, Operator.forward_applying halong hfits, hcomputed]
  rfl

/-- The call never halts, and it does what the instruction does. -/
theorem advance_ofInstr :
    p.halt? (.call (callBlock handle callId ins.rows ins.row)) j = none ∧
      p.advance (.call (callBlock handle callId ins.rows ins.row)) j =
        p.advance (.plain ins) j := by
  have hanswer : p.answer _ j = _ := answer_ofInstr hrule hone hvalid hargs hq hbound hop
  have hset : p.advance (.plain ins) j =
      j.set ins.row p.order (p.advance (.plain ins) j ins.row p.order) :=
    Jet.advance_eq_set hrule hone
  have hlt : p.order < (p.request (callBlock handle callId ins.rows ins.row) j).results.size := by
    rw [size_request_results]
    simp [callBlock]
  have hhalt : p.halt? (.call (callBlock handle callId ins.rows ins.row)) j = none := by
    rw [halt?, hanswer]
  refine ⟨hhalt, ?_⟩
  have hpicked : p.picked (p.results (callBlock handle callId ins.rows ins.row) j) 0 =
      p.advance (.plain ins) j ins.row p.order := by
    rw [results, hanswer]
    simp [picked, Array.getD_eq_getD_getElem?, hlt]
  rw [advance_call hhalt, hset, ← hpicked]
  rfl

end Answer

end Plan

/-- The outcomes have the same stop and the same jets. -/
structure Outcome.Agrees (out out' : Outcome F) : Prop where
  stop : out.stop = out'.stop
  jets : out.jets = out'.jets

namespace Plan

variable {p p' : Plan F} {r i i' : Nat} {items items' more more' : List Item}

/-- Two plans mark the items of two sequences alike, one by one, and replay them to outcomes that
agree. -/
def Matches (p p' : Plan F) (r : Nat) : Nat → Nat → List Item → List Item → Prop
  | _, _, [], [] => True
  | i, i', item :: rest, item' :: rest' =>
    p.marks i = p'.marks i' ∧
      (∀ js, (p.replayItem r item js).Agrees (p'.replayItem r item' js)) ∧
      Matches p p' r (i + item.size) (i' + item'.size) rest rest'
  | _, _, _, _ => False

theorem Matches.append (h : p.Matches p' r i i' items items')
    (hmore : p.Matches p' r (i + (instrsOf items).length) (i' + (instrsOf items').length) more
      more') : p.Matches p' r i i' (items ++ more) (items' ++ more') := by
  induction items generalizing i i' items' with
  | nil =>
    cases items' with
    | nil => exact hmore
    | cons item' rest' => cases h
  | cons item rest ih =>
    cases items' with
    | nil => cases h
    | cons item' rest' =>
      obtain ⟨hmark, hitem, hrest⟩ := h
      rw [instrsOf_cons, instrsOf_cons, List.length_append, List.length_append, ← Nat.add_assoc,
        ← Nat.add_assoc] at hmore
      exact ⟨hmark, hitem, ih hrest hmore⟩

/-- Replays of matching items agree. By induction on the items: what one item leaves is where the
rest of either sequence starts from. -/
theorem Matches.replayItems (h : p.Matches p' r i i' items items') (js : Nat → Jet F) :
    (p.replayItems r i items js).Agrees (p'.replayItems r i' items' js) := by
  induction items generalizing i i' items' js with
  | nil =>
    cases items' with
    | nil => exact ⟨rfl, rfl⟩
    | cons item' rest' => cases h
  | cons item rest ih =>
    cases items' with
    | nil => cases h
    | cons item' rest' =>
      obtain ⟨hmark, hitem, hrest⟩ := h
      obtain ⟨hstop, hjets⟩ := hitem js
      cases hmarked : p.marks i with
      | true =>
        rw [replayItems_marked hmarked, replayItems_marked (hmark.symm.trans hmarked)]
        exact ih hrest js
      | false =>
        have hmarked' := hmark.symm.trans hmarked
        cases hfirst : (p.replayItem r item js).stop with
        | some stop =>
          rw [replayItems_stopped hmarked hfirst,
            replayItems_stopped hmarked' (hstop.symm.trans hfirst)]
          exact hitem js
        | none =>
          obtain ⟨hlater, hlast⟩ := ih hrest (p.replayItem r item js).jets
          rw [replayItems_went_on hmarked hfirst,
            replayItems_went_on hmarked' (hstop.symm.trans hfirst), ← hjets]
          exact ⟨hlater, hlast⟩

section WithOperator

variable {operator : Operator F} {mask : Array Bool} {n k m : Nat}

/-- The plan with one more operator and another mask. -/
def withOperator (p : Plan F) (operator : Operator F) (mask : Array Bool) : Plan F :=
  { p with registry := p.registry.push operator, mask }

omit [Scalar F] in
theorem operator?_withOperator {b : Block} (hb : b.Valid n k p.registry.size) :
    (p.withOperator operator mask).operator? b = p.operator? b := by
  obtain ⟨handle, callId, hlt, hargs⟩ := hb.header
  rw [operator?, operator?, hargs]
  show (p.registry.push operator)[handle]? = p.registry[handle]?
  rw [Array.getElem?_push_lt hlt, Array.getElem?_eq_getElem hlt]

theorem ask_withOperator {b : Block} (hb : b.Valid n k p.registry.size) (js : Nat → Jet F)
    (c l : Nat) : (p.withOperator operator mask).ask b js c l = p.ask b js c l := by
  have hhalt (j : Jet F) :
      (p.withOperator operator mask).halt? (.call b) j = p.halt? (.call b) j := by
    rw [halt?, halt?, answer, answer, operator?_withOperator hb]
    rfl
  induction c generalizing l with
  | zero => rfl
  | succ c ih =>
    rw [ask, ask, hhalt, ih]
    rfl

/-- An item that calls none but the earlier operators is replayed as before. -/
theorem replayItem_withOperator {item : Item} (hitem : item.Valid n k m p.registry.size)
    (js : Nat → Jet F) :
    (p.withOperator operator mask).replayItem r item js = p.replayItem r item js := by
  cases item with
  | plain ins => rfl
  | call b =>
    have hb : b.Valid n k p.registry.size := hitem
    rw [replayItem, replayItem, openFault?, openFault?, ask_withOperator hb]
    simp only [advance, answer, operator?_withOperator hb]
    rfl

theorem matches_withOperator (hitems : ValidItems k m p.registry.size n items)
    (hmarks : ∀ d < (instrsOf items).length, p.marks (i + d) = mask.getD (i' + d) false) :
    p.Matches (p.withOperator operator mask) r i i' items items := by
  induction items generalizing n i i' with
  | nil => trivial
  | cons item rest ih =>
    obtain ⟨hitem, hrest⟩ := hitems
    rw [instrsOf_cons, List.length_append] at hmarks
    have hpos : 0 < item.instrs.length := List.length_pos_iff.mpr item.instrs_ne_nil
    refine ⟨hmarks 0 (by omega), fun js => ?_, ih hrest fun d hd => ?_⟩
    · rw [replayItem_withOperator hitem]
      exact ⟨rfl, rfl⟩
    · rw [Nat.add_assoc, Nat.add_assoc]
      exact hmarks (item.size + d) (Nat.add_lt_add_left hd _)

/-- Items of which one instruction has given way to the call of the operator that computes it. -/
theorem matches_ofInstr {before after : List Item} {ins : Instr} {rule : Recurrence F}
    {callId : Nat}
    (hitems : ValidItems p.params.size m p.registry.size n (before ++ .plain ins :: after))
    (hrule : Recurrence.ofOpcode? ins.op = some rule) (hone : ins.op.resultCount = 1)
    (hargs : ins.args.length < Index.argBound) (hq : 0 < p.order)
    (hbound : (ins.rows.length + 1) * (p.order + 1) < Index.bound)
    (hearlier : ∀ d ≤ (instrsOf before).length, p.marks (i + d) = mask.getD (i + d) false)
    (hlater : ∀ d < (instrsOf after).length, p.marks (i + (instrsOf before).length + 1 + d) =
      mask.getD (i + (instrsOf before).length + (ins.rows.length + 3) + d) false) :
    let p' := p.withOperator (.ofInstr rule ins p.params) mask
    let b := callBlock p.registry.size callId ins.rows ins.row
    p'.openFault? r (.call b) = none →
      p.Matches p' r i i (before ++ .plain ins :: after) (before ++ .call b :: after) := by
  intro p' b hopen
  obtain ⟨hbefore, hins, hafter⟩ := validItems_append.mp hitems
  have hop : p'.operator? b = some (.ofInstr rule ins p'.params) := Array.getElem?_push_size
  have hcall (j : Jet F) := advance_ofInstr (p := p') (j := j) hrule hone hins.1 hargs hq hbound hop
  refine (matches_withOperator hbefore fun d hd => hearlier d (Nat.le_of_lt hd)).append ?_
  refine ⟨hearlier _ (Nat.le_refl _), fun js => ?_, matches_withOperator hafter fun d hd => ?_⟩
  · have hstop : (p'.replayItem r (.call b) js).stop = none :=
      replayItem_eq_none_iff.mpr ⟨hopen, fun l _ => (hcall (js l)).1⟩
    refine ⟨hstop.symm, ?_⟩
    rw [replayItem_jets hstop]
    exact funext fun l => (hcall (js l)).2.symm
  · rw [size_callBlock]
    exact hlater d hd

end WithOperator

end Plan

end JetTape
