import JetTape.Proofs.Recurrence.Relocation
import JetTape.Proofs.Replay.Reads

/-!
Replays under relocation. Where a tape has been moved its call blocks ask their operators what they
asked on the tape itself, and are answered alike. So the replay of moved items does to the rows of
the tape what the replay of the items does.
-/
namespace JetTape

variable {F : Type} [Scalar F]

/-- The outcome with each of its jets replaced. -/
def Outcome.mapJets (f : Jet F → Jet F) (out : Outcome F) : Outcome F :=
  { out with jets := fun l => f (out.jets l) }

namespace Relocation

/-- A plan works with the parameters, the operators and the loads of another where these have
gone. -/
structure Carries (r : Relocation) (p p' : Plan F) : Prop where
  order : p'.order = p.order
  params : r.Keeps p.params p'.params
  registry : ∀ h < p.registry.size, p'.registry[h + r.handles]? = p.registry[h]?
  resolved : r.Resolves p.resolved p'.resolved

theorem carries_refl (rows : Nat) (p : Plan F) : (refl rows).Carries p p where
  order := rfl
  params _ _ := rfl
  registry _ _ := rfl
  resolved _ _ := (row_refl _).symm

variable {r : Relocation} {p p' : Plan F} {j : Jet F} {n k : Nat} {ins : Instr}

theorem Carries.callSeries_arg (h : r.Carries p p') {a : Operand} (ha : a.Valid n p.params.size)
    (hn : n ≤ r.rows) (hop : ins.op = .callArg a.source) (hargs : ins.args = [a.index]) :
    p'.callSeries (r.instr ins) j = p.callSeries ins (r.pull j) := by
  have hmoved := args_callArg (r := r) hop hargs
  rw [index_operand] at hmoved
  rw [Operand.valid_iff] at ha
  unfold Plan.callSeries
  rw [hmoved, op_instr, hop, hargs, h.order]
  cases hs : a.source with
  | var => simp only [List.getD_cons_zero, pull_source ha hn hs, hs]
  | par =>
    have hparam := h.params.source ha hs
    rw [hs] at hparam
    simp only [List.getD_cons_zero, hparam]

theorem Carries.callSeries_result (h : r.Carries p p')
    (hop : ins.op = .callResult .var ∨
      ∃ i, i < p.params.size ∧ ins.op = .callResult .par ∧ ins.args = [i])
    (hown : ins.op = .callResult .var → r.renamed < ins.row ∧ ins.row < r.rows) :
    p'.callSeries (r.instr ins) j = p.callSeries ins (r.pull j) := by
  unfold Plan.callSeries
  rw [op_instr, h.order]
  rcases hop with hop | ⟨i, hi, hop, hargs⟩
  · obtain ⟨hrenamed, hrow⟩ := hown hop
    simp only [hop, pull_own hrenamed hrow]
    rfl
  · simp only [hop, args_callResult hop hargs, hargs, List.getD_cons_zero, h.params i hi]

theorem pull_fill {q : Nat} {answer : Nat → F} {l : List Instr}
    (hown : ∀ ins ∈ l, ins.op = .callResult .var → r.renamed < ins.row ∧ ins.row < r.rows)
    (i : Nat) (j : Jet F) :
    r.pull (j.fill q answer i (l.map r.instr)) = (r.pull j).fill q answer i l := by
  induction l generalizing i j with
  | nil => rfl
  | cons ins l ih =>
    have hrest := ih fun ins' hins => hown ins' (List.mem_cons_of_mem ins hins)
    rw [List.map_cons, Jet.fill, Jet.fill, op_instr, hrest]
    by_cases hop : ins.op = .callResult .var
    · obtain ⟨hrenamed, hrow⟩ := hown ins List.mem_cons_self hop
      rw [if_pos hop, if_pos hop]
      exact congrArg (Jet.fill q answer (i + 1) l) (pull_set hrenamed hrow q (answer i))
    · rw [if_neg hop, if_neg hop]

section Block

variable {b : Block} (h : r.Carries p p') (hb : b.Valid n p.params.size p.registry.size)

include hb

omit [Scalar F] in
theorem callId_block : (r.block b).opening.args.getD 1 0 = b.opening.args.getD 1 0 := by
  obtain ⟨handle, callId, -, hargs⟩ := hb.header
  rw [block, args_callMarker hb.opens hargs, hargs]
  rfl

omit [Scalar F] in
theorem site_block (operator : Operator F) : (r.block b).site operator = b.site operator := by
  rw [Block.site, Block.site, callId_block hb]
  simp only [block, List.length_map]

include h

theorem Carries.operator?_block : p'.operator? (r.block b) = p.operator? b := by
  obtain ⟨handle, callId, hhandle, hargs⟩ := hb.header
  rw [Plan.operator?, Plan.operator?, block, args_callMarker hb.opens hargs, hargs]
  exact h.registry handle hhandle

/-- There is as much room for the call as there was. -/
theorem Carries.openFault?_block (c : Nat) :
    p'.openFault? c (.call (r.block b)) = p.openFault? c (.call b) := by
  rw [Plan.openFault?, Plan.openFault?, h.operator?_block hb, h.order]
  simp only [site_block hb]

variable (hn : r.renamed < n) (hrows : n + rowCount b.instrs ≤ r.rows)

include hn hrows

omit [Scalar F] h in
theorem own_of_result : ∀ ins ∈ b.results, ins.op = .callResult .var →
    r.renamed < ins.row ∧ ins.row < r.rows := by
  intro ins hins hop
  have := hb.row_of_result hins hop
  omega

/-- The operator of the block is asked what it was asked. -/
theorem Carries.request_block : p'.request (r.block b) j = p.request b (r.pull j) := by
  have hargs : (r.block b).args.flatMap (fun ins => p'.callSeries ins j) =
      b.args.flatMap fun ins => p.callSeries ins (r.pull j) := by
    rw [block, List.flatMap_map]
    apply List.flatMap_congr
    intro ins hins
    obtain ⟨a, ha, hop, hargs⟩ := hb.args ins hins
    exact h.callSeries_arg ha (by omega) hop hargs
  have hresults : (r.block b).results.flatMap
      (fun ins => (p'.callSeries ins j).take p'.order ++ [0]) =
      b.results.flatMap fun ins => (p.callSeries ins (r.pull j)).take p.order ++ [0] := by
    rw [block, List.flatMap_map, h.order]
    apply List.flatMap_congr
    intro ins hins
    rw [h.callSeries_result (hb.results ins hins) (own_of_result hb hn hrows ins hins)]
  rw [Plan.request, Plan.request, callId_block hb, hargs, hresults, h.order]

theorem Carries.answer_block : p'.answer (r.block b) j = p.answer b (r.pull j) := by
  rw [Plan.answer, Plan.answer, h.operator?_block hb, h.request_block hb hn hrows]

theorem Carries.halt?_block : p'.halt? (.call (r.block b)) j = p.halt? (.call b) (r.pull j) := by
  rw [Plan.halt?, Plan.halt?, h.answer_block hb hn hrows]

theorem Carries.advance_block :
    r.pull (p'.advance (.call (r.block b)) j) = p.advance (.call b) (r.pull j) := by
  rw [Plan.advance, Plan.advance, h.answer_block hb hn hrows, h.order]
  have hpicked : p'.picked = p.picked := by
    funext results i
    rw [Plan.picked, Plan.picked, h.order]
  cases p.answer b (r.pull j) with
  | error halt => rfl
  | ok results =>
    rw [hpicked]
    exact pull_fill (own_of_result hb hn hrows) 0 j

theorem Carries.ask_block (js : Nat → Jet F) (c l : Nat) :
    p'.ask (r.block b) js c l = p.ask b (fun l => r.pull (js l)) c l := by
  induction c generalizing l with
  | zero => rfl
  | succ c ih =>
    rw [Plan.ask, Plan.ask, h.halt?_block hb hn hrows, h.request_block hb hn hrows, h.order, ih]

end Block

/-- A moved item does to the rows of the tape what the item does. -/
theorem Carries.replayItem (h : r.Carries p p') {item : Item}
    (hitem : item.Valid n p.params.size p.resolved.size p.registry.size)
    (hadmits : p.Admits item) (hn : r.renamed < n) (hrows : n + rowCount item.instrs ≤ r.rows)
    (c : Nat) (js : Nat → Jet F) :
    (p'.replayItem c (r.item item) js).mapJets r.pull =
      p.replayItem c item fun l => r.pull (js l) := by
  cases item with
  | plain ins =>
    obtain ⟨hargs, hload⟩ := hadmits ins List.mem_cons_self
    have hrow : ins.row + 1 = n + ins.op.resultCount := hitem.placed.1
    simp only [Item.instrs, rowCount_cons, rowCount_nil] at hrows
    have hadvance (l : Nat) : r.pull (p'.advance (.plain (r.instr ins)) (js l)) =
        p.advance (.plain ins) (r.pull (js l)) := by
      rw [Plan.advance, Plan.advance, h.order]
      exact pull_advance hitem.1 hargs hload hrow hn (by omega) h.params h.resolved
    simp only [Relocation.item, Plan.replayItem, Outcome.mapJets, hadvance]
  | call b =>
    have hb : b.Valid n p.params.size p.registry.size := hitem
    have hrows : n + rowCount b.instrs ≤ r.rows := hrows
    simp only [Relocation.item, Plan.replayItem, h.openFault?_block hb,
      h.ask_block hb hn hrows]
    cases p.openFault? c (.call b) with
    | some f => rfl
    | none =>
      rcases p.ask b (fun l => r.pull (js l)) c 0 with ⟨_ | stop, requests⟩
      · simp only [Outcome.mapJets, h.advance_block hb hn hrows]
      · rfl

/-- The replay of moved items does to the rows of the tape what the replay of the items does. -/
theorem Carries.replayItems (h : r.Carries p p') (hmarks : ∀ i, p.marks i = false)
    (hmarks' : ∀ i, p'.marks i = false) {items : List Item}
    (hitems : ValidItems p.params.size p.resolved.size p.registry.size n items)
    (hadmits : ∀ item ∈ items, p.Admits item) (hn : r.renamed < n)
    (hrows : n + rowCount (instrsOf items) ≤ r.rows) (c i i' : Nat) (js : Nat → Jet F) :
    (p'.replayItems c i' (items.map r.item) js).mapJets r.pull =
      p.replayItems c i items fun l => r.pull (js l) := by
  induction items generalizing n i i' js with
  | nil => rfl
  | cons item rest ih =>
    obtain ⟨hitem, hrest⟩ := hitems
    rw [instrsOf_cons, rowCount_append] at hrows
    have hfirst := h.replayItem hitem (hadmits item List.mem_cons_self) hn (by omega) c js
    have hlater := ih hrest (fun item' hmem => hadmits item' (List.mem_cons_of_mem item hmem))
      (Nat.lt_add_right _ hn) (by omega) (i + item.size) (i' + (r.item item).size)
      (p'.replayItem c (r.item item) js).jets
    rw [List.map_cons, Plan.replayItems, Plan.replayItems, hmarks, hmarks', ← hfirst]
    cases hstop : (p'.replayItem c (r.item item) js).stop with
    | some stop => simp [Outcome.mapJets, hstop]
    | none => simp [Outcome.mapJets, hstop, ← hlater]

/-- If the rows of a tape hold what they hold where they have been moved to, the moved items stop as
the items do, and the rows hold the same afterwards. -/
theorem Carries.replayItems_alike (h : r.Carries p p') (hmarks : ∀ i, p.marks i = false)
    (hmarks' : ∀ i, p'.marks i = false) {items : List Item}
    (hitems : ValidItems p.params.size p.resolved.size p.registry.size n items)
    (hadmits : ∀ item ∈ items, p.Admits item) (hn : r.renamed < n)
    (hrows : n + rowCount (instrsOf items) = r.rows) (hpos : 0 < p.order) {c i i' : Nat}
    {js js' : Nat → Jet F}
    (hsame : ∀ l < c, ∀ v, 0 < v → v < r.rows → ∀ k, k < p.order ∨ k = p.order ∧ v < n →
      js l v k = js' l (r.row v) k) :
    let out := p.replayItems c i items js
    let moved := p'.replayItems c i' (items.map r.item) js'
    out.stop = moved.stop ∧ (moved.stop = none → ∀ l < c, ∀ v, 0 < v → v < r.rows →
      out.jets l v p.order = moved.jets l (r.row v) p.order) := by
  intro out moved
  -- Both replays are seen as replays of the rows of the tape, and what is outside them is cut away.
  have hmoved := h.replayItems hmarks hmarks' hitems hadmits hn (Nat.le_of_eq hrows) c i i' js'
  have hout := (carries_refl r.rows p).replayItems hmarks hmarks hitems hadmits
    (show 0 < n by omega) (Nat.le_of_eq hrows) c i i js
  rw [map_item_refl] at hout
  have hagree : ∀ l < c, Jet.Agree p.order (fun v => 0 < v ∧ v < n)
      ((refl r.rows).pull (js l)) (r.pull (js' l)) := by
    intro l hl v k hk
    by_cases hv : 0 < v ∧ v < r.rows
    · rw [pull_refl hv.1 hv.2, pull_row hv.1 hv.2]
      exact hsame l hl v hv.1 hv.2 k (hk.imp_right fun ⟨hkq, _, hlt⟩ => ⟨hkq, hlt⟩)
    · rw [pull_of_not hv, pull_of_not (show ¬(0 < v ∧ v < (refl r.rows).rows) from hv)]
  obtain ⟨hstop, -, hjets⟩ := Plan.agree_replayItems (p := p) (i := i) hpos hagree
    (fun v hpos hlt => ⟨hpos, hlt⟩)
    (fun v hv => absurd hv (Plan.not_passedRow hmarks _ _ _ v)) hitems hadmits
  rw [← hout, ← hmoved] at hstop hjets
  refine ⟨hstop, ?_⟩
  intro hnone l hl v hv hlt
  have hleft := hjets (hstop.trans hnone) l hl v p.order (Or.inr ⟨rfl, by omega⟩)
  simp only [Outcome.mapJets] at hleft
  rwa [pull_refl hv hlt, pull_row hv hlt] at hleft

end Relocation

end JetTape
