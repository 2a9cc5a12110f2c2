import JetTape.Proofs.Replay.Reads

/-!
Settled jets. An item is settled on a jet if advancing the jet by it changes nothing: its rows hold
the coefficients that its recurrence gives. A sweep without a mask settles all its items, and higher
orders do not unsettle them. What is settled is determined by what it depends on.
-/
namespace JetTape.Plan

open Jet (Agree AgreeOn)

variable {F : Type} [Scalar F] {p : Plan F} {n r i : Nat} {items : List Item}

/-- Advancing the jet by the item changes nothing. -/
def Settled (p : Plan F) (item : Item) (j : Jet F) : Prop := p.advance item j = j

/-- An item that is settled on a jet is settled on jets that agree with it up to the order. -/
theorem Settled.congr {item : Item} {j j' : Jet F} {s k : Nat} (hj : p.Settled item j)
    (hq : 0 < p.order) (h : Agree p.order (fun _ => True) j j')
    (hitem : item.Valid n p.params.size s k) (hadmits : p.Admits item)
    (hhalt : p.halt? item j = none) : p.Settled item j' := by
  have hadvanced := agree_advance hq h (fun _ _ _ => trivial) hitem hadmits hhalt
  rw [hj] at hadvanced
  funext v o
  by_cases ho : o = p.order
  · subst ho
    rw [← hadvanced v p.order (Or.inr ⟨rfl, Or.inr trivial⟩)]
    exact h v p.order (Or.inr ⟨rfl, trivial⟩)
  · exact advance_of_ne hitem (Or.inl ho)

/-- An item is settled once it has been replayed, and later items leave it so. -/
theorem settled_of_advance {item : Item} {j j' : Jet F} {s k : Nat} (hq : 0 < p.order)
    (hitem : item.Valid n p.params.size s k) (hadmits : p.Admits item)
    (hhalt : p.halt? item j = none)
    (h : ∀ v o, o ≠ p.order ∨ v < n + rowCount item.instrs → j' v o = p.advance item j v o) :
    p.Settled item j' := by
  -- Before the item the jets agree on all that it reads.
  have hbefore : Agree p.order (· < n) j j' := by
    intro v o ho
    rw [h v o (by omega), advance_of_ne hitem (by omega)]
  have hafter := agree_advance hq hbefore (fun v _ hv => hv) hitem hadmits hhalt
  funext v o
  by_cases hown : o = p.order ∧ n ≤ v ∧ v < n + rowCount item.instrs
  · obtain ⟨rfl, hv⟩ := hown
    rw [h v p.order (Or.inr hv.2)]
    exact (hafter v p.order (Or.inr ⟨rfl, Or.inl hv⟩)).symm
  · exact advance_of_ne hitem (by omega)

/-- A sweep that comes to its end settles all items. -/
theorem settled_replayItems {js : Nat → Jet F} {s k : Nat} (hq : 0 < p.order)
    (hmarks : ∀ i, p.marks i = false) (hitems : ValidItems p.params.size s k n items)
    (hadmits : ∀ item ∈ items, p.Admits item)
    (hnone : (p.replayItems r i items js).stop = none) :
    ∀ item ∈ items, ∀ l < r, p.Settled item ((p.replayItems r i items js).jets l) := by
  induction items generalizing i n js with
  | nil => simp
  | cons item rest ih =>
    obtain ⟨hitem, hrest⟩ := hitems
    cases hfirst : (p.replayItem r item js).stop with
    | some stop =>
      rw [replayItems_stopped (hmarks i) hfirst, hfirst] at hnone
      cases hnone
    | none =>
      rw [replayItems_went_on (hmarks i) hfirst] at hnone ⊢
      intro item' hmem l hl
      rcases List.mem_cons.mp hmem with rfl | hmem
      · apply settled_of_advance hq hitem (hadmits item' List.mem_cons_self)
          ((replayItem_eq_none_iff.mp hfirst).2 l hl)
        intro v o hv
        rw [replayItems_of_ne hrest (hv.imp_right Or.inl), replayItem_jets hfirst]
      · exact ih hrest (fun i hi => hadmits i (List.mem_cons_of_mem item hi)) hnone item' hmem l hl

/-- Jets on which plain items are settled agree on their rows if they agree on what comes before and
below. -/
theorem agreeOn_of_settled {K D : Nat → Prop} {j j' : Jet F} {s k : Nat} (hq : 0 < p.order)
    (h : AgreeOn p.order K D j j') (hD : ∀ v, 0 < v → v < n → D v)
    (hK : ∀ v, n ≤ v → v < n + rowCount (instrsOf items) → K v)
    (hitems : ValidItems p.params.size s k n items) (hadmits : ∀ item ∈ items, p.Admits item)
    (hplain : ∀ item ∈ items, ∃ ins, item = .plain ins)
    (hj : ∀ item ∈ items, p.Settled item j) (hj' : ∀ item ∈ items, p.Settled item j') :
    AgreeOn p.order K (fun v => (n ≤ v ∧ v < n + rowCount (instrsOf items)) ∨ D v) j j' := by
  induction items generalizing n D with
  | nil =>
    refine h.mono fun v hv => hv.resolve_left ?_
    rw [instrsOf_nil, rowCount_nil]
    omega
  | cons item rest ih =>
    obtain ⟨hitem, hrest⟩ := hitems
    obtain ⟨ins, rfl⟩ := hplain item List.mem_cons_self
    obtain ⟨hargs, hload⟩ := hadmits _ List.mem_cons_self ins List.mem_cons_self
    have hrow : ins.row + 1 = n + ins.op.resultCount := hitem.2.1
    have hcount : rowCount (Item.plain ins).instrs = ins.op.resultCount := by simp [Item.instrs]
    rw [instrsOf_cons, rowCount_append, hcount] at hK ⊢
    rw [hcount] at hrest
    have hreads : ∀ v ∈ j.operands p.params p.resolved ins, D v := by
      intro v hv
      obtain ⟨hpos, hlt⟩ := Jet.operands_valid hitem.1 hargs
        (fun s hop => by
          have := hload s hop
          rw [hop] at hrow
          simp only [Opcode.resultCount] at hrow
          omega) j v hv
      exact hD v hpos hlt
    have hadvanced := h.advance hq hitem.1.isPlain hreads fun v hown =>
      hK v (by have := hown.1; omega) (by have := hown.2; omega)
    have hsame : j.advance p.order p.params p.resolved ins = j := hj _ List.mem_cons_self
    have hsame' : j'.advance p.order p.params p.resolved ins = j' := hj' _ List.mem_cons_self
    rw [hsame, hsame'] at hadvanced
    have hlater := ih hadvanced
      (fun v hpos hlt => by
        by_cases hv : v < n
        · exact Or.inr (hD v hpos hv)
        · exact Or.inl ⟨by omega, by omega⟩)
      (fun v hn hlt => hK v (by omega) (by omega)) hrest
      (fun item hi => hadmits item (List.mem_cons_of_mem _ hi))
      (fun item hi => hplain item (List.mem_cons_of_mem _ hi))
      (fun item hi => hj item (List.mem_cons_of_mem _ hi))
      (fun item hi => hj' item (List.mem_cons_of_mem _ hi))
    refine hlater.mono fun v hv => ?_
    rcases hv with hv | hv
    · by_cases hown : v < n + ins.op.resultCount
      · exact Or.inr (Or.inl ⟨by omega, by omega⟩)
      · exact Or.inl (by omega)
    · exact Or.inr (Or.inr hv)

end JetTape.Plan
