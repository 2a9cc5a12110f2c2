import JetTape.Proofs.Replay.Lane

/-!
What items read and write. A call block reads its arguments up to the order of the sweep and its
results below it, so nothing that a sweep is still to compute reaches an operator. Items keep the
agreement of two jets, add their own rows to it, and write order `q` of these rows only.
-/
namespace JetTape

open Jet (Agree AgreeOn)

variable {F : Type}

section Fill

variable {q : Nat} {answer : Nat → F}

theorem Jet.fill_of_ne {l : List Instr} {i v k : Nat} {j : Jet F}
    (h : k ≠ q ∨ ∀ ins ∈ l, ins.op = .callResult .var → v ≠ ins.row) :
    j.fill q answer i l v k = j v k := by
  induction l generalizing i j with
  | nil => rfl
  | cons ins l ih =>
    have hrest : k ≠ q ∨ ∀ ins ∈ l, ins.op = .callResult .var → v ≠ ins.row :=
      h.imp_right fun h i hi => h i (List.mem_cons_of_mem ins hi)
    unfold fill
    rw [ih hrest]
    by_cases hop : ins.op = .callResult .var
    · rw [if_pos hop]
      rcases h with hk | hrow
      · exact set_of_order_ne hk
      · exact set_of_row_ne (hrow ins List.mem_cons_self hop)
    · rw [if_neg hop]

/-- Placed results have rows of their own, so each receives its own answer. -/
theorem Jet.fill_self {l : List Instr} {n i c : Nat} {j : Jet F} (hplaced : Placed n l)
    (hc : c < l.length) (hop : l[c].op = .callResult .var) :
    j.fill q answer i l l[c].row q = answer (i + c) := by
  induction l generalizing n i c j with
  | nil => cases hc
  | cons ins l ih =>
    obtain ⟨hrow, hrest⟩ := hplaced
    unfold Jet.fill
    cases c with
    | zero =>
      have hop : ins.op = .callResult .var := hop
      have hlater : ∀ ins' ∈ l, ins'.op = .callResult .var → ins.row ≠ ins'.row := by
        intro ins' hins' hop' heq
        have hbounds := hrest.owner_bounds (v := ins'.row) hins'
          (by simp [hop', Opcode.resultCount]) (Nat.le_refl _)
        simp only [hop, Opcode.resultCount] at hrow hbounds
        omega
      rw [if_pos hop, List.getElem_cons_zero, fill_of_ne (Or.inr hlater), set_self, Nat.add_zero]
    | succ c =>
      rw [List.getElem_cons_succ, ih hrest (by simpa using hc) hop]
      congr 1
      omega

theorem Jet.Agree.fill {D : Nat → Prop} {l : List Instr} {i : Nat} {j j' : Jet F}
    (h : Agree q D j j') :
    Agree q (fun v => (∃ ins ∈ l, ins.op = .callResult .var ∧ v = ins.row) ∨ D v)
      (j.fill q answer i l) (j'.fill q answer i l) := by
  induction l generalizing i j j' D with
  | nil =>
    apply h.mono
    intro v hv
    simpa using hv
  | cons ins l ih =>
    unfold Jet.fill
    by_cases hop : ins.op = .callResult .var
    · rw [if_pos hop, if_pos hop]
      apply (ih (h.set (v := ins.row) (rfl : answer i = answer i))).mono
      rintro v (⟨i', hi', hop', hv⟩ | hv)
      · rcases List.mem_cons.mp hi' with rfl | hi'
        · exact Or.inr (Or.inl hv)
        · exact Or.inl ⟨i', hi', hop', hv⟩
      · exact Or.inr (Or.inr hv)
    · rw [if_neg hop, if_neg hop]
      apply (ih h).mono
      rintro v (⟨i', hi', hop', hv⟩ | hv)
      · rcases List.mem_cons.mp hi' with rfl | hi'
        · exact absurd hop' hop
        · exact Or.inl ⟨i', hi', hop', hv⟩
      · exact Or.inr hv

end Fill

theorem Series.map_range'_congr {q : Nat} {x y : Series F} (h : Series.EqUpTo q x y) :
    (List.range' 0 (q + 1)).map x = (List.range' 0 (q + 1)).map y := by
  apply List.map_congr_left
  intro k hk
  rw [List.mem_range'_1] at hk
  exact h k (by omega)

namespace Plan

variable [Scalar F] {p : Plan F} {K D : Nat → Prop} {j j' : Jet F} {n : Nat}

/-- The argument lists of an item can be stored, and its loads stand for earlier rows. -/
def Admits (p : Plan F) (item : Item) : Prop :=
  ∀ ins ∈ item.instrs, ins.args.length < Index.argBound ∧
    ∀ s, ins.op = .load s → Jet.loadedRow ins.args p.resolved < ins.row

/-- An item that depends on rows in `D` and owns rows in `K`. -/
def Inside (p : Plan F) (K D : Nat → Prop) (j : Jet F) (item : Item) : Prop :=
  ∀ ins ∈ item.instrs, (∀ v ∈ j.operands p.params p.resolved ins, D v) ∧ ∀ v, ins.Owns v → K v

omit [Scalar F] in
theorem mem_instrs_call {b : Block} {ins : Instr} (h : ins ∈ b.args ++ b.results) :
    ins ∈ (Item.call b).instrs := by
  simp only [Item.instrs, Block.instrs, List.mem_append, List.mem_cons]
  rcases List.mem_append.mp h with h | h <;> simp [h]

/-- A block depends on earlier rows only. -/
theorem inside_call {b : Block} {m k : Nat} (hD : ∀ v, 0 < v → v < n → D v) (hb : b.Valid n m k)
    (j : Jet F) : p.Inside (fun _ => True) D j (.call b) := by
  refine fun ins hins => ⟨fun v hv => ?_, fun _ _ => trivial⟩
  simp only [Item.instrs, Block.instrs, List.mem_append, List.mem_cons, List.not_mem_nil,
    or_false] at hins
  rcases hins with ((rfl | hins) | hins) | rfl
  · simp [Jet.operands, hb.opens] at hv
  · obtain ⟨a, ha, hop, hargs⟩ := hb.args ins hins
    cases a with
    | var x =>
      simp only [Jet.operands, hop, Operand.source, hargs, Operand.index, List.getD_cons_zero,
        List.mem_singleton] at hv
      exact hv ▸ hD x ha.1 ha.2
    | par i => simp [Jet.operands, hop, Operand.source] at hv
  · rcases hb.results ins hins with hop | ⟨i, -, hop, -⟩ <;> simp [Jet.operands, hop] at hv
  · simp [Jet.operands, hb.closes] at hv

theorem callSeries_congr {ins : Instr} {s : Source} (h : AgreeOn p.order K D j j')
    (hop : ins.op = .callArg s) (hreads : ∀ v ∈ j.operands p.params p.resolved ins, D v) :
    p.callSeries ins j = p.callSeries ins j' := by
  cases s with
  | var =>
    have hrow : D (ins.args.getD 0 0) := hreads _ (by simp [Jet.operands, hop])
    simp only [callSeries, hop]
    exact Series.map_range'_congr (h.upTo _ hrow)
  | par => simp only [callSeries, hop]

/-- Below the order of the sweep the series of a result agree whatever its row holds there. -/
theorem take_callSeries_congr {ins : Instr} {s : Source} (h : AgreeOn p.order K D j j')
    (hop : ins.op = .callResult s) (hown : ∀ v, ins.Owns v → K v) :
    (p.callSeries ins j).take p.order = (p.callSeries ins j').take p.order := by
  cases s with
  | var =>
    have hrow : K ins.row := hown _ (by simp [Instr.Owns, hop, Opcode.resultCount])
    have htake : (List.range' 0 (p.order + 1)).take p.order = List.range' 0 p.order := by
      rw [List.range'_1_concat, List.take_left' (by simp)]
    simp only [callSeries, hop, ← List.map_take, htake]
    apply List.map_congr_left
    intro k hk
    rw [List.mem_range'_1] at hk
    exact h.below ins.row hrow k (by omega)
  | par => simp only [callSeries, hop]

/-- A request does not depend on what is still to be computed. -/
theorem request_congr {b : Block} {m k : Nat} (h : AgreeOn p.order K D j j') (hb : b.Valid n m k)
    (hinside : p.Inside K D j (.call b)) : p.request b j = p.request b j' := by
  have hargs : b.args.flatMap (fun ins => p.callSeries ins j) =
      b.args.flatMap (fun ins => p.callSeries ins j') := by
    apply List.flatMap_congr
    intro ins hins
    obtain ⟨a, -, hop, -⟩ := hb.args ins hins
    exact callSeries_congr h hop (hinside ins (mem_instrs_call (by simp [hins]))).1
  have hresults : b.results.flatMap (fun ins => (p.callSeries ins j).take p.order ++ [0]) =
      b.results.flatMap (fun ins => (p.callSeries ins j').take p.order ++ [0]) := by
    apply List.flatMap_congr
    intro ins hins
    have hown := (hinside ins (mem_instrs_call (by simp [hins]))).2
    rcases hb.results ins hins with hop | ⟨-, -, hop, -⟩ <;> rw [take_callSeries_congr h hop hown]
  unfold request
  rw [hargs, hresults]

theorem answer_congr {b : Block} {m k : Nat} (h : AgreeOn p.order K D j j') (hb : b.Valid n m k)
    (hinside : p.Inside K D j (.call b)) : p.answer b j = p.answer b j' := by
  unfold answer
  rw [request_congr h hb hinside]

theorem halt?_congr {item : Item} {m s k : Nat} (h : AgreeOn p.order K D j j')
    (hitem : item.Valid n m s k) (hinside : p.Inside K D j item) :
    p.halt? item j = p.halt? item j' := by
  cases item with
  | plain ins => rfl
  | call b => rw [halt?, halt?, answer_congr h hitem hinside]

theorem agree_halt? {item : Item} {m s k : Nat} (hq : 0 < p.order) (h : Agree p.order D j j')
    (hD : ∀ v, 0 < v → v < n → D v) (hitem : item.Valid n m s k) :
    p.halt? item j = p.halt? item j' := by
  cases item with
  | plain ins => rfl
  | call b => exact halt?_congr (h.agreeOn hq) hitem (inside_call hD hitem j)

/-- An item that does not halt adds its own rows to the agreement. -/
theorem agree_advance {item : Item} {s k : Nat} (hq : 0 < p.order) (h : Agree p.order D j j')
    (hD : ∀ v, 0 < v → v < n → D v) (hitem : item.Valid n p.params.size s k)
    (hadmits : p.Admits item) (hhalt : p.halt? item j = none) :
    Agree p.order (fun v => (n ≤ v ∧ v < n + rowCount item.instrs) ∨ D v) (p.advance item j)
      (p.advance item j') := by
  have hplaced := hitem.placed
  cases item with
  | plain ins =>
    obtain ⟨hargs, hload⟩ := hadmits ins List.mem_cons_self
    have hrow : ins.row + 1 = n + ins.op.resultCount := hplaced.1
    apply (Agree.advance hq h hD hitem.1 hargs ?_).mono
    · intro v hv
      simp only [Item.instrs, rowCount_cons, rowCount_nil] at hv
      exact hv.imp_left (by omega)
    · intro c hop
      have := hload c hop
      rw [hop] at hrow
      simp only [Opcode.resultCount] at hrow
      omega
  | call b =>
    have hb : b.Valid n p.params.size k := hitem
    rw [halt?] at hhalt
    rw [advance, advance, ← answer_congr (h.agreeOn hq) hb (inside_call hD hb j)]
    cases hanswer : p.answer b j with
    | error halt =>
      rw [hanswer] at hhalt
      cases hhalt
    | ok results =>
      apply (Agree.fill h).mono
      intro v hv
      refine hv.imp_left ?_
      rintro ⟨hn, hlt⟩
      obtain ⟨ins, hins, hown, hle⟩ := hplaced.exists_owner hn hlt
      obtain ⟨hresult, hop⟩ := hb.eq_callResult hins (by omega)
      rw [hop] at hown
      simp only [Opcode.resultCount] at hown
      exact ⟨ins, hresult, hop, by omega⟩

/-- An item writes order `q` of its own rows only. -/
theorem advance_of_ne {item : Item} {m s k v o : Nat} (hitem : item.Valid n m s k)
    (h : o ≠ p.order ∨ v < n ∨ n + rowCount item.instrs ≤ v) : p.advance item j v o = j v o := by
  have hplaced := hitem.placed
  cases item with
  | plain ins =>
    have hrow : ins.row + 1 = n + ins.op.resultCount := hplaced.1
    simp only [Item.instrs, rowCount_cons, rowCount_nil] at h
    exact Jet.advance_of_ne hitem.1 hrow (by omega)
  | call b =>
    have hb : b.Valid n m k := hitem
    rw [advance]
    cases p.answer b j with
    | error halt => rfl
    | ok results =>
      apply Jet.fill_of_ne
      refine h.imp_right ?_
      intro hv ins hins hop heq
      have hrows : rowCount (Item.call b).instrs = rowCount b.instrs := rfl
      have := hb.row_of_result hins hop
      omega

/-- Blocks ask the same of jets that agree. -/
theorem ask_congr {b : Block} {m k : Nat} {js js' : Nat → Jet F} {c l : Nat} (hq : 0 < p.order)
    (h : ∀ l', l ≤ l' → l' < l + c → Agree p.order D (js l') (js' l'))
    (hD : ∀ v, 0 < v → v < n → D v) (hb : b.Valid n m k) : p.ask b js c l = p.ask b js' c l := by
  induction c generalizing l with
  | zero => rfl
  | succ c ih =>
    have hl := h l (Nat.le_refl l) (by omega)
    have hitem : (Item.call b).Valid n m 0 k := hb
    rw [ask, ask, agree_halt? hq hl hD hitem,
      request_congr (hl.agreeOn hq) hb (inside_call hD hb (js l)),
      ih fun l' hle hlt => h l' (by omega) (by omega)]

variable {r i : Nat} {items : List Item} {js js' : Nat → Jet F}

/-- Replays of an item over jets that agree. -/
theorem agree_replayItem {item : Item} {s k : Nat} (hq : 0 < p.order)
    (h : ∀ l < r, Agree p.order D (js l) (js' l)) (hD : ∀ v, 0 < v → v < n → D v)
    (hitem : item.Valid n p.params.size s k) (hadmits : p.Admits item) :
    (p.replayItem r item js).stop = (p.replayItem r item js').stop ∧
      (p.replayItem r item js).requests = (p.replayItem r item js').requests ∧
      ((p.replayItem r item js).stop = none → ∀ l < r,
        Agree p.order (fun v => (n ≤ v ∧ v < n + rowCount item.instrs) ∨ D v)
          ((p.replayItem r item js).jets l) ((p.replayItem r item js').jets l)) := by
  have hsame : (p.replayItem r item js).stop = (p.replayItem r item js').stop ∧
      (p.replayItem r item js).requests = (p.replayItem r item js').requests := by
    cases item with
    | plain ins => exact ⟨rfl, rfl⟩
    | call b =>
      have hb : b.Valid n p.params.size k := hitem
      rw [replayItem, replayItem, ask_congr hq (fun l _ hl => h l (by omega)) hD hb]
      cases p.openFault? r (.call b) with
      | some f => exact ⟨rfl, rfl⟩
      | none => rcases p.ask b js' r 0 with ⟨_ | stop, requests⟩ <;> exact ⟨rfl, rfl⟩
  refine ⟨hsame.1, hsame.2, ?_⟩
  intro hnone l hl
  have hnone' := hsame.1 ▸ hnone
  rw [replayItem_jets hnone, replayItem_jets hnone']
  exact agree_advance hq (h l hl) hD hitem hadmits ((replayItem_eq_none_iff.mp hnone).2 l hl)

/-- The rows of the items that a sweep passes over. -/
def PassedRow (p : Plan F) : Nat → Nat → List Item → Nat → Prop
  | _, _, [], _ => False
  | i, n, item :: rest, v =>
    (p.marks i = true ∧ n ≤ v ∧ v < n + rowCount item.instrs) ∨
      p.PassedRow (i + item.size) (n + rowCount item.instrs) rest v

omit [Scalar F] in
/-- Without marks nothing is passed over. -/
theorem not_passedRow (hmarks : ∀ i, p.marks i = false) (i n : Nat) (items : List Item) (v : Nat) :
    ¬ p.PassedRow i n items v := by
  induction items generalizing i n with
  | nil => exact id
  | cons item rest ih =>
    rintro (⟨hmark, -⟩ | hv)
    · rw [hmarks] at hmark
      cases hmark
    · exact ih _ _ hv

/-- Sweeps of jets that agree on what a sweep may read ask and halt alike, and they leave jets that
agree on the rows of all items. -/
theorem agree_replayItems {s k : Nat} (hq : 0 < p.order)
    (h : ∀ l < r, Agree p.order D (js l) (js' l)) (hD : ∀ v, 0 < v → v < n → D v)
    (hpassed : ∀ v, p.PassedRow i n items v → D v)
    (hitems : ValidItems p.params.size s k n items) (hadmits : ∀ item ∈ items, p.Admits item) :
    (p.replayItems r i items js).stop = (p.replayItems r i items js').stop ∧
      (p.replayItems r i items js).requests = (p.replayItems r i items js').requests ∧
      ((p.replayItems r i items js).stop = none → ∀ l < r,
        Agree p.order (fun v => (n ≤ v ∧ v < n + rowCount (instrsOf items)) ∨ D v)
          ((p.replayItems r i items js).jets l) ((p.replayItems r i items js').jets l)) := by
  induction items generalizing i n D js js' with
  | nil =>
    refine ⟨rfl, rfl, ?_⟩
    intro _ l hl
    apply (h l hl).mono
    intro v hv
    rw [instrsOf_nil, rowCount_nil] at hv
    exact hv.resolve_left (by omega)
  | cons item rest ih =>
    obtain ⟨hitem, hrest⟩ := hitems
    have hrow : rowCount (instrsOf (item :: rest)) =
        rowCount item.instrs + rowCount (instrsOf rest) := by simp
    have hadmit := hadmits item List.mem_cons_self
    have hadmits' : ∀ item ∈ rest, p.Admits item :=
      fun i hi => hadmits i (List.mem_cons_of_mem _ hi)
    have hpassed' : ∀ v, p.PassedRow (i + item.size) (n + rowCount item.instrs) rest v → D v :=
      fun v hv => hpassed v (Or.inr hv)
    cases hmark : p.marks i with
    | true =>
      rw [replayItems_marked hmark, replayItems_marked hmark]
      -- The rows of an item that is passed over agree already.
      have hown : ∀ v, n ≤ v ∧ v < n + rowCount item.instrs → D v :=
        fun v hv => hpassed v (Or.inl ⟨hmark, hv⟩)
      have hD' : ∀ v, 0 < v → v < n + rowCount item.instrs → D v := by
        intro v hpos hlt
        by_cases hv : v < n
        · exact hD v hpos hv
        · exact hown v (by omega)
      obtain ⟨hstop, hrequests, hjets⟩ := ih h hD' hpassed' hrest hadmits'
      refine ⟨hstop, hrequests, ?_⟩
      intro hnone l hl
      rw [hrow]
      apply Agree.append
      exact (hjets hnone l hl).mono fun v hv => hv.imp_right fun hv => hv.elim (hown v) id
    | false =>
      obtain ⟨hstop, hrequests, hjets⟩ := agree_replayItem hq h hD hitem hadmit
      cases hfirst : (p.replayItem r item js).stop with
      | some stop =>
        have hfirst' := hstop.symm.trans hfirst
        rw [replayItems_stopped hmark hfirst, replayItems_stopped hmark hfirst', hfirst, hfirst']
        refine ⟨rfl, hrequests, ?_⟩
        intro hnone
        cases hnone
      | none =>
        have hfirst' := hstop.symm.trans hfirst
        have hD' : ∀ v, 0 < v → v < n + rowCount item.instrs →
            (n ≤ v ∧ v < n + rowCount item.instrs) ∨ D v := by
          intro v hpos hlt
          by_cases hv : v < n
          · exact Or.inr (hD v hpos hv)
          · exact Or.inl (by omega)
        obtain ⟨hstop', hrequests', hjets'⟩ := ih (hjets hfirst) hD'
          (fun v hv => Or.inr (hpassed' v hv)) hrest hadmits'
        rw [replayItems_went_on hmark hfirst, replayItems_went_on hmark hfirst']
        refine ⟨hstop', congrArg₂ _ hrequests hrequests', ?_⟩
        intro hnone l hl
        rw [hrow]
        exact (hjets' hnone l hl).append

omit [Scalar F] in
theorem PassedRow.le {v : Nat} (h : p.PassedRow i n items v) : n ≤ v := by
  induction items generalizing i n with
  | nil => cases h
  | cons item rest ih =>
    rcases h with ⟨-, hn, -⟩ | h
    · exact hn
    · have := ih h
      omega

omit [Scalar F] in
theorem PassedRow.lt {v : Nat} (h : p.PassedRow i n items v) :
    v < n + rowCount (instrsOf items) := by
  induction items generalizing i n with
  | nil => cases h
  | cons item rest ih =>
    rw [instrsOf_cons, rowCount_append]
    rcases h with ⟨-, -, hlt⟩ | h
    · omega
    · have := ih h
      omega

theorem replayItem_of_ne {item : Item} {m s k l v o : Nat} (hitem : item.Valid n m s k)
    (h : o ≠ p.order ∨ v < n ∨ n + rowCount item.instrs ≤ v) :
    (p.replayItem r item js).jets l v o = js l v o := by
  cases item with
  | plain ins => exact advance_of_ne hitem h
  | call b =>
    rw [replayItem]
    cases p.openFault? r (.call b) with
    | some f => rfl
    | none =>
      rcases p.ask b js r 0 with ⟨_ | stop, requests⟩
      · exact advance_of_ne hitem h
      · rfl

/-- A sweep writes its own order only, of rows that it does not pass over. -/
theorem replayItems_of_ne {m s k l v o : Nat} (hitems : ValidItems m s k n items)
    (h : o ≠ p.order ∨ v < n ∨ n + rowCount (instrsOf items) ≤ v ∨ p.PassedRow i n items v) :
    (p.replayItems r i items js).jets l v o = js l v o := by
  induction items generalizing i n js with
  | nil => rfl
  | cons item rest ih =>
    obtain ⟨hitem, hrest⟩ := hitems
    have hrow : rowCount (instrsOf (item :: rest)) =
        rowCount item.instrs + rowCount (instrsOf rest) := by simp
    cases hmark : p.marks i with
    | true =>
      rw [replayItems_marked hmark]
      apply ih hrest
      rcases h with h | h | h | ⟨-, -, h⟩ | h
      · exact Or.inl h
      · exact Or.inr (Or.inl (by omega))
      · exact Or.inr (Or.inr (Or.inl (by omega)))
      · exact Or.inr (Or.inl h)
      · exact Or.inr (Or.inr (Or.inr h))
    | false =>
      have hfirst : (p.replayItem r item js).jets l v o = js l v o := by
        apply replayItem_of_ne hitem
        rcases h with h | h | h | ⟨h, -⟩ | h
        · exact Or.inl h
        · exact Or.inr (Or.inl h)
        · exact Or.inr (Or.inr (by omega))
        · rw [hmark] at h
          cases h
        · exact Or.inr (Or.inr h.le)
      cases hstop : (p.replayItem r item js).stop with
      | some stop => rwa [replayItems_stopped hmark hstop]
      | none =>
        rw [replayItems_went_on hmark hstop, ← hfirst]
        apply ih hrest
        rcases h with h | h | h | ⟨h, -⟩ | h
        · exact Or.inl h
        · exact Or.inr (Or.inl (by omega))
        · exact Or.inr (Or.inr (Or.inl (by omega)))
        · rw [hmark] at h
          cases h
        · exact Or.inr (Or.inr (Or.inr h))

end Plan

end JetTape
