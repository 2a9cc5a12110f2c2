import JetTape.Proofs.Replay.Relocation
import JetTape.Proofs.Sweep.Dependence
import JetTape.Proofs.Sweep.Loads
import JetTape.Proofs.Tape.Composition
import JetTape.Proofs.Tape.Overflow

/-!
Sweeps of composed tapes. The sweep of a composed tape is the sweep of the first tape and then that
of the second one on the rows that its independents have been identified with, so composing tapes
composes the functions that they compute.
-/
namespace JetTape

open Arena (SameShape)

variable {F : Type}

/-- A load refers to a slot, and its row comes after those before the items. -/
theorem ValidItems.slot_of_load {p m k n : Nat} {items : List Item} (h : ValidItems p m k n items)
    {ins : Instr} (hins : ins ∈ instrsOf items) {s : Source} (hop : ins.op = .load s) :
    n ≤ ins.row ∧ ∃ offset index slot, ins.args = [offset, index, slot] ∧ slot < m := by
  refine ⟨(h.placed.owner_bounds hins (v := ins.row) (by simp [hop, Opcode.resultCount])
    (Nat.le_refl _)).1, ?_⟩
  obtain ⟨item, hitem, hmem⟩ := List.mem_flatMap.mp hins
  obtain ⟨n', hvalid⟩ := h.exists_valid hitem
  cases item with
  | plain ins' =>
    obtain rfl := List.mem_singleton.mp hmem
    have hplain := hvalid.1
    rw [hop] at hplain
    generalize hargs : ins.args = args at hplain
    cases hplain with
    | load offset hi hs => exact ⟨offset, _, _, rfl, hs⟩
  | call b =>
    have hb : b.Valid n' p k := hvalid
    have hpos : 0 < ins.op.resultCount := by simp [hop, Opcode.resultCount]
    have hresult := (hb.eq_callResult hmem hpos).2
    rw [hop] at hresult
    cases hresult

/-- Loads that are right where the tape has been moved are right on the tape. -/
theorem Relocation.loadedRow_lt {r : Relocation} {p k n : Nat} {items : List Item}
    {resolved resolved' : Array Nat} (hresolved : r.Resolves resolved resolved')
    (h : ValidItems p resolved.size k n items) (hn : r.renamed < n)
    (hmoved : ∀ ins ∈ instrsOf (items.map r.item), ∀ s, ins.op = .load s →
      Jet.loadedRow ins.args resolved' < ins.row) :
    ∀ ins ∈ instrsOf items, ∀ s, ins.op = .load s →
      Jet.loadedRow ins.args resolved < ins.row := by
  intro ins hins s hop
  obtain ⟨hrow, offset, index, slot, hargs, hslot⟩ := h.slot_of_load hins hop
  have hlt := hmoved (r.instr ins) (by
    rw [instrsOf_map]
    exact List.mem_map_of_mem hins) s hop
  have hmovedArgs : (r.instr ins).args = [offset, r.arg s.role index, slot + r.slots] := by
    rw [instr, hop, hargs]
    rfl
  rw [hmovedArgs] at hlt
  rw [hargs]
  have hloaded : r.row (resolved.getD slot 0) < r.shift ins.row := by
    rw [← hresolved slot hslot]
    exact hlt
  exact (row_lt_iff (by omega)).mp hloaded

variable [Scalar F]

namespace Tape

variable {t u : Tape F} {items items' : List Item} {tail tail' : List Instr} {b : Buffer F}
variable {q : Nat} {resolved resolved' : Array Nat} {choice : t.Choice u}

/-- The sweep of a tape does what the replay of its items does where they have been moved to, if
both find the same on the rows of the tape. It leaves the phantom row and the independents alone. -/
theorem Spells.sweep_moved (h : t.Spells items tail) (hc : t.Countable) (hstop : t.isStopped = true)
    {r : Relocation} (hrows : r.rows = t.rows) (hrenamed : r.renamed ≤ t.independents)
    {p' : Plan F} (hcarries : r.Carries (t.plan q t.noSkip resolved) p')
    (hmarks : ∀ i, p'.marks i = false) (hb : b.Fits t) (hpos : 0 < q)
    (hq : q < b.layout.capOrder) (hresolved : resolved.size = t.loads)
    (hloads : t.LoadsOk resolved) {c i : Nat} (hdirections : b.layout.directions = c)
    {js : Nat → Jet F} (hnone : (p'.replayItems c i (items.map r.item) js).stop = none)
    (hsame : ∀ l < c, ∀ v, 0 < v → v < t.rows → ∀ k, k < q ∨ k = q ∧ v ≤ t.independents →
      b.get v k l = .ok (js l (r.row v) k))
    (options : Options) :
    let run := t.sweep q b t.noSkip resolved options
    run.stop = none ∧
      (∀ l < c, ∀ v ≤ t.independents, (b.withCells run.cells).get v q l = b.get v q l) ∧
      ∀ l < c, ∀ v, 0 < v → v < t.rows → (b.withCells run.cells).get v q l =
        .ok ((p'.replayItems c i (items.map r.item) js).jets l (r.row v) q) := by
  subst hdirections
  intro run
  let p := t.plan q t.noSkip resolved
  have hhead := h.rows
  have hitems : ValidItems p.params.size p.resolved.size p.registry.size (1 + t.independents)
      items := by
    show ValidItems t.params.size resolved.size t.registry.size _ _
    rw [hresolved]
    exact h.valid
  have hshapes : Replay.checkShapes t.program q t.noSkip resolved b.arena = .ok () :=
    (Arena.Shaped.checkShapes_eq_ok_iff (P := t.program) hb.shaped).mpr
      ⟨⟨hb.shaped, hpos, hq⟩, Array.size_replicate, hresolved⟩
  obtain ⟨hout, -, hshape, hjets⟩ :=
    h.sweep hc hstop hb hshapes (maskOk_noSkip t) hloads options
  have hfound : ∀ l < b.layout.directions, ∀ v, 0 < v → v < r.rows → ∀ k,
      k < q ∨ k = q ∧ v < 1 + t.independents → b.arena.jet l v k = js l (r.row v) k := by
    intro l hl v hv hlt k hk
    have hget := hsame l hl v hv (by omega) k (hk.imp_right fun hk => ⟨hk.1, by omega⟩)
    rw [hb.get_eq (by omega) (by omega) hl] at hget
    exact Except.ok.inj hget
  obtain ⟨hstop', hmoved⟩ := hcarries.replayItems_alike (i := t.independents + 1)
    (marks_noSkip t q resolved) hmarks hitems
    (fun item hitem => (h.serves hc hloads item hitem).admits) (by omega)
    (h.rows.symm.trans hrows.symm) hpos hfound
  refine ⟨hout.trans (hstop'.trans hnone), ?_, ?_⟩
  · intro l hl v hv
    rw [(hb.withCells hshape).get_eq (by omega) hq hl, hb.get_eq (by omega) hq hl, hjets l hl]
    exact congrArg _ (Plan.replayItems_of_ne (p := p) hitems (Or.inr (Or.inl (by omega))))
  · intro l hl v hv hlt
    rw [(hb.withCells hshape).get_eq hlt hq hl, hjets l hl]
    exact congrArg Except.ok (hmoved hnone l hl v hv (hrows.symm ▸ hlt))

section Compose

omit [Scalar F] in
theorem resolves_first : (Relocation.refl t.rows).Resolves resolved
    (t.composeLoads u choice resolved resolved') := by
  intro i hi
  rw [Relocation.row_refl]
  show (resolved ++ resolved'.map (t.relocation u choice).row).getD (i + 0) 0 = resolved.getD i 0
  rw [Array.getD_eq_getD_getElem?, Nat.add_zero, Array.getElem?_append_left hi,
    Array.getD_eq_getD_getElem?]

omit [Scalar F] in
theorem resolves_second (hresolved : resolved.size = t.loads) :
    (t.relocation u choice).Resolves resolved' (t.composeLoads u choice resolved resolved') := by
  intro i hi
  show (resolved ++ resolved'.map (t.relocation u choice).row).getD (i + t.loads) 0 =
    (t.relocation u choice).row (resolved'.getD i 0)
  rw [← hresolved, Array.getD_eq_getD_getElem?, Array.getElem?_append_right (Nat.le_add_left _ _),
    Nat.add_sub_cancel, Array.getElem?_map, Array.getElem?_eq_getElem hi]
  simp [hi]

/-- The composed tape has the tables of the first tape where they were. -/
theorem carries_first :
    (Relocation.refl t.rows).Carries (t.plan q t.noSkip resolved)
      ((t.compose u choice).plan q (t.compose u choice).noSkip
        (t.composeLoads u choice resolved resolved')) where
  order := rfl
  params i hi := by
    have hi : i < t.params.size := hi
    show (t.compose u choice).params.getD (i + 0) 0 = t.params.getD i 0
    rw [params_compose, Array.getD_eq_getD_getElem?, Nat.add_zero, Array.getElem?_append_left hi,
      Array.getD_eq_getD_getElem?]
  registry i hi := by
    have hi : i < t.registry.size := hi
    show (t.compose u choice).registry[i + 0]? = t.registry[i]?
    rw [registry_compose, Nat.add_zero, Array.getElem?_append_left hi]
  resolved := resolves_first

/-- It has those of the second tape where its instructions look for them. -/
theorem carries_second (hresolved : resolved.size = t.loads) :
    (t.relocation u choice).Carries (u.plan q u.noSkip resolved')
      ((t.compose u choice).plan q (t.compose u choice).noSkip
        (t.composeLoads u choice resolved resolved')) where
  order := rfl
  params i _ := by
    show (t.compose u choice).params.getD (i + t.params.size) 0 = u.params.getD i 0
    rw [params_compose, Array.getD_eq_getD_getElem?,
      Array.getElem?_append_right (Nat.le_add_left _ _), Nat.add_sub_cancel,
      Array.getD_eq_getD_getElem?]
  registry i _ := by
    show (t.compose u choice).registry[i + t.registry.size]? = u.registry[i]?
    rw [registry_compose, Array.getElem?_append_right (Nat.le_add_left _ _), Nat.add_sub_cancel]
  resolved := resolves_second hresolved

variable (h : t.Spells items tail) (h' : u.Spells items' [⟨.stop, [], u.rows - 1⟩])
variable (hc : t.Countable) (hc' : u.Countable)

include h h' hc hc'

omit [Scalar F] in
/-- Loads that are right on the composed tape are right on either tape. -/
theorem Spells.loadsOk_of_compose (hcomposed : (t.compose u choice).Countable)
    (hbound : (t.compose u choice).rows < Index.argBound) (hresolved : resolved.size = t.loads)
    (hresolved' : resolved'.size = u.loads)
    (hloads : (t.compose u choice).LoadsOk (t.composeLoads u choice resolved resolved')) :
    t.LoadsOk resolved ∧ u.LoadsOk resolved' := by
  have hboth := ((h.compose h' hc' hc hbound).loadsOk_iff hcomposed).mp hloads
  rw [instrsOf_append] at hboth
  constructor
  · have hfirst : ∀ ins ∈ instrsOf (items.map (Relocation.refl t.rows).item), ∀ s,
        ins.op = .load s → Jet.loadedRow ins.args (t.composeLoads u choice resolved resolved') <
          ins.row := by
      rw [Relocation.map_item_refl]
      exact fun ins hins => hboth ins (List.mem_append_left _ hins)
    exact (h.loadsOk_iff hc).mpr (Relocation.loadedRow_lt resolves_first (hresolved ▸ h.valid)
      (show 0 < 1 + t.independents by omega) hfirst)
  · exact (h'.loadsOk_iff hc').mpr (Relocation.loadedRow_lt (resolves_second hresolved)
      (hresolved' ▸ h'.valid) (show u.independents < 1 + u.independents by omega)
      fun ins hins => hboth ins (List.mem_append_right _ hins))

/-- A sweep of the composed tape replays the items of the first tape and then those of the
second. -/
theorem Spells.sweep_halves (hcomposed : (t.compose u choice).Countable)
    (hbound : (t.compose u choice).rows < Index.argBound) (hb : b.Fits (t.compose u choice))
    (hloads : (t.compose u choice).LoadsOk (t.composeLoads u choice resolved resolved'))
    {options : Options} :
    let both := t.compose u choice
    let p := both.plan q both.noSkip (t.composeLoads u choice resolved resolved')
    let run := both.sweep q b both.noSkip (t.composeLoads u choice resolved resolved') options
    let first := p.replayItems b.layout.directions (both.independents + 1) items b.arena.jet
    let second := p.replayItems b.layout.directions
      (both.independents + 1 + (instrsOf items).length)
      (items'.map (t.relocation u choice).item) first.jets
    run.stop = none → 0 < q ∧ q < b.layout.capOrder ∧ first.stop = none ∧ second.stop = none ∧
      ∀ l < b.layout.directions, ∀ v < both.rows, ∀ k ≤ q,
        (b.withCells run.cells).get v k l = .ok (second.jets l v k) ∧
        (k ≠ q ∨ v < t.rows → second.jets l v k = first.jets l v k) ∧
        (k ≠ q ∨ v ≤ t.independents → .ok (first.jets l v k) = b.get v k l) := by
  intro both p run first second hnone
  have hspells := h.compose h' hc' hc hbound
  have hended : both.isStopped = true := hspells.isStopped_iff.mpr (List.cons_ne_nil _ _)
  have hshapes := checkShapes_of_sweep hended hb hnone
  have hfit : b.arena.Fits both.rows q :=
    ((Arena.Shaped.checkShapes_eq_ok_iff (P := both.program) hb.shaped).mp hshapes).1
  obtain ⟨hout, -, hshape, hjets⟩ := hspells.sweep hcomposed hended hb hshapes
    (maskOk_noSkip both) hloads options
  obtain ⟨hfirst, hsecond, hlast, -⟩ := Plan.replayItems_append (hout.symm.trans hnone)
  obtain ⟨hvalidFirst, hvalidSecond⟩ := validItems_append.mp hspells.valid
  rw [independents_compose, ← h.rows] at hvalidSecond
  refine ⟨hfit.order_pos, hfit.order_lt, hfirst, hsecond, ?_⟩
  intro l hl v hv k hk
  have hcap : k < b.layout.capOrder := Nat.lt_of_le_of_lt hk hfit.order_lt
  refine ⟨?_, fun hvk => ?_, fun hvk => ?_⟩
  · rw [(hb.withCells hshape).get_eq hv hcap hl, hjets l hl, hlast]
  · exact Plan.replayItems_of_ne (p := p) hvalidSecond (hvk.imp_right Or.inl)
  · rw [hb.get_eq hv hcap hl]
    refine congrArg _ (Plan.replayItems_of_ne (p := p) hvalidFirst ?_)
    rw [independents_compose]
    exact hvk.imp_right fun hle => Or.inl (by omega)

end Compose

/-- The buffer is one for the tape `t` alone. It holds what `b` holds below order `q` on its rows
and at order `q` on its phantom row and its independents. -/
structure HoldsFirst (t : Tape F) (q : Nat) (b own : Buffer F) : Prop where
  fits : own.Fits t
  directions : own.layout.directions = b.layout.directions
  order : q < own.layout.capOrder
  below : ∀ v < t.rows, ∀ k < q, ∀ l < b.layout.directions, own.get v k l = b.get v k l
  independents : ∀ v ≤ t.independents, ∀ l < b.layout.directions, own.get v q l = b.get v q l

/-- The buffer is one for the tape `u` alone. Its independents hold what `left` holds on the chosen
rows, and its other rows hold below order `q` what `b` holds on the rows where they have gone. -/
structure HoldsSecond (t u : Tape F) (choice : t.Choice u) (q : Nat) (b left own : Buffer F) :
    Prop where
  fits : own.Fits u
  directions : own.layout.directions = b.layout.directions
  order : q < own.layout.capOrder
  chosen : ∀ i : Fin u.independents, ∀ k ≤ q, ∀ l < b.layout.directions,
    own.get (i + 1) k l = left.get (choice i) k l
  below : ∀ v, u.independents < v → v < u.rows → ∀ k < q, ∀ l < b.layout.directions,
    own.get v k l = b.get ((t.relocation u choice).row v) k l

/-- The chain rule. A sweep of a composed tape that comes to its end leaves in the rows of the first
tape what the sweep of that tape leaves, and in those of the second tape what its sweep leaves after
the chosen rows have been given to its independents. -/
theorem sweep_compose (ht : t.Recorded) (hu : u.Recorded) (hstop : t.isStopped = true)
    (hstop' : u.isStopped = true) (hc : t.Countable) (hc' : u.Countable)
    (hcomposed : (t.compose u choice).Countable)
    (hbound : (t.compose u choice).rows < Index.argBound) (hb : b.Fits (t.compose u choice))
    (hresolved : resolved.size = t.loads) (hresolved' : resolved'.size = u.loads)
    (options : Options) :
    let both := t.compose u choice
    let run := both.sweep q b both.noSkip (t.composeLoads u choice resolved resolved') options
    let left := b.withCells run.cells
    run.stop = none →
      (∀ own options, t.HoldsFirst q b own →
        let first := t.sweep q own t.noSkip resolved options
        first.stop = none ∧ ∀ v < t.rows, ∀ l < b.layout.directions,
          left.get v q l = (own.withCells first.cells).get v q l) ∧
      ∀ own options, t.HoldsSecond u choice q b left own →
        let second := u.sweep q own u.noSkip resolved' options
        second.stop = none ∧ ∀ v, 0 < v → v < u.rows → ∀ l < b.layout.directions,
          left.get ((t.relocation u choice).row v) q l =
            (own.withCells second.cells).get v q l := by
  intro both run left hnone
  obtain ⟨items, tail, h⟩ := ht.spells
  obtain ⟨items', tail', h'⟩ := hu.spells
  obtain rfl := h'.tail.resolve_left (h'.isStopped_iff.mp hstop')
  have hspells := h.compose h' hc' hc hbound
  have hloads := hspells.loadsOk_of_sweep hcomposed hnone
  obtain ⟨hloadsFirst, hloadsSecond⟩ :=
    h.loadsOk_of_compose h' hc hc' hcomposed hbound hresolved hresolved' hloads
  obtain ⟨hpos, hq, hnoneFirst, hnoneSecond, hleft⟩ :=
    h.sweep_halves h' hc hc' hcomposed hbound hb hloads hnone
  have hmarks := marks_noSkip both q (t.composeLoads u choice resolved resolved')
  have hrows : (t.compose u choice).rows = t.rows + rowCount (instrsOf items') :=
    h.rows_compose h' hc' hc choice
  constructor
  · intro own options' hown first
    have hsame : ∀ l < b.layout.directions, ∀ v, 0 < v → v < t.rows → ∀ k,
        k < q ∨ k = q ∧ v ≤ t.independents →
          own.get v k l = .ok (b.arena.jet l ((Relocation.refl t.rows).row v) k) := by
      intro l hl v hv hlt k hk
      rw [Relocation.row_refl, ← hb.get_eq (by omega) (by omega) hl]
      rcases hk with hk | ⟨rfl, hle⟩
      · exact hown.below v hlt k hk l hl
      · exact hown.independents v hle l hl
    have hunmoved : items.map (Relocation.refl t.rows).item = items :=
      Relocation.map_item_refl items
    rw [← hunmoved] at hnoneFirst
    obtain ⟨hnone', hhead, hrun⟩ := h.sweep_moved hc hstop (r := .refl t.rows) rfl (Nat.zero_le _)
      carries_first hmarks hown.fits hpos hown.order hresolved hloadsFirst hown.directions
      hnoneFirst hsame options'
    refine ⟨hnone', ?_⟩
    intro v hlt l hl
    obtain ⟨hget, hkept, hgiven⟩ := hleft l hl v (by omega) q (Nat.le_refl q)
    rcases Nat.eq_zero_or_pos v with rfl | hv
    · rw [hget, hkept (Or.inr hlt), hgiven (Or.inr (Nat.zero_le _)), hhead l hl 0 (Nat.zero_le _),
        hown.independents 0 (Nat.zero_le _) l hl]
    · rw [hget, hkept (Or.inr hlt), hrun l hl v hv hlt, Relocation.row_refl,
        Relocation.map_item_refl]
  · intro own options' hown second
    have hsame : ∀ l < b.layout.directions, ∀ v, 0 < v → v < u.rows → ∀ k,
        k < q ∨ k = q ∧ v ≤ u.independents → own.get v k l =
          .ok (((both.plan q both.noSkip (t.composeLoads u choice resolved resolved')).replayItems
            b.layout.directions (both.independents + 1) items b.arena.jet).jets l
            ((t.relocation u choice).row v) k) := by
      intro l hl v hv hlt k hk
      have hle : k ≤ q := by omega
      obtain ⟨hget, hkept, hlower⟩ := hleft l hl _ (h.row_lt_rows h' hc' hc hlt) k hle
      by_cases hindependent : v ≤ u.independents
      · obtain ⟨i, rfl⟩ : ∃ i : Fin u.independents, v = i + 1 :=
          ⟨⟨v - 1, by omega⟩, (Nat.sub_add_cancel hv).symm⟩
        rw [relocation_independent] at hget hkept ⊢
        rw [hown.chosen i k hle l hl, hget, hkept (Or.inr (choice i).2.2)]
      · rw [hown.below v (by omega) hlt k (by omega) l hl, hlower (by omega)]
    obtain ⟨hnone', -, hrun⟩ := h'.sweep_moved hc' hstop' (r := t.relocation u choice) rfl
      (Nat.le_refl _) (carries_second hresolved) hmarks hown.fits hpos hown.order hresolved'
      hloadsSecond hown.directions hnoneSecond hsame options'
    refine ⟨hnone', ?_⟩
    intro v hv hlt l hl
    obtain ⟨hget, -, -⟩ := hleft l hl _ (h.row_lt_rows h' hc' hc hlt) q (Nat.le_refl q)
    rw [hget, hrun l hl v hv hlt]

/-- A tape to go behind the sample tape: a load, a power, a call and a tangent. -/
def outerTape : Tape ℚ :=
  .ofSession [.independents 2, .parameter 2, .register .echo, .load 0 (.var 1),
    .operation (.power .vp) [2, 0], .call 0 8 [.var 3, .par 0] [.var],
    .operation (.elementary .tan) [7], .finish]

/-- The sine of the sample tape and the result of its call. -/
def sampleChoice : sampleTape.Choice outerTape := fun i =>
  if i.val = 0 then ⟨8, by decide +kernel⟩ else ⟨4, by decide +kernel⟩

/-- The outer tape behind the sample tape. -/
def innerOuterTape : Tape ℚ := sampleTape.compose outerTape sampleChoice

/-- The load of the sample tape stands for its product, and that of the outer tape for its first
independent. -/
def innerOuterLoads : Array Nat := sampleTape.composeLoads outerTape sampleChoice #[3] #[1]

/-- A buffer for both tapes: orders below 3, two directions, no two coefficients alike. -/
def innerOuterBuffer : Buffer ℚ :=
  ⟨⟨⟨3, 2⟩, ((List.range' 1 80).map fun i : Nat => (i : ℚ)).toArray⟩, 16⟩

/-- What a sweep of both tapes leaves. -/
def innerOuterLeft : Buffer ℚ :=
  innerOuterBuffer.withCells
    (innerOuterTape.sweep 2 innerOuterBuffer innerOuterTape.noSkip innerOuterLoads {}).cells

/-- The rows of the sample tape alone. -/
def innerBuffer : Buffer ℚ := ⟨⟨⟨3, 2⟩, innerOuterBuffer.cells.extract 0 45⟩, 9⟩

/-- The rows of the outer tape alone, its independents as the sweep of both tapes leaves the chosen
rows. -/
def outerBuffer : Buffer ℚ :=
  ⟨⟨⟨3, 2⟩, Array.replicate 5 0 ++ innerOuterLeft.cells.extract 40 45 ++
    innerOuterLeft.cells.extract 20 25 ++ innerOuterBuffer.cells.extract 45 80⟩, 10⟩

theorem innerBuffer_holdsFirst : sampleTape.HoldsFirst 2 innerOuterBuffer innerBuffer where
  fits := by decide +kernel
  directions := by decide
  order := by decide
  below := by decide +kernel
  independents := by decide +kernel

theorem outerBuffer_holdsSecond : sampleTape.HoldsSecond outerTape sampleChoice 2 innerOuterBuffer
    innerOuterLeft outerBuffer where
  fits := by decide +kernel
  directions := by decide
  order := by decide
  chosen := by decide +kernel
  below := by
    have h : ∀ v < outerTape.rows, outerTape.independents < v → ∀ k < 2,
        ∀ l < innerOuterBuffer.layout.directions, outerBuffer.get v k l =
          innerOuterBuffer.get ((sampleTape.relocation outerTape sampleChoice).row v) k l := by
      decide +kernel
    exact fun v hv hlt => h v hlt hv

theorem innerOuterTape_sweep_compose :
    let run := innerOuterTape.sweep 2 innerOuterBuffer innerOuterTape.noSkip innerOuterLoads {}
    let first := sampleTape.sweep 2 innerBuffer sampleTape.noSkip #[3] {}
    let second := outerTape.sweep 2 outerBuffer outerTape.noSkip #[1] {}
    run.stop = none ∧
      (first.stop = none ∧ ∀ v < 9, ∀ l < 2,
        innerOuterLeft.get v 2 l = (innerBuffer.withCells first.cells).get v 2 l) ∧
      second.stop = none ∧ ∀ v, 2 < v → v < 10 → ∀ l < 2,
        innerOuterLeft.get (v + 6) 2 l = (outerBuffer.withCells second.cells).get v 2 l := by
  have hrows : sampleTape.rows = 9 := by decide +kernel
  have hrows' : outerTape.rows = 10 := by decide +kernel
  have hnone : (innerOuterTape.sweep 2 innerOuterBuffer innerOuterTape.noSkip innerOuterLoads
      {}).stop = none := by
    decide +kernel
  have hmoved : ∀ v < 10, 2 < v → (sampleTape.relocation outerTape sampleChoice).row v = v + 6 := by
    decide +kernel
  obtain ⟨hfirst, hsecond⟩ := @sweep_compose ℚ _ sampleTape outerTape innerOuterBuffer 2 #[3] #[1]
    sampleChoice sampleTape_recorded (ofSession_recorded (by decide +kernel)) (by decide +kernel)
    (by decide +kernel) sampleTape_countable ⟨by decide +kernel, by decide +kernel⟩
    ⟨by decide +kernel, by decide +kernel⟩ (by decide +kernel) (by decide +kernel)
    (by decide +kernel) (by decide +kernel) {} hnone
  obtain ⟨hnoneFirst, hinner⟩ := hfirst innerBuffer {} innerBuffer_holdsFirst
  obtain ⟨hnoneSecond, houter⟩ := hsecond outerBuffer {} outerBuffer_holdsSecond
  refine ⟨hnone, ⟨hnoneFirst, fun v hlt => hinner v (hrows ▸ hlt)⟩, hnoneSecond, ?_⟩
  intro v hv hlt l hl
  rw [← hmoved v hlt hv]
  exact houter v (by omega) (hrows' ▸ hlt) l hl

/-- A tape to stand before the stray exponential. -/
def firstExp : Tape ℚ :=
  .ofSession [.independents 1, .operation (.elementary .exp) [1], .finish]

/-- A buffer for the stray exponential alone, its row as row 3 of the pair below order 1. -/
def strayOwnBuffer : Buffer ℚ := ⟨⟨⟨2, 1⟩, #[0, 0, 1, 1, 3, 7]⟩, 3⟩

/-- Behind `2 ^ 32` words instructions may be read back with operands that do not move along with
them. The pair holds the instructions of `firstExp` and those of the stray exponential, moved by a
row; the stray one reads row 2 of the pair, and alone it reads row 2, which is its own. -/
theorem strayPair_not_composed :
    let first := firstExp
    let second := stray .exp 2
    let run := strayPair.sweep 1 strayPairBuffer strayPair.noSkip #[] {}
    let run' := second.sweep 1 strayOwnBuffer second.noSkip #[] {}
    let left := strayPairBuffer.withCells run.cells
    (first.Recorded ∧ second.Recorded ∧ strayPair.Recorded) ∧
      first.Lists [⟨.start, [0], 0⟩, ⟨.independent, [], 1⟩, ⟨.elementary .exp, [1], 2⟩,
        ⟨.stop, [], 2⟩] ∧
      second.Lists [⟨.start, [0], 0⟩, ⟨.independent, [], 1⟩, longSkip (filler [2]) 1,
        ⟨.elementary .exp, [1], 2⟩, ⟨.stop, [], 2⟩] ∧
      strayPair.Lists [⟨.start, [0], 0⟩, ⟨.independent, [], 1⟩, ⟨.elementary .exp, [1], 2⟩,
        longSkip (filler [2]) 2, ⟨.elementary .exp, [1], 3⟩, ⟨.stop, [], 3⟩] ∧
      strayPairBuffer.Fits strayPair ∧ strayOwnBuffer.Fits second ∧
      (∀ k ≤ 1, strayOwnBuffer.get 1 k 0 = left.get 1 k 0) ∧
      strayOwnBuffer.get 2 0 0 = strayPairBuffer.get 3 0 0 ∧
      run.stop = none ∧ run'.stop = none ∧ left.get 3 1 0 = .ok 6 ∧
      (strayOwnBuffer.withCells run'.cells).get 2 1 0 = .ok 21 := by
  intro first second run run' left
  have hfirst : first.Recorded := ofSession_recorded (by decide)
  have hlists : first.Lists first.instrs := hfirst.lists_instrs ⟨by decide, by decide⟩
  have hinstrs : first.instrs = [⟨.start, [0], 0⟩, ⟨.independent, [], 1⟩,
      ⟨.elementary .exp, [1], 2⟩, ⟨.stop, [], 2⟩] := by
    with_unfolding_all decide
  have hlike : second.Alike (strayRead .exp 2) := stray_alike .exp 2
  have hlike' := strayPair_alike
  have hrun : run = _ := hlike'.sweep_noSkip _ _ _ _
  have hrun' : run' = _ := hlike.sweep_noSkip _ _ _ _
  refine ⟨⟨hfirst, stray_recorded .exp 2, overfills_strayPair.recorded⟩, hinstrs ▸ hlists,
    (stray_misread .exp 2).2.1, strayPair_lists, hlike'.fits (by decide),
    hlike.fits (by decide), ?_⟩
  simp only [left]
  rw [hrun, hrun']
  with_unfolding_all decide

end Tape

end JetTape
