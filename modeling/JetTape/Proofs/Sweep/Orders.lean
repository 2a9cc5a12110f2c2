import JetTape.Proofs.Replay.Settled
import JetTape.Proofs.Sweep.Run

/-!
Sweeps of all orders. The sweep of one order more goes on from what the sweeps of the lower orders
have left. Without a mask and without calls a sweep comes to its end at every order. What it has
settled at one order stays settled at the later ones, which write their own order only.
-/
namespace JetTape

/-- The last index comes after the others. -/
theorem Loop.each_succ_last {m : Type → Type} [Monad m] [LawfulMonad m] (n i : Nat)
    (body : Nat → m Unit) :
    Loop.each (n + 1) i body = (do Loop.each n i body; body (i + n)) := by
  induction n generalizing i with
  | zero => simp [Loop.each]
  | succ n ih =>
    rw [Loop.each, ih (i + 1), Loop.each, bind_assoc, Nat.add_right_comm, Nat.add_assoc]

open Arena (SameShape)
open Jet (Agree)
open Replay (Leads ended)

variable {F : Type} [Scalar F]

/-- A sweep without calls comes to its end and makes no requests. -/
theorem Plan.replayItems_of_plain (p : Plan F) (r i : Nat) {items : List Item}
    (hplain : ∀ item ∈ items, ∃ ins, item = .plain ins) (js : Nat → Jet F) :
    (p.replayItems r i items js).stop = none ∧ (p.replayItems r i items js).requests = [] := by
  induction items generalizing i js with
  | nil => exact ⟨rfl, rfl⟩
  | cons item rest ih =>
    have hrest : ∀ item ∈ rest, ∃ ins, item = .plain ins :=
      fun item hi => hplain item (List.mem_cons_of_mem _ hi)
    obtain ⟨ins, rfl⟩ := hplain item List.mem_cons_self
    cases hmark : p.marks i with
    | true =>
      rw [replayItems_marked hmark]
      exact ih _ hrest js
    | false =>
      rw [replayItems_went_on hmark rfl]
      exact ih _ hrest _

namespace Tape

variable {t : Tape F} {items : List Item} {tail : List Instr}
variable {resolved : Array Nat}

omit [Scalar F] in
theorem marks_noSkip (t : Tape F) (q : Nat) (resolved : Array Nat) (i : Nat) :
    (t.plan q t.noSkip resolved).marks i = false := by
  show (Array.replicate t.ops.size false).getD i false = false
  rw [Array.getD_eq_getD_getElem?, Array.getElem?_replicate]
  split <;> rfl

omit [Scalar F] in
theorem size_noSkip (t : Tape F) : t.noSkip.size = t.ops.size := Array.size_replicate

omit [Scalar F] in
theorem maskOk_noSkip (t : Tape F) : t.MaskOk t.noSkip where
  stop := t.marks_noSkip 0 #[] _
  blocks _ i _ _ := t.marks_noSkip 0 #[] i

section Runs

variable {b : Buffer F} {q : Nat} {mask : Array Bool}

/-- Sweeps up to an order that the buffer does not keep end before the first. -/
theorem sweepOrders_past (h : b.layout.capOrder ≤ q) (mask : Array Bool)
    (resolved : Array Nat) (options : Options) :
    let run := t.sweepOrders q b mask resolved options
    run.stop = some (.fault (.orderPastBuffer q)) ∧ run.cells = b.cells ∧ run.requests = #[] := by
  have hleads : Leads (t.replayOrders b q mask resolved options) ⟨b.arena, none, #[]⟩
      (ended (some (.fault (.orderPastBuffer q)))) ⟨b.arena, none, #[]⟩ :=
    (Replay.leads_fault (by simp only [require, if_neg (Nat.not_lt.mpr h)])).bind_error
  exact Replay.run_of_leads hleads

theorem sweepOrders_stop_of_le (h : b.layout.capOrder ≤ q) (mask : Array Bool)
    (resolved : Array Nat) (options : Options) :
    (t.sweepOrders q b mask resolved options).stop = some (.fault (.orderPastBuffer q)) :=
  (sweepOrders_past h mask resolved options).1

/-- No sweeps leave everything as it is. -/
theorem sweepOrders_zero (h : 0 < b.layout.capOrder) (mask : Array Bool) (resolved : Array Nat)
    (options : Options) :
    let run := t.sweepOrders 0 b mask resolved options
    run.stop = none ∧ run.cells = b.cells ∧ run.requests = #[] := by
  have hleads : Leads (t.replayOrders b 0 mask resolved options) ⟨b.arena, none, #[]⟩
      (ended none) ⟨b.arena, none, #[]⟩ :=
    (Replay.leads_require h).bind (Replay.leads_pure ())
  exact Replay.run_of_leads hleads

/-- A sweep does the same whatever has been requested before. It writes its own order only. -/
theorem Spells.leads_run (h : t.Spells items tail) (hc : t.Countable) (hstop : t.isStopped = true)
    (hb : b.Fits t) (hmask : t.MaskOk mask) (hloads : t.LoadsOk resolved) (options : Options)
    (requests : Array (Request F)) :
    let run := t.sweep q b mask resolved options
    SameShape b.arena (b.withCells run.cells).arena ∧
      (∀ l < b.layout.directions, ∀ v k, k ≠ q →
        (b.withCells run.cells).arena.jet l v k = b.arena.jet l v k) ∧
      Leads (t.replay t.rows q mask resolved options) ⟨b.arena, none, requests⟩ (ended run.stop)
        ⟨(b.withCells run.cells).arena, none, requests ++ run.requests⟩ := by
  intro run
  have hrun : run = (t.replay t.rows q mask resolved options).run b.arena := by
    rw [← hb.rows]
    rfl
  cases hshapes : Replay.checkShapes t.program q mask resolved b.arena with
  | error f =>
    obtain ⟨hout, hcells, hasked⟩ :=
      Replay.run_of_leads (leads_replay_fault hstop hshapes options #[])
    rw [← hrun] at hout hcells hasked
    have harena := (SameShape.refl b.arena).withCells_eq hcells
    rw [harena, hout, hasked, Array.append_empty]
    exact ⟨.refl _, fun _ _ _ _ _ => rfl, leads_replay_fault hstop hshapes options requests⟩
  | ok u =>
    obtain ⟨a, hshape, hjets, hleads⟩ :=
      h.leads_replay hc hstop hb.shaped hshapes hmask hloads options requests
    obtain ⟨hout, hasked, hshape', hjets'⟩ := h.sweep hc hstop hb hshapes hmask hloads options
    have hcells : run.cells = a.cells := by
      refine Arena.cells_eq_of_jet (hshape.shaped hb.shaped) (b := (b.withCells run.cells).arena)
        (hshape'.layout.trans hshape.layout.symm) (hshape'.size.trans hshape.size.symm) ?_
      intro l hl
      rw [hshape.layout] at hl
      exact (hjets' l hl).trans (hjets l hl).symm
    have harena : (b.withCells run.cells).arena = a := hshape.withCells_eq hcells
    rw [harena, hout, hasked]
    refine ⟨hshape, ?_, hleads⟩
    intro l hl v k hk
    rw [hjets l hl]
    exact Plan.replayItems_of_ne (p := t.plan q mask resolved) h.valid (Or.inl hk)

/-- The sweeps of the orders from 1 to `q` as a run. They write these orders only. -/
theorem Spells.leads_runOrders (h : t.Spells items tail) (hc : t.Countable)
    (hstop : t.isStopped = true) (hb : b.Fits t) (hq : q < b.layout.capOrder)
    (hmask : t.MaskOk mask) (hloads : t.LoadsOk resolved) (options : Options) :
    let run := t.sweepOrders q b mask resolved options
    SameShape b.arena (b.withCells run.cells).arena ∧
      (∀ l < b.layout.directions, ∀ v k, k = 0 ∨ q < k →
        (b.withCells run.cells).arena.jet l v k = b.arena.jet l v k) ∧
      Leads (Loop.each q 1 fun q => t.replay t.rows q mask resolved options) ⟨b.arena, none, #[]⟩
        (ended run.stop) ⟨(b.withCells run.cells).arena, none, run.requests⟩ := by
  intro run
  have hexists (n : Nat) : ∃ stop a asked, SameShape b.arena a ∧
      (∀ l < b.layout.directions, ∀ v k, k = 0 ∨ n < k → a.jet l v k = b.arena.jet l v k) ∧
      Leads (Loop.each n 1 fun q => t.replay t.rows q mask resolved options) ⟨b.arena, none, #[]⟩
        (ended stop) ⟨a, none, asked⟩ := by
    induction n with
    | zero => exact ⟨none, b.arena, #[], .refl _, fun _ _ _ _ _ => rfl, Replay.leads_pure ()⟩
    | succ n ih =>
      obtain ⟨stop, a, asked, hshape, hkept, hleads⟩ := ih
      rw [Loop.each_succ_last]
      cases stop with
      | some stop =>
        exact ⟨some stop, a, asked, hshape, fun l hl v k hk => hkept l hl v k (by omega),
          hleads.bind_error⟩
      | none =>
        have harena : (b.withCells a.cells).arena = a := hshape.withCells_eq rfl
        have hfits : (b.withCells a.cells).Fits t := hb.withCells (harena.symm ▸ hshape)
        obtain ⟨hshape', hkept', hleads'⟩ :=
          h.leads_run (q := 1 + n) hc hstop hfits hmask hloads options asked
        rw [harena] at hshape' hkept' hleads'
        refine ⟨_, _, _, hshape.trans hshape', ?_, hleads.bind hleads'⟩
        intro l hl v k hk
        rw [← hkept l hl v k (by omega)]
        exact hkept' l (by rwa [Buffer.layout_withCells]) v k (by omega)
  obtain ⟨stop, a, asked, hshape, hkept, hleads⟩ := hexists q
  have hall : Leads (t.replayOrders b q mask resolved options) ⟨b.arena, none, #[]⟩ (ended stop)
      ⟨a, none, asked⟩ := by
    apply (Replay.leads_require hq).bind
    rw [hb.rows]
    exact hleads
  obtain ⟨hout, hcells, hasked⟩ := Replay.run_of_leads hall
  have harena : (b.withCells run.cells).arena = a := hshape.withCells_eq hcells
  have hout : run.stop = stop := hout
  have hasked : run.requests = asked := hasked
  rw [harena, hout, hasked]
  exact ⟨hshape, hkept, hleads⟩

/-- The sweeps of the orders from 1 to `q + 1` are those up to order `q` and, if they have come to
their end, one more over what they have left. -/
theorem Spells.sweepOrders_succ (h : t.Spells items tail) (hc : t.Countable)
    (hstop : t.isStopped = true) (hb : b.Fits t) (hq : q + 1 < b.layout.capOrder)
    (hmask : t.MaskOk mask) (hloads : t.LoadsOk resolved) (options : Options) :
    let lower := t.sweepOrders q b mask resolved options
    let last := t.sweep (q + 1) (b.withCells lower.cells) mask resolved options
    let run := t.sweepOrders (q + 1) b mask resolved options
    (lower.stop = none → run.stop = last.stop ∧ run.cells = last.cells ∧
      run.requests = lower.requests ++ last.requests) ∧
    ∀ stop, lower.stop = some stop → run.stop = some stop ∧ run.cells = lower.cells ∧
      run.requests = lower.requests := by
  intro lower last run
  obtain ⟨hshape, -, hlower⟩ := h.leads_runOrders hc hstop hb (Nat.lt_of_succ_lt hq) hmask hloads
    options
  have hbegin {out : Option Stop} {c : Core F}
      (hleads : Leads (Loop.each (q + 1) 1 fun q => t.replay t.rows q mask resolved options)
        ⟨b.arena, none, #[]⟩ (ended out) c) :
      run.stop = out ∧ run.cells = c.arena.cells ∧ run.requests = c.requests := by
    refine Replay.run_of_leads ((Replay.leads_require hq).bind ?_)
    rw [hb.rows]
    exact hleads
  rw [Loop.each_succ_last] at hbegin
  constructor
  · intro hnone
    obtain ⟨-, -, hlast⟩ := h.leads_run (q := 1 + q) hc hstop (hb.withCells hshape) hmask hloads
      options lower.requests
    have hnone : (t.sweepOrders q b mask resolved options).stop = none := hnone
    rw [hnone] at hlower
    rw [Nat.add_comm 1 q] at hlast hbegin
    exact hbegin (hlower.bind hlast)
  · intro stop hsome
    have hsome : (t.sweepOrders q b mask resolved options).stop = some stop := hsome
    rw [hsome] at hlower
    exact hbegin (show Leads _ _ (ended (some stop)) _ from hlower.bind_error)

end Runs

/-- A sweep of one order writes only the rows of the items at that order and settles them. -/
theorem Spells.leads_order (h : t.Spells items tail) (hc : t.Countable)
    (hstop : t.isStopped = true) (hplain : ∀ item ∈ items, ∃ ins, item = .plain ins)
    (hresolved : resolved.size = t.loads) (hloads : t.LoadsOk resolved) (options : Options)
    (requests : Array (Request F)) {q : Nat} (hq : 0 < q) {a : Arena F} (ha : a.Shaped t.rows)
    (hcap : q < a.layout.capOrder) :
    ∃ a', SameShape a a' ∧
      Leads (t.replay t.rows q t.noSkip resolved options) ⟨a, none, requests⟩ (.ok ())
        ⟨a', none, requests⟩ ∧
      ∀ l < a.layout.directions,
        (∀ v k, k ≠ q ∨ v < 1 + t.independents ∨ t.rows ≤ v → a'.jet l v k = a.jet l v k) ∧
        ∀ item ∈ items, (t.plan q t.noSkip resolved).Settled item (a'.jet l) := by
  have hitems : ValidItems t.params.size resolved.size t.registry.size (1 + t.independents)
      items := by
    rw [hresolved]
    exact h.valid
  have hadmits : ∀ item ∈ items, (t.plan q t.noSkip resolved).Admits item :=
    fun item hitem => (h.serves hc hloads item hitem).admits
  have hshapes : Replay.checkShapes t.program q t.noSkip resolved a = .ok () :=
    (Arena.Shaped.checkShapes_eq_ok_iff (P := t.program) ha).mpr
      ⟨⟨ha, hq, hcap⟩, Array.size_replicate, hresolved⟩
  obtain ⟨a', hshape, hjets, hleads⟩ := h.leads_replay hc hstop ha hshapes (maskOk_noSkip t)
    hloads options requests
  obtain ⟨hnone, hnoRequests⟩ := Plan.replayItems_of_plain (t.plan q t.noSkip resolved)
    a.layout.directions (t.independents + 1) hplain a.jet
  rw [hnone, hnoRequests] at hleads
  have hsettled := Plan.settled_replayItems (p := t.plan q t.noSkip resolved) hq
    (marks_noSkip t q resolved) hitems hadmits hnone
  have hrows := h.rows
  refine ⟨a', hshape, hleads, ?_⟩
  intro l hl
  constructor
  · intro v k hvk
    rw [hjets l hl]
    apply Plan.replayItems_of_ne hitems
    show k ≠ q ∨ _
    omega
  · intro item hitem
    rw [hjets l hl]
    exact hsettled item hitem l hl

/-- The sweeps of `n` orders from order `i` on settle all instructions at these orders. -/
theorem Spells.leads_orders (h : t.Spells items tail) (hc : t.Countable)
    (hstop : t.isStopped = true) (hplain : ∀ item ∈ items, ∃ ins, item = .plain ins)
    (hresolved : resolved.size = t.loads) (hloads : t.LoadsOk resolved) (options : Options)
    (requests : Array (Request F)) {n i : Nat} (hi : 0 < i) {a : Arena F} (ha : a.Shaped t.rows)
    (hcap : i + n ≤ a.layout.capOrder) :
    ∃ a', SameShape a a' ∧
      Leads (Loop.each n i fun q => t.replay t.rows q t.noSkip resolved options)
        ⟨a, none, requests⟩ (.ok ()) ⟨a', none, requests⟩ ∧
      ∀ l < a.layout.directions,
        (∀ v k, k < i ∨ i + n ≤ k ∨ v < 1 + t.independents ∨ t.rows ≤ v →
          a'.jet l v k = a.jet l v k) ∧
        ∀ q, i ≤ q → q < i + n → ∀ item ∈ items,
          (t.plan q t.noSkip resolved).Settled item (a'.jet l) := by
  induction n generalizing i a with
  | zero =>
    refine ⟨a, .refl a, Replay.leads_pure (), ?_⟩
    intro l _
    refine ⟨fun _ _ _ => rfl, ?_⟩
    intro q hle hlt
    omega
  | succ n ih =>
    obtain ⟨a₁, hshape, hfirst, hjets⟩ := h.leads_order hc hstop hplain hresolved hloads options
      requests hi ha (by omega)
    obtain ⟨a', hshape', hrest, hlater⟩ := ih (i := i + 1) (by omega) (hshape.shaped ha)
      (by rw [hshape.layout]; omega)
    refine ⟨a', hshape.trans hshape', hfirst.bind hrest, ?_⟩
    intro l hl
    obtain ⟨hunwritten, hsettled⟩ := hjets l hl
    obtain ⟨hkept, hsolved⟩ := hlater l (by rw [hshape.layout]; exact hl)
    constructor
    · intro v k hvk
      rw [hkept v k (by omega), hunwritten v k (by omega)]
    · intro q hle hlt item hitem
      by_cases hq : q = i
      · subst hq
        -- The later orders leave the coefficients that an instruction reads at this one.
        have hsame : Agree q (fun _ => True) (a₁.jet l) (a'.jet l) := by
          intro v k hk
          exact (hkept v k (by omega)).symm
        obtain ⟨_, hvalid⟩ := h.valid.exists_valid hitem
        obtain ⟨ins, rfl⟩ := hplain item hitem
        exact (hsettled _ hitem).congr hi hsame hvalid (h.serves hc hloads _ hitem).admits rfl
      · exact hsolved q (by omega) (by omega) item hitem

/-- The sweeps of the orders from 1 to `q` leave order 0 and the independents as they are and settle
all instructions at these orders. -/
theorem Spells.sweepOrders_settles (h : t.Spells items tail) (hc : t.Countable)
    (hstop : t.isStopped = true) (hplain : ∀ item ∈ items, ∃ ins, item = .plain ins)
    {b : Buffer F} (hb : b.Fits t) {q : Nat} (hq : q < b.layout.capOrder)
    (hresolved : resolved.size = t.loads) (hloads : t.LoadsOk resolved) (options : Options) :
    let run := t.sweepOrders q b t.noSkip resolved options
    run.stop = none ∧ (b.withCells run.cells).Fits t ∧ ∀ l < b.layout.directions,
      (∀ v k, k = 0 ∨ v < 1 + t.independents →
        (b.withCells run.cells).arena.jet l v k = b.arena.jet l v k) ∧
      ∀ k, 0 < k → k ≤ q → ∀ item ∈ items, (t.plan k t.noSkip resolved).Settled item
        ((b.withCells run.cells).arena.jet l) := by
  intro run
  obtain ⟨a, hshape, hleads, hjets⟩ := h.leads_orders hc hstop hplain hresolved hloads options #[]
    Nat.one_pos hb.shaped (n := q) (by
      show 1 + q ≤ b.layout.capOrder
      omega)
  have hrun : Replay.Leads (t.replayOrders b q t.noSkip resolved options) ⟨b.arena, none, #[]⟩
      (Replay.ended none) ⟨a, none, #[]⟩ := by
    apply (Replay.leads_require hq).bind
    rw [hb.rows]
    exact hleads
  obtain ⟨hnone, hcells, -⟩ := Replay.run_of_leads hrun
  have harena : (b.withCells run.cells).arena = a := hshape.withCells_eq hcells
  refine ⟨hnone, hb.withCells (harena ▸ hshape), ?_⟩
  rw [harena]
  intro l hl
  obtain ⟨hkept, hsettled⟩ := hjets l hl
  exact ⟨fun v k hvk => hkept v k (by omega), fun k hk0 hk => hsettled k hk0 (by omega)⟩

/-- Jets on which everything is settled at the orders from 1 to `q` are determined by order 0 and by
the independents. -/
theorem Spells.eq_of_settled (h : t.Spells items tail) (hc : t.Countable)
    (hplain : ∀ item ∈ items, ∃ ins, item = .plain ins) (hloads : t.LoadsOk resolved) {q : Nat}
    {j j' : Jet F} (hzero : ∀ v, j v 0 = j' v 0)
    (hgiven : ∀ v, 0 < v → v < 1 + t.independents → ∀ k ≤ q, j v k = j' v k)
    (hj : ∀ k, 0 < k → k ≤ q → ∀ item ∈ items, (t.plan k t.noSkip resolved).Settled item j)
    (hj' : ∀ k, 0 < k → k ≤ q → ∀ item ∈ items, (t.plan k t.noSkip resolved).Settled item j') :
    ∀ k ≤ q, ∀ v, 0 < v → v < t.rows → j v k = j' v k := by
  intro k
  induction k using Nat.strong_induction_on with
  | h k ih =>
    intro hk v hpos hv
    rcases Nat.eq_zero_or_pos k with rfl | hk0
    · exact hzero v
    have hrows := h.rows
    have hbefore : Jet.AgreeOn k (fun v => 0 < v ∧ v < t.rows)
        (fun v => 0 < v ∧ v < 1 + t.independents) j j' :=
      ⟨hzero, fun v hv o ho => ih o ho (by omega) v hv.1 hv.2,
        fun v hv o ho => hgiven v hv.1 hv.2 o (by omega)⟩
    have hall := Plan.agreeOn_of_settled (p := t.plan k t.noSkip resolved) hk0 hbefore
      (fun v hpos hlt => ⟨hpos, hlt⟩)
      (fun v hn hlt => ⟨by omega, by omega⟩) h.valid
      (fun item hitem => (h.serves hc hloads item hitem).admits) hplain (hj k hk0 hk) (hj' k hk0 hk)
    have hrow : (1 + t.independents ≤ v ∧ v < 1 + t.independents + rowCount (instrsOf items)) ∨
        (0 < v ∧ v < 1 + t.independents) := by
      omega
    exact hall.upTo v hrow k (Nat.le_refl k)

end Tape

end JetTape
