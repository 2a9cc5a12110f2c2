import JetTape.Proofs.Sweep.Agreement
import JetTape.Proofs.Sweep.Loads

/-!
Sweeps of rewritten tapes. Where what a rule puts in the place of each item of a tape does what the
item does, the tape and the rewritten one are swept alike: in a sweep of any one order, and in the
sweeps of all orders.
-/
namespace JetTape.Tape

variable {F : Type} [Scalar F] {t : Tape F} {items : List Item} {tail : List Instr}
variable {b : Buffer F} {q : Nat} {resolved : Array Nat} {params : Array F}
variable {rule : Instr → List Instr}

/-- A recorded tape that has been stopped, and a buffer that was made for it. Every load stands for
an earlier row. -/
structure Ready (t : Tape F) (b : Buffer F) (resolved : Array Nat) : Prop where
  recorded : t.Recorded
  countable : t.Countable
  stopped : t.isStopped = true
  fits : b.Fits t
  loads : t.LoadsOk resolved

/-- A rule that puts in the place of every item of the tape what may stand there. It makes no new
loads. -/
structure Allows (t : Tape F) (params : Array F) (rule : Instr → List Instr) : Prop where
  keeps : KeepsRest rule
  table : t.params.size ≤ params.size
  loads : ∀ ins, ∀ ins' ∈ rule ins, ∀ s, ins'.op = .load s → ins' = ins
  gives : ∀ (n : Nat) (item : Item), item.Valid n t.params.size t.loads t.registry.size →
    item.GivesWay n params.size t.loads t.registry.size rule

omit [Scalar F] in
/-- With the same parameters the sweeps have the same plan but for the mask. -/
theorem plan_rewrite (mask : Array Bool) : (t.rewrite t.params rule).plan q mask resolved =
    { t.plan q t.noSkip resolved with mask } := by
  simp only [plan, params_rewrite, registry_rewrite]

section Rewrite

variable (h : t.Spells items tail) (ht : t.Ready b resolved) (hrule : t.Allows params rule)
variable (hc : (t.rewrite params rule).Countable)

include h ht hrule

theorem Spells.spells_rewrite : (t.rewrite params rule).rows = t.rows ∧
    (t.rewrite params rule).Spells (items.flatMap (Item.rewrite rule)) tail :=
  h.rewrite ht.countable hrule.keeps hrule.table fun n item _ => hrule.gives n item

theorem Spells.isStopped_rewrite : (t.rewrite params rule).isStopped = true :=
  (h.spells_rewrite ht hrule).2.isStopped_iff.mpr (h.isStopped_iff.mp ht.stopped)

include hc

theorem Spells.loadsOk_rewrite : (t.rewrite params rule).LoadsOk resolved := by
  obtain ⟨-, h'⟩ := h.spells_rewrite ht hrule
  refine (h'.loadsOk_iff hc).mpr fun ins hins s hop => ?_
  obtain ⟨-, hinstrs, -⟩ := h.valid.rewrite hrule.table hrule.keeps fun n item _ =>
    hrule.gives n item
  rw [hinstrs] at hins
  obtain ⟨old, hold, hins⟩ := List.mem_flatMap.mp hins
  obtain rfl := hrule.loads old ins hins s hop
  exact (h.loadsOk_iff ht.countable).mp ht.loads ins hold s hop

/-- A sweep of one order, on jets that satisfy `I` before the item in row `n`. -/
theorem Spells.sweep_rewrite (options options' : Options) {I : Nat → Jet F → Prop}
    (hinit : ∀ l < b.layout.directions, I (1 + t.independents) (b.arena.jet l))
    (hrefines : 0 < q → ∀ n, ∀ item ∈ items,
      item.Valid n t.params.size t.loads t.registry.size →
      (t.plan q t.noSkip resolved).Refines
        ((t.rewrite params rule).plan q (t.rewrite params rule).noSkip resolved)
        b.layout.directions (I n) (I (n + rowCount item.instrs)) item (item.rewrite rule)) :
    (t.sweep q b t.noSkip resolved options).Agrees ((t.rewrite params rule).sweep q b
      (t.rewrite params rule).noSkip resolved options') := by
  obtain ⟨hrows, h'⟩ := h.spells_rewrite ht hrule
  have hagrees (hq : 0 < q) := (Plan.replayItems_rewrite (marks_noSkip t q resolved)
    (marks_noSkip (t.rewrite params rule) q resolved) h.valid (hrefines hq) (t.independents + 1)
    ((t.rewrite params rule).independents + 1) hinit).1
  obtain ⟨hstop, hcells, hasked⟩ := h.sweep_agrees h' ht.countable hc ht.stopped
    (h.isStopped_rewrite ht hrule) hrows loads_rewrite ht.loads (h.loadsOk_rewrite ht hrule hc)
    ht.fits options options' (size_noSkip t) (size_noSkip _) (maskOk_noSkip t) (maskOk_noSkip _)
    fun hq => ⟨(hagrees hq).stop, (hagrees hq).jets⟩
  exact ⟨hstop, hcells, hasked fun hq => (hagrees hq).requests⟩

/-- The sweeps of all orders. The jets satisfy `J k` after the sweep of order `k`, and `I k n`
before the item in row `n` in that sweep. -/
theorem Spells.sweepOrders_rewrite (options options' : Options) {I : Nat → Nat → Jet F → Prop}
    {J : Nat → Jet F → Prop} (hinit : ∀ l < b.layout.directions, J 0 (b.arena.jet l))
    (hbegin : ∀ k < q, ∀ j, J k j → I (k + 1) (1 + t.independents) j)
    (hend : ∀ k < q, ∀ j, I (k + 1) t.rows j → J (k + 1) j)
    (hrefines : ∀ k < q, ∀ n, ∀ item ∈ items,
      item.Valid n t.params.size t.loads t.registry.size →
      (t.plan (k + 1) t.noSkip resolved).Refines
        ((t.rewrite params rule).plan (k + 1) (t.rewrite params rule).noSkip resolved)
        b.layout.directions (I (k + 1) n) (I (k + 1) (n + rowCount item.instrs)) item
        (item.rewrite rule)) :
    (t.sweepOrders q b t.noSkip resolved options).Agrees ((t.rewrite params rule).sweepOrders q b
      (t.rewrite params rule).noSkip resolved options') := by
  obtain ⟨hrows, h'⟩ := h.spells_rewrite ht hrule
  refine h.sweepOrders_agrees h' ht.countable hc ht.stopped (h.isStopped_rewrite ht hrule) hrows
    loads_rewrite ht.loads (h.loadsOk_rewrite ht hrule hc) ht.fits options options' hinit ?_
  intro k hk js hjs
  obtain ⟨hagrees, hkept⟩ := Plan.replayItems_rewrite (marks_noSkip t (k + 1) resolved)
    (marks_noSkip (t.rewrite params rule) (k + 1) resolved) h.valid (hrefines k hk)
    (t.independents + 1) ((t.rewrite params rule).independents + 1)
    fun l hl => hbegin k hk (js l) (hjs l hl)
  rw [← h.rows] at hkept
  exact ⟨hagrees, fun hnone l hl => hend k hk _ (hkept hnone l hl)⟩

end Rewrite

end JetTape.Tape
