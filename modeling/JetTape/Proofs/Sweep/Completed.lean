import JetTape.Proofs.Sweep.Evaluation
import JetTape.Proofs.Sweep.Loads

/-!
Sweeps that come to their end. Without skipping such a sweep has found the tape stopped, the shapes
right and every load behind the row it stands for, and no operator has refused a call. So it leaves
all items settled. Higher orders do not unsettle the instructions that stand by themselves: after
the sweeps of all orders these are settled at each of them, between calls too.
-/
namespace JetTape

/-- The coefficients of a buffer along a direction. -/
def Buffer.along {F : Type} [Scalar F] (b : Buffer F) (l : Nat) : Jet F := fun v k => b.coeff v k l

namespace Tape

open Jet (Agree)

variable {F : Type} [Scalar F] {t : Tape F} {items : List Item} {tail : List Instr}
variable {b : Buffer F} {q : Nat} {resolved : Array Nat} {options : Options}

/-- A sweep that comes to its end settles all items. It writes its own order and no independents. -/
theorem Spells.settled_of_sweep (h : t.Spells items tail) (hc : t.Countable) (hb : b.Fits t)
    (hnone : (t.sweep q b t.noSkip resolved options).stop = none) :
    let run := t.sweep q b t.noSkip resolved options
    (b.withCells run.cells).Fits t ∧ ∀ l < b.layout.directions,
      (∀ v k, k ≠ q ∨ v < 1 + t.independents →
        (b.withCells run.cells).arena.jet l v k = b.arena.jet l v k) ∧
      ∀ item ∈ items, (t.plan q t.noSkip resolved).Settled item
        ((b.withCells run.cells).arena.jet l) := by
  intro run
  obtain ⟨s, hreplay⟩ := Replay.exists_of_run hnone
  have hstop := isStopped_of_replay hreplay
  have hloads := h.loadsOk_of_replay hc hreplay
  have hshapes := checkShapes_of_sweep hstop hb hnone
  obtain ⟨hfits, -, hresolved⟩ :=
    (Arena.Shaped.checkShapes_eq_ok_iff (P := t.program) hb.shaped).mp hshapes
  have hresolved : resolved.size = t.loads := hresolved
  have hitems : ValidItems t.params.size resolved.size t.registry.size (1 + t.independents)
      items := by
    rw [hresolved]
    exact h.valid
  obtain ⟨hout, -, hshape, hjets⟩ := h.sweep hc hstop hb hshapes (maskOk_noSkip t) hloads options
  have hsettled := Plan.settled_replayItems (p := t.plan q t.noSkip resolved) hfits.order_pos
    (marks_noSkip t q resolved) hitems
    (fun item hitem => (h.serves hc hloads item hitem).admits) (hout.symm.trans hnone)
  refine ⟨hb.withCells hshape, ?_⟩
  intro l hl
  rw [hjets l hl]
  constructor
  · intro v k hvk
    exact Plan.replayItems_of_ne hitems (hvk.imp_right Or.inl)
  · exact fun item hitem => hsettled item hitem l hl

/-- If the sweeps of orders from 1 on come to their end, the tape is stopped and its loads are
right. -/
theorem Spells.ended_of_sweepOrders (h : t.Spells items tail) (hc : t.Countable) (hq : 0 < q)
    (hnone : (t.sweepOrders q b t.noSkip resolved options).stop = none) :
    t.isStopped = true ∧ t.LoadsOk resolved := by
  obtain ⟨n, rfl⟩ := Nat.exists_eq_add_of_lt hq
  obtain ⟨s, hreplays⟩ := Replay.exists_of_run hnone
  obtain ⟨_, -, hreplays⟩ := Replay.of_ok_bind hreplays
  rw [Loop.each] at hreplays
  cases hfirst : t.replay b.rows 1 t.noSkip resolved options { arena := b.arena } with
  | error stop s =>
    rw [Replay.bind_of_error hfirst] at hreplays
    cases hreplays
  | ok _ s => exact ⟨isStopped_of_replay hfirst, h.loadsOk_of_replay hc hfirst⟩

/-- If the sweeps of the orders from 1 to `q` come to their end, they leave order 0 and the
independents as they are and settle the instructions that stand by themselves at these orders. By
induction on the orders: the last sweep settles its own, and writes nothing that is read at the
lower ones. -/
theorem Spells.settled_of_sweepOrders (h : t.Spells items tail) (hc : t.Countable) (hb : b.Fits t)
    (hnone : (t.sweepOrders q b t.noSkip resolved options).stop = none) :
    let run := t.sweepOrders q b t.noSkip resolved options
    q < b.layout.capOrder ∧ (b.withCells run.cells).Fits t ∧ ∀ l < b.layout.directions,
      (∀ v k, k = 0 ∨ v < 1 + t.independents →
        (b.withCells run.cells).arena.jet l v k = b.arena.jet l v k) ∧
      ∀ k, 0 < k → k ≤ q → ∀ ins, .plain ins ∈ items →
        (t.plan k t.noSkip resolved).Settled (.plain ins)
          ((b.withCells run.cells).arena.jet l) := by
  intro run
  have hq : q < b.layout.capOrder := by
    by_contra hle
    cases hnone.symm.trans (sweepOrders_stop_of_le (Nat.not_lt.mp hle) t.noSkip resolved options)
  refine ⟨hq, ?_⟩
  induction q with
  | zero =>
    have hcells : run.cells = b.cells := (sweepOrders_zero hq t.noSkip resolved options).2.1
    rw [hcells]
    refine ⟨hb, fun l _ => ⟨fun _ _ _ => rfl, ?_⟩⟩
    intro k h0 hk
    omega
  | succ q ih =>
    obtain ⟨hstop, hloads⟩ := h.ended_of_sweepOrders hc (Nat.succ_pos q) hnone
    obtain ⟨hgoes, hstops⟩ :=
      h.sweepOrders_succ hc hstop hb hq (maskOk_noSkip t) hloads options
    cases hlower : (t.sweepOrders q b t.noSkip resolved options).stop with
    | some stop => cases hnone.symm.trans (hstops stop hlower).1
    | none =>
      obtain ⟨hlast, hcells, -⟩ := hgoes hlower
      obtain ⟨hfits, hbefore⟩ := ih hlower (Nat.lt_of_succ_lt hq)
      obtain ⟨hfits', hafter⟩ := h.settled_of_sweep hc hfits (hlast.symm.trans hnone)
      rw [show run.cells = _ from hcells]
      refine ⟨hfits', ?_⟩
      intro l hl
      obtain ⟨hkept, hsettled⟩ := hbefore l hl
      obtain ⟨hkept', hsettled'⟩ := hafter l hl
      constructor
      · intro v k hvk
        exact (hkept' v k (by omega)).trans (hkept v k hvk)
      · intro k h0 hk ins hmem
        rcases Nat.lt_or_eq_of_le hk with hlt | rfl
        · have hsame : Agree k (fun _ => True) _ _ := fun v o ho =>
            (hkept' v o (Or.inl (by omega))).symm
          obtain ⟨_, hvalid⟩ := h.valid.exists_valid hmem
          exact (hsettled k h0 (by omega) ins hmem).congr h0 hsame hvalid
            (h.serves hc hloads _ hmem).admits rfl
        · exact hsettled' _ hmem

/-- If the sweeps of the orders from 1 to `q` come to their end, every instruction that stands by
itself is settled at these orders on the coefficients that they leave. -/
theorem advance_of_sweepOrders (ht : t.Recorded) (hc : t.Countable) (hb : b.Fits t)
    (hnone : (t.sweepOrders q b t.noSkip resolved options).stop = none) {i : Nat} {ins : Instr}
    (hins : t.instr i = .ok ins) (hplain : ins.op.isPlain = true) {l : Nat}
    (hl : l < b.layout.directions) :
    let after := b.withCells (t.sweepOrders q b t.noSkip resolved options).cells
    ∀ k, 0 < k → k ≤ q →
      (after.along l).advance k t.params resolved ins = after.along l := by
  intro after k h0 hk
  obtain ⟨items, tail, h⟩ := ht.spells
  obtain ⟨hq, hfits, hjets⟩ := h.settled_of_sweepOrders hc hb hnone
  obtain ⟨before, rest, rfl, -⟩ := h.exists_plain hc hins hplain
  have hmem : Item.plain ins ∈ before ++ .plain ins :: rest := by simp
  have hsame : Agree k (fun _ => True) (after.arena.jet l) (after.along l) := by
    intro v o ho
    exact (hfits.coeff_eq v (show o < b.layout.capOrder by omega) hl).symm
  obtain ⟨-, hloads⟩ := h.ended_of_sweepOrders hc (Nat.lt_of_lt_of_le h0 hk) hnone
  obtain ⟨_, hvalid⟩ := h.valid.exists_valid hmem
  exact ((hjets l hl).2 k h0 hk ins hmem).congr h0 hsame hvalid
    (h.serves hc hloads _ hmem).admits rfl

/-- Sweeps that come to their end leave order 0, which all directions share, and the independents as
they are. -/
theorem coeff_of_sweepOrders (ht : t.Recorded) (hc : t.Countable) (hb : b.Fits t)
    (hnone : (t.sweepOrders q b t.noSkip resolved options).stop = none) {l : Nat}
    (hl : l < b.layout.directions) :
    let after := b.withCells (t.sweepOrders q b t.noSkip resolved options).cells
    (∀ v, after.coeff v 0 l = b.coeff v 0 0) ∧
      ∀ v ≤ t.independents, ∀ k ≤ q, after.coeff v k l = b.coeff v k l := by
  intro after
  obtain ⟨items, tail, h⟩ := ht.spells
  obtain ⟨hq, hfits, hjets⟩ := h.settled_of_sweepOrders hc hb hnone
  obtain ⟨hkept, -⟩ := hjets l hl
  constructor
  · intro v
    have hcap : 0 < b.layout.capOrder := Nat.zero_lt_of_lt hq
    rw [hfits.coeff_eq v hcap hl, hb.coeff_eq v hcap hb.shaped.directed, hkept v 0 (Or.inl rfl)]
    exact Arena.jet_zero hl hb.shaped.directed v
  · intro v hv k hk
    have hcap : k < b.layout.capOrder := Nat.lt_of_le_of_lt hk hq
    rw [hfits.coeff_eq v hcap hl, hb.coeff_eq v hcap hl]
    exact hkept v k (Or.inr (by omega))

end Tape

end JetTape
