import JetTape.Proofs.Call.Stage
import JetTape.Proofs.Recurrence.Numbering

/-!
Operators that apply a recurrence. The series of a request are the rows of an arena of one
direction, first those of the arguments and then that of the result. A recurrence with one result
that is applied to the last row gives the result its coefficient of the requested order.
-/
namespace JetTape

open Arena (Read Update Along coeff)

variable {F : Type}

/-- The series of a request as the rows of an arena. -/
def Request.arena (r : Request F) : Arena F := ⟨⟨r.toOrder + 1, 1⟩, r.args ++ r.results⟩

/-- The size of an arena of `n` series up to order `q`, where it can be indexed. -/
theorem Request.shaped {r : Request F} {n : Nat}
    (hsize : r.args.size + r.results.size = n * (r.toOrder + 1))
    (hbound : n * (r.toOrder + 1) < Index.bound) (hn : 0 < n) : r.arena.Shaped n where
  length := by
    have hrow : r.arena.layout.rowSize = r.toOrder + 1 := by simp [arena, Layout.rowSize]
    have hle : r.toOrder + 1 ≤ n * (r.toOrder + 1) := Nat.le_mul_of_pos_left _ hn
    have hstride : r.arena.layout.stride = .ok r.arena.layout.rowSize :=
      Layout.stride_eq_ok_iff.mpr ⟨Nat.succ_pos _, by omega, rfl⟩
    rw [Layout.length_eq_ok_iff hstride, hrow]
    exact ⟨hbound, by rw [← hsize]; exact Array.size_append⟩
  directed := Nat.zero_lt_one

variable [Scalar F]

section Jet

variable {r : Request F} {c k n : Nat} {x : F}

theorem Request.jet_arena (hk : k ≤ r.toOrder)
    (h : (r.args ++ r.results)[c * (r.toOrder + 1) + k]? = some x) : r.arena.jet 0 c k = x := by
  rw [Arena.jet, if_pos ⟨Nat.lt_succ_of_le hk, Nat.zero_lt_one⟩]
  show (r.args ++ r.results).getD _ 0 = x
  rw [arena, Layout.cell_along, Array.getD_eq_getD_getElem?, h, Option.getD_some]

theorem Request.jet_arg (hk : k ≤ r.toOrder) (h : r.args[c * (r.toOrder + 1) + k]? = some x) :
    r.arena.jet 0 c k = x := by
  refine jet_arena hk ?_
  rwa [Array.getElem?_append_left (Array.getElem?_eq_some_iff.mp h).1]

theorem Request.jet_result (hn : r.args.size = n * (r.toOrder + 1)) (hk : k ≤ r.toOrder)
    (h : r.results[k]? = some x) : r.arena.jet 0 n k = x := by
  refine jet_arena hk ?_
  rwa [Array.getElem?_append_right (by omega), hn, Nat.add_sub_cancel_left]

end Jet

/-- Applies a recurrence to the series of `n` arguments and a result, which have the rows from 0 to
`n`, and stores in the result the coefficient that it computes. -/
def Operator.applying (name : String) (rule : Recurrence F) (n : Nat) (args : List Nat)
    (params : Array F) : Operator F where
  name := name
  forward r :=
    let compute : Update F F := do
      rule r.toOrder n args params
      (coeff n r.toOrder 0 : Read F F)
    match compute r.arena with
    | .ok x _ => .accept ⟨r.results.setIfInBounds r.toOrder x, Array.size_setIfInBounds⟩
    | .error f _ => .fault f.message

/-- Where the recurrence does something to every jet, the operator stores what it does to the row of
the result. -/
theorem Operator.forward_applying {name : String} {rule : Recurrence F} {n : Nat}
    {args : List Nat} {params : Array F} {r : Request F} {f : Nat → Jet F → Jet F}
    (hrule : Along (n + 1) r.toOrder (rule r.toOrder n args params) f)
    (hfits : r.arena.Fits (n + 1) r.toOrder) :
    (applying name rule n args params).forward r =
      .accept ⟨r.results.setIfInBounds r.toOrder (f 0 (r.arena.jet 0) n r.toOrder),
        Array.size_setIfInBounds⟩ := by
  obtain ⟨a, ha, hshape, hjets⟩ := hrule r.arena hfits
  have hone : a.layout.directions = 1 := by rw [hshape.layout]; rfl
  have hcoeff : (coeff n r.toOrder 0 : Read F F) a = .ok (f 0 (r.arena.jet 0) n r.toOrder) := by
    rw [(hshape.fits hfits).coeff_eq (by omega) (Nat.lt_succ_self n) (Nat.le_refl _),
      hjets 0 Nat.zero_lt_one]
  simp only [applying, Arena.bind_of_eq ha, Arena.lift_of_eq hcoeff]

end JetTape
