import JetTape.Proofs.Arena.Along

/-!
What an update may write. `Writes q D m` says that the update `m`, on any arena and however it
ends, touches order-`q` coefficients of rows in `D` only. Nothing is asked of the arena, so this
holds of updates that fault half-way.
-/
namespace JetTape.Arena

variable {F : Type} {α β : Type} {q : Nat} {D E : Nat → Prop}

theorem of_locate {a : Arena F} {v k l i : Nat} (h : a.locate v k l = .ok i) :
    i = a.layout.cell v k l ∧ k < a.layout.capOrder ∧ l < a.layout.directions ∧
      i < a.cells.size := by
  simp only [locate, bind_eq_ok_iff, require_eq_ok_iff] at h
  obtain ⟨_, hoffset, _, hlt, h⟩ := h
  cases h
  obtain ⟨hk, hl⟩ := Layout.order_lt_of_offset hoffset
  exact ⟨Layout.eq_cell_of_offset hoffset, hk, hl, hlt⟩

/-- Arenas of one shape give the same coefficient where they have the same cell. -/
theorem SameShape.get_eq {a b : Arena F} (h : SameShape a b) {v k l : Nat}
    (hcell : k < a.layout.capOrder → l < a.layout.directions →
      a.layout.cell v k l < a.cells.size →
      b.cells[a.layout.cell v k l]? = a.cells[a.layout.cell v k l]?) :
    b.get v k l = a.get v k l := by
  have hlocate : b.locate v k l = a.locate v k l := by
    unfold locate
    rw [h.layout, h.size]
  unfold Arena.get
  rw [hlocate]
  cases hi : a.locate v k l with
  | error f => rfl
  | ok i =>
    obtain ⟨rfl, hk, hl, hlt⟩ := of_locate hi
    have hlt' : a.layout.cell v k l < b.cells.size := h.size ▸ hlt
    have hsame := hcell hk hl hlt
    rw [Array.getElem?_eq_getElem hlt', Array.getElem?_eq_getElem hlt] at hsame
    show Index.get b.cells _ = Index.get a.cells _
    rw [Index.get, Index.get, dif_pos hlt', dif_pos hlt, Option.some.inj hsame]

theorem SameShape.get_eq_of_jet [Scalar F] {a b : Arena F} (h : SameShape a b) {v k l : Nat}
    (hjet : l < a.layout.directions → b.jet l v k = a.jet l v k) : b.get v k l = a.get v k l := by
  refine h.get_eq fun hk hl hlt => ?_
  have hlt' : a.layout.cell v k l < b.cells.size := h.size ▸ hlt
  have hsame := hjet hl
  simp only [jet, h.layout, hk, hl, and_self, if_true, Array.getD_eq_getD_getElem?,
    Array.getElem?_eq_getElem hlt, Array.getElem?_eq_getElem hlt', Option.getD_some] at hsame
  rw [Array.getElem?_eq_getElem hlt', Array.getElem?_eq_getElem hlt, hsame]

/-- Two arenas of one shape that differ in order-`q` coefficients of rows in `D` only. -/
structure Within (q : Nat) (D : Nat → Prop) (a b : Arena F) : Prop extends SameShape a b where
  cells : ∀ i, b.cells[i]? ≠ a.cells[i]? → ∃ v l, D v ∧ q < a.layout.capOrder ∧
    l < a.layout.directions ∧ i = a.layout.cell v q l

namespace Within

variable {a b c : Arena F}

theorem refl (a : Arena F) : Within q D a a := ⟨.refl a, fun _ h => absurd rfl h⟩

theorem mono (h : Within q D a b) (hDE : ∀ v, D v → E v) : Within q E a b := by
  refine ⟨h.toSameShape, ?_⟩
  intro i hi
  obtain ⟨v, l, hv, hrest⟩ := h.cells i hi
  exact ⟨v, l, hDE v hv, hrest⟩

theorem trans (h : Within q D a b) (h' : Within q D b c) : Within q D a c := by
  refine ⟨h.toSameShape.trans h'.toSameShape, ?_⟩
  intro i hi
  by_cases hb : b.cells[i]? = a.cells[i]?
  · obtain ⟨v, l, hv, hq, hl, hcell⟩ := h'.cells i (by rwa [hb])
    rw [h.layout] at hq hl hcell
    exact ⟨v, l, hv, hq, hl, hcell⟩
  · exact h.cells i hb

/-- A coefficient that is read elsewhere is the same. -/
theorem get_eq (h : Within q D a b) {v k l : Nat} (hvk : k ≠ q ∨ ¬ D v) :
    b.get v k l = a.get v k l := by
  refine h.toSameShape.get_eq fun hk hl _ => Classical.byContradiction fun hne => ?_
  obtain ⟨v', l', hv', hq, hl', hcell⟩ := h.cells _ hne
  obtain ⟨rfl, rfl, -⟩ := (Layout.cell_inj hk hl hq hl').mp hcell
  exact hvk.elim (fun hk => hk rfl) fun hv => hv hv'

end Within

/-- The arena that an update leaves. -/
def Update.left (m : Update F α) (a : Arena F) : Arena F :=
  match m a with
  | .ok _ b => b
  | .error _ b => b

def Writes (q : Nat) (D : Nat → Prop) (m : Update F α) : Prop := ∀ a, Within q D a (m.left a)

theorem writes_pure (x : α) : Writes q D (pure x : Update F α) := fun a => .refl a

theorem writes_throw (f : Fault) : Writes q D (throw f : Update F α) := fun a => .refl a

theorem Writes.bind {m : Update F α} {k : α → Update F β} (hm : Writes q D m)
    (hk : ∀ x, Writes q D (k x)) : Writes q D (m >>= k) := by
  intro a
  have hfirst := hm a
  show Within q D a (Update.left (EStateM.bind m k) a)
  unfold Update.left EStateM.bind
  unfold Update.left at hfirst
  cases h : m a with
  | ok x b =>
    rw [h] at hfirst
    exact hfirst.trans (hk x b)
  | error f b =>
    rw [h] at hfirst
    exact hfirst

/-- An update may go on from what it has read. -/
theorem Writes.read_bind {m : Read F α} {k : α → Update F β} (hk : ∀ x, Writes q D (k x)) :
    Writes q D (liftM m >>= k) := by
  apply Writes.bind _ hk
  intro a
  show Within q D a (Update.left (liftM m) a)
  unfold Update.left
  simp only [liftM, monadLift, MonadLift.monadLift]
  cases m a <;> exact .refl a

/-- An update may go on from a value that has come out well. -/
theorem Writes.ok_bind {m : Except Fault α} {k : α → Update F β}
    (hk : ∀ x, m = .ok x → Writes q D (k x)) : Writes q D (liftM m >>= k) := by
  cases m with
  | ok x => exact hk x rfl
  | error f => exact fun a => .refl a

theorem writes_setCoeff {v l : Nat} (hv : D v) (x : F) : Writes q D (setCoeff v q l x) := by
  intro a
  unfold Update.left setCoeff
  cases hlocate : a.locate v q l with
  | error f => exact .refl a
  | ok j =>
    obtain ⟨rfl, hq, hl, -⟩ := of_locate hlocate
    refine ⟨⟨rfl, Array.size_setIfInBounds⟩, ?_⟩
    intro i hne
    refine ⟨v, l, hv, hq, hl, Classical.byContradiction fun hi => hne ?_⟩
    exact Array.getElem?_setIfInBounds_ne (Ne.symm hi)

theorem writes_eachDirection {body : Nat → Update F Unit} (h : ∀ l, Writes q D (body l)) :
    Writes q D (eachDirection body) := by
  apply Writes.read_bind
  intro c
  generalize 0 = i
  induction c generalizing i with
  | zero => exact writes_pure ()
  | succ c ih => exact (h i).bind fun _ => ih (i + 1)

theorem writes_assign {v : Nat} {value : Nat → Read F F} (hv : D v) :
    Writes q D (assign v q value) :=
  writes_eachDirection fun _ => Writes.read_bind fun x => writes_setCoeff hv x

end JetTape.Arena
