import JetTape.Proofs.Arena.Jet

/-!
Updates that treat all directions alike. `Along n q m f` says that the update `m` succeeds on
every arena of `n` rows with room for order `q` and applies `f l` to the jet of each direction
`l`. Such updates compose, so the effect of a recurrence is put together from its loops.
-/
namespace JetTape.Arena

variable {F : Type}

/-- An arena of `n` rows with room for coefficients of the positive order `q`. -/
structure Fits (a : Arena F) (n q : Nat) : Prop extends Shaped a n where
  order_pos : 0 < q
  order_lt : q < a.layout.capOrder

/-- An arena with the shape of another. -/
structure SameShape (a b : Arena F) : Prop where
  layout : b.layout = a.layout
  size : b.cells.size = a.cells.size

theorem SameShape.refl (a : Arena F) : SameShape a a := ⟨rfl, rfl⟩

theorem SameShape.trans {a b c : Arena F} (h : SameShape a b) (h' : SameShape b c) :
    SameShape a c :=
  ⟨h'.layout.trans h.layout, h'.size.trans h.size⟩

theorem SameShape.shaped {a b : Arena F} {n : Nat} (h : SameShape a b) (ha : a.Shaped n) :
    b.Shaped n := by
  constructor
  · rw [h.layout, h.size]
    exact ha.length
  · rw [h.layout]
    exact ha.directed

theorem SameShape.fits {a b : Arena F} {n q : Nat} (h : SameShape a b) (ha : a.Fits n q) :
    b.Fits n q :=
  ⟨h.shaped ha.toShaped, ha.order_pos, by rw [h.layout]; exact ha.order_lt⟩

theorem Fits.get_eq [Scalar F] {a : Arena F} {n q v k l : Nat} (h : a.Fits n q) (hv : v < n)
    (hk : k ≤ q) (hl : l < a.layout.directions) : a.get v k l = .ok (a.jet l v k) :=
  h.toShaped.get_eq hv (Nat.lt_of_le_of_lt hk h.order_lt) hl

theorem bind_of_eq {α β : Type} {m : Update F α} {k : α → Update F β} {a b : Arena F} {x : α}
    (h : m a = .ok x b) : (m >>= k) a = k x b := by
  show EStateM.bind m k a = _
  simp only [EStateM.bind, h]

theorem lift_of_eq {α : Type} {m : Read F α} {a : Arena F} {x : α} (h : m a = .ok x) :
    (liftM m : Update F α) a = .ok x a := by
  simp only [liftM, monadLift, MonadLift.monadLift]
  rw [h]

theorem read_bind_of_eq {α β : Type} {m : Read F α} {k : α → Update F β} {a : Arena F} {x : α}
    (h : m a = .ok x) : ((liftM m : Update F α) >>= k) a = k x a :=
  bind_of_eq (lift_of_eq h)

/-- A computation without the arena that has come out well. -/
@[simp] theorem ok_bind {α β : Type} (x : α) (k : α → Update F β) :
    ((liftM (Except.ok x : Except Fault α) : Update F α) >>= k) = k x := rfl

/-- A value that every direction reads alike. -/
def Shared {α : Type} [Scalar F] (n q : Nat) (m : Read F α) (g : Jet F → α) : Prop :=
  ∀ a : Arena F, a.Fits n q → ∀ l < a.layout.directions, m a = .ok (g (a.jet l))

theorem shared_coeff [Scalar F] {n q v : Nat} (hv : v < n) :
    Shared n q (coeff v 0 0 : Read F F) fun j => j v 0 := by
  intro a ha l hl
  show a.get v 0 0 = _
  rw [ha.get_eq hv (Nat.zero_le q) ha.directed, jet_zero ha.directed hl]

theorem shared_pure {α : Type} [Scalar F] (n q : Nat) (x : α) :
    Shared n q (liftM (Except.ok x : Except Fault α) : Read F α) fun _ => x := by
  intro a ha l hl
  rfl

variable [Scalar F]

/-- The update does `f` to the jet of direction `l` and leaves the others alone. -/
def OnLane (n q l : Nat) (m : Update F Unit) (f : Jet F → Jet F) : Prop :=
  ∀ a : Arena F, a.Fits n q → l < a.layout.directions →
    ∃ b, m a = .ok () b ∧ SameShape a b ∧
      ∀ l', b.jet l' = if l' = l then f (a.jet l) else a.jet l'

/-- The update does `f l` to the jet of every direction `l`. -/
def Along (n q : Nat) (m : Update F Unit) (f : Nat → Jet F → Jet F) : Prop :=
  ∀ a : Arena F, a.Fits n q →
    ∃ b, m a = .ok () b ∧ SameShape a b ∧
      ∀ l < a.layout.directions, b.jet l = f l (a.jet l)

variable {n q : Nat}

omit [Scalar F] in
theorem setCoeff_of_locate {a : Arena F} {v k l i : Nat} {x : F} (h : a.locate v k l = .ok i) :
    setCoeff v k l x a = .ok () { a with cells := a.cells.setIfInBounds i x } := by
  unfold setCoeff
  rw [h]

theorem onLane_setCoeff {l v : Nat} (hv : v < n) (x : F) :
    OnLane n q l (setCoeff v q l x) fun j => j.set v q x := by
  intro a ha hl
  refine ⟨{ a with cells := a.cells.setIfInBounds (a.layout.cell v q l) x }, ?_, ?_, ?_⟩
  · exact setCoeff_of_locate (ha.toShaped.locate_eq hv ha.order_lt hl)
  · exact ⟨rfl, Array.size_setIfInBounds⟩
  · intro l'
    exact jet_setIfInBounds ha.toShaped hv ha.order_pos ha.order_lt hl x l'

theorem OnLane.bind {l : Nat} {m m' : Update F Unit} {f g : Jet F → Jet F}
    (hm : OnLane n q l m f) (hm' : OnLane n q l m' g) :
    OnLane n q l (m >>= fun _ => m') fun j => g (f j) := by
  intro a ha hl
  obtain ⟨b, hb, hab, hjb⟩ := hm a ha hl
  obtain ⟨c, hc, hbc, hjc⟩ := hm' b (hab.fits ha) (by rw [hab.layout]; exact hl)
  refine ⟨c, by rw [bind_of_eq hb, hc], hab.trans hbc, ?_⟩
  intro l'
  rw [hjc l']
  by_cases h : l' = l
  · rw [if_pos h, if_pos h, hjb l, if_pos rfl]
  · rw [if_neg h, if_neg h, hjb l', if_neg h]

/-- An update on a lane may go on from what is read along that lane. -/
theorem OnLane.read {α : Type} {l : Nat} {m : Read F α} {g : Jet F → α} {k : α → Update F Unit}
    {f : α → Jet F → Jet F}
    (hm : ∀ a : Arena F, a.Fits n q → l < a.layout.directions → m a = .ok (g (a.jet l)))
    (hk : ∀ x, OnLane n q l (k x) (f x)) :
    OnLane n q l (liftM m >>= k) fun j => f (g j) j := by
  intro a ha hl
  obtain ⟨b, hb, hab, hj⟩ := hk (g (a.jet l)) a ha hl
  exact ⟨b, by rw [read_bind_of_eq (hm a ha hl), hb], hab, hj⟩

private theorem each_onLane {body : Nat → Update F Unit} {f : Nat → Jet F → Jet F}
    (hbody : ∀ l, OnLane n q l (body l) (f l)) (c i : Nat) (a : Arena F) (ha : a.Fits n q)
    (hc : i + c ≤ a.layout.directions) :
    ∃ b, Loop.each c i body a = .ok () b ∧ SameShape a b ∧
      ∀ l, b.jet l = if i ≤ l ∧ l < i + c then f l (a.jet l) else a.jet l := by
  induction c generalizing i a with
  | zero =>
    refine ⟨a, rfl, .refl a, ?_⟩
    intro l
    rw [if_neg (by omega)]
  | succ c ih =>
    obtain ⟨b, hb, hab, hjb⟩ := hbody i a ha (by omega)
    obtain ⟨d, hd, hbd, hjd⟩ := ih (i + 1) b (hab.fits ha) (by rw [hab.layout]; omega)
    refine ⟨d, by rw [Loop.each, bind_of_eq hb, hd], hab.trans hbd, ?_⟩
    intro l
    rw [hjd l, hjb l]
    by_cases hi : l = i
    · subst hi
      rw [if_neg (by omega), if_pos rfl, if_pos (by omega)]
    · rw [if_neg hi]
      by_cases hin : i + 1 ≤ l ∧ l < i + 1 + c
      · rw [if_pos hin, if_pos (by omega)]
      · rw [if_neg hin, if_neg (by omega)]

/-- A loop over the directions whose bodies keep to their lanes. -/
theorem along_eachDirection {body : Nat → Update F Unit} {f : Nat → Jet F → Jet F}
    (hbody : ∀ l, OnLane n q l (body l) (f l)) : Along n q (eachDirection body) f := by
  intro a ha
  obtain ⟨b, hb, hab, hj⟩ := each_onLane hbody a.layout.directions 0 a ha (by omega)
  refine ⟨b, ?_, hab, ?_⟩
  · unfold eachDirection
    rw [read_bind_of_eq (x := a.layout.directions) rfl, hb]
  · intro l hl
    rw [hj l, if_pos (by omega)]

theorem along_assign {v : Nat} {value : Nat → Read F F} {g : Nat → Jet F → F} (hv : v < n)
    (hvalue : ∀ a : Arena F, a.Fits n q → ∀ l < a.layout.directions,
      value l a = .ok (g l (a.jet l))) :
    Along n q (assign v q value) fun l j => j.set v q (g l j) := by
  apply along_eachDirection
  intro l
  exact OnLane.read (fun a ha hl => hvalue a ha l hl) fun x => onLane_setCoeff hv x

theorem along_zeroOrder {v : Nat} (hv : v < n) :
    Along n q (zeroOrder v q : Update F Unit) fun _ j => j.set v q 0 :=
  along_assign hv fun _ _ _ _ => rfl

theorem along_copyOrder {v x : Nat} (hv : v < n) (hx : x < n) :
    Along n q (copyOrder v x q : Update F Unit) fun _ j => j.set v q (j x q) :=
  along_assign hv fun _ ha _ hl => ha.get_eq hx (Nat.le_refl q) hl

theorem along_pure : Along n q (pure () : Update F Unit) fun _ j => j := by
  intro a _
  exact ⟨a, rfl, .refl a, fun _ _ => rfl⟩

theorem Along.bind {m m' : Update F Unit} {f g : Nat → Jet F → Jet F} (hm : Along n q m f)
    (hm' : Along n q m' g) : Along n q (m >>= fun _ => m') fun l j => g l (f l j) := by
  intro a ha
  obtain ⟨b, hb, hab, hjb⟩ := hm a ha
  obtain ⟨c, hc, hbc, hjc⟩ := hm' b (hab.fits ha)
  refine ⟨c, by rw [bind_of_eq hb, hc], hab.trans hbc, ?_⟩
  intro l hl
  rw [hjc l (by rw [hab.layout]; exact hl), hjb l hl]

/-- An update may go on from a value that the directions share. -/
theorem Along.read {α : Type} {m : Read F α} {g : Jet F → α} {k : α → Update F Unit}
    {f : α → Nat → Jet F → Jet F} (hm : Shared n q m g) (hk : ∀ x, Along n q (k x) (f x)) :
    Along n q (liftM m >>= k) fun l j => f (g j) l j := by
  intro a ha
  have h0 := hm a ha 0 ha.directed
  obtain ⟨b, hb, hab, hj⟩ := hk (g (a.jet 0)) a ha
  refine ⟨b, by rw [read_bind_of_eq h0, hb], hab, ?_⟩
  intro l hl
  have hgl : g (a.jet l) = g (a.jet 0) := by
    have hl' := hm a ha l hl
    rw [h0] at hl'
    exact (Except.ok.inj hl').symm
  show b.jet l = f (g (a.jet l)) l (a.jet l)
  rw [hj l hl, hgl]

end JetTape.Arena
