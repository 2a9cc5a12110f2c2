import JetTape.Proofs.Arena.Packing
import Mathlib.Tactic.Choose

/-!
Updates that treat all directions alike whether or not they succeed. What a lanewise update of an
arena does to the jet of a direction, and whether it faults there, is told by that jet up to one
order. Nothing is asked of the rows that the update works on: they may lie outside the arena, and an
operand may be a row that the update has still to write.
-/
namespace JetTape

namespace Jet

variable {F : Type}

/-- The jets agree up to order `q` on every row. -/
def EqUpTo (q : Nat) (j j' : Jet F) : Prop := ∀ v, ∀ k ≤ q, j v k = j' v k

theorem EqUpTo.set {q v : Nat} {j j' : Jet F} (h : EqUpTo q j j') (x : F) :
    EqUpTo q (j.set v q x) (j'.set v q x) := by
  intro w k hk
  unfold Jet.set
  rw [h w k hk]

/-- A function of jets that looks at orders up to `q` only. -/
def Looks {α : Type} (q : Nat) (h : Jet F → Option α) : Prop :=
  ∀ j j', j.EqUpTo q j' → h j = h j'

/-- A change of jets that, up to order `q`, is told by the orders up to `q`. -/
def Respects (q : Nat) (g : Jet F → Option (Jet F)) : Prop :=
  ∀ j j', j.EqUpTo q j' → Option.Rel (EqUpTo q) (g j) (g j')

theorem Respects.bind {α : Type} {q : Nat} {h : Jet F → Option α}
    {g : α → Jet F → Option (Jet F)} (hlooks : Looks q h) (hg : ∀ x, Respects q (g x)) :
    Respects q fun j => (h j).bind fun x => g x j := by
  intro j j' hj
  dsimp only
  rw [hlooks j j' hj]
  cases h j' with
  | none => exact .none
  | some x => exact hg x j j' hj

theorem Respects.comp {q : Nat} {g g' : Jet F → Option (Jet F)} (hg : Respects q g)
    (hg' : Respects q g') : Respects q fun j => (g j).bind g' := by
  intro j j' hj
  dsimp only
  have hfirst := hg j j' hj
  revert hfirst
  generalize g j = x, g j' = x'
  rintro (h | -)
  · exact hg' _ _ h
  · exact .none

end Jet

namespace Arena

open Jet (Looks Respects)

variable {F α β : Type} [Scalar F] {n q : Nat}

/-- What `value` reads along a direction, and whether it can be read, is told by the jet. -/
def Told (n q : Nat) (value : Nat → Read F α) : Prop :=
  ∃ h : Jet F → Option α, Looks q h ∧
    ∀ a : Arena F, a.Fits n q → ∀ l < a.layout.directions, (value l a).toOption = h (a.jet l)

/-- What `body l` does to the jet of direction `l`, and whether it can be done, is told by the jet.
The jets of the other directions stay. -/
def KeepsLane (n q : Nat) (body : Nat → Update F Unit) : Prop :=
  ∃ g : Jet F → Option (Jet F), Respects q g ∧
    ∀ a : Arena F, a.Fits n q → ∀ l < a.layout.directions,
      (∃ b, body l a = .ok () b ∧ SameShape a b ∧ g (a.jet l) = some (b.jet l) ∧
        ∀ l', l' ≠ l → b.jet l' = a.jet l') ∨
      ((∃ f b, body l a = .error f b) ∧ g (a.jet l) = none)

/-- What the update does to the jet of a direction is told by the jet. The update faults if it
cannot be done along some direction. -/
def Lanewise (n q : Nat) (m : Update F Unit) : Prop :=
  ∃ g : Jet F → Option (Jet F), Respects q g ∧
    ∀ a : Arena F, a.Fits n q →
      (∃ b, m a = .ok () b ∧ SameShape a b ∧
        ∀ l < a.layout.directions, g (a.jet l) = some (b.jet l)) ∨
      ((∃ f b, m a = .error f b) ∧ ∃ l < a.layout.directions, g (a.jet l) = none)

section Binds

variable {k : α → Update F β} {a b : Arena F} {f : Fault}

omit [Scalar F]

theorem bind_of_error {m : Update F α} (h : m a = .error f b) : (m >>= k) a = .error f b := by
  show EStateM.bind m k a = _
  simp only [EStateM.bind, h]

theorem read_bind_of_error {m : Read F α} (h : m a = .error f) :
    ((liftM m : Update F α) >>= k) a = .error f a := by
  apply bind_of_error
  simp only [liftM, monadLift, MonadLift.monadLift]
  rw [h]

end Binds

section Told

variable {value : Nat → Read F α}

theorem told_pure (x : α) : Told n q fun _ => (pure x : Read F α) :=
  ⟨fun _ => some x, fun _ _ _ => rfl, fun _ _ _ _ => rfl⟩

/-- What is computed without the arena is told by any jet. -/
theorem told_lift (m : Except Fault α) : Told n q fun _ => (liftM m : Read F α) :=
  ⟨fun _ => m.toOption, fun _ _ _ => rfl, fun _ _ _ _ => rfl⟩

theorem Told.bind {k : Nat → α → Read F β} (hvalue : Told n q value)
    (hk : ∀ x, Told n q fun l => k l x) : Told n q fun l => value l >>= k l := by
  obtain ⟨h, hlooks, htold⟩ := hvalue
  choose h' hlooks' htold' using hk
  refine ⟨fun j => (h j).bind fun x => h' x j, ?_, ?_⟩
  · intro j j' hj
    simp only [hlooks j j' hj, hlooks' _ j j' hj]
  · intro a ha l hl
    show ((value l a).bind fun x => k l x a).toOption = (h (a.jet l)).bind fun x => h' x (a.jet l)
    rw [← htold a ha l hl]
    cases value l a with
    | ok x => exact htold' x a ha l hl
    | error f => rfl

/-- A row outside the arena cannot be read. -/
theorem told_coeff (v : Nat) {k : Nat} (hk : k ≤ q) :
    Told n q fun l => (coeff v k l : Read F F) := by
  refine ⟨fun j => if v < n then some (j v k) else none, ?_, ?_⟩
  · intro j j' hj
    simp only [hj v k hk]
  · intro a ha l hl
    show (a.get v k l).toOption = if v < n then some (a.jet l v k) else none
    by_cases hv : v < n
    · rw [if_pos hv, ha.get_eq hv hk hl]
      rfl
    · obtain ⟨f, hf⟩ := (ha.toShaped.accessible.get_fault_iff v k l).mpr fun h => hv h.1
      rw [if_neg hv, hf]
      rfl

/-- Order 0 is common to the directions, so it is told by the jet of any of them. -/
theorem told_shared (v : Nat) : Told n q fun _ => (coeff v 0 0 : Read F F) := by
  refine ⟨fun j => if v < n then some (j v 0) else none, ?_, ?_⟩
  · intro j j' hj
    simp only [hj v 0 (Nat.zero_le q)]
  · intro a ha l hl
    show (a.get v 0 0).toOption = if v < n then some (a.jet l v 0) else none
    by_cases hv : v < n
    · rw [if_pos hv, ha.get_eq hv (Nat.zero_le q) ha.directed, jet_zero ha.directed hl]
      rfl
    · obtain ⟨f, hf⟩ := (ha.toShaped.accessible.get_fault_iff v 0 0).mpr fun h => hv h.1
      rw [if_neg hv, hf]
      rfl

theorem told_fold {step : Nat → α → Nat → Read F α} {c i : Nat}
    (hstep : ∀ k, i ≤ k → k < i + c → ∀ x, Told n q fun l => step l x k) (x : α) :
    Told n q fun l => Loop.fold c i (step l) x := by
  induction c generalizing i x with
  | zero => exact told_pure x
  | succ c ih =>
    refine (hstep i (Nat.le_refl i) (by omega) x).bind fun y => ?_
    exact ih (fun k hk hlt => hstep k (by omega) (by omega)) y

theorem told_foldlM {step : Nat → α → β → Read F α} (hstep : ∀ x y, Told n q fun l => step l x y)
    (ys : List β) (x : α) : Told n q fun l => ys.foldlM (step l) x := by
  induction ys generalizing x with
  | nil => exact told_pure x
  | cons y ys ih => exact (hstep x y).bind ih

end Told

section KeepsLane

variable {body : Nat → Update F Unit}

/-- A row outside the arena cannot be written. -/
theorem keepsLane_setCoeff (v : Nat) (x : F) : KeepsLane n q fun l => setCoeff v q l x := by
  refine ⟨fun j => if v < n then some (j.set v q x) else none, ?_, ?_⟩
  · intro j j' hj
    dsimp only
    split
    · exact .some (hj.set x)
    · exact .none
  · intro a ha l hl
    dsimp only
    by_cases hv : v < n
    · obtain ⟨b, hb, hab, hjets⟩ := onLane_setCoeff hv x a ha hl
      refine Or.inl ⟨b, hb, hab, ?_, fun l' hl' => ?_⟩
      · rw [if_pos hv, hjets l, if_pos rfl]
      · rw [hjets l', if_neg hl']
    · refine Or.inr ⟨?_, if_neg hv⟩
      exact (ha.toShaped.accessible.set_fault_iff v q l x).mpr fun h => hv h.1

theorem KeepsLane.bind {body' : Nat → Update F Unit} (h : KeepsLane n q body)
    (h' : KeepsLane n q body') : KeepsLane n q fun l => body l >>= fun _ => body' l := by
  obtain ⟨g, hg, hbody⟩ := h
  obtain ⟨g', hg', hbody'⟩ := h'
  refine ⟨fun j => (g j).bind g', hg.comp hg', ?_⟩
  intro a ha l hl
  dsimp only
  rcases hbody a ha l hl with ⟨b, hb, hab, hjet, hother⟩ | ⟨⟨f, b, hb⟩, hnone⟩
  · rw [bind_of_eq hb, hjet]
    rcases hbody' b (hab.fits ha) l (by rwa [hab.layout]) with
      ⟨c, hc, hbc, hjet', hother'⟩ | ⟨hfault, hnone⟩
    · refine Or.inl ⟨c, hc, hab.trans hbc, hjet', fun l' hl' => ?_⟩
      rw [hother' l' hl', hother l' hl']
    · exact Or.inr ⟨hfault, hnone⟩
  · rw [hnone]
    exact Or.inr ⟨⟨f, b, bind_of_error hb⟩, rfl⟩

theorem KeepsLane.read_bind {value : Nat → Read F α} {k : Nat → α → Update F Unit}
    (hvalue : Told n q value) (hk : ∀ x, KeepsLane n q fun l => k l x) :
    KeepsLane n q fun l => liftM (value l) >>= k l := by
  obtain ⟨h, hlooks, htold⟩ := hvalue
  choose g hg hbody using hk
  refine ⟨fun j => (h j).bind fun x => g x j, .bind hlooks hg, ?_⟩
  intro a ha l hl
  dsimp only
  have hread := htold a ha l hl
  cases hx : value l a with
  | ok x =>
    rw [hx] at hread
    rw [read_bind_of_eq hx, ← hread]
    exact hbody x a ha l hl
  | error f =>
    rw [hx] at hread
    rw [← hread]
    exact Or.inr ⟨⟨f, a, read_bind_of_error hx⟩, rfl⟩

end KeepsLane

section Lanewise

variable {m : Update F Unit}

theorem lanewise_pure : Lanewise n q (pure () : Update F Unit) :=
  ⟨some, fun _ _ hj => .some hj, fun a _ => Or.inl ⟨a, rfl, .refl a, fun _ _ => rfl⟩⟩

theorem lanewise_throw (f : Fault) : Lanewise n q (throw f : Update F Unit) :=
  ⟨fun _ => none, fun _ _ _ => .none, fun a ha => Or.inr ⟨⟨f, a, rfl⟩, 0, ha.directed, rfl⟩⟩

theorem Lanewise.bind {m' : Update F Unit} (h : Lanewise n q m) (h' : Lanewise n q m') :
    Lanewise n q (m >>= fun _ => m') := by
  obtain ⟨g, hg, hm⟩ := h
  obtain ⟨g', hg', hm'⟩ := h'
  refine ⟨fun j => (g j).bind g', hg.comp hg', ?_⟩
  intro a ha
  dsimp only
  rcases hm a ha with ⟨b, hb, hab, hjets⟩ | ⟨⟨f, b, hb⟩, l, hl, hnone⟩
  · rw [bind_of_eq hb]
    rcases hm' b (hab.fits ha) with ⟨c, hc, hbc, hjets'⟩ | ⟨hfault, l, hl, hnone⟩
    · refine Or.inl ⟨c, hc, hab.trans hbc, fun l hl => ?_⟩
      rw [hjets l hl]
      exact hjets' l (by rwa [hab.layout])
    · rw [hab.layout] at hl
      exact Or.inr ⟨hfault, l, hl, by rw [hjets l hl]; exact hnone⟩
  · exact Or.inr ⟨⟨f, b, bind_of_error hb⟩, l, hl, by rw [hnone]; rfl⟩

/-- An update may go on from what all directions read alike. -/
theorem Lanewise.read_bind {value : Read F α} {k : α → Update F Unit}
    (hvalue : Told n q fun _ => value) (hk : ∀ x, Lanewise n q (k x)) :
    Lanewise n q (liftM value >>= k) := by
  obtain ⟨h, hlooks, htold⟩ := hvalue
  dsimp only at htold
  choose g hg hm using hk
  refine ⟨fun j => (h j).bind fun x => g x j, .bind hlooks hg, ?_⟩
  intro a ha
  dsimp only
  cases hx : value a with
  | ok x =>
    have hread (l : Nat) (hl : l < a.layout.directions) : h (a.jet l) = some x := by
      rw [← htold a ha l hl, hx]
      rfl
    rw [read_bind_of_eq hx]
    rcases hm x a ha with ⟨b, hb, hab, hjets⟩ | ⟨hfault, l, hl, hnone⟩
    · exact Or.inl ⟨b, hb, hab, fun l hl => by rw [hread l hl]; exact hjets l hl⟩
    · exact Or.inr ⟨hfault, l, hl, by rw [hread l hl]; exact hnone⟩
  | error f =>
    refine Or.inr ⟨⟨f, a, read_bind_of_error hx⟩, 0, ha.directed, ?_⟩
    rw [← htold a ha 0 ha.directed, hx]
    rfl

theorem Lanewise.ok_bind {m : Except Fault α} {k : α → Update F Unit}
    (hk : ∀ x, Lanewise n q (k x)) : Lanewise n q (liftM m >>= k) := by
  cases m with
  | ok x => exact hk x
  | error f => exact lanewise_throw f

/-- The bodies of a loop do not disturb each other: each finds its direction as the loop has found
it. -/
theorem lanewise_eachDirection {body : Nat → Update F Unit} (h : KeepsLane n q body) :
    Lanewise n q (eachDirection body) := by
  obtain ⟨g, hg, hbody⟩ := h
  refine ⟨g, hg, ?_⟩
  have hloop (c i : Nat) (a : Arena F) (ha : a.Fits n q) (hc : i + c ≤ a.layout.directions) :
      (∃ b, Loop.each c i body a = .ok () b ∧ SameShape a b ∧
        (∀ l, i ≤ l → l < i + c → g (a.jet l) = some (b.jet l)) ∧
        ∀ l < i, b.jet l = a.jet l) ∨
      ((∃ f b, Loop.each c i body a = .error f b) ∧
        ∃ l, i ≤ l ∧ l < i + c ∧ g (a.jet l) = none) := by
    induction c generalizing i a with
    | zero => exact Or.inl ⟨a, rfl, .refl a, fun l _ _ => by omega, fun _ _ => rfl⟩
    | succ c ih =>
      rw [Loop.each]
      rcases hbody a ha i (by omega) with ⟨b, hb, hab, hjet, hother⟩ | ⟨⟨f, b, hb⟩, hnone⟩
      · rw [bind_of_eq hb]
        rcases ih (i + 1) b (hab.fits ha) (by rw [hab.layout]; omega) with
          ⟨d, hd, hbd, hlater, hdone⟩ | ⟨hfault, l, hi, hl, hnone⟩
        · refine Or.inl ⟨d, hd, hab.trans hbd, fun l hi hl => ?_, fun l hl => ?_⟩
          · by_cases hli : l = i
            · rw [hli, hdone i (Nat.lt_succ_self i), hjet]
            · rw [← hother l hli]
              exact hlater l (by omega) (by omega)
          · rw [hdone l (by omega), hother l (by omega)]
        · rw [hother l (by omega)] at hnone
          exact Or.inr ⟨hfault, l, by omega, by omega, hnone⟩
      · exact Or.inr ⟨⟨f, b, bind_of_error hb⟩, i, by omega, by omega, hnone⟩
  intro a ha
  unfold eachDirection
  rw [read_bind_of_eq (x := a.layout.directions) rfl]
  rcases hloop a.layout.directions 0 a ha (by omega) with
    ⟨b, hb, hab, hjets, -⟩ | ⟨hfault, l, -, hl, hnone⟩
  · exact Or.inl ⟨b, hb, hab, fun l hl => hjets l (Nat.zero_le l) (by omega)⟩
  · exact Or.inr ⟨hfault, l, by omega, hnone⟩

theorem lanewise_assign (v : Nat) {value : Nat → Read F F} (h : Told n q value) :
    Lanewise n q (assign v q value) :=
  lanewise_eachDirection (.read_bind h fun x => keepsLane_setCoeff v x)

end Lanewise

end Arena

end JetTape
