import JetTape.Arena.Basic

/-!
Arenas seen along one direction. A jet holds the coefficients of all rows along a direction, and
an arena is the family of its jets: order 0 is common to them, every other coefficient belongs to
one. Checked access succeeds inside the arena and is access to a jet.
-/
namespace JetTape

/-- Coefficients along one direction, by row and order. -/
abbrev Jet (F : Type) : Type := Nat → Nat → F

namespace Jet

variable {F : Type}

/-- Gives a row another coefficient at one order. -/
def set (j : Jet F) (row order : Nat) (x : F) : Jet F := fun v k =>
  if v = row ∧ k = order then x else j v k

@[simp] theorem set_self (j : Jet F) (row order : Nat) (x : F) :
    j.set row order x row order = x := by
  simp [set]

theorem set_of_row_ne {j : Jet F} {row order v k : Nat} {x : F} (h : v ≠ row) :
    j.set row order x v k = j v k := by
  simp [set, h]

theorem set_of_order_ne {j : Jet F} {row order v k : Nat} {x : F} (h : k ≠ order) :
    j.set row order x v k = j v k := by
  simp [set, h]

/-- A coefficient that is there already changes nothing. -/
theorem set_eq_self {j : Jet F} {row order : Nat} {x : F} (h : j row order = x) :
    j.set row order x = j := by
  funext v k
  unfold set
  split
  · next heq => rw [heq.1, heq.2, h]
  · rfl

end Jet

namespace Layout

/-- The place of a coefficient in its row. -/
def slot (L : Layout) (order direction : Nat) : Nat :=
  if order = 0 then 0 else (order - 1) * L.directions + 1 + direction

theorem cell_eq (L : Layout) (row order direction : Nat) :
    L.cell row order direction = row * L.rowSize + L.slot order direction := rfl

theorem slot_lt_rowSize {L : Layout} {k l : Nat} (hk : k < L.capOrder) (hl : l < L.directions) :
    L.slot k l < L.rowSize := by
  unfold slot rowSize
  split
  · omega
  · have h : (k - 1 + 1) * L.directions ≤ (L.capOrder - 1) * L.directions :=
      Nat.mul_le_mul_right _ (by omega)
    rw [Nat.add_mul, Nat.one_mul] at h
    omega

/-- A number of two digits determines them. -/
theorem digits_inj {n a b c d : Nat} (hb : b < n) (hd : d < n) (h : a * n + b = c * n + d) :
    a = c ∧ b = d := by
  have hn : 0 < n := by omega
  have hdiv := congrArg (· / n) h
  have hmod := congrArg (· % n) h
  simp only [Nat.mul_comm _ n, Nat.mul_add_div hn, Nat.mul_add_mod, Nat.div_eq_of_lt hb,
    Nat.div_eq_of_lt hd, Nat.mod_eq_of_lt hb, Nat.mod_eq_of_lt hd] at hdiv hmod
  omega

theorem slot_inj {L : Layout} {k l k' l' : Nat} (hl : l < L.directions) (hl' : l' < L.directions) :
    L.slot k l = L.slot k' l' ↔ k = k' ∧ (k = 0 ∨ l = l') := by
  unfold slot
  constructor
  · intro h
    by_cases hk : k = 0 <;> by_cases hk' : k' = 0
    · omega
    · simp only [hk, hk', if_true, if_false] at h
      omega
    · simp only [hk, hk', if_true, if_false] at h
      omega
    · simp only [hk, hk', if_false] at h
      have heq : (k - 1) * L.directions + l = (k' - 1) * L.directions + l' := by omega
      have hd := digits_inj hl hl' heq
      omega
  · rintro ⟨rfl, rfl | rfl⟩ <;> rfl

/-- Two coefficients share their cell only at order 0 of one row. -/
theorem cell_inj {L : Layout} {v k l v' k' l' : Nat} (hk : k < L.capOrder) (hl : l < L.directions)
    (hk' : k' < L.capOrder) (hl' : l' < L.directions) :
    L.cell v k l = L.cell v' k' l' ↔ v = v' ∧ k = k' ∧ (k = 0 ∨ l = l') := by
  rw [cell_eq, cell_eq]
  constructor
  · intro h
    obtain ⟨hv, hs⟩ := digits_inj (slot_lt_rowSize hk hl) (slot_lt_rowSize hk' hl') h
    exact ⟨hv, (slot_inj hl hl').mp hs⟩
  · rintro ⟨rfl, hs⟩
    rw [(slot_inj hl hl').mpr hs]

theorem cell_lt {L : Layout} {n v k l : Nat} (hv : v < n) (hk : k < L.capOrder)
    (hl : l < L.directions) : L.cell v k l < n * L.rowSize := by
  have hs := slot_lt_rowSize hk hl
  have hr : (v + 1) * L.rowSize ≤ n * L.rowSize := Nat.mul_le_mul_right _ hv
  rw [Nat.add_mul, Nat.one_mul] at hr
  rw [cell_eq]
  omega

/-- Every cell holds a coefficient. -/
theorem exists_cell_eq {L : Layout} (hr : 0 < L.directions) (i : Nat) :
    ∃ k l, L.cell (i / L.rowSize) k l = i ∧ (k = 0 ∨ k < L.capOrder) ∧ l < L.directions := by
  have hpos : 0 < L.rowSize := by unfold rowSize; omega
  have hi := Nat.div_add_mod' i L.rowSize
  have hlt := Nat.mod_lt i hpos
  by_cases h0 : i % L.rowSize = 0
  · refine ⟨0, 0, ?_, Or.inl rfl, hr⟩
    rw [cell_eq, slot, if_pos rfl]
    omega
  · obtain ⟨m, hm⟩ : ∃ m, m + 1 = i % L.rowSize := ⟨i % L.rowSize - 1, by omega⟩
    have hrow : L.rowSize = L.directions * (L.capOrder - 1) + 1 := by
      unfold rowSize
      rw [Nat.mul_comm]
    have hdiv : m / L.directions < L.capOrder - 1 := Nat.div_lt_of_lt_mul (by omega)
    have hmod := Nat.div_add_mod' m L.directions
    refine ⟨m / L.directions + 1, m % L.directions, ?_, Or.inr ?_, Nat.mod_lt _ hr⟩
    · rw [cell_eq, slot, if_neg (Nat.succ_ne_zero _), Nat.add_sub_cancel]
      omega
    · generalize m / L.directions = d at hdiv
      omega

/-- Inside an arena whose length can be indexed, offsets can be computed. -/
theorem offset_eq_cell {L : Layout} {n v k l : Nat} (hlen : L.length n = .ok (n * L.rowSize))
    (hv : v < n) (hk : k < L.capOrder) (hl : l < L.directions) :
    L.offset v k l = .ok (L.cell v k l) := by
  obtain ⟨stride, hstride, hmul⟩ := bind_eq_ok_iff.mp hlen
  obtain ⟨-, -, rfl⟩ := stride_eq_ok_iff.mp hstride
  have hbound := (Index.mul_eq_ok_iff.mp hmul).1
  have hcell := cell_lt hv hk hl
  rw [cell_eq, slot] at hcell
  have hbase : Index.mul v L.rowSize = .ok (v * L.rowSize) :=
    Index.mul_eq_ok_iff.mpr ⟨by split at hcell <;> omega, rfl⟩
  simp only [offset, bind_eq_ok_iff, require_eq_ok_iff]
  refine ⟨(), hk, (), hl, L.rowSize, hstride, v * L.rowSize, hbase, ?_⟩
  by_cases h0 : k = 0
  · subst h0
    rw [if_pos rfl, cell_eq, slot, if_pos rfl]
    rfl
  · rw [if_neg h0] at hcell
    simp only [h0, if_false, bind_eq_ok_iff, Index.mul_eq_ok_iff, Index.add_eq_ok_iff]
    refine ⟨_, ⟨?_, rfl⟩, _, ⟨?_, rfl⟩, _, ⟨?_, rfl⟩, ?_, ?_⟩
    · omega
    · omega
    · omega
    · omega
    · rw [cell_eq, slot, if_neg h0]
      omega

end Layout

namespace Arena

variable {F : Type}

/-- An arena of `n` whole rows, all of whose cells can be indexed. -/
structure Shaped (a : Arena F) (n : Nat) : Prop where
  length : a.layout.length n = .ok a.cells.size
  directed : 0 < a.layout.directions

theorem Shaped.size_eq {a : Arena F} {n : Nat} (h : a.Shaped n) :
    a.cells.size = n * a.layout.rowSize := by
  obtain ⟨stride, hstride, hmul⟩ := bind_eq_ok_iff.mp h.length
  obtain ⟨-, -, rfl⟩ := Layout.stride_eq_ok_iff.mp hstride
  exact (Index.mul_eq_ok_iff.mp hmul).2

theorem Shaped.stride_eq {a : Arena F} {n : Nat} (h : a.Shaped n) :
    a.layout.stride = .ok a.layout.rowSize := by
  obtain ⟨stride, hstride, -⟩ := bind_eq_ok_iff.mp h.length
  rw [hstride, (Layout.stride_eq_ok_iff.mp hstride).2.2]

/-- The cells make up the rows. -/
theorem Shaped.ofCells_eq {a : Arena F} {n : Nat} (h : a.Shaped n) :
    ofCells a.layout a.cells = .ok a := by
  have hexcess : a.cells.size % a.layout.rowSize = 0 := by
    rw [h.size_eq, Nat.mul_mod_left]
  unfold ofCells
  rw [h.stride_eq]
  show (do
    require (a.cells.size % a.layout.rowSize = 0) (.partialRow (a.cells.size % a.layout.rowSize))
    return ⟨a.layout, a.cells⟩) = Except.ok a
  unfold require
  rw [if_pos hexcess]
  rfl

theorem Shaped.locate_eq {a : Arena F} {n v k l : Nat} (h : a.Shaped n) (hv : v < n)
    (hk : k < a.layout.capOrder) (hl : l < a.layout.directions) :
    a.locate v k l = .ok (a.layout.cell v k l) := by
  have hlen := h.length
  rw [h.size_eq] at hlen
  have hlt : a.layout.cell v k l < a.cells.size := by
    rw [h.size_eq]
    exact Layout.cell_lt hv hk hl
  simp only [locate, bind_eq_ok_iff, require_eq_ok_iff]
  exact ⟨_, Layout.offset_eq_cell hlen hv hk hl, (), hlt, rfl⟩

variable [Scalar F]

/-- The coefficients along a direction; zero outside the layout. -/
def jet (a : Arena F) (l : Nat) : Jet F := fun v k =>
  if k < a.layout.capOrder ∧ l < a.layout.directions then
    a.cells.getD (a.layout.cell v k l) 0
  else 0

/-- All directions share order 0. -/
theorem jet_zero {a : Arena F} {l l' : Nat} (hl : l < a.layout.directions)
    (hl' : l' < a.layout.directions) (v : Nat) : a.jet l v 0 = a.jet l' v 0 := by
  simp [jet, hl, hl', Layout.cell]

theorem Shaped.get_eq {a : Arena F} {n v k l : Nat} (h : a.Shaped n) (hv : v < n)
    (hk : k < a.layout.capOrder) (hl : l < a.layout.directions) :
    a.get v k l = .ok (a.jet l v k) := by
  have hlt : a.layout.cell v k l < a.cells.size := by
    rw [h.size_eq]
    exact Layout.cell_lt hv hk hl
  unfold Arena.get
  rw [h.locate_eq hv hk hl]
  simp [bind, Except.bind, Index.get, jet, hk, hl, hlt]

/-- Behind the rows of an arena there are zeros. -/
theorem Shaped.jet_of_le {a : Arena F} {n v : Nat} (h : a.Shaped n) (hv : n ≤ v) (k l : Nat) :
    a.jet l v k = 0 := by
  unfold jet
  split
  · have hrow : n * a.layout.rowSize ≤ v * a.layout.rowSize := Nat.mul_le_mul_right _ hv
    have hsize := h.size_eq
    rw [Layout.cell_eq, Array.getD_eq_getD_getElem?, Array.getElem?_eq_none (by omega)]
    rfl
  · rfl

theorem jet_eq_peek {a : Arena F} {v k l : Nat} (hk : k < a.layout.capOrder)
    (hl : l < a.layout.directions) : a.jet l v k = a.peek v k l := by
  simp [jet, peek, hk, hl]

/-- A new coefficient shows at its own place, and at order 0 along every direction. -/
theorem peek_poke {a : Arena F} {n v k l v' k' l' : Nat}
    (hsize : a.cells.size = n * a.layout.rowSize) (hv : v < n) (hk : k < a.layout.capOrder)
    (hl : l < a.layout.directions) (hk' : k' < a.layout.capOrder) (hl' : l' < a.layout.directions)
    (x : F) :
    (a.poke v k l x).peek v' k' l' =
      if v' = v ∧ k' = k ∧ (k = 0 ∨ l' = l) then x else a.peek v' k' l' := by
  have hlt : a.layout.cell v k l < a.cells.size := by
    rw [hsize]
    exact Layout.cell_lt hv hk hl
  have hcell : a.layout.cell v k l = a.layout.cell v' k' l' ↔ _ := Layout.cell_inj hk hl hk' hl'
  by_cases heq : a.layout.cell v k l = a.layout.cell v' k' l'
  · obtain ⟨rfl, rfl, hdir⟩ := hcell.mp heq
    rw [if_pos ⟨rfl, rfl, hdir.imp_right Eq.symm⟩, peek, poke, ← heq]
    simp [hlt]
  · rw [if_neg fun h => heq (hcell.mpr ⟨h.1.symm, h.2.1.symm, h.2.2.imp_right Eq.symm⟩)]
    simp [peek, poke, Array.getD_eq_getD_getElem?, heq]

/-- A new coefficient changes one jet, at one place. -/
theorem jet_setIfInBounds {a : Arena F} {n v k l : Nat} (h : a.Shaped n) (hv : v < n) (h0 : 0 < k)
    (hk : k < a.layout.capOrder) (hl : l < a.layout.directions) (x : F) (l' : Nat) :
    ({ a with cells := a.cells.setIfInBounds (a.layout.cell v k l) x } : Arena F).jet l' =
      if l' = l then (a.jet l).set v k x else a.jet l' := by
  show (a.poke v k l x).jet l' = _
  funext v' k'
  by_cases hin : k' < a.layout.capOrder ∧ l' < a.layout.directions
  · have hjet : (a.poke v k l x).jet l' v' k' = (a.poke v k l x).peek v' k' l' :=
      jet_eq_peek hin.1 hin.2
    rw [hjet, peek_poke h.size_eq hv hk hl hin.1 hin.2, ← jet_eq_peek hin.1 hin.2]
    by_cases hll : l' = l
    · subst hll
      simp [Jet.set]
    · have hne : ¬(v' = v ∧ k' = k ∧ (k = 0 ∨ l' = l)) := by omega
      rw [if_neg hne, if_neg hll]
  · have hne : ¬(l' = l ∧ v' = v ∧ k' = k) := fun ⟨hl', _, hk'⟩ => hin (hl' ▸ hk' ▸ ⟨hk, hl⟩)
    have hold : (a.poke v k l x).jet l' v' k' = a.jet l' v' k' := by simp [jet, poke, hin]
    rw [hold]
    by_cases hll : l' = l
    · subst hll
      have hne' : ¬(v' = v ∧ k' = k) := fun hvk => hne ⟨rfl, hvk⟩
      simp [Jet.set, hne']
    · rw [if_neg hll]

omit [Scalar F] in
@[simp] theorem layout_pokeAll (a : Arena F) (places : List (Nat × Nat × Nat))
    (g : Nat → Nat → Nat → F) : (a.pokeAll places g).layout = a.layout := by
  induction places generalizing a with
  | nil => rfl
  | cons w places ih => exact ih _

omit [Scalar F] in
@[simp] theorem size_pokeAll (a : Arena F) (places : List (Nat × Nat × Nat))
    (g : Nat → Nat → Nat → F) : (a.pokeAll places g).cells.size = a.cells.size := by
  induction places generalizing a with
  | nil => rfl
  | cons w places ih => exact (ih _).trans Array.size_setIfInBounds

/-- Listed coefficients show at their places. The value at order 0 is common to the directions, so
it does not matter in which order the places are filled. -/
theorem peek_pokeAll {a : Arena F} {n v k l : Nat} {places : List (Nat × Nat × Nat)}
    {g : Nat → Nat → Nat → F} (hsize : a.cells.size = n * a.layout.rowSize)
    (hplaces : ∀ w ∈ places, w.1 < n ∧ w.2.1 < a.layout.capOrder ∧ w.2.2 < a.layout.directions)
    (hshared : ∀ v, ∀ l < a.layout.directions, g v 0 l = g v 0 0)
    (hk : k < a.layout.capOrder) (hl : l < a.layout.directions) :
    ((∃ l', (v, k, l') ∈ places ∧ (k = 0 ∨ l' = l)) →
        (a.pokeAll places g).peek v k l = g v k l) ∧
      ((∀ l', (v, k, l') ∈ places → k ≠ 0 ∧ l' ≠ l) →
        (a.pokeAll places g).peek v k l = a.peek v k l) := by
  induction places generalizing a with
  | nil =>
    refine ⟨?_, fun _ => rfl⟩
    rintro ⟨l', hmem, -⟩
    cases hmem
  | cons w places ih =>
    obtain ⟨wv, wk, wl⟩ := w
    obtain ⟨hwv, hwk, hwl⟩ := hplaces _ List.mem_cons_self
    obtain ⟨hin, hout⟩ := ih (a := a.poke wv wk wl (g wv wk wl))
      (Array.size_setIfInBounds.trans hsize)
      (fun w hw => hplaces w (List.mem_cons_of_mem _ hw)) hshared hk hl
    have hpoke : (a.poke wv wk wl (g wv wk wl)).peek v k l = _ :=
      peek_poke hsize hwv hwk hwl hk hl (g wv wk wl)
    constructor
    · rintro ⟨l', hmem, hdir⟩
      by_cases hlater : ∃ l', (v, k, l') ∈ places ∧ (k = 0 ∨ l' = l)
      · exact hin hlater
      · -- Nothing later is written to the place, so the first write shows.
        have hfirst : (v, k, l') = (wv, wk, wl) :=
          (List.mem_cons.mp hmem).resolve_right fun hmem => hlater ⟨l', hmem, hdir⟩
        cases hfirst
        have hlast := hout fun l' hmem => by
          constructor
          · exact fun h0 => hlater ⟨l', hmem, Or.inl h0⟩
          · exact fun hl' => hlater ⟨l', hmem, Or.inr hl'⟩
        refine hlast.trans ?_
        rw [hpoke, if_pos ⟨rfl, rfl, hdir.imp_right Eq.symm⟩]
        rcases hdir with h0 | hll
        · rw [h0, hshared v l hl, hshared v _ hwl]
        · rw [hll]
    · intro hnone
      refine (hout fun l' hmem => hnone l' (List.mem_cons_of_mem _ hmem)).trans ?_
      rw [hpoke, if_neg]
      rintro ⟨rfl, rfl, hdir⟩
      obtain ⟨hk0, hne⟩ := hnone wl List.mem_cons_self
      exact hdir.elim hk0 fun h => hne h.symm

/-- Arenas of one layout and size with equal jets are equal. -/
theorem cells_eq_of_jet {a b : Arena F} {n : Nat} (ha : a.Shaped n) (hlayout : b.layout = a.layout)
    (hsize : b.cells.size = a.cells.size)
    (h : ∀ l < a.layout.directions, b.jet l = a.jet l) : b.cells = a.cells := by
  apply Array.ext hsize
  intro i hib hia
  obtain ⟨k, l, hcell, hk, hl⟩ := Layout.exists_cell_eq ha.directed i
  have hcap : k < a.layout.capOrder := by
    have := (Layout.stride_eq_ok_iff.mp ha.stride_eq).1
    omega
  have hval := congrFun (congrFun (h l hl) (i / a.layout.rowSize)) k
  simpa [jet, hlayout, hcap, hl, hcell, hib, hia] using hval

end Arena

end JetTape
