import JetTape.Proofs.Arena.Writes

/-!
Layouts pack arenas exactly. The offsets of the coefficients of `n` rows are the numbers below the
length of an arena of `n` rows, two coefficients have one offset only where they are one order-0
coefficient, and no offset of a coefficient inside overflows. So checked access to an arena of whole
rows faults outside its rows, orders and directions and nowhere else, and what is written shows at
its own coefficient.
-/
namespace JetTape

namespace Layout

variable {L : Layout} {n size : Nat}

theorem new_eq_ok_iff {capOrder directions : Nat} :
    new capOrder directions = .ok L ↔
      1 ≤ capOrder ∧ 1 ≤ directions ∧ L = ⟨capOrder, directions⟩ := by
  simp only [new, bind_eq_ok_iff, require_eq_ok_iff]
  constructor
  · rintro ⟨-, hcap, -, hdirections, h⟩
    cases h
    exact ⟨hcap, hdirections, rfl⟩
  · rintro ⟨hcap, hdirections, rfl⟩
    exact ⟨(), hcap, (), hdirections, rfl⟩

/-- The offsets of the coefficients of `n` rows are the numbers below `size`. Order 0 has one offset
for all directions. -/
structure Packs (L : Layout) (n size : Nat) : Prop where
  inside : ∀ v < n, ∀ k < L.capOrder, ∀ l < L.directions, ∃ i < size, L.offset v k l = .ok i
  same_iff : ∀ v < n, ∀ k < L.capOrder, ∀ l < L.directions,
    ∀ v' < n, ∀ k' < L.capOrder, ∀ l' < L.directions,
      L.offset v k l = L.offset v' k' l' ↔ v = v' ∧ k = k' ∧ (k = 0 ∨ l = l')
  onto : ∀ i < size, ∃ v < n, ∃ k < L.capOrder, ∃ l < L.directions, L.offset v k l = .ok i

/-- A length that can be computed is one that the rows fill. -/
theorem packs_of_length (hcap : 0 < L.capOrder) (hdirections : 0 < L.directions)
    (hsize : L.length n = .ok size) : L.Packs n size := by
  obtain ⟨stride, hstride, hmul⟩ := bind_eq_ok_iff.mp hsize
  obtain ⟨-, -, rfl⟩ := stride_eq_ok_iff.mp hstride
  obtain ⟨-, rfl⟩ := Index.mul_eq_ok_iff.mp hmul
  have hoffset {v k l : Nat} (hv : v < n) (hk : k < L.capOrder) (hl : l < L.directions) :
      L.offset v k l = .ok (L.cell v k l) := offset_eq_cell hsize hv hk hl
  constructor
  case inside => exact fun v hv k hk l hl => ⟨_, cell_lt hv hk hl, hoffset hv hk hl⟩
  case same_iff =>
    intro v hv k hk l hl v' hv' k' hk' l' hl'
    rw [hoffset hv hk hl, hoffset hv' hk' hl', Except.ok.injEq, cell_inj hk hl hk' hl']
  case onto =>
    intro i hi
    obtain ⟨k, l, hcell, hk, hl⟩ := exists_cell_eq hdirections i
    have hv : i / L.rowSize < n := Nat.div_lt_of_lt_mul (by rwa [Nat.mul_comm])
    have hk : k < L.capOrder := by omega
    exact ⟨_, hv, k, hk, l, hl, by rw [hoffset hv hk hl, hcell]⟩

end Layout

namespace Arena

variable {F : Type} {a : Arena F} {n : Nat}

/-- Whole rows of a slice that can be indexed. -/
theorem shaped_of_mod {layout : Layout} {cells : Array F} {stride : Nat}
    (hstride : layout.stride = .ok stride) (hdirections : 0 < layout.directions)
    (hwhole : cells.size % stride = 0) (hbound : cells.size < Index.bound) :
    Shaped ⟨layout, cells⟩ (cells.size / stride) := by
  have hrows : cells.size / stride * stride = cells.size :=
    Nat.div_mul_cancel (Nat.dvd_of_mod_eq_zero hwhole)
  refine ⟨bind_eq_ok_iff.mpr ⟨stride, hstride, Index.mul_eq_ok_iff.mpr ?_⟩, hdirections⟩
  rw [hrows]
  exact ⟨hbound, rfl⟩

theorem Shaped.rows_eq (h : a.Shaped n) : a.rows = .ok n := by
  have hpos : 0 < a.layout.rowSize := Nat.succ_pos _
  have hrows : a.cells.size / a.layout.rowSize = n := by rw [h.size_eq, Nat.mul_div_cancel n hpos]
  unfold rows
  rw [h.stride_eq, ← hrows]
  rfl

/-- The coefficient belongs to one of `n` rows of the arena. -/
def Inside (a : Arena F) (n v k l : Nat) : Prop :=
  v < n ∧ k < a.layout.capOrder ∧ l < a.layout.directions

theorem Shaped.exists_locate_iff (h : a.Shaped n) {v k l : Nat} :
    (∃ i, a.locate v k l = .ok i) ↔ a.Inside n v k l := by
  constructor
  · rintro ⟨i, hi⟩
    obtain ⟨rfl, hk, hl, hlt⟩ := of_locate hi
    refine ⟨Nat.lt_of_not_le fun hv => ?_, hk, hl⟩
    have hrow : n * a.layout.rowSize ≤ v * a.layout.rowSize := Nat.mul_le_mul_right _ hv
    rw [h.size_eq, Layout.cell_eq] at hlt
    omega
  · exact fun ⟨hv, hk, hl⟩ => ⟨_, h.locate_eq hv hk hl⟩

/-- Checked access to the `n` rows of an arena: it faults outside them only, and a coefficient that
is written is read where it has been written and nowhere else. -/
structure Accessible (a : Arena F) (n : Nat) : Prop where
  get_fault_iff : ∀ v k l, (∃ f, a.get v k l = .error f) ↔ ¬ a.Inside n v k l
  set_fault_iff : ∀ v k l x, (∃ f b, setCoeff v k l x a = .error f b) ↔ ¬ a.Inside n v k l
  get_set : ∀ v k l x b, setCoeff v k l x a = .ok () b → ∀ v' k' l', a.Inside n v' k' l' →
    b.get v' k' l' = if v' = v ∧ k' = k ∧ (k = 0 ∨ l' = l) then .ok x else a.get v' k' l'

theorem get_of_locate {v k l i : Nat} (h : a.locate v k l = .ok i) :
    a.get v k l = Index.get a.cells i := by
  unfold Arena.get
  rw [h]
  rfl

/-- A coefficient that is located can be read. -/
theorem exists_get_error_iff {v k l : Nat} :
    (∃ f, a.get v k l = .error f) ↔ ¬ ∃ i, a.locate v k l = .ok i := by
  cases hlocate : a.locate v k l with
  | ok i =>
    obtain ⟨-, -, -, hlt⟩ := of_locate hlocate
    simp [get_of_locate hlocate, Index.get, hlt]
  | error f =>
    have hget : a.get v k l = .error f := by
      unfold Arena.get
      rw [hlocate]
      rfl
    simp [hget]

/-- A coefficient that is located can be written. -/
theorem exists_set_error_iff {v k l : Nat} {x : F} :
    (∃ f b, setCoeff v k l x a = .error f b) ↔ ¬ ∃ i, a.locate v k l = .ok i := by
  unfold setCoeff
  cases a.locate v k l <;> simp

theorem Shaped.get_of_set (h : a.Shaped n) {v k l v' k' l' : Nat} {x : F} {b : Arena F}
    (hset : setCoeff v k l x a = .ok () b) (hin : a.Inside n v' k' l') :
    b.get v' k' l' = if v' = v ∧ k' = k ∧ (k = 0 ∨ l' = l) then .ok x else a.get v' k' l' := by
  obtain ⟨hv', hk', hl'⟩ := hin
  cases hlocate : a.locate v k l with
  | error f =>
    unfold setCoeff at hset
    rw [hlocate] at hset
    cases hset
  | ok i =>
    rw [setCoeff_of_locate hlocate] at hset
    cases hset
    obtain ⟨rfl, hk, hl, hlt⟩ := of_locate hlocate
    have hold := h.locate_eq hv' hk' hl'
    have hshape : SameShape a { a with cells := a.cells.setIfInBounds (a.layout.cell v k l) x } :=
      ⟨rfl, Array.size_setIfInBounds⟩
    have hnew := (hshape.shaped h).locate_eq hv' hk' hl'
    rw [get_of_locate hnew, get_of_locate hold]
    have hcell : a.layout.cell v' k' l' = a.layout.cell v k l ↔ _ :=
      Layout.cell_inj hk' hl' hk hl
    by_cases hsame : a.layout.cell v' k' l' = a.layout.cell v k l
    · obtain ⟨hv, rfl, hdir⟩ := hcell.mp hsame
      rw [if_pos ⟨hv, rfl, hdir⟩, hsame]
      simp [Index.get, hlt]
    · rw [if_neg fun h => hsame (hcell.mpr ⟨h.1, h.2.1, h.2.2.imp_left (h.2.1.trans ·)⟩)]
      simp only [Index.get, Array.size_setIfInBounds]
      split
      · rw [Array.getElem_setIfInBounds_ne _ (Ne.symm hsame)]
      · rfl

theorem Shaped.accessible (h : a.Shaped n) : a.Accessible n where
  get_fault_iff _ _ _ := exists_get_error_iff.trans (not_congr h.exists_locate_iff)
  set_fault_iff _ _ _ _ := exists_set_error_iff.trans (not_congr h.exists_locate_iff)
  get_set _ _ _ _ _ hset _ _ _ hin := h.get_of_set hset hin

/-- A layout with orders and directions packs the coefficients of any number of rows into as many
cells as they need, wherever that number can be computed. Cells that make up whole rows are an arena
of as many rows, and checked access to it is access to the coefficients of its rows. -/
theorem layout_packs {capOrder directions : Nat} {layout : Layout}
    (hlayout : Layout.new capOrder directions = .ok layout) :
    layout = ⟨capOrder, directions⟩ ∧
      (∀ n size, 1 ≤ n → layout.length n = .ok size → layout.Packs n size) ∧
      ∀ (F : Type) (cells : Array F) stride, layout.stride = .ok stride →
        cells.size % stride = 0 → cells.size < Index.bound →
        ∃ n, n * stride = cells.size ∧ ofCells layout cells = .ok ⟨layout, cells⟩ ∧
          (⟨layout, cells⟩ : Arena F).rows = .ok n ∧ (⟨layout, cells⟩ : Arena F).Accessible n := by
  obtain ⟨hcap, hdirections, rfl⟩ := Layout.new_eq_ok_iff.mp hlayout
  refine ⟨rfl, fun n size _ hsize => Layout.packs_of_length hcap hdirections hsize, ?_⟩
  intro F cells stride hstride hwhole hbound
  have hshaped := shaped_of_mod hstride hdirections hwhole hbound
  exact ⟨_, Nat.div_mul_cancel (Nat.dvd_of_mod_eq_zero hwhole), hshaped.ofCells_eq,
    hshaped.rows_eq, hshaped.accessible⟩

/-- Three rows whose cells can only just be counted, and two short ones. -/
theorem wideLayout_packs :
    (⟨0x80000000, 0x80000000⟩ : Layout).Packs 3 0xbffffffe80000003 ∧
      (⟨⟨4, 3⟩, Array.replicate 20 1⟩ : Arena Int).Accessible 2 := by
  have hwide : Layout.new 0x80000000 0x80000000 = .ok ⟨0x80000000, 0x80000000⟩ := rfl
  have hshort : Layout.new 4 3 = .ok ⟨4, 3⟩ := rfl
  constructor
  · exact (layout_packs hwide).2.1 3 _ (by decide) rfl
  · obtain ⟨n, hn, -, -, haccess⟩ := (layout_packs hshort).2.2 Int (Array.replicate 20 1) 10 rfl
      (by decide) (by decide)
    obtain rfl : n = 2 := by
      rw [Array.size_replicate] at hn
      omega
    exact haccess

end Arena

end JetTape
