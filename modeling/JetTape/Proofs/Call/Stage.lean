import JetTape.Call.Frame
import JetTape.Proofs.Recurrence.Lanes

/-!
Staged series. A stage keeps each series along all directions, and turning it to a direction lays
out exactly the series along that direction: whatever an earlier direction or an operator has left
there is written over.
-/
namespace JetTape

open Arena (Read)

variable {F : Type}

/-- The entries of lists of one length, laid one after another. -/
theorem getElem?_flatMap_of_length {α β : Type} {f : β → List α} {l : List β} {w j k : Nat}
    (hw : ∀ x ∈ l, (f x).length = w) (hj : j < l.length) (hk : k < w) :
    (l.flatMap f)[j * w + k]? = (f l[j])[k]? := by
  induction l generalizing j with
  | nil => cases hj
  | cons x l ih =>
    have hx := hw x List.mem_cons_self
    rw [List.flatMap_cons]
    cases j with
    | zero =>
      rw [Nat.zero_mul, Nat.zero_add, List.getElem?_append_left (by omega)]
      rfl
    | succ j =>
      have hindex : (j + 1) * w + k - (f x).length = j * w + k := by
        rw [hx, Nat.add_mul]
        omega
      rw [List.getElem?_append_right (by rw [hx, Nat.add_mul]; omega), hindex,
        ih (fun y hy => hw y (List.mem_cons_of_mem x hy)) (by simpa using hj)]
      rfl

theorem length_flatMap_of_length {α β : Type} {f : β → List α} {l : List β} {w : Nat}
    (hw : ∀ x ∈ l, (f x).length = w) : (l.flatMap f).length = l.length * w := by
  induction l with
  | nil => simp
  | cons x l ih =>
    rw [List.flatMap_cons, List.length_append, hw x List.mem_cons_self,
      ih fun y hy => hw y (List.mem_cons_of_mem x hy), List.length_cons, Nat.add_mul]
    omega

/-- A loop over a list whose every step can be read. -/
theorem Arena.foldlM_eq_ok {α β : Type} {step : α → β → Read F α} {g : α → β → α} {a : Arena F}
    {l : List β} (h : ∀ s, ∀ x ∈ l, step s x a = .ok (g s x)) (s : α) :
    l.foldlM step s a = .ok (l.foldl g s) := by
  induction l generalizing s with
  | nil => rfl
  | cons x l ih =>
    rw [List.foldlM_cons, Arena.read_of_eq (h s x List.mem_cons_self), List.foldl_cons]
    exact ih (fun s y hy => h s y (List.mem_cons_of_mem x hy)) (g s x)

/-- Along one direction series follow one another. -/
theorem Layout.cell_along (q j k : Nat) : (⟨q + 1, 1⟩ : Layout).cell j k 0 = j * (q + 1) + k := by
  simp only [cell, rowSize, Nat.add_sub_cancel, Nat.mul_one]
  split <;> omega

namespace Call.Stage

/-- The stage has room for `n` series up to order `q` over `r` directions. -/
structure Sized (s : Stage F) (n q r : Nat) : Prop where
  all_layout : s.all.layout = ⟨q + 1, r⟩
  all_size : s.all.cells.size = n * (q * r + 1)
  along_layout : s.along.layout = ⟨q + 1, 1⟩
  along_size : s.along.cells.size = n * (q + 1)

variable {s : Stage F} {n q r : Nat}

theorem Sized.all_rows (h : s.Sized n q r) :
    s.all.cells.size = n * s.all.layout.rowSize := by
  rw [h.all_size, h.all_layout]
  rfl

theorem Sized.along_rows (h : s.Sized n q r) :
    s.along.cells.size = n * s.along.layout.rowSize := by
  rw [h.along_size, h.along_layout]
  simp [Layout.rowSize]

theorem mem_places {L : Layout} {k l : Nat} :
    (k, l) ∈ places L ↔ (k = 0 ∧ l = 0) ∨ (0 < k ∧ k < L.capOrder ∧ l < L.directions) := by
  simp only [places, List.mem_cons, List.mem_flatMap, List.mem_map, List.mem_range'_1,
    Prod.mk.injEq]
  constructor
  · rintro (h | ⟨l', hl, k', hk, rfl, rfl⟩)
    · exact Or.inl h
    · exact Or.inr (by omega)
  · rintro (h | h)
    · exact Or.inl h
    · exact Or.inr ⟨l, by omega, k, by omega, rfl, rfl⟩

/-- The stage with series `j` filled in. -/
def fill (s : Stage F) (j : Nat) (g : Nat → Nat → F) : Stage F :=
  { s with
    all := s.all.pokeAll ((places s.all.layout).map fun (k, l) => (j, k, l)) fun _ k l => g k l }

/-- A series that can be read is filled in. -/
theorem Sized.put_eq_fill (h : s.Sized n q r) (hr : 0 < r) {a : Arena F} {j : Nat}
    {value : Nat → Nat → Read F F} {g : Nat → Nat → F}
    (hvalue : ∀ k ≤ q, ∀ l < r, value k l a = .ok (g k l)) :
    s.put j value a = .ok (s.fill j g) := by
  have hstep : ∀ all, ∀ w ∈ places s.all.layout,
      (fun (all : Arena F) (w : Nat × Nat) => (do
        return all.poke j w.1 w.2 (← value w.1 w.2) : Read F (Arena F))) all w a =
        .ok (all.poke j w.1 w.2 (g w.1 w.2)) := by
    rintro all ⟨k, l⟩ hw
    rw [h.all_layout, mem_places] at hw
    refine Arena.read_of_eq (hvalue k ?_ l ?_)
    · rcases hw with ⟨rfl, -⟩ | ⟨-, hk, -⟩
      · exact Nat.zero_le q
      · exact Nat.le_of_lt_succ hk
    · rcases hw with ⟨-, rfl⟩ | ⟨-, -, hl⟩
      · exact hr
      · exact hl
  have hfold := Arena.foldlM_eq_ok hstep s.all
  unfold put
  rw [Arena.read_of_eq hfold, fill, Arena.pokeAll, List.foldl_map]
  rfl

variable [Scalar F]

theorem sized_new (n q r : Nat) : (new n q r : Stage F).Sized n q r where
  all_layout := rfl
  all_size := by simp [new, Arena.zeros, Layout.rowSize]
  along_layout := rfl
  along_size := by simp [new, Arena.zeros, Layout.rowSize]

@[simp] theorem peek_new (n q r j k l : Nat) : (new n q r : Stage F).all.peek j k l = 0 := by
  simp only [new, Arena.zeros, Arena.peek, Array.getD_eq_getD_getElem?, Array.getElem?_replicate]
  split <;> rfl

omit [Scalar F] in
theorem Sized.fill (h : s.Sized n q r) (j : Nat) (g : Nat → Nat → F) :
    (s.fill j g).Sized n q r where
  all_layout := by simpa [Stage.fill] using h.all_layout
  all_size := by simpa [Stage.fill] using h.all_size
  along_layout := h.along_layout
  along_size := h.along_size

theorem Sized.turn (h : s.Sized n q r) (c l : Nat) : (s.turn n c l).Sized n q r where
  all_layout := h.all_layout
  all_size := h.all_size
  along_layout := by simpa [Stage.turn] using h.along_layout
  along_size := by simpa [Stage.turn] using h.along_size

theorem Sized.answer (h : s.Sized n q r) (l : Nat) {cells : Array F}
    (hcells : cells.size = s.along.cells.size) : (s.answer n q l cells).Sized n q r where
  all_layout := by simpa [Stage.answer] using h.all_layout
  all_size := by simpa [Stage.answer] using h.all_size
  along_layout := h.along_layout
  along_size := hcells.trans h.along_size

/-- A series that is filled in shows, and the others stay. -/
theorem peek_fill (h : s.Sized n q r) {i j k l : Nat} {g : Nat → Nat → F} (hj : j < n)
    (hshared : ∀ l < r, g 0 l = g 0 0) (hk : k ≤ q) (hl : l < r) :
    (s.fill j g).all.peek i k l = if i = j then g k l else s.all.peek i k l := by
  have hplaces : ∀ w ∈ (places s.all.layout).map fun (k, l) => (j, k, l),
      w.1 < n ∧ w.2.1 < s.all.layout.capOrder ∧ w.2.2 < s.all.layout.directions := by
    intro w hw
    obtain ⟨⟨k', l'⟩, hmem, rfl⟩ := List.mem_map.mp hw
    rcases mem_places.mp hmem with ⟨rfl, rfl⟩ | ⟨-, hk', hl'⟩
    · rw [h.all_layout]
      exact ⟨hj, Nat.succ_pos q, Nat.zero_lt_of_lt hl⟩
    · exact ⟨hj, hk', hl'⟩
  obtain ⟨hin, hout⟩ := Arena.peek_pokeAll (v := i) (k := k) (l := l)
    (g := fun _ k l => g k l) h.all_rows hplaces
    (fun _ l hl => hshared l (by rwa [h.all_layout] at hl))
    (by rw [h.all_layout]; exact Nat.lt_succ_of_le hk) (by rw [h.all_layout]; exact hl)
  by_cases hi : i = j
  · subst hi
    rw [if_pos rfl]
    apply hin
    by_cases h0 : k = 0
    · exact ⟨0, List.mem_map.mpr ⟨(k, 0), mem_places.mpr (Or.inl ⟨h0, rfl⟩), rfl⟩, Or.inl h0⟩
    · refine ⟨l, List.mem_map.mpr ⟨(k, l), mem_places.mpr (Or.inr ⟨by omega, ?_⟩), rfl⟩, Or.inr rfl⟩
      rw [h.all_layout]
      exact ⟨Nat.lt_succ_of_le hk, hl⟩
  · rw [if_neg hi]
    apply hout
    intro l' hmem
    obtain ⟨w, -, hw⟩ := List.mem_map.mp hmem
    cases hw
    exact absurd rfl hi

/-- After a turn every series stands along the new direction. -/
theorem peek_turn (h : s.Sized n q r) {c l j k : Nat} (hj : j < n) (hk : k ≤ q) :
    (s.turn n c l).along.peek j k 0 = if k < c then s.all.peek j k l else 0 := by
  have hcap : s.along.layout.capOrder = q + 1 := by rw [h.along_layout]
  have hone : s.along.layout.directions = 1 := by rw [h.along_layout]
  have hplaces : ∀ w ∈ (List.range n).flatMap fun j =>
      (List.range s.along.layout.capOrder).map fun k => (j, k, 0),
      w.1 < n ∧ w.2.1 < s.along.layout.capOrder ∧ w.2.2 < s.along.layout.directions := by
    intro w hw
    obtain ⟨j, hj, hw⟩ := List.mem_flatMap.mp hw
    obtain ⟨k, hk, rfl⟩ := List.mem_map.mp hw
    exact ⟨List.mem_range.mp hj, List.mem_range.mp hk, hone ▸ Nat.zero_lt_one⟩
  refine (Arena.peek_pokeAll h.along_rows hplaces (fun _ _ _ => rfl) (by omega) (by omega)).1
    ⟨0, ?_, Or.inr rfl⟩
  refine List.mem_flatMap.mpr ⟨j, List.mem_range.mpr hj, List.mem_map.mpr ⟨k, ?_, rfl⟩⟩
  exact List.mem_range.mpr (by omega)

/-- An answer changes order `q` along its own direction only. -/
theorem peek_answer (h : s.Sized n q r) {cells : Array F} {i k l l' : Nat} (hq : 0 < q)
    (hi : i < n) (hk : k ≤ q) (hl : l < r) (hl' : l' < r) :
    (s.answer n q l cells).all.peek i k l' =
      if k = q ∧ l' = l then cells.getD (i * (q + 1) + q) 0 else s.all.peek i k l' := by
  have hplaces : ∀ w ∈ (List.range n).map fun i => (i, q, l),
      w.1 < n ∧ w.2.1 < s.all.layout.capOrder ∧ w.2.2 < s.all.layout.directions := by
    intro w hw
    obtain ⟨i, hi, rfl⟩ := List.mem_map.mp hw
    rw [h.all_layout]
    exact ⟨List.mem_range.mp hi, Nat.lt_succ_self q, hl⟩
  obtain ⟨hin, hout⟩ := Arena.peek_pokeAll (v := i) (k := k) (l := l')
    (g := fun i _ _ => ({ s.along with cells } : Arena F).peek i q 0) h.all_rows hplaces
    (fun _ _ _ => rfl) (by rw [h.all_layout]; exact Nat.lt_succ_of_le hk)
    (by rw [h.all_layout]; exact hl')
  have hlast : ({ s.along with cells } : Arena F).peek i q 0 = cells.getD (i * (q + 1) + q) 0 := by
    rw [Arena.peek, h.along_layout, Layout.cell_along]
  by_cases hplace : k = q ∧ l' = l
  · obtain ⟨rfl, rfl⟩ := hplace
    rw [if_pos ⟨rfl, rfl⟩, ← hlast]
    exact hin ⟨l', List.mem_map.mpr ⟨i, List.mem_range.mpr hi, rfl⟩, Or.inr rfl⟩
  · rw [if_neg hplace]
    apply hout
    intro l'' hmem
    obtain ⟨i', -, heq⟩ := List.mem_map.mp hmem
    cases heq
    exact ⟨by omega, fun heq => hplace ⟨rfl, heq.symm⟩⟩

/-- The cells along a direction are the series one after another. -/
theorem cells_eq_flatMap {β : Type} {l : List β} (h : s.Sized l.length q r) {f : β → List F}
    (hlen : ∀ x ∈ l, (f x).length = q + 1)
    (hpeek : ∀ j (hj : j < l.length), ∀ k ≤ q, s.along.peek j k 0 = (f l[j]).getD k 0) :
    s.along.cells = (l.flatMap f).toArray := by
  have hsize := length_flatMap_of_length hlen
  apply Array.ext
  · rw [h.along_size, List.size_toArray, hsize]
  · intro i hi _
    have hpos : 0 < q + 1 := Nat.succ_pos q
    have hj : i / (q + 1) < l.length := by
      rw [Nat.div_lt_iff_lt_mul hpos, ← h.along_size]
      exact hi
    have hk : i % (q + 1) < q + 1 := Nat.mod_lt i hpos
    have hindex : i / (q + 1) * (q + 1) + i % (q + 1) = i := Nat.div_add_mod' i (q + 1)
    have hentry := hpeek _ hj _ (Nat.le_of_lt_succ hk)
    rw [Arena.peek, h.along_layout, Layout.cell_along, hindex] at hentry
    have hflat := getElem?_flatMap_of_length hlen hj hk
    rw [hindex] at hflat
    simp only [Array.getD_eq_getD_getElem?, Array.getElem?_eq_getElem hi, Option.getD_some,
      List.getD_eq_getElem?_getD] at hentry
    rw [hentry, ← hflat, List.getElem_toArray]
    simp [hsize, ← h.along_size, hi]

end Call.Stage

end JetTape
