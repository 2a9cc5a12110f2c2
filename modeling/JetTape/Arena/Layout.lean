import JetTape.Index

/-!
Where a coefficient is kept. A row belongs to one variable. Its first cell is the order-0
coefficient, which all directions share; the coefficients of every further order follow, one per
direction. Offsets are computed in checked index arithmetic.
-/
namespace JetTape

/-- Orders below `capOrder`, and from order 1 on one coefficient for each direction. -/
structure Layout where
  capOrder : Nat
  directions : Nat
  deriving DecidableEq, Repr

namespace Layout

/-- A layout has at least one order and one direction. -/
def new (capOrder directions : Nat) : Except Fault Layout := do
  require (1 ≤ capOrder) .noOrders
  require (1 ≤ directions) .noDirections
  return ⟨capOrder, directions⟩

/-- Cells in a row. -/
def rowSize (L : Layout) : Nat := (L.capOrder - 1) * L.directions + 1

/-- The cell of a coefficient. -/
def cell (L : Layout) (row order direction : Nat) : Nat :=
  row * L.rowSize + if order = 0 then 0 else (order - 1) * L.directions + 1 + direction

/-- The row size, checked. -/
def stride (L : Layout) : Except Fault Nat := do
  let orders ← Index.sub L.capOrder 1
  Index.add (← Index.mul orders L.directions) 1

/-- The cell of a coefficient, checked. The direction is checked at order 0 too, and then
ignored. -/
def offset (L : Layout) (row order direction : Nat) : Except Fault Nat := do
  require (order < L.capOrder) (.orderPastCap order L.capOrder)
  require (direction < L.directions) (.directionPastEnd direction L.directions)
  let base ← Index.mul row (← L.stride)
  if order = 0 then
    return base
  else
    let first ← Index.add base (← Index.mul (order - 1) L.directions)
    Index.add (← Index.add first 1) direction

/-- Cells in an arena of `rows` rows. -/
def length (L : Layout) (rows : Nat) : Except Fault Nat := do
  Index.mul rows (← L.stride)

theorem stride_eq_ok_iff {L : Layout} {n : Nat} :
    L.stride = .ok n ↔ 1 ≤ L.capOrder ∧ L.rowSize < Index.bound ∧ n = L.rowSize := by
  simp only [stride, rowSize, bind_eq_ok_iff, Index.sub_eq_ok_iff, Index.mul_eq_ok_iff,
    Index.add_eq_ok_iff]
  constructor
  · rintro ⟨_, ⟨h, rfl⟩, _, ⟨-, rfl⟩, hlt, rfl⟩
    exact ⟨h, hlt, rfl⟩
  · rintro ⟨h, hlt, rfl⟩
    exact ⟨_, ⟨h, rfl⟩, _, ⟨by omega, rfl⟩, hlt, rfl⟩

theorem length_eq_ok_iff {L : Layout} {rows n : Nat} (h : L.stride = .ok L.rowSize) :
    L.length rows = .ok n ↔ rows * L.rowSize < Index.bound ∧ n = rows * L.rowSize := by
  simp [length, h, bind_eq_ok_iff, Index.mul_eq_ok_iff]

theorem order_lt_of_offset {L : Layout} {row order direction i : Nat}
    (h : L.offset row order direction = .ok i) :
    order < L.capOrder ∧ direction < L.directions := by
  simp only [offset, bind_eq_ok_iff, require_eq_ok_iff] at h
  obtain ⟨_, ho, _, hd, -⟩ := h
  exact ⟨ho, hd⟩

theorem eq_cell_of_offset {L : Layout} {row order direction i : Nat}
    (h : L.offset row order direction = .ok i) : i = L.cell row order direction := by
  simp only [offset, bind_eq_ok_iff, require_eq_ok_iff, stride_eq_ok_iff,
    Index.mul_eq_ok_iff] at h
  obtain ⟨_, -, _, -, _, ⟨-, -, rfl⟩, _, ⟨-, rfl⟩, h⟩ := h
  unfold cell
  split at h
  · rename_i h0
    cases h
    simp [h0]
  · rename_i h0
    simp only [bind_eq_ok_iff, Index.mul_eq_ok_iff, Index.add_eq_ok_iff] at h
    obtain ⟨_, ⟨-, rfl⟩, _, ⟨-, rfl⟩, _, ⟨-, rfl⟩, -, rfl⟩ := h
    simp only [h0, if_false]
    omega

end Layout

end JetTape
