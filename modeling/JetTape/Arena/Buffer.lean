import JetTape.Arena.Basic

/-!
Buffers: arenas that know for how many rows they were made. A buffer is indexed without a row
check of its own, so a coefficient past its end is an index fault.
-/
namespace JetTape

structure Buffer (F : Type) where
  arena : Arena F
  rows : Nat

namespace Buffer

variable {F : Type}

/-- A buffer of zeros. -/
def new [Scalar F] (rows capOrder directions : Nat) : Except Fault (Buffer F) := do
  let layout ← Layout.new capOrder directions
  let n ← layout.length rows
  Index.reserve n (Scalar.bytes F)
  return ⟨⟨layout, Array.replicate n 0⟩, rows⟩

def layout (b : Buffer F) : Layout := b.arena.layout

def cells (b : Buffer F) : Array F := b.arena.cells

/-- The same buffer with other cells. -/
def withCells (b : Buffer F) (cells : Array F) : Buffer F :=
  { b with arena := { b.arena with cells } }

def get (b : Buffer F) (row order direction : Nat) : Except Fault F := do
  Index.get b.cells (← b.layout.offset row order direction)

def set (b : Buffer F) (row order direction : Nat) (x : F) : Except Fault (Buffer F) := do
  let i ← b.layout.offset row order direction
  require (i < b.cells.size) (.indexPastEnd b.cells.size i)
  return b.withCells (b.cells.setIfInBounds i x)

/-- The order-0 coefficient of a row. -/
def value (b : Buffer F) (row : Nat) : Except Fault F := b.get row 0 0

def setValue (b : Buffer F) (row : Nat) (x : F) : Except Fault (Buffer F) := b.set row 0 0 x

/-- The coefficients of a row up to order `q`, along one direction. -/
def series [Scalar F] (b : Buffer F) (row q direction : Nat) : Except Fault (Array F) := do
  Index.reserve (q + 1) (Scalar.bytes F)
  Loop.collect (q + 1) 0 fun k => b.get row k direction

/-- The buffer as an arena of whole rows. -/
def view (b : Buffer F) : Except Fault (Arena F) := Arena.ofCells b.layout b.cells

/-- Equal coefficients in the numeric sense, equal layouts and equal row counts. -/
def equal [Scalar F] (b c : Buffer F) : Bool :=
  b.cells.size == c.cells.size && (b.cells.zip c.cells).all (fun (x, y) => Scalar.eq x y) &&
    b.layout == c.layout && b.rows == c.rows

@[simp] theorem cells_withCells (b : Buffer F) (cells : Array F) :
    (b.withCells cells).cells = cells := rfl

@[simp] theorem layout_withCells (b : Buffer F) (cells : Array F) :
    (b.withCells cells).layout = b.layout := rfl

@[simp] theorem rows_withCells (b : Buffer F) (cells : Array F) :
    (b.withCells cells).rows = b.rows := rfl

end Buffer

end JetTape
