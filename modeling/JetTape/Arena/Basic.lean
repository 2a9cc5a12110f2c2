import JetTape.Arena.Layout
import JetTape.Loop
import JetTape.Scalar

/-!
Coefficient arenas. `Arena.Read` is a computation that looks at an arena, `Arena.Update` one that
also changes it; both may end in a fault, and the changes made before a fault stay.
-/
namespace JetTape

/-- Cells arranged in rows by a layout. -/
structure Arena (F : Type) where
  layout : Layout
  cells : Array F

namespace Arena

variable {F : Type}

/-- Cells that make up whole rows. -/
def ofCells (layout : Layout) (cells : Array F) : Except Fault (Arena F) := do
  let excess := cells.size % (← layout.stride)
  require (excess = 0) (.partialRow excess)
  return ⟨layout, cells⟩

/-- How many rows there are. -/
def rows (a : Arena F) : Except Fault Nat := do
  return a.cells.size / (← a.layout.stride)

/-- The cell of a coefficient that the arena holds. -/
def locate (a : Arena F) (row order direction : Nat) : Except Fault Nat := do
  let i ← a.layout.offset row order direction
  require (i < a.cells.size) (.rowPastEnd row)
  return i

def get (a : Arena F) (row order direction : Nat) : Except Fault F := do
  Index.get a.cells (← a.locate row order direction)

/-- All cells of a row. -/
def row (a : Arena F) (row : Nat) : Except Fault (List F) := do
  let stride ← a.layout.stride
  let first ← Index.mul row stride
  let next ← Index.mul (← Index.add row 1) stride
  Index.slice a.cells first next

/-- An arena of zeros with `n` rows. -/
def zeros [Zero F] (layout : Layout) (n : Nat) : Arena F :=
  ⟨layout, Array.replicate (n * layout.rowSize) 0⟩

/-- The content of a cell that is known to be inside the arena. -/
def peek [Zero F] (a : Arena F) (row order direction : Nat) : F :=
  a.cells.getD (a.layout.cell row order direction) 0

/-- Fills a cell that is known to be inside the arena. -/
def poke (a : Arena F) (row order direction : Nat) (x : F) : Arena F :=
  { a with cells := a.cells.setIfInBounds (a.layout.cell row order direction) x }

/-- Fills listed cells. -/
def pokeAll (a : Arena F) (places : List (Nat × Nat × Nat)) (value : Nat → Nat → Nat → F) :
    Arena F :=
  places.foldl (fun a (v, k, l) => a.poke v k l (value v k l)) a

abbrev Read (F α : Type) : Type := ReaderT (Arena F) (Except Fault) α

abbrev Update (F α : Type) : Type := EStateM Fault (Arena F) α

instance : MonadLift (ReaderT (Arena F) (Except Fault)) (EStateM Fault (Arena F)) where
  monadLift r a :=
    match r a with
    | .ok x => .ok x a
    | .error f => .error f a

/-- The coefficient of a row at an order, along a direction. -/
def coeff (row order direction : Nat) : Read F F := fun a => a.get row order direction

def directions : Read F Nat := fun a => .ok a.layout.directions

def setCoeff (row order direction : Nat) (x : F) : Update F Unit := fun a =>
  match a.locate row order direction with
  | .ok i => .ok () { a with cells := a.cells.setIfInBounds i x }
  | .error f => .error f a

/-- Does something along every direction, in order. -/
def eachDirection (body : Nat → Update F Unit) : Update F Unit := do
  Loop.each (← (directions : Read F Nat)) 0 body

/-- Gives a row at order `q` a value along every direction; each value is read just before it is
written. -/
def assign (row q : Nat) (value : Nat → Read F F) : Update F Unit :=
  eachDirection fun l => do
    setCoeff row q l (← value l)

/-- Sets a row to zero at order `q`. -/
def zeroOrder [Scalar F] (row q : Nat) : Update F Unit := assign row q fun _ => return 0

/-- Copies order `q` of a row. -/
def copyOrder (target source q : Nat) : Update F Unit := assign target q fun l => coeff source q l

end Arena

end JetTape
