import JetTape.Arena.Buffer
import JetTape.Document.Basic

/-!
Stored buffers. What is read is taken as it is: neither a layout without orders or directions nor
a length that does not fit is refused.
-/
namespace JetTape

open Document

variable {F : Type}

/-- Reads an index. -/
def Document.index : Reader F Nat := nat Index.bound

namespace Layout

def toDocument (L : Layout) : Document F :=
  .record [("cap_order", ofNat L.capOrder), ("directions", ofNat L.directions)]

def ofDocument : Reader F Layout
  | .list items => items |> inOrder do
    return { capOrder := ← item index, directions := ← item index }
  | .record fields => do
    let capOrder ← field? fields "cap_order" index
    let directions ← field? fields "directions" index
    return {
      capOrder := ← need "cap_order" capOrder
      directions := ← need "directions" directions }
  | _ => .error .malformed

end Layout

namespace Buffer

def toDocument [Binary F] (b : Buffer F) : Document F :=
  .record [("data", ofScalars b.cells), ("layout", b.layout.toDocument),
    ("num_vars", ofNat b.rows)]

def ofDocument [Scalar F] : Reader F (Buffer F)
  | .list items => items |> inOrder do
    let cells ← item (array scalar)
    let layout ← item Layout.ofDocument
    return { arena := { layout, cells }, rows := ← item index }
  | .record fields => do
    let cells ← field? fields "data" (array scalar)
    let layout ← field? fields "layout" Layout.ofDocument
    let rows ← field? fields "num_vars" index
    let cells ← need "data" cells
    let layout ← need "layout" layout
    return { arena := { layout, cells }, rows := ← need "num_vars" rows }
  | _ => .error .malformed

end Buffer

end JetTape
