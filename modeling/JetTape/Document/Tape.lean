import JetTape.Document.Basic
import JetTape.Tape.Basic

/-!
Stored tapes. A tape that has operators cannot be stored, since their functions cannot. A tape is
read from a record, or from a list of its fields in order; its tables must fit together, and its
calls could not be replayed.
-/
namespace JetTape.Tape

open Document

variable {F : Type}

/-- The stored form of a tape. -/
def toDocument [Binary F] (t : Tape F) : Except DocumentError (Document F) :=
  if t.callsOperators then .error .callsOperators
  else .ok <| .record [
    ("ops", .list (t.ops.toList.map (.text ·.name))),
    ("arg_start", ofNats t.argStart),
    ("args", ofNats t.args),
    ("result_vars", ofNats t.resultRows),
    ("parameters", ofScalars t.params),
    ("num_independent", ofNat t.independents),
    ("num_variables", ofNat t.rows),
    ("num_load_ops", ofNat t.loads)]

/-- Reads a number as wide as a stored argument. -/
def short : Reader F Nat := nat Index.argBound

/-- The tables as stored, before they are checked. -/
def readTables [Scalar F] : Reader F (Tape F)
  | .list items => items |> inOrder do
    return {
      ops := ← item (array Document.opcode)
      argStart := ← item (array short)
      args := ← item (array short)
      resultRows := ← item (array short)
      params := ← item (array scalar)
      independents := ← item short
      rows := ← item short
      loads := (← item? short).getD 0
      registry := #[] }
  | .record fields => do
    let ops ← field? fields "ops" (array Document.opcode)
    let argStart ← field? fields "arg_start" (array short)
    let args ← field? fields "args" (array short)
    let resultRows ← field? fields "result_vars" (array short)
    let params ← field? fields "parameters" (array scalar)
    let independents ← field? fields "num_independent" short
    let rows ← field? fields "num_variables" short
    let loads ← field? fields "num_load_ops" short
    return {
      ops := ← need "ops" ops
      argStart := ← need "arg_start" argStart
      args := ← need "args" args
      resultRows := ← need "result_vars" resultRows
      params := ← need "parameters" params
      independents := ← need "num_independent" independents
      rows := ← need "num_variables" rows
      loads := loads.getD 0
      registry := #[] }
  | _ => .error .malformed

/-- Whether the lengths of the tables and the last argument offset agree. -/
def tablesAgree (t : Tape F) : Bool :=
  t.argStart.size = t.ops.size + 1 && t.resultRows.size = t.ops.size &&
    t.argStart.back? = some t.args.size

/-- Reads a stored tape. -/
def ofDocument [Scalar F] (d : Document F) : Except DocumentError (Tape F) := do
  let t ← readTables d
  check t.tablesAgree .inconsistentTables
  check (t.ops[0]? = some .start) .noStart
  check (¬ t.ops.contains .callMarker) .unregisteredCalls
  return t

end JetTape.Tape
