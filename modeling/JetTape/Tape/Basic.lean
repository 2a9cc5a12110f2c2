import JetTape.Program

/-!
Recorded tapes. A tape keeps its instructions in parallel tables: operations, the start of each
argument list in one table of all arguments, and primary result rows. It also holds the parameter
table and the registry of the operators it calls. Row 0 is the phantom result of `start`, and the
independents own the rows that follow.
-/
namespace JetTape

structure Tape (F : Type) where
  ops : Array Opcode
  /-- Instruction `i` has the arguments from `argStart[i]` up to `argStart[i + 1]`. -/
  argStart : Array Nat
  args : Array Nat
  /-- The primary result row of each instruction. -/
  resultRows : Array Nat
  params : Array F
  independents : Nat
  rows : Nat
  loads : Nat
  registry : Array (Operator F)

namespace Tape

variable {F : Type}

/-- The tape that holds only its `start`. -/
def empty : Tape F where
  ops := #[.start]
  argStart := #[0, 1]
  args := #[0]
  resultRows := #[0]
  params := #[]
  independents := 0
  rows := 1
  loads := 0
  registry := #[]

/-- An empty tape with room for `n` instructions and two arguments for each. -/
def withCapacity (n : Nat) : Except Fault (Tape F) := do
  Index.reserve (2 * n + 1) 4
  return empty

/-- Whether the last instruction is `stop`. -/
def isStopped (t : Tape F) : Bool := t.ops.back? = some .stop

/-- Adds an instruction that leaves the tape with `rows` rows. -/
def append (t : Tape F) (op : Opcode) (args : List Nat) (rows : Nat) : Tape F :=
  let all := t.args ++ args.toArray
  { t with
    ops := t.ops.push op
    args := all
    argStart := t.argStart.push (Index.toArg all.size)
    resultRows := t.resultRows.push (rows - 1)
    rows }

def opcode (t : Tape F) (i : Nat) : Except Fault Opcode := Index.get t.ops i

def instr (t : Tape F) (i : Nat) : Except Fault Instr := do
  let start ← Index.get t.argStart i
  let stop ← Index.get t.argStart (i + 1)
  let op ← Index.get t.ops i
  let args ← Index.slice t.args start stop
  let row ← Index.get t.resultRows i
  return { op, args, row }

/-- The call that a marker with these arguments describes. -/
def callSite (t : Tape F) (args : List Nat) : Except Fault (CallSite F) :=
  CallSite.ofArgs t.registry args

/-- The operator behind a handle. -/
def operator (t : Tape F) (handle : Nat) : Except Fault (Operator F) :=
  Index.get t.registry handle

def callsOperators (t : Tape F) : Bool := !t.registry.isEmpty

/-- The mask that marks nothing. -/
def noSkip (t : Tape F) : Array Bool := Array.replicate t.ops.size false

def program (t : Tape F) : Program F where
  instrCount := t.ops.size
  rowCount := t.rows
  independentCount := t.independents
  loadCount := t.loads
  params := t.params
  instr := t.instr
  callSite := t.callSite

@[simp] theorem ops_append (t : Tape F) (op : Opcode) (args : List Nat) (rows : Nat) :
    (t.append op args rows).ops = t.ops.push op := rfl

@[simp] theorem args_append (t : Tape F) (op : Opcode) (args : List Nat) (rows : Nat) :
    (t.append op args rows).args = t.args ++ args.toArray := rfl

@[simp] theorem resultRows_append (t : Tape F) (op : Opcode) (args : List Nat) (rows : Nat) :
    (t.append op args rows).resultRows = t.resultRows.push (rows - 1) := rfl

@[simp] theorem rows_append (t : Tape F) (op : Opcode) (args : List Nat) (rows : Nat) :
    (t.append op args rows).rows = rows := rfl

@[simp] theorem isStopped_append (t : Tape F) (op : Opcode) (args : List Nat) (rows : Nat) :
    (t.append op args rows).isStopped = decide (op = .stop) := by
  simp [isStopped, append]

end Tape

end JetTape
