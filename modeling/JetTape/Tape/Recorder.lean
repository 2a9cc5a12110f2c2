import JetTape.Loop
import JetTape.Opcode.Relation
import JetTape.Tape.Basic

/-!
Recording. Each recording step checks its operands and appends instructions. A step that ends in
a fault leaves what it did before the fault. Steps that create a variable answer with its row.
-/
namespace JetTape

/-- A variable row or a parameter index as an operand. -/
inductive Operand where
  | var (x : Nat)
  | par (p : Nat)
  deriving DecidableEq, Repr

namespace Operand

def source : Operand → Source
  | var _ => .var
  | par _ => .par

def index : Operand → Nat
  | var x => x
  | par p => p

/-- The flag for a variable, nothing for a parameter. -/
def flag (bit : Nat) : Operand → Nat
  | var _ => bit
  | par _ => 0

end Operand

/-- A result of a recorded call: a variable of its own or a constant. -/
inductive CallResult (F : Type) where
  | var
  | constant (value : F)

abbrev Recorder (F α : Type) : Type := EStateM Fault (Tape F) α

instance {F : Type} : MonadLift (Except Fault) (EStateM Fault (Tape F)) where
  monadLift x t :=
    match x with
    | .ok a => .ok a t
    | .error f => .error f t

namespace Recorder

variable {F : Type}

/-- Appends an instruction and answers with its primary row, or with the latest row if it has no
result. -/
def append (op : Opcode) (args : List Nat) : Recorder F Nat := do
  require (¬ (← get).isStopped) .stopped
  let rows ← Index.count (← get).rows op.resultCount
  modify (·.append op args rows)
  return rows - 1

def checkVar (x : Nat) : Recorder F Unit := do
  let t ← get
  require (0 < x ∧ x < t.rows) (.variablePastEnd x t.rows)

def checkPar (p : Nat) : Recorder F Unit := do
  require (p < (← get).params.size) (.parameterPastEnd p)

def checkIndex : Source → Nat → Recorder F Unit
  | .var, x => checkVar x
  | .par, p => checkPar p

def checkOperand (a : Operand) : Recorder F Unit := checkIndex a.source a.index

def independent : Recorder F Nat := do
  let n ← Index.count (← get).independents 1
  modify ({ · with independents := n })
  append .independent []

/-- Declares `n` independents. Nothing else may have been recorded. -/
def independents (n : Nat) : Recorder F (Array Nat) := do
  let t ← get
  require (t.ops.size = 1 + t.independents) (.lateIndependent t.ops.size (1 + t.independents))
  Index.reserve n 4
  Loop.collect n 0 fun _ => independent

/-- Adds a constant to the parameter table. -/
def parameter (value : F) : Recorder F Nat := do
  let p := (← get).params.size
  require (p < Index.argBound - 1) .tooManyParameters
  modify fun t => { t with params := t.params.push value }
  return p

/-- Records an arithmetic, power or elementary operation. -/
def operation (op : Opcode) (args : List Nat) : Recorder F Nat := do
  match op.sources? with
  | none => throw (.dedicatedMethod op)
  | some sources =>
    require (args.length = sources.length) (.operandCount op args.length sources.length)
    (sources.zip args).forM fun (s, i) => checkIndex s i
    append op args

/-- Records a variable that holds a parameter. -/
def constant (p : Nat) : Recorder F Nat := do
  checkPar p
  append .constant [p]

/-- Records the error function of `x`, with the two parameters that it needs. -/
def erf [Scalar F] (x : Nat) : Recorder F Nat := do
  checkVar x
  let origin ← parameter 0
  let scale ← parameter Scalar.twoOverSqrtPi
  append .erf [x, origin, scale]

/-- Records a discrete function of `x`. -/
def discrete (function x : Nat) : Recorder F Nat := do
  checkVar x
  append .discrete [function, x]

/-- Records a conditional. -/
def choose (r : Relation) (left right ifTrue ifFalse : Operand) : Recorder F Nat := do
  checkOperand left
  checkOperand right
  checkOperand ifTrue
  checkOperand ifFalse
  let flags := left.flag 1 + right.flag 2 + ifTrue.flag 4 + ifFalse.flag 8
  append .choose [r.code, flags, left.index, right.index, ifTrue.index, ifFalse.index]

/-- Records the sum of a parameter and added variables, less the subtracted ones. -/
def sum (p : Nat) (added subtracted : List Nat) : Recorder F Nat := do
  checkPar p
  (added ++ subtracted).forM checkVar
  append .sum ([Index.toArg added.length, Index.toArg subtracted.length, p] ++ added ++
    subtracted ++ [Index.toArg (added.length + subtracted.length)])

/-- Records which instructions may be skipped when a relation holds at order 0, and which when it
does not. -/
def skip (r : Relation) (left right : Operand) (ifTrue ifFalse : List Nat) :
    Recorder F Unit := do
  checkOperand left
  checkOperand right
  let flags := left.flag 1 + right.flag 2
  let _ ← append .skip ([r.code, flags, left.index, right.index, Index.toArg ifTrue.length,
    Index.toArg ifFalse.length] ++ ifTrue ++ ifFalse ++
    [Index.toArg (ifTrue.length + ifFalse.length)])

/-- Records an indirect load, which takes a slot of its own. -/
def load (offset : Nat) (index : Operand) : Recorder F Nat := do
  checkOperand index
  let slot := (← get).loads
  let loads ← Index.count slot 1
  modify ({ · with loads := loads })
  append (.load index.source) [offset, index.index, slot]

/-- Records an indirect store. -/
def store (offset : Nat) (index value : Operand) : Recorder F Unit := do
  checkOperand index
  checkOperand value
  let _ ← append (.store index.source value.source) [offset, index.index, value.index]

/-- Records a comparison. -/
def compare (op : Opcode) (left right : Nat) : Recorder F Unit := do
  match op with
  | .compare f =>
    checkIndex f.sources.1 left
    checkIndex f.sources.2 right
    let _ ← append op [left, right]
  | _ => throw (.notComparison op)

/-- Records a print. The texts around the value are identified by numbers. -/
def print (position : Operand) (before : Nat) (value : Operand) (after : Nat) :
    Recorder F Unit := do
  checkOperand position
  checkOperand value
  let flags := position.flag 1 + value.flag 2
  let _ ← append .print [position.index, before, value.index, after, flags]

/-- Adds an operator to the registry and answers with its handle. -/
def register (operator : Operator F) : Recorder F Nat := do
  let handle := (← get).registry.size
  require (handle < Index.argBound - 1) .tooManyOperators
  modify fun t => { t with registry := t.registry.push operator }
  return handle

def callArg (a : Operand) : Recorder F Unit := do
  checkOperand a
  let _ ← append (.callArg a.source) [a.index]

/-- Answers with the row of a variable result. -/
def callResult : CallResult F → Recorder F (Option Nat)
  | .var => do return some (← append (.callResult .var) [])
  | .constant value => do
    let p ← parameter value
    let _ ← append (.callResult .par) [p]
    return none

/-- Records a call of a registered operator: a marker, the arguments, the results, and the marker
again. -/
def call (handle callId : Nat) (args : List Operand) (results : List (CallResult F)) :
    Recorder F (List (Option Nat)) := do
  require (handle < (← get).registry.size) (.unregistered handle)
  require (callId < Index.argBound) (.callIdTooLarge callId)
  let header := [handle, callId, Index.toArg args.length, Index.toArg results.length]
  let _ ← append .callMarker header
  args.forM callArg
  let rows ← results.mapM callResult
  let _ ← append .callMarker header
  return rows

/-- Records the last instruction. -/
def finish : Recorder F Unit := do
  let _ ← append .stop []

end Recorder

end JetTape
