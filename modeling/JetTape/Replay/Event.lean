import JetTape.Opcode
import JetTape.Scalar.Text

/-!
What a sweep reports while it runs. An event is kept as data; `Event.text` is its line in a log.
-/
namespace JetTape

/-- How much is reported. -/
inductive Verbosity where
  | quiet
  | debug
  | trace
  deriving DecidableEq, Repr, Inhabited

inductive Event (F : Type) where
  | sweepStarts (order directions instrs rows : Nat)
  | refused (operator : String) (callId order direction : Nat)
  /-- The instructions from `first` up to `next` were passed over. -/
  | skipped (first next : Nat)
  | replayed (i : Nat) (op : Opcode)
  /-- The primary row of an instruction, with its coefficients from order 1 on for each
  direction. -/
  | computed (i : Nat) (op : Opcode) (row : Nat) (value : F) (series : Array (Array F))

namespace Event

variable {F : Type}

/-- The least verbosity that reports the event. -/
def verbosity : Event F → Verbosity
  | sweepStarts .. | refused .. => .debug
  | skipped .. | replayed .. | computed .. => .trace

def isReported (e : Event F) : Verbosity → Bool
  | .quiet => false
  | .debug => e.verbosity = .debug
  | .trace => true

/-- Instruction indices are set flush right in six columns. -/
def column (i : Nat) : String :=
  let s := toString i
  "".pushn ' ' (6 - s.length) ++ s

def bracketed (xs : List String) : String := "[" ++ ", ".intercalate xs ++ "]"

def body [Binary F] : Event F → String
  | sweepStarts order directions instrs rows =>
    s!"forward sweep: order {order}, {directions} directions, {instrs} ops, {rows} vars"
  | refused operator callId order direction =>
    s!"atomic {operator} (call {callId}) refused order {order} direction {direction}"
  | skipped first next => s!"skipped instructions {first}..{next}"
  | replayed i op => s!"{column i} {op.name}"
  | computed i op row value series =>
    let rows := series.toList.map fun s => bracketed (s.toList.map fullText)
    s!"{column i} {op.name} v{row} = {plainText value} {bracketed rows}"

/-- The event's line in a log. -/
def text [Binary F] (e : Event F) : String :=
  (if e.verbosity = .debug then "DEBUG " else "TRACE ") ++ e.body

end Event

end JetTape
