import JetTape.Opcode
import JetTape.Call.Phase

/-!
Faults: everything that stops a computation because its input is malformed. A constructor is a
cause together with the values that its report names, and `Fault.message` is the report.
-/
namespace JetTape

open Call (Phase)

inductive Fault where
  | addOverflow
  | subOverflow
  | mulOverflow
  | indexPastEnd (length index : Nat)
  | sliceStart (start length : Nat)
  | sliceStop (stop length : Nat)
  | sliceReversed (start stop : Nat)
  | roomExceeded
  | noOrders
  | noDirections
  | orderPastCap (order capOrder : Nat)
  | directionPastEnd (direction directions : Nat)
  | partialRow (excess : Nat)
  | rowPastEnd (row : Nat)
  | unknownRelation (code : Nat)
  | chooseArgs (given : Nat)
  | sumArgs (given needed : Nat)
  | sumCount (stored needed : Nat)
  | loadSlotPastEnd (slot : Nat)
  | loadNotEarlier
  | unknownOperator (index : Nat)
  | markerInside (operator : String) (phase : Phase) (args ofArgs results ofResults : Nat)
  | closingCallId (opened closing : Nat)
  | closingCounts (opened closing : Nat × Nat)
  | argOutside (phase : Phase)
  | resultOutside (phase : Phase)
  | callOpenAtStop (phase : Phase)
  | operator (report : String)
  | orderZero
  | orderPastLayout (order capOrder : Nat)
  | arenaLength (given needed : Nat)
  | maskLength (given needed : Nat)
  | loadTableLength (given needed : Nat)
  | noStart
  | notIndependent (i : Nat)
  | strayStart (i : Nat)
  | strayIndependent (i : Nat)
  | skippedPastEnd (i : Nat)
  | skippedCallNotClosed (operator : String) (i : Nat)
  | stopped
  | lateIndependent (recorded expected : Nat)
  | dedicatedMethod (op : Opcode)
  | operandCount (op : Opcode) (given needed : Nat)
  | notComparison (op : Opcode)
  | variablePastEnd (x rows : Nat)
  | parameterPastEnd (p : Nat)
  | tooManyParameters
  | tooManyOperators
  | unregistered (handle : Nat)
  | callIdTooLarge (callId : Nat)
  | notStopped
  | foreignBuffer (given needed : Nat)
  | orderPastBuffer (order : Nat)
  deriving DecidableEq, Repr

namespace Fault

/-- The report of two values that should have been equal. -/
def unequal (what : String) (left right : String) : String :=
  let head := "assertion `left == right` failed"
  let head := if what.isEmpty then head else s!"{head}: {what}"
  s!"{head}\n  left: {left}\n right: {right}"

def pair (p : Nat × Nat) : String := s!"({p.1}, {p.2})"

def message : Fault → String
  | addOverflow => "attempt to add with overflow"
  | subOverflow => "attempt to subtract with overflow"
  | mulOverflow => "attempt to multiply with overflow"
  | indexPastEnd length index =>
    s!"index out of bounds: the len is {length} but the index is {index}"
  | sliceStart start length =>
    s!"range start index {start} out of range for slice of length {length}"
  | sliceStop stop length => s!"range end index {stop} out of range for slice of length {length}"
  | sliceReversed start stop => s!"slice index starts at {start} but ends at {stop}"
  | roomExceeded => "capacity overflow"
  | noOrders => "cap_order must be >= 1"
  | noDirections => "directions must be >= 1"
  | orderPastCap order capOrder => s!"order {order} >= cap_order {capOrder}"
  | directionPastEnd direction directions => s!"direction {direction} >= {directions}"
  | partialRow excess =>
    unequal "buffer length is not a multiple of the row stride" s!"{excess}" "0"
  | rowPastEnd row => s!"variable {row} out of range"
  | unknownRelation code => s!"invalid comparison literal {code} in tape"
  | chooseArgs given => unequal "" s!"{given}" "6"
  | sumArgs given needed => unequal "" s!"{given}" s!"{needed}"
  | sumCount stored needed => unequal "" s!"{stored}" s!"{needed}"
  | loadSlotPastEnd slot => s!"load slot {slot} out of range"
  | loadNotEarlier => "load resolved to a later variable"
  | unknownOperator index => s!"atomic operator {index} is not registered"
  | markerInside who phase args ofArgs results ofResults =>
    s!"atomic call marker for {who} reached in state {phase.name} " ++
      s!"({args} of {ofArgs} args, {results} of {ofResults} results)"
  | closingCallId opened closing =>
    unequal "closing marker call id mismatch" s!"{opened}" s!"{closing}"
  | closingCounts opened closing =>
    unequal "closing marker count mismatch" (pair opened) (pair closing)
  | argOutside phase => unequal "argument outside argument stage" phase.name Phase.args.name
  | resultOutside phase => unequal "result outside result stage" phase.name Phase.results.name
  | callOpenAtStop phase => s!"atomic call left open at End (state {phase.name})"
  | operator report => report
  | orderZero => "forward_dir requires order > 0"
  | orderPastLayout order capOrder => s!"order {order} does not fit cap_order {capOrder}"
  | arenaLength given needed =>
    unequal "coefficient buffer does not match tape variable count" s!"{given}" s!"{needed}"
  | maskLength given needed =>
    unequal "skip mask length does not match tape" s!"{given}" s!"{needed}"
  | loadTableLength given needed => unequal "" s!"{given}" s!"{needed}"
  | noStart => "tape does not start with Begin"
  | notIndependent i => s!"instruction {i} is not an independent declaration"
  | strayStart i => s!"Begin at instruction {i}"
  | strayIndependent i => s!"Inv at instruction {i}"
  | skippedPastEnd i => s!"skip ran past the end of the tape at instruction {i}"
  | skippedCallNotClosed who i =>
    s!"skipped atomic call for {who} is not closed at instruction {i}"
  | stopped => "tape already ended"
  | lateIndependent recorded expected =>
    unequal "independents must be declared before any other instruction"
      s!"{recorded}" s!"{expected}"
  | dedicatedMethod op => s!"{op.name} must be recorded with its dedicated method"
  | operandCount op given needed =>
    unequal s!"wrong number of arguments for {op.name}" s!"{given}" s!"{needed}"
  | notComparison op => s!"{op.name} is not a comparison"
  | variablePastEnd x rows =>
    s!"variable index {x} out of range (tape has {rows} variables)"
  | parameterPastEnd p => s!"parameter index {p} out of range"
  | tooManyParameters => "too many parameters"
  | tooManyOperators => "too many atomic operators"
  | unregistered handle => s!"unregistered atomic operator {handle}"
  | callIdTooLarge callId => s!"call id {callId} too large"
  | notStopped => "tape has not been ended"
  | foreignBuffer given needed =>
    unequal "buffer sized for a different tape" s!"{given}" s!"{needed}"
  | orderPastBuffer order => s!"order {order} does not fit the buffer"

end Fault

/-- Goes on only if `p` holds. -/
def require (p : Prop) [Decidable p] (f : Fault) : Except Fault Unit :=
  if p then .ok () else .error f

theorem bind_eq_ok_iff {ε α β : Type} {x : Except ε α} {f : α → Except ε β} {b : β} :
    x >>= f = .ok b ↔ ∃ a, x = .ok a ∧ f a = .ok b := by
  cases x <;> simp [bind, Except.bind]

@[simp] theorem require_eq_ok_iff {p : Prop} [Decidable p] {f : Fault} {u : Unit} :
    require p f = .ok u ↔ p := by
  unfold require; split <;> simp_all

end JetTape
