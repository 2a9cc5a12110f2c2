import JetTape.Call.Frame
import JetTape.Replay.Event

/-!
The state of a replay. A replay stops early at a fault or at an operator that refuses a request,
and what it has written, requested and reported until then stays.
-/
namespace JetTape

/-- Why a replay stopped early. -/
inductive Stop where
  | fault (f : Fault)
  | refused (operator : String) (order direction : Nat)
  deriving DecidableEq, Repr

def Stop.message : Stop → String
  | fault f => f.message
  | refused operator order direction =>
    s!"{operator}: atomic forward returned false (order {order}, direction {direction})"

/-- What a sweep reports. Coefficients are reported only at `trace` verbosity and if `trace` is
set. -/
structure Options where
  trace : Bool := false
  verbosity : Verbosity := .quiet

structure ReplayState (F : Type) where
  arena : Arena F
  /-- The open call block, if any. -/
  frame : Option (Call.Frame F) := none
  /-- The requests made to operators, in order. -/
  requests : Array (Request F) := #[]
  events : Array (Event F) := #[]

abbrev Replay (F α : Type) : Type := EStateM Stop (ReplayState F) α

/-- What a replay leaves. -/
structure Run (F : Type) where
  /-- Why it stopped early; `none` if it came to its end. -/
  stop : Option Stop
  cells : Array F
  requests : Array (Request F)
  events : Array (Event F)

namespace Replay

variable {F : Type}

/-- Runs an update of the arena. -/
def update {α : Type} (m : Arena.Update F α) : Replay F α := fun s =>
  match s with
  | ⟨arena, frame, requests, events⟩ =>
    match m arena with
    | .ok x arena => .ok x ⟨arena, frame, requests, events⟩
    | .error f arena => .error (.fault f) ⟨arena, frame, requests, events⟩

instance : MonadLift (EStateM Fault (Arena F)) (EStateM Stop (ReplayState F)) where
  monadLift := update

def setFrame (frame : Option (Call.Frame F)) : Replay F Unit := modify fun s => { s with frame }

def request (r : Request F) : Replay F Unit :=
  modify fun s => { s with requests := s.requests.push r }

def report (options : Options) (e : Event F) : Replay F Unit :=
  if e.isReported options.verbosity then
    modify fun s => { s with events := s.events.push e }
  else pure ()

/-- Runs a replay on an arena. -/
def run (m : Replay F Unit) (arena : Arena F) : Run F :=
  match m { arena } with
  | .ok _ s => ⟨none, s.arena.cells, s.requests, s.events⟩
  | .error stop s => ⟨some stop, s.arena.cells, s.requests, s.events⟩

end Replay

end JetTape
