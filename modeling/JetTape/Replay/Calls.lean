import JetTape.Replay.Basic

/-!
Call blocks in a replay: a marker, one instruction for each argument and each result, and a
closing marker. The operator is asked once for each direction when the block closes. Results are
written only after it has accepted every direction, so a refusal leaves the rows as they were.
-/
namespace JetTape.Replay

open Call (Frame)

variable {F : Type} [Scalar F]

/-- Asks the operator along one direction for the order-`q` coefficients of the results, which the
frame takes over. -/
def ask (options : Options) (operator : Operator F) (q : Nat) (frame : Frame F) (l : Nat) :
    Replay F (Frame F) := do
  let frame := frame.turn q l
  let r := frame.request q
  request r
  match operator.forward r with
  | .accept results => return frame.answer q l results.toArray
  | .refuse =>
    report options (.refused operator.name frame.callId q l)
    throw (.refused operator.name q l)
  | .fault report => throw (.fault (.operator report))

/-- Writes the order-`q` coefficients of staged results to their rows. The phantom row receives
none. -/
def scatter (q : Nat) (results : Arena F) (targets : List Nat) : Arena.Update F Unit :=
  targets.zipIdx.forM fun (row, i) =>
    if 0 < row then Arena.assign row q fun l => return results.peek i q l else pure ()

def closeCall (options : Options) (q : Nat) (frame : Frame F) (site : CallSite F) :
    Replay F Unit := do
  frame.checkClosing site
  setFrame none
  let r ← (Arena.directions : Arena.Read F Nat)
  let frame ← Loop.fold r 0 (ask options site.operator q) frame
  scatter q frame.results.all frame.targets.toList

/-- A call marker opens a block or closes a finished one. -/
def marker (options : Options) (q : Nat) (site : CallSite F) : Replay F Unit := do
  match (← get).frame with
  | none =>
    let r ← (Arena.directions : Arena.Read F Nat)
    setFrame (some (← Frame.new site q r))
  | some frame =>
    match frame.phase with
    | .finished => closeCall options q frame site
    | phase =>
      throw (.fault (.markerInside site.operator.name phase frame.seenArgs frame.argCount
        frame.seenResults frame.resultCount))

/-- Adds an argument to the open block, which must be waiting for one. -/
def takeArg (value : Nat → Nat → Arena.Read F F) : Replay F Unit := do
  match (← get).frame with
  | some frame =>
    require (frame.phase = .args) (.argOutside frame.phase)
    setFrame (some (← frame.putArg value))
  | none => throw (.fault (.argOutside .start))

/-- Adds a result to the open block, which must be waiting for one. -/
def takeResult (row : Nat) (value : Nat → Nat → Arena.Read F F) : Replay F Unit := do
  match (← get).frame with
  | some frame =>
    require (frame.phase = .results) (.resultOutside frame.phase)
    setFrame (some (← frame.putResult row value))
  | none => throw (.fault (.resultOutside .start))

end JetTape.Replay
