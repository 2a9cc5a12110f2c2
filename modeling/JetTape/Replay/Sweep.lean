import JetTape.Recurrence.Table
import JetTape.Replay.Calls
import JetTape.Replay.Cursor

/-!
Sweeps. The sweep of order `q` replays a program once, from the instruction after the
independents to the first `stop`, and gives every row but those of the independents its order-`q`
coefficients along all directions. Lower orders must be in the arena already.
-/
namespace JetTape.Replay

variable {F : Type} [Scalar F]

/-- Reports an instruction, with the new coefficients of its primary row if it has one. -/
def trace (options : Options) (q i : Nat) (ins : Instr) : Replay F Unit := do
  if options.trace && options.verbosity == .trace then
    if ins.op.resultCount = 0 ∨ ins.op = .callResult .var then
      report options (.replayed i ins.op)
    else
      let r ← (Arena.directions : Arena.Read F Nat)
      let series ← (Loop.collect r 0 fun l => Loop.collect q 1 fun k => Arena.coeff ins.row k l :
        Arena.Read F (Array (Array F)))
      let value ← (Arena.coeff ins.row 0 0 : Arena.Read F F)
      report options (.computed i ins.op ins.row value series)

/-- The coefficients of a constant. -/
def constantSeries (value : F) (k _l : Nat) : Arena.Read F F := return if k = 0 then value else 0

/-- Replays one instruction other than `stop`. -/
def step (p : Program F) (q : Nat) (resolved : Array Nat) (options : Options) (i : Nat)
    (ins : Instr) : Replay F Unit := do
  match ins.op with
  | .start => throw (.fault (.strayStart i))
  | .independent => throw (.fault (.strayIndependent i))
  | .callMarker => marker options q (← p.callSite ins.args)
  | .callArg .par =>
    let value ← Index.get p.params (← Index.arg ins.args 0)
    takeArg (constantSeries value)
  | .callArg .var =>
    let row ← Index.arg ins.args 0
    takeArg (Arena.coeff row)
  | .callResult .par =>
    let value ← Index.get p.params (← Index.arg ins.args 0)
    takeResult 0 (constantSeries value)
  | .callResult .var => takeResult ins.row (Arena.coeff ins.row)
  | .load _ => Recurrence.load (F := F) q ins.row ins.args resolved
  | op =>
    match Recurrence.ofOpcode? op with
    | some recurrence => recurrence q ins.row ins.args p.params
    | none => pure ()

/-- Reports the instructions that the cursor passed over, if there are any. -/
def reportSkipped (options : Options) (i j : Nat) : Replay F Unit :=
  if i < j then report options (.skipped i j) else pure ()

/-- No call block may be open at `stop`. -/
def checkClosed : Replay F Unit := do
  let phase := Call.phase (← get).frame
  require (phase = .start) (.callOpenAtStop phase)

/-- Replays the program from instruction `i` on, passing over what the mask marks. -/
def replayFrom (p : Program F) (q : Nat) (mask : Array Bool) (resolved : Array Nat)
    (options : Options) (i : Nat) : Replay F Unit :=
  match h : Cursor.next p mask i with
  | .error f => throw (.fault f)
  | .ok j => do
    reportSkipped options i j
    let ins ← p.instr j
    if ins.op = .stop then
      checkClosed
    else
      step p q resolved options j ins
      trace options q j ins
      replayFrom p q mask resolved options (j + 1)
termination_by mask.size - i
decreasing_by
  have hle := Cursor.le_of_next h
  have hlt := Cursor.lt_size_of_next h
  omega

/-- What must hold of a program, an arena, a mask and a load table before a sweep. -/
def checkShapes (p : Program F) (q : Nat) (mask : Array Bool) (resolved : Array Nat)
    (a : Arena F) : Except Fault Unit := do
  require (0 < q) .orderZero
  require (q < a.layout.capOrder) (.orderPastLayout q a.layout.capOrder)
  let needed ← a.layout.length p.rowCount
  require (a.cells.size = needed) (.arenaLength a.cells.size needed)
  require (mask.size = p.instrCount) (.maskLength mask.size p.instrCount)
  require (resolved.size = p.loadCount) (.loadTableLength resolved.size p.loadCount)

/-- A program begins with `start` and its independents. -/
def checkHead (p : Program F) : Except Fault Unit := do
  require ((← p.instr 0).op = .start) .noStart
  Loop.each p.independentCount 1 fun i => do
    require ((← p.instr i).op = .independent) (.notIndependent i)

/-- The sweep of order `q`. `mask` has an entry for each instruction. `resolved` tells for each
indirect load the variable that it stood for at order 0, or 0 for a parameter. -/
def sweep (p : Program F) (q : Nat) (mask : Array Bool) (resolved : Array Nat)
    (options : Options) : Replay F Unit := do
  let a := (← get).arena
  checkShapes p q mask resolved a
  checkHead p
  report options (.sweepStarts q a.layout.directions p.instrCount p.rowCount)
  let _ ← Arena.ofCells a.layout a.cells
  setFrame none
  replayFrom p q mask resolved options (← Index.add p.independentCount 1)

end JetTape.Replay
