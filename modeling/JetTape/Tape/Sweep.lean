import JetTape.Arena.Buffer
import JetTape.Replay.Sweep
import JetTape.Tape.Basic

/-!
Sweeps of a recorded tape over buffers that were made for it.
-/
namespace JetTape.Tape

variable {F : Type} [Scalar F]

/-- A buffer of zeros for the rows of a tape. -/
def buffer (t : Tape F) (capOrder directions : Nat) : Except Fault (Buffer F) :=
  Buffer.new t.rows capOrder directions

/-- The sweep of order `q` over a buffer of `rows` rows. -/
def replay (t : Tape F) (rows q : Nat) (mask : Array Bool) (resolved : Array Nat)
    (options : Options) : Replay F Unit := do
  require t.isStopped .notStopped
  require (rows = t.rows) (.foreignBuffer rows t.rows)
  Replay.sweep t.program q mask resolved options

/-- The sweeps of all orders from 1 to `qMax`. -/
def replayOrders (t : Tape F) (b : Buffer F) (qMax : Nat) (mask : Array Bool)
    (resolved : Array Nat) (options : Options) : Replay F Unit := do
  require (qMax < b.layout.capOrder) (.orderPastBuffer qMax)
  Loop.each qMax 1 fun q => t.replay b.rows q mask resolved options

def sweep (t : Tape F) (q : Nat) (b : Buffer F) (mask : Array Bool) (resolved : Array Nat)
    (options : Options) : Run F :=
  (t.replay b.rows q mask resolved options).run b.arena

def sweepOrders (t : Tape F) (qMax : Nat) (b : Buffer F) (mask : Array Bool)
    (resolved : Array Nat) (options : Options) : Run F :=
  (t.replayOrders b qMax mask resolved options).run b.arena

/-- Sweeps buffers in turn, up to the first sweep that stops early; the buffers after it are
left alone. -/
def sweepEach (sweep : Buffer F → Run F) : List (Buffer F) → Option Stop × List (Buffer F)
  | [] => (none, [])
  | b :: rest =>
    let run := sweep b
    let b := b.withCells run.cells
    match run.stop with
    | some stop => (some stop, b :: rest)
    | none =>
      let (stop, rest) := sweepEach sweep rest
      (stop, b :: rest)

end JetTape.Tape
