import JetTape.Arena.Basic
import JetTape.Operator

/-!
Call frames: the arguments and results of a call block, staged while the block is read. A series
is staged as a row of an arena, with its order-0 coefficient once and the others for every
direction. A request wants the series along one direction, one after another, so they are laid out
again for each request.
-/
namespace JetTape.Call

open Arena (Read coeff)

/-- Series that end at one order, along all directions and along the one that is asked for. -/
structure Stage (F : Type) where
  all : Arena F
  along : Arena F

namespace Stage

variable {F : Type}

/-- Room for `n` series up to order `q` over `r` directions. -/
def new [Zero F] (n q r : Nat) : Stage F where
  all := .zeros ⟨q + 1, r⟩ n
  along := .zeros ⟨q + 1, 1⟩ n

/-- The places of a series, an order and a direction each, as they are filled. -/
def places (L : Layout) : List (Nat × Nat) :=
  (0, 0) :: (List.range' 0 L.directions).flatMap fun l =>
    (List.range' 1 (L.capOrder - 1)).map fun k => (k, l)

/-- Stages series `j`. -/
def put (s : Stage F) (j : Nat) (value : Nat → Nat → Read F F) : Read F (Stage F) := do
  let all ← (places s.all.layout).foldlM (fun all (k, l) => return all.poke j k l (← value k l)) s.all
  return { s with all }

/-- Lays out the first `n` series along direction `l`, with zeros from order `c` on. -/
def turn [Zero F] (s : Stage F) (n c l : Nat) : Stage F :=
  let cells := (List.range n).flatMap fun j =>
    (List.range s.along.layout.capOrder).map fun k => (j, k, 0)
  { s with along := s.along.pokeAll cells fun j k _ => if k < c then s.all.peek j k l else 0 }

/-- Takes over what an operator has left of `n` series along direction `l`, and keeps their
order-`q` coefficients. -/
def answer [Zero F] (s : Stage F) (n q l : Nat) (cells : Array F) : Stage F :=
  let along := { s.along with cells }
  { all := s.all.pokeAll ((List.range n).map (·, q, l)) fun i _ _ => along.peek i q 0, along }

end Stage

/-- An open call block. -/
structure Frame (F : Type) where
  callId : Nat
  argCount : Nat
  resultCount : Nat
  seenArgs : Nat
  seenResults : Nat
  args : Stage F
  results : Stage F
  /-- The row of each result. A constant result has the phantom row. -/
  targets : Array Nat

namespace Frame

variable {F : Type}

/-- The frame of a call of order `q` over `r` directions that has just been opened. -/
def opened [Zero F] (site : CallSite F) (q r : Nat) : Frame F where
  callId := site.callId
  argCount := site.argCount
  resultCount := site.resultCount
  seenArgs := 0
  seenResults := 0
  args := .new site.argCount q r
  results := .new site.resultCount q r
  targets := Array.replicate site.resultCount 0

/-- Opens a call at order `q` over `r` directions. There must be room for its series, first along
one direction and then along all of them, of the arguments and of the results. -/
def new [Scalar F] (site : CallSite F) (q r : Nat) : Except Fault (Frame F) := do
  let size := Scalar.bytes F
  Index.reserveEach site.argCount (q + 1) size
  Index.reserveEach site.argCount (q * r + 1) size
  Index.reserveEach site.resultCount (q + 1) size
  Index.reserveEach site.resultCount (q * r + 1) size
  return opened site q r

/-- What the block still waits for. -/
def phase (f : Frame F) : Phase :=
  if f.seenArgs < f.argCount then .args
  else if f.seenResults < f.resultCount then .results
  else .finished

/-- Takes in the next argument. -/
def putArg (f : Frame F) (value : Nat → Nat → Read F F) : Read F (Frame F) := do
  let args ← f.args.put f.seenArgs value
  return { f with args, seenArgs := f.seenArgs + 1 }

/-- Takes in the next result, which belongs to a row. -/
def putResult (f : Frame F) (row : Nat) (value : Nat → Nat → Read F F) : Read F (Frame F) := do
  let results ← f.results.put f.seenResults value
  return { f with
    results, targets := f.targets.setIfInBounds f.seenResults row, seenResults := f.seenResults + 1 }

/-- The closing marker must repeat the opening one. -/
def checkClosing (f : Frame F) (site : CallSite F) : Except Fault Unit := do
  require (f.callId = site.callId) (.closingCallId f.callId site.callId)
  require ((f.argCount, f.resultCount) = (site.argCount, site.resultCount))
    (.closingCounts (f.argCount, f.resultCount) (site.argCount, site.resultCount))

/-- Turns to direction `l`. The results' own order-`q` coefficients are to be computed. -/
def turn [Zero F] (f : Frame F) (q l : Nat) : Frame F :=
  { f with
    args := f.args.turn f.argCount (q + 1) l, results := f.results.turn f.resultCount q l }

/-- The request of order `q` along the direction that the frame has turned to. -/
def request (f : Frame F) (q : Nat) : Request F where
  callId := f.callId
  fromOrder := q
  toOrder := q
  argFlags := []
  resultFlags := []
  args := f.args.along.cells
  results := f.results.along.cells

/-- Takes over the answer of order `q` along direction `l`. -/
def answer [Zero F] (f : Frame F) (q l : Nat) (results : Array F) : Frame F :=
  { f with results := f.results.answer f.resultCount q l results }

end Frame

/-- The phase of a replay with or without an open block. -/
def phase {F : Type} : Option (Frame F) → Phase
  | none => .start
  | some f => f.phase

end JetTape.Call
