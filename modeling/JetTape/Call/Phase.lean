/-!
Where a replay stands with respect to a call block.
-/
namespace JetTape.Call

/-- `start` between blocks; `args` and `results` while a block is read; `finished` when every
result has been seen and only the closing marker is missing. -/
inductive Phase where
  | start
  | args
  | results
  | finished
  deriving DecidableEq, Repr, Inhabited

def Phase.name : Phase → String
  | .start => "Start"
  | .args => "Args"
  | .results => "Results"
  | .finished => "End"

end JetTape.Call
