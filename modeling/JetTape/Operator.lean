import JetTape.Index

/-!
Operators: differentiable functions that a tape calls without knowing how they are computed. An
operator is a function of its request. Series lie one after another in a request, each with its
coefficients from order 0 to the requested order.
-/
namespace JetTape

/-- A request for the coefficients of the results from order `fromOrder` to order `toOrder`,
given those of the arguments up to `toOrder` and those of the results below `fromOrder`. -/
structure Request (F : Type) where
  callId : Nat
  fromOrder : Nat
  toOrder : Nat
  /-- Which arguments are variables; empty above order 0. -/
  argFlags : List Bool
  /-- Which results are variables; empty above order 0. -/
  resultFlags : List Bool
  args : Array F
  results : Array F

/-- An operator answers with the results filled in, or it refuses the request. -/
inductive Reply (F : Type) (n : Nat) where
  | accept (results : Vector F n)
  | refuse
  | fault (report : String)

structure Operator (F : Type) where
  name : String
  forward : (request : Request F) → Reply F request.results.size

/-- A call of an operator, as its markers describe it. -/
structure CallSite (F : Type) where
  operator : Operator F
  callId : Nat
  argCount : Nat
  resultCount : Nat

/-- Reads the arguments of a marker: the operator's place in the registry, the call id, and the
numbers of arguments and results. -/
def CallSite.ofArgs {F : Type} (registry : Array (Operator F)) (args : List Nat) :
    Except Fault (CallSite F) := do
  let index ← Index.arg args 0
  match registry[index]? with
  | none => throw (.unknownOperator index)
  | some operator =>
    let callId ← Index.arg args 1
    let argCount ← Index.arg args 2
    let resultCount ← Index.arg args 3
    return { operator, callId, argCount, resultCount }

end JetTape
