/-!
The instruction set of a tape. An operation with several results owns consecutive rows that end
at its primary result, auxiliary rows first; `resultCount` is the number of rows it owns.
Operations on two operands come in forms that say, operand by operand, whether an index refers
to a variable (`V`) or to a parameter (`P`).
-/
namespace JetTape

/-- What an operand index refers to: a variable row or an entry of the parameter table. -/
inductive Source where
  | var
  | par
  deriving DecidableEq, Repr, Inhabited

/-- Sums, products and quotients. The `zmul` forms are products in which zero absorbs. -/
inductive Arithmetic where
  | addVV | addPV
  | subVV | subPV | subVP
  | mulVV | mulPV
  | divVV | divPV | divVP
  | zmulVV | zmulPV | zmulVP
  deriving DecidableEq, Repr

/-- Powers. The three rows are `log x`, `y * log x` and `exp (y * log x)`. -/
inductive Power where
  | vv | pv | vp
  deriving DecidableEq, Repr

/-- Functions of one variable. -/
inductive Elementary where
  | exp | expm1 | log | log1p | sqrt
  | sin | cos | tan | asin | acos | atan
  | sinh | cosh | tanh | asinh | acosh | atanh
  | abs | sign
  deriving DecidableEq, Repr

/-- Comparisons that are kept on the tape for later change detection. -/
inductive Comparison where
  | eqPV | eqVV
  | ltPV | ltVP | ltVV
  | lePV | leVP | leVV
  | nePV | neVV
  deriving DecidableEq, Repr

inductive Opcode where
  | start
  | stop
  | independent
  | constant
  | arithmetic (f : Arithmetic)
  | power (f : Power)
  | elementary (f : Elementary)
  | erf
  | discrete
  | choose
  | skip
  | sum
  | load (index : Source)
  | store (index value : Source)
  | compare (f : Comparison)
  | print
  | callMarker
  | callArg (kind : Source)
  | callResult (kind : Source)
  deriving DecidableEq, Repr

instance : Inhabited Opcode := ⟨.start⟩

namespace Arithmetic

def name : Arithmetic → String
  | addVV => "Addvv" | addPV => "Addpv"
  | subVV => "Subvv" | subPV => "Subpv" | subVP => "Subvp"
  | mulVV => "Mulvv" | mulPV => "Mulpv"
  | divVV => "Divvv" | divPV => "Divpv" | divVP => "Divvp"
  | zmulVV => "Zmulvv" | zmulPV => "Zmulpv" | zmulVP => "Zmulvp"

/-- What the two operands refer to. -/
def sources : Arithmetic → List Source
  | addVV | subVV | mulVV | divVV | zmulVV => [.var, .var]
  | addPV | subPV | mulPV | divPV | zmulPV => [.par, .var]
  | subVP | divVP | zmulVP => [.var, .par]

def all : List Arithmetic :=
  [addVV, addPV, subVV, subPV, subVP, mulVV, mulPV, divVV, divPV, divVP, zmulVV, zmulPV, zmulVP]

end Arithmetic

namespace Power

def name : Power → String
  | vv => "Powvv" | pv => "Powpv" | vp => "Powvp"

/-- What the base and the exponent refer to. -/
def sources : Power → List Source
  | vv => [.var, .var]
  | pv => [.par, .var]
  | vp => [.var, .par]

def all : List Power := [vv, pv, vp]

end Power

namespace Elementary

def name : Elementary → String
  | exp => "Exp" | expm1 => "Expm1" | log => "Log" | log1p => "Log1p" | sqrt => "Sqrt"
  | sin => "Sin" | cos => "Cos" | tan => "Tan" | asin => "Asin" | acos => "Acos" | atan => "Atan"
  | sinh => "Sinh" | cosh => "Cosh" | tanh => "Tanh"
  | asinh => "Asinh" | acosh => "Acosh" | atanh => "Atanh"
  | abs => "Abs" | sign => "Sign"

/-- Circular and hyperbolic functions and their inverses keep one auxiliary row. -/
def resultCount : Elementary → Nat
  | exp | expm1 | log | log1p | sqrt | abs | sign => 1
  | sin | cos | tan | asin | acos | atan | sinh | cosh | tanh | asinh | acosh | atanh => 2

def all : List Elementary :=
  [exp, expm1, log, log1p, sqrt, sin, cos, tan, asin, acos, atan,
    sinh, cosh, tanh, asinh, acosh, atanh, abs, sign]

end Elementary

namespace Comparison

def name : Comparison → String
  | eqPV => "Eqpv" | eqVV => "Eqvv"
  | ltPV => "Ltpv" | ltVP => "Ltvp" | ltVV => "Ltvv"
  | lePV => "Lepv" | leVP => "Levp" | leVV => "Levv"
  | nePV => "Nepv" | neVV => "Nevv"

/-- What the two sides refer to. -/
def sources : Comparison → Source × Source
  | eqPV | ltPV | lePV | nePV => (.par, .var)
  | ltVP | leVP => (.var, .par)
  | eqVV | ltVV | leVV | neVV => (.var, .var)

def all : List Comparison := [eqPV, eqVV, ltPV, ltVP, ltVV, lePV, leVP, leVV, nePV, neVV]

end Comparison

namespace Opcode

/-- The written name, used in reports and in stored tapes. -/
def name : Opcode → String
  | start => "Begin"
  | stop => "End"
  | independent => "Inv"
  | constant => "Par"
  | arithmetic f => f.name
  | power f => f.name
  | elementary f => f.name
  | erf => "Erf"
  | discrete => "Dis"
  | choose => "CExp"
  | skip => "CSkip"
  | sum => "CSum"
  | load .par => "Ldp"
  | load .var => "Ldv"
  | store .par .par => "Stpp"
  | store .par .var => "Stpv"
  | store .var .par => "Stvp"
  | store .var .var => "Stvv"
  | compare f => f.name
  | print => "Pri"
  | callMarker => "User"
  | callArg .par => "Usrap"
  | callArg .var => "Usrav"
  | callResult .par => "Usrrp"
  | callResult .var => "Usrrv"

/-- Every operation, in the order of the instruction set. -/
def all : List Opcode :=
  [start, stop, independent, constant] ++ Arithmetic.all.map arithmetic ++ Power.all.map power ++
    Elementary.all.map elementary ++ [erf, discrete, choose, skip, sum] ++
    [load .par, load .var, store .par .par, store .par .var, store .var .par, store .var .var] ++
    Comparison.all.map compare ++
    [print, callMarker, callArg .par, callArg .var, callResult .par, callResult .var]

/-- The operation with a written name. -/
def ofName? (s : String) : Option Opcode := all.find? (·.name == s)

/-- How many rows the operation creates. `start` creates the phantom row 0. -/
def resultCount : Opcode → Nat
  | start | independent | constant | arithmetic _ | discrete | choose | sum | load _ => 1
  | elementary f => f.resultCount
  | power _ => 3
  | erf => 5
  | callResult .var => 1
  | stop | skip | store _ _ | compare _ | print | callMarker | callArg _ | callResult .par => 0

/-- How many arguments the operation takes, when that number is fixed. -/
def argCount? : Opcode → Option Nat
  | sum | skip => none
  | stop | independent | callResult .var => some 0
  | start | constant | elementary _ | callArg _ | callResult .par => some 1
  | arithmetic _ | power _ | discrete | compare _ => some 2
  | erf | load _ | store _ _ => some 3
  | callMarker => some 4
  | print => some 5
  | choose => some 6

/-- Operations that a sweep passes over at every positive order. -/
def isRecordOnly : Opcode → Bool
  | independent | skip | store _ _ | compare _ | print => true
  | _ => false

/-- What the operands of a plain operation refer to. Operations with a recording method of their
own have no such list. -/
def sources? : Opcode → Option (List Source)
  | arithmetic f => some f.sources
  | power f => some f.sources
  | elementary _ => some [.var]
  | _ => none

theorem mem_all (op : Opcode) : op ∈ all := by
  cases op with
  | arithmetic f | power f | elementary f | compare f => cases f <;> decide
  | load i | callArg i | callResult i => cases i <;> decide
  | store i x => cases i <;> cases x <;> decide
  | _ => decide

@[simp] theorem ofName?_name (op : Opcode) : ofName? op.name = some op := by
  have h : ∀ o ∈ all, ofName? o.name = some o := by decide
  exact h op (mem_all op)

end Opcode

end JetTape
