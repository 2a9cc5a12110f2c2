import JetTape.Opcode.Relation
import JetTape.Recurrence.Basic

/-!
Instructions that select, scale by an order-0 value or add up order-`q` coefficients: absolute
values, conditionals, long sums, constants and indirect loads.
-/
namespace JetTape.Recurrence

open Arena (Read Update assign coeff copyOrder zeroOrder)

variable {F : Type} [Scalar F]

/-- `z = |x|`: `z_q = sign x_0 * x_q`, zero at the kink. -/
def abs (q x z : Nat) : Update F Unit := do
  let s := Scalar.sign (← coeff (F := F) x 0 0)
  assign z q fun l => return s * (← coeff x q l)

/-- Instructions without coefficients above order 0. -/
def constant : Recurrence F := fun q z _ _ => zeroOrder z q

/-- The order-0 value of an operand of a conditional. Bit `bit` of `flags` marks a variable. -/
def conditionValue (flags bit index : Nat) (params : Array F) : Read F F :=
  if flags.testBit bit then coeff index 0 0 else Index.get params index

/-- A conditional takes the order `q` of the operand that the order-0 values choose. Its
arguments are a relation, flags, both sides and both branches. -/
def choose : Recurrence F := fun q z args params =>
  match args with
  | [code, flags, left, right, ifTrue, ifFalse] => do
    let relation ← Relation.ofCode code
    let x ← conditionValue flags 0 left params
    let y ← conditionValue flags 1 right params
    let (bit, chosen) := if relation.holds x y then (2, ifTrue) else (3, ifFalse)
    if flags.testBit bit then copyOrder z chosen q else zeroOrder z q
  | _ => throw (.chooseArgs args.length)

/-- Adds order `q` of the rows `xs` to `start`. -/
def plusRows (q l : Nat) (start : F) (xs : List Nat) : Read F F :=
  xs.foldlM (fun sum x => return sum + (← coeff x q l)) start

/-- Subtracts order `q` of the rows `xs` from `start`. -/
def minusRows (q l : Nat) (start : F) (xs : List Nat) : Read F F :=
  xs.foldlM (fun sum x => return sum - (← coeff x q l)) start

/-- A long sum. Its arguments are the number of added and of subtracted variables, a parameter,
the variables, and the number of them all. -/
def sum : Recurrence F := fun q z args _ => do
  let added ← Index.arg args 0
  let subtracted ← Index.arg args 1
  require (args.length = 4 + added + subtracted) (.sumArgs args.length (4 + added + subtracted))
  let count ← Index.arg args (3 + added + subtracted)
  require (count = added + subtracted) (.sumCount count (added + subtracted))
  let xs := (args.drop 3).take added
  let ys := (args.drop (3 + added)).take subtracted
  assign z q fun l => do
    minusRows q l (← plusRows q l 0 xs) ys

/-- An indirect load takes the order `q` of the variable that its slot was resolved to at order
0. A slot that was resolved to a parameter holds 0. -/
def load (q z : Nat) (args : List Nat) (resolved : Array Nat) : Update F Unit := do
  let slot ← Index.arg args 2
  require (slot < resolved.size) (.loadSlotPastEnd slot)
  let y ← Index.get resolved slot
  require (y < z) .loadNotEarlier
  if 0 < y then copyOrder z y q else zeroOrder z q

end JetTape.Recurrence
