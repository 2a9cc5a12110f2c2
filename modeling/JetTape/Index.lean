import JetTape.Fault

/-!
Index arithmetic. Rows, offsets and lengths are natural numbers of 64 bits; a sum, difference
or product that leaves that range is a fault. Instruction arguments and the counters of a tape
are kept in half that width.
-/
namespace JetTape.Index

/-- Indices are below this bound. -/
def bound : Nat := 0x10000000000000000

/-- Stored arguments and counters are below this bound. -/
def argBound : Nat := 0x100000000

def add (a b : Nat) : Except Fault Nat :=
  if a + b < bound then .ok (a + b) else .error .addOverflow

def sub (a b : Nat) : Except Fault Nat :=
  if b ≤ a then .ok (a - b) else .error .subOverflow

def mul (a b : Nat) : Except Fault Nat :=
  if a * b < bound then .ok (a * b) else .error .mulOverflow

/-- Adds to a counter of a tape. -/
def count (a b : Nat) : Except Fault Nat :=
  if a + b < argBound then .ok (a + b) else .error .addOverflow

/-- The argument that stores an index: its low half. -/
def toArg (n : Nat) : Nat := n % argBound

/-- Room for `n` items of `size` bytes: no more than half of the index range can be had. -/
def reserve (n size : Nat) : Except Fault Unit :=
  if n * size < 0x8000000000000000 then .ok () else .error .roomExceeded

/-- Room for `n` lists of `k` items each. -/
def reserveEach (n k size : Nat) : Except Fault Unit := do
  reserve (← mul n k) size

def get {α : Type} (xs : Array α) (i : Nat) : Except Fault α :=
  if h : i < xs.size then .ok xs[i] else .error (.indexPastEnd xs.size i)

/-- Entry `i` of an argument list. -/
def arg (xs : List Nat) (i : Nat) : Except Fault Nat :=
  match xs[i]? with
  | some x => .ok x
  | none => .error (.indexPastEnd xs.length i)

/-- The entries from `a` up to but not including `b`. -/
def slice {α : Type} (xs : Array α) (a b : Nat) : Except Fault (List α) :=
  if xs.size < a then .error (.sliceStart a xs.size)
  else if xs.size < b then .error (.sliceStop b xs.size)
  else if b < a then .error (.sliceReversed a b)
  else .ok (xs.extract a b).toList

@[simp] theorem toArg_of_lt {n : Nat} (h : n < argBound) : toArg n = n := Nat.mod_eq_of_lt h

theorem add_eq_ok_iff {a b c : Nat} : add a b = .ok c ↔ a + b < bound ∧ c = a + b := by
  unfold add; split <;> simp [eq_comm] <;> omega

theorem sub_eq_ok_iff {a b c : Nat} : sub a b = .ok c ↔ b ≤ a ∧ c = a - b := by
  unfold sub; split <;> simp [eq_comm] <;> omega

theorem mul_eq_ok_iff {a b c : Nat} : mul a b = .ok c ↔ a * b < bound ∧ c = a * b := by
  unfold mul; split <;> simp [eq_comm] <;> omega

theorem get_eq_ok_iff {α : Type} {xs : Array α} {i : Nat} {x : α} :
    get xs i = .ok x ↔ xs[i]? = some x := by
  unfold get; split <;> simp_all

theorem arg_eq_ok_iff {xs : List Nat} {i x : Nat} : arg xs i = .ok x ↔ xs[i]? = some x := by
  unfold arg; split <;> simp_all

end JetTape.Index
