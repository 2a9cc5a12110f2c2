import JetTape.Opcode
import JetTape.Scalar.Binary

/-!
Documents: the data of a stored form, whatever text it is written in. Reading answers with a
value or with a cause of refusal.
-/
namespace JetTape

inductive Document (F : Type) where
  | null
  | bool (b : Bool)
  | integer (n : Int)
  | real (x : F)
  | text (s : String)
  | list (items : List (Document F))
  | record (fields : List (String × Document F))
  deriving Inhabited

/-- Why something cannot be stored or read. -/
inductive DocumentError where
  /-- A value of the wrong kind or out of its range. -/
  | malformed
  | missingField (name : String)
  | inconsistentTables
  | noStart
  | unregisteredCalls
  | callsOperators
  deriving DecidableEq, Repr

/-- The report of an error. A malformed value has none of its own. -/
def DocumentError.message? : DocumentError → Option String
  | malformed => none
  | missingField name => some s!"missing field `{name}`"
  | inconsistentTables => some "inconsistent tape instruction tables"
  | noStart => some "tape does not start with Begin"
  | unregisteredCalls => some "tape calls atomic operators that are not registered"
  | callsOperators =>
    some <| "cannot serialize a Tape that calls atomic operators; " ++
      "atomic operators must be re-registered after deserialization"

namespace Document

variable {F : Type}

abbrev Reader (F α : Type) : Type := Document F → Except DocumentError α

def ofNat (n : Nat) : Document F := .integer n

def ofNats (xs : Array Nat) : Document F := .list (xs.toList.map ofNat)

/-- A coefficient. Only finite ones can be written; any other becomes `null`. -/
def ofScalar [Binary F] (x : F) : Document F := if Binary.isFinite x then .real x else .null

def ofScalars [Binary F] (xs : Array F) : Document F := .list (xs.toList.map ofScalar)

/-- Reads a natural number below `bound`. -/
def nat (bound : Nat) : Reader F Nat
  | .integer n => if 0 ≤ n ∧ n < bound then .ok n.toNat else .error .malformed
  | _ => .error .malformed

/-- Reads a coefficient. An integer stands for the coefficient nearest to it. -/
def scalar [Scalar F] : Reader F F
  | .real x => .ok x
  | .integer n => .ok (if 0 ≤ n then Scalar.ofNat n.toNat else -Scalar.ofNat (-n).toNat)
  | _ => .error .malformed

/-- Reads an operation: its name, or a record with the name over nothing. -/
def opcode : Reader F Opcode
  | .text s | .record [(s, .null)] =>
    match Opcode.ofName? s with
    | some op => .ok op
    | none => .error .malformed
  | _ => .error .malformed

def array {α : Type} (item : Reader F α) : Reader F (Array α)
  | .list items => do return (← items.mapM item).toArray
  | _ => .error .malformed

/-- Refuses a document unless `p` holds. -/
def check (p : Prop) [Decidable p] (e : DocumentError) : Except DocumentError Unit :=
  if p then .ok () else .error e

@[simp] theorem check_eq_ok_iff {p : Prop} [Decidable p] {e : DocumentError} {u : Unit} :
    check p e = .ok u ↔ p := by
  unfold check; split <;> simp_all

/-- Reads items of a list one after another. -/
abbrev Items (F α : Type) : Type := StateT (List (Document F)) (Except DocumentError) α

/-- Reads the next item, if there is one. -/
def item? {α : Type} (value : Reader F α) : Items F (Option α)
  | [] => .ok (none, [])
  | d :: rest => do return (some (← value d), rest)

/-- Reads the next item. -/
def item {α : Type} (value : Reader F α) : Items F α := do
  match ← item? value with
  | some x => return x
  | none => throw .malformed

/-- Reads a list to its end. What is wrong with an item comes before a wrong length. -/
def inOrder {α : Type} (m : Items F α) (items : List (Document F)) : Except DocumentError α := do
  let (x, rest) ← m items
  check rest.isEmpty .malformed
  return x

/-- Reads a field of a record if it is there. -/
def field? {α : Type} (fields : List (String × Document F)) (name : String)
    (value : Reader F α) : Except DocumentError (Option α) :=
  match fields.lookup name with
  | some d => some <$> value d
  | none => .ok none

/-- A field that must have been there. -/
def need {α : Type} (name : String) : Option α → Except DocumentError α
  | some x => .ok x
  | none => .error (.missingField name)

end Document

end JetTape
