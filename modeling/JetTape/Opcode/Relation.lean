import JetTape.Index
import JetTape.Scalar

/-!
The six relations of a conditional. A tape stores a relation as its code.
-/
namespace JetTape

inductive Relation where
  | lt | le | eq | ge | gt | ne
  deriving DecidableEq, Repr

namespace Relation

def name : Relation → String
  | lt => "Lt" | le => "Le" | eq => "Eq" | ge => "Ge" | gt => "Gt" | ne => "Ne"

def code : Relation → Nat
  | lt => 0 | le => 1 | eq => 2 | ge => 3 | gt => 4 | ne => 5

def all : List Relation := [lt, le, eq, ge, gt, ne]

def ofName? (s : String) : Option Relation := all.find? (·.name == s)

def ofCode : Nat → Except Fault Relation
  | 0 => .ok lt
  | 1 => .ok le
  | 2 => .ok eq
  | 3 => .ok ge
  | 4 => .ok gt
  | 5 => .ok ne
  | n => .error (.unknownRelation n)

/-- Whether the relation holds. A NaN on either side leaves only `ne`. -/
def holds {F : Type} [Scalar F] : Relation → F → F → Bool
  | lt, x, y => Scalar.lt x y
  | le, x, y => Scalar.le x y
  | eq, x, y => Scalar.eq x y
  | ge, x, y => Scalar.le y x
  | gt, x, y => Scalar.lt y x
  | ne, x, y => !Scalar.eq x y

@[simp] theorem ofCode_code (r : Relation) : ofCode r.code = .ok r := by
  cases r <;> rfl

@[simp] theorem ofName?_name (r : Relation) : ofName? r.name = some r := by
  cases r <;> decide

end Relation

end JetTape
