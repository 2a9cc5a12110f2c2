import Mathlib.Data.List.Forall2
import JetTape.Proofs.Tape.Valid

/-!
What the arguments of an instruction stand for. Its operation tells that, for conditionals and
prints together with the flags and for long sums with the counts among the arguments. The arguments
of a recorded instruction stand for what is there.
-/
namespace JetTape

/-- What an argument stands for: a row, a parameter, a load slot, an operator, or nothing that a
tape holds. -/
inductive Role where
  | row
  | par
  | slot
  | handle
  | literal
  deriving DecidableEq

/-- The argument stands for one of `n` rows other than the phantom row, of `p` parameters, of `m`
load slots or of `k` operators. -/
def Role.Valid (n p m k : Nat) : Role → Nat → Prop
  | row, x => 0 < x ∧ x < n
  | par, x => x < p
  | slot, x => x < m
  | handle, x => x < k
  | literal, _ => True

def Source.role : Source → Role
  | .var => .row
  | .par => .par

/-- The role of an operand whose kind bit `bit` of the flags tells. -/
def Role.flagged (flags bit : Nat) : Role := if flags.testBit bit then row else par

/-- The roles of the arguments of an instruction, one after another. -/
def Opcode.roles : Opcode → List Nat → List Role
  | .stop, _ | .independent, _ | .callResult .var, _ => []
  | .start, _ => [.literal]
  | .constant, _ | .callResult .par, _ => [.par]
  | .arithmetic f, _ => f.sources.map Source.role
  | .power f, _ => f.sources.map Source.role
  | .elementary _, _ => [.row]
  | .erf, _ => [.row, .par, .par]
  | .discrete, _ => [.literal, .row]
  | .choose, args => [.literal, .literal] ++ [0, 1, 2, 3].map (Role.flagged (args.getD 1 0))
  | .skip, args => [.literal, .literal] ++ [0, 1].map (Role.flagged (args.getD 1 0)) ++
    List.replicate (args.length - 4) .literal
  | .sum, args => [.literal, .literal, .par] ++
    List.replicate (args.getD 0 0 + args.getD 1 0) .row ++ [.literal]
  | .load index, _ => [.literal, index.role, .slot]
  | .store index value, _ => [.literal, index.role, value.role]
  | .compare f, _ => [f.sources.1.role, f.sources.2.role]
  | .print, args => [.flagged (args.getD 4 0) 0, .literal, .flagged (args.getD 4 0) 1, .literal,
    .literal]
  | .callMarker, _ => [.handle, .literal, .literal, .literal]
  | .callArg kind, _ => [kind.role]

variable {n p m k : Nat}

theorem Source.Valid.role {s : Source} {i : Nat} (h : s.Valid n p i) :
    s.role.Valid n p m k i := by
  cases s <;> exact h

theorem Operand.Valid.role {a : Operand} (h : a.Valid n p) :
    a.source.role.Valid n p m k a.index := by
  cases a <;> exact h

theorem Role.flagged_eq {flags bit : Nat} {a : Operand}
    (h : flags.testBit bit = (a.source = .var)) : Role.flagged flags bit = a.source.role := by
  unfold flagged
  cases a with
  | var x => rw [if_pos (h.mpr rfl)]; rfl
  | par i => rw [if_neg (by rw [h]; nofun)]; rfl

/-- The kinds of two operands in their flags. -/
theorem testBit_pair (left right : Operand) :
    (left.flag 1 + right.flag 2).testBit 0 = (left.source = .var) ∧
    (left.flag 1 + right.flag 2).testBit 1 = (right.source = .var) := by
  cases left <;> cases right <;> simp [Operand.flag, Operand.source] <;> decide

theorem forall₂_literal (l : List Nat) :
    List.Forall₂ (Role.Valid n p m k) (List.replicate l.length .literal) l := by
  induction l with
  | nil => exact .nil
  | cons x l ih => exact .cons trivial ih

theorem forall₂_row {l : List Nat} (h : ∀ x ∈ l, Source.var.Valid n p x) :
    List.Forall₂ (Role.Valid n p m k) (List.replicate l.length .row) l := by
  induction l with
  | nil => exact .nil
  | cons x l ih =>
    obtain ⟨hx, hl⟩ := List.forall_mem_cons.mp h
    exact .cons hx (ih hl)

namespace Instr.Valid

variable {op : Opcode} {args : List Nat}

/-- The arguments of a recorded instruction are in their roles, one for each. -/
theorem roles (h : Instr.Valid n p m op args) (hargs : args.length < Index.argBound) :
    List.Forall₂ (Role.Valid n p m k) (op.roles args) args := by
  cases h with
  | constant hi => exact .cons hi .nil
  | arithmetic f hf ha hb =>
    rw [Opcode.roles, hf]
    exact .cons ha.role (.cons hb.role .nil)
  | power f hf ha hb =>
    rw [Opcode.roles, hf]
    exact .cons ha.role (.cons hb.role .nil)
  | elementary f hx => exact .cons hx .nil
  | erf hx hi hk => exact .cons hx (.cons hi (.cons hk .nil))
  | discrete f hx => exact .cons trivial (.cons hx .nil)
  | @choose r left right ifTrue ifFalse hl hr ht hf =>
    obtain ⟨h0, h1, h2, h3⟩ := testBit_chooseFlags left right ifTrue ifFalse
    simp only [Opcode.roles, List.map_cons, List.map_nil, List.getD_cons_succ, List.getD_cons_zero,
      Role.flagged_eq h0, Role.flagged_eq h1, Role.flagged_eq h2, Role.flagged_eq h3]
    exact .cons trivial (.cons trivial (.cons hl.role (.cons hr.role (.cons ht.role
      (.cons hf.role .nil)))))
  | @sum i xs ys hi hx =>
    simp only [List.length_append, List.length_cons, List.length_nil] at hargs
    have hxs := Index.toArg_of_lt (show xs.length < Index.argBound by omega)
    have hys := Index.toArg_of_lt (show ys.length < Index.argBound by omega)
    simp only [Opcode.roles, List.cons_append, List.getD_cons_succ, List.getD_cons_zero, hxs, hys,
      List.nil_append]
    refine .cons trivial (.cons trivial (.cons hi ?_))
    rw [← List.length_append]
    exact List.rel_append (forall₂_row hx) (.cons trivial .nil)
  | @skip r left right ifTrue ifFalse hl hr =>
    obtain ⟨h0, h1⟩ := testBit_pair left right
    simp only [Opcode.roles, List.map_cons, List.map_nil, List.cons_append, List.nil_append,
      List.getD_cons_succ, List.getD_cons_zero, Role.flagged_eq h0, Role.flagged_eq h1]
    exact .cons trivial (.cons trivial (.cons hl.role (.cons hr.role (forall₂_literal _))))
  | load offset hi hs => exact .cons trivial (.cons hi.role (.cons hs .nil))
  | store offset hi hv => exact .cons trivial (.cons hi.role (.cons hv.role .nil))
  | compare f hl hr => exact .cons hl.role (.cons hr.role .nil)
  | @print position value before after hp hv =>
    obtain ⟨h0, h1⟩ := testBit_pair position value
    simp only [Opcode.roles, List.getD_cons_succ, List.getD_cons_zero, Role.flagged_eq h0,
      Role.flagged_eq h1]
    exact .cons hp.role (.cons trivial (.cons hv.role (.cons trivial (.cons trivial .nil))))

/-- An operation with a fixed number of arguments is recorded with that number. -/
theorem length_args (h : Instr.Valid n p m op args) {c : Nat} (hc : op.argCount? = some c) :
    args.length = c := by
  cases h <;> simp_all [Opcode.argCount?]

end Instr.Valid

end JetTape
