import JetTape.Proofs.Tape.Roles

/-!
Numbered operands. An operator that is asked for the result of an instruction finds operand `c` of
the instruction in row `c`, whatever row the tape keeps it in. So the instruction is given to it with
its variable operands numbered in their order; an operand that occurs twice has two numbers.
-/
namespace JetTape

/-- The rows among arguments in the given roles. -/
def rowsAmong : List Role → List Nat → List Nat
  | role :: roles, x :: args =>
    if role = .row then x :: rowsAmong roles args else rowsAmong roles args
  | _, _ => []

/-- The arguments with the rows among them numbered from `c` on. -/
def numbered : Nat → List Role → List Nat → List Nat
  | c, role :: roles, x :: args =>
    if role = .row then c :: numbered (c + 1) roles args else x :: numbered c roles args
  | _, _, args => args

namespace Instr

/-- The variable operands of an instruction, each as often as it occurs. -/
def rows (ins : Instr) : List Nat := rowsAmong (ins.op.roles ins.args) ins.args

/-- The arguments of an instruction with its variable operands numbered. -/
def numberedArgs (ins : Instr) : List Nat := numbered 0 (ins.op.roles ins.args) ins.args

end Instr

/-- A row is found in the list under its number; any other argument is itself. -/
def Role.Picks (rows : List Nat) : Role → Nat → Nat → Prop
  | .row, c, x => rows[c]? = some x
  | _, x', x => x' = x

/-- Arguments in the given roles whose rows are found under the numbers among `args'`. -/
def Picks (rows : List Nat) : List Role → List Nat → List Nat → Prop
  | role :: roles, args', x :: args =>
    ∃ x' rest, args' = x' :: rest ∧ role.Picks rows x' x ∧ Picks rows roles rest args
  | _, args', args => args' = args

theorem picks_numbered (before : List Nat) (roles : List Role) (args : List Nat) :
    Picks (before ++ rowsAmong roles args) roles (numbered before.length roles args) args := by
  induction roles generalizing before args with
  | nil => rfl
  | cons role roles ih =>
    cases args with
    | nil => rfl
    | cons x args =>
      unfold rowsAmong numbered
      split
      · rename_i hrow
        have hrest := ih (before ++ [x]) args
        rw [List.length_append, List.length_singleton, ← List.append_cons] at hrest
        subst hrow
        refine ⟨_, _, rfl, ?_, hrest⟩
        show (before ++ x :: rowsAmong roles args)[before.length]? = some x
        rw [List.getElem?_append_right (Nat.le_refl _), Nat.sub_self]
        rfl
      · rename_i hother
        refine ⟨_, _, rfl, ?_, ih before args⟩
        cases role <;> first | rfl | exact absurd rfl hother

theorem Instr.picks_numberedArgs (ins : Instr) :
    Picks ins.rows (ins.op.roles ins.args) ins.numberedArgs ins.args :=
  picks_numbered [] _ _

/-- A run of rows is found under a run of numbers. -/
theorem picks_rows {rows xs args args' : List Nat} {roles : List Role}
    (h : Picks rows (List.replicate xs.length .row ++ roles) args' (xs ++ args)) :
    ∃ cs rest, args' = cs ++ rest ∧ List.Forall₂ (Role.row.Picks rows) cs xs ∧
      Picks rows roles rest args := by
  induction xs generalizing args' with
  | nil => exact ⟨[], args', rfl, .nil, h⟩
  | cons x xs ih =>
    obtain ⟨c, _, rfl, hc, h⟩ := h
    obtain ⟨cs, rest, rfl, hcs, h⟩ := ih h
    exact ⟨c :: cs, rest, rfl, .cons hc hcs, h⟩

theorem Operand.flag_of_source {a a' : Operand} (h : a'.source = a.source) (bit : Nat) :
    a'.flag bit = a.flag bit := by
  cases a <;> cases a' <;> first | rfl | cases h

section Arguments

variable {rows : List Nat}

theorem lt_of_picks_rows {cs xs : List Nat} (h : List.Forall₂ (Role.row.Picks rows) cs xs) :
    ∀ c ∈ cs, c < rows.length := by
  induction h with
  | nil => nofun
  | cons hc _ ih => exact List.forall_mem_cons.mpr ⟨(List.getElem?_eq_some_iff.mp hc).1, ih⟩

/-- The numbered arguments of a conditional. -/
theorem picks_choose {code : Nat} {left right ifTrue ifFalse : Operand} {args' : List Nat} :
    let args := [code, chooseFlags left right ifTrue ifFalse, left.index, right.index,
      ifTrue.index, ifFalse.index]
    Picks rows (Opcode.choose.roles args) args' args →
      ∃ a b c d, args' = [code, chooseFlags left right ifTrue ifFalse, a, b, c, d] ∧
        left.source.role.Picks rows a left.index ∧ right.source.role.Picks rows b right.index ∧
        ifTrue.source.role.Picks rows c ifTrue.index ∧
        ifFalse.source.role.Picks rows d ifFalse.index := by
  intro args h
  obtain ⟨h0, h1, h2, h3⟩ := testBit_chooseFlags left right ifTrue ifFalse
  simp only [args, Opcode.roles, List.map_cons, List.map_nil, List.getD_cons_succ, List.getD_cons_zero,
    Role.flagged_eq h0, Role.flagged_eq h1, Role.flagged_eq h2, Role.flagged_eq h3,
    List.cons_append, List.nil_append] at h
  obtain ⟨_, _, rfl, rfl, _, _, rfl, rfl, a, _, rfl, ha, b, _, rfl, hb, c, _, rfl, hc, d, _, rfl,
    hd, rfl⟩ := h
  exact ⟨a, b, c, d, rfl, ha, hb, hc, hd⟩

/-- The numbered arguments of a long sum. -/
theorem picks_sum {i : Nat} {xs ys args' : List Nat}
    (hcount : xs.length + ys.length < Index.argBound) :
    let args := [Index.toArg xs.length, Index.toArg ys.length, i] ++ xs ++ ys ++
      [Index.toArg (xs.length + ys.length)]
    Picks rows (Opcode.sum.roles args) args' args →
      ∃ cs ds, args' = [Index.toArg cs.length, Index.toArg ds.length, i] ++ cs ++ ds ++
          [Index.toArg (cs.length + ds.length)] ∧
        List.Forall₂ (Role.row.Picks rows) cs xs ∧ List.Forall₂ (Role.row.Picks rows) ds ys := by
  intro args h
  have hxs := Index.toArg_of_lt (show xs.length < Index.argBound by omega)
  have hys := Index.toArg_of_lt (show ys.length < Index.argBound by omega)
  simp only [args, Opcode.roles, List.cons_append, List.nil_append, List.getD_cons_succ,
    List.getD_cons_zero, List.append_assoc, hxs, hys, List.replicate_add] at h
  obtain ⟨_, _, rfl, rfl, _, _, rfl, rfl, _, _, rfl, rfl, h⟩ := h
  obtain ⟨cs, _, rfl, hcs, h⟩ := picks_rows h
  obtain ⟨ds, _, rfl, hds, _, _, rfl, rfl, rfl⟩ := picks_rows h
  refine ⟨cs, ds, ?_, hcs, hds⟩
  simp only [hcs.length_eq, hds.length_eq, hxs, hys, List.cons_append, List.nil_append,
    List.append_assoc]

end Arguments

section Rows

variable {n p m k : Nat}

theorem rowsAmong_valid {roles : List Role} {args : List Nat}
    (h : List.Forall₂ (Role.Valid n p m k) roles args) :
    ∀ x ∈ rowsAmong roles args, Source.var.Valid n p x := by
  induction h with
  | nil => nofun
  | @cons role x roles args hx _ ih =>
    unfold rowsAmong
    split
    · rename_i hrow
      subst hrow
      exact List.forall_mem_cons.mpr ⟨hx, ih⟩
    · exact ih

theorem Instr.Valid.rows {ins : Instr} (h : Instr.Valid n p m ins.op ins.args)
    (hargs : ins.args.length < Index.argBound) : ∀ x ∈ ins.rows, Source.var.Valid n p x :=
  rowsAmong_valid (h.roles (k := 0) hargs)

end Rows

end JetTape
