import JetTape.Tape.Recorder

/-!
Valid instructions: the argument lists that recording produces. An operand of a valid instruction
refers to an earlier row other than the phantom row, or to an entry of the parameter table.
-/
namespace JetTape

variable {F : Type}

/-- The operand refers to one of `n` rows, the phantom row apart, or to one of `p` parameters. -/
def Operand.Valid (n p : Nat) : Operand → Prop
  | .var x => 0 < x ∧ x < n
  | .par i => i < p

/-- An index that refers to what `s` says. -/
def Source.Valid (n p : Nat) (s : Source) (i : Nat) : Prop :=
  match s with
  | .var => 0 < i ∧ i < n
  | .par => i < p

/-- An index of one of the first `n` rows or `p` parameters. It need not be that of a variable: an
arena may have no phantom row. -/
def Source.Below (n p : Nat) (s : Source) (i : Nat) : Prop :=
  match s with
  | .var => i < n
  | .par => i < p

theorem Source.Valid.below {n p i : Nat} {s : Source} (h : s.Valid n p i) : s.Below n p i := by
  cases s with
  | var => exact h.2
  | par => exact h

theorem Operand.valid_iff {n p : Nat} {a : Operand} :
    a.Valid n p ↔ a.source.Valid n p a.index := by
  cases a <;> rfl

theorem Source.Valid.mono {n p n' p' i : Nat} {s : Source} (h : s.Valid n p i) (hn : n ≤ n')
    (hp : p ≤ p') : s.Valid n' p' i := by
  cases s with
  | var => exact ⟨h.1, Nat.lt_of_lt_of_le h.2 hn⟩
  | par => exact Nat.lt_of_lt_of_le h hp

theorem Operand.Valid.mono {n p n' p' : Nat} {a : Operand} (h : a.Valid n p) (hn : n ≤ n')
    (hp : p ≤ p') : a.Valid n' p' :=
  Operand.valid_iff.mpr ((Operand.valid_iff.mp h).mono hn hp)

theorem Operand.Valid.below {n p : Nat} {a : Operand} (h : a.Valid n p) :
    a.source.Below n p a.index :=
  (Operand.valid_iff.mp h).below

/-- The flags of the operands of a conditional. -/
def chooseFlags (left right ifTrue ifFalse : Operand) : Nat :=
  left.flag 1 + right.flag 2 + ifTrue.flag 4 + ifFalse.flag 8

theorem testBit_chooseFlags (left right ifTrue ifFalse : Operand) :
    (chooseFlags left right ifTrue ifFalse).testBit 0 = (left.source = .var) ∧
    (chooseFlags left right ifTrue ifFalse).testBit 1 = (right.source = .var) ∧
    (chooseFlags left right ifTrue ifFalse).testBit 2 = (ifTrue.source = .var) ∧
    (chooseFlags left right ifTrue ifFalse).testBit 3 = (ifFalse.source = .var) := by
  cases left <;> cases right <;> cases ifTrue <;> cases ifFalse <;>
    simp [chooseFlags, Operand.flag, Operand.source] <;> decide

/-- An instruction outside call blocks as it is recorded after `n` rows, `p` parameters and `m`
loads. -/
inductive Instr.Valid (n p m : Nat) : Opcode → List Nat → Prop where
  | constant {i : Nat} (hi : i < p) : Valid n p m .constant [i]
  | arithmetic (f : Arithmetic) {s t : Source} {a b : Nat} (hf : f.sources = [s, t])
      (ha : s.Valid n p a) (hb : t.Valid n p b) : Valid n p m (.arithmetic f) [a, b]
  | power (f : Power) {s t : Source} {a b : Nat} (hf : f.sources = [s, t])
      (ha : s.Valid n p a) (hb : t.Valid n p b) : Valid n p m (.power f) [a, b]
  | elementary (f : Elementary) {x : Nat} (hx : Source.var.Valid n p x) :
      Valid n p m (.elementary f) [x]
  | erf {x i k : Nat} (hx : Source.var.Valid n p x) (hi : i < p) (hk : k < p) :
      Valid n p m .erf [x, i, k]
  | discrete (f : Nat) {x : Nat} (hx : Source.var.Valid n p x) : Valid n p m .discrete [f, x]
  | choose (r : Relation) {left right ifTrue ifFalse : Operand} (hl : left.Valid n p)
      (hr : right.Valid n p) (ht : ifTrue.Valid n p) (hf : ifFalse.Valid n p) :
      Valid n p m .choose [r.code, chooseFlags left right ifTrue ifFalse, left.index,
        right.index, ifTrue.index, ifFalse.index]
  | sum {i : Nat} {xs ys : List Nat} (hi : i < p)
      (hx : ∀ x ∈ xs ++ ys, Source.var.Valid n p x) :
      Valid n p m .sum ([Index.toArg xs.length, Index.toArg ys.length, i] ++ xs ++ ys ++
        [Index.toArg (xs.length + ys.length)])
  | skip (r : Relation) {left right : Operand} (ifTrue ifFalse : List Nat) (hl : left.Valid n p)
      (hr : right.Valid n p) :
      Valid n p m .skip ([r.code, left.flag 1 + right.flag 2, left.index, right.index,
        Index.toArg ifTrue.length, Index.toArg ifFalse.length] ++ ifTrue ++ ifFalse ++
        [Index.toArg (ifTrue.length + ifFalse.length)])
  | load (offset : Nat) {index : Operand} {slot : Nat} (hi : index.Valid n p) (hs : slot < m) :
      Valid n p m (.load index.source) [offset, index.index, slot]
  | store (offset : Nat) {index value : Operand} (hi : index.Valid n p) (hv : value.Valid n p) :
      Valid n p m (.store index.source value.source) [offset, index.index, value.index]
  | compare (f : Comparison) {left right : Nat} (hl : f.sources.1.Valid n p left)
      (hr : f.sources.2.Valid n p right) : Valid n p m (.compare f) [left, right]
  | print {position value : Operand} (before after : Nat) (hp : position.Valid n p)
      (hv : value.Valid n p) :
      Valid n p m .print [position.index, before, value.index, after,
        position.flag 1 + value.flag 2]

theorem Instr.Valid.mono {n p m p' m' : Nat} {op : Opcode} {args : List Nat}
    (h : Instr.Valid n p m op args) (hp : p ≤ p') (hm : m ≤ m') : Instr.Valid n p' m' op args := by
  have le : n ≤ n := Nat.le_refl n
  cases h with
  | constant hi => exact .constant (Nat.lt_of_lt_of_le hi hp)
  | arithmetic f hf ha hb => exact .arithmetic f hf (ha.mono le hp) (hb.mono le hp)
  | power f hf ha hb => exact .power f hf (ha.mono le hp) (hb.mono le hp)
  | elementary f hx => exact .elementary f hx
  | erf hx hi hk => exact .erf hx (Nat.lt_of_lt_of_le hi hp) (Nat.lt_of_lt_of_le hk hp)
  | discrete f hx => exact .discrete f hx
  | choose r hl hr ht hf =>
    exact .choose r (hl.mono le hp) (hr.mono le hp) (ht.mono le hp) (hf.mono le hp)
  | sum hi hx => exact .sum (Nat.lt_of_lt_of_le hi hp) hx
  | skip r s t hl hr => exact .skip r s t (hl.mono le hp) (hr.mono le hp)
  | load offset hi hs => exact .load offset (hi.mono le hp) (Nat.lt_of_lt_of_le hs hm)
  | store offset hi hv => exact .store offset (hi.mono le hp) (hv.mono le hp)
  | compare f hl hr => exact .compare f (hl.mono le hp) (hr.mono le hp)
  | print before after hp' hv => exact .print before after (hp'.mono le hp) (hv.mono le hp)

/-- The added and the subtracted rows in the argument list of a long sum. -/
theorem sum_rows {xs ys : List Nat} (hcount : xs.length + ys.length < Index.argBound) (i : Nat) :
    let args := [Index.toArg xs.length, Index.toArg ys.length, i] ++ xs ++ ys ++
      [Index.toArg (xs.length + ys.length)]
    (args.drop 3).take (args.getD 0 0) = xs ∧
      (args.drop (3 + args.getD 0 0)).take (args.getD 1 0) = ys := by
  rw [Index.toArg_of_lt (show xs.length < Index.argBound by omega),
    Index.toArg_of_lt (show ys.length < Index.argBound by omega), Index.toArg_of_lt hcount]
  intro args
  refine ⟨by simp [args], ?_⟩
  simp [args, ← List.drop_drop]

/-- Operations outside call blocks, other than those that frame a tape. -/
def Opcode.isPlain : Opcode → Bool
  | .start | .stop | .independent | .callMarker | .callArg _ | .callResult _ => false
  | _ => true

theorem Elementary.resultCount_pos (f : Elementary) : 0 < f.resultCount := by
  cases f <;> decide

theorem Instr.Valid.isPlain {n p m : Nat} {op : Opcode} {args : List Nat}
    (h : Instr.Valid n p m op args) : op.isPlain = true := by
  cases h <;> rfl

end JetTape
