import JetTape.Proofs.Recurrence.Advance
import JetTape.Proofs.Scalar.Exact
import JetTape.Proofs.Tape.Spelling
import Mathlib.Algebra.Algebra.Hom

/-!
Evaluation of tapes. Arithmetic, long sums, conditionals and loads have a meaning in every
commutative algebra over the coefficients whose elements have constant terms: division is
multiplication by an inverse, and conditionals compare constant terms. Values of the rows that
satisfy every instruction of a tape are the values that its evaluation finds.
-/
namespace JetTape

/-- Operations that have a meaning in an algebra, and operations without a row. -/
def Opcode.isRational : Opcode → Bool
  | .power _ | .elementary _ | .erf | .discrete | .callMarker | .callArg _ | .callResult _ => false
  | _ => true

theorem Opcode.resultCount_le_one {op : Opcode} (h : op.isRational = true) :
    op.resultCount ≤ 1 := by
  cases op <;> first | (cases h; done) | simp [resultCount]

namespace Arithmetic

/-- Whether the operation divides by its second operand. -/
def divides : Arithmetic → Bool
  | divVV | divPV | divVP => true
  | _ => false

/-- The operation in a commutative ring. -/
noncomputable def apply {A : Type} [CommRing A] (f : Arithmetic) (x y : A) : A :=
  match f with
  | addVV | addPV => x + y
  | subVV | subPV | subVP => x - y
  | mulVV | mulPV | zmulVV | zmulPV | zmulVP => x * y
  | divVV | divPV | divVP => x * Ring.inverse y

end Arithmetic

/-- What the rows of a tape are evaluated from: the given values of the independents, by row. A load
that stands for a constant has the constant term of what is given for its row. -/
structure Valuation (K A : Type) [Field K] [CommRing A] [Algebra K A] where
  params : Array K
  resolved : Array Nat
  given : Nat → A
  constantTerm : A →ₐ[K] K

variable {K A : Type} [Field K] [CommRing A] [Algebra K A]

namespace Valuation

section Operands

variable (e : Valuation K A) (env : Nat → A)

def operand : Source → Nat → A
  | .var, i => env i
  | .par, i => algebraMap K A (e.params.getD i 0)

/-- Operand `i` of an instruction whose operands refer to what `sources` says. -/
def argument (sources : List Source) (args : List Nat) (i : Nat) : A :=
  e.operand env (sources.getD i .var) (args.getD i 0)

/-- An operand of a conditional. Bit `bit` of the flags marks a variable. -/
def side (args : List Nat) (bit : Nat) : A :=
  e.operand env (if (args.getD 1 0).testBit bit then .var else .par) (args.getD (bit + 2) 0)

end Operands

variable [LinearOrder K] [ExactScalar K] (e : Valuation K A) (env : Nat → A)

/-- A conditional compares the constant terms of its sides. -/
def choice (args : List Nat) : A :=
  match Relation.ofCode (args.getD 0 0) with
  | .ok relation =>
    if relation.holds (e.constantTerm (e.side env args 0)) (e.constantTerm (e.side env args 1))
    then e.side env args 2
    else e.side env args 3
  | .error _ => 0

/-- The value of an instruction's row. -/
noncomputable def value (ins : Instr) : A :=
  match ins.op with
  | .independent => e.given ins.row
  | .constant => e.operand env .par (ins.args.getD 0 0)
  | .arithmetic f =>
    f.apply (e.argument env f.sources ins.args 0) (e.argument env f.sources ins.args 1)
  | .choose => e.choice env ins.args
  | .sum =>
    e.operand env .par (ins.args.getD 2 0) +
      (((ins.args.drop 3).take (ins.args.getD 0 0)).map env).sum -
      (((ins.args.drop (3 + ins.args.getD 0 0)).take (ins.args.getD 1 0)).map env).sum
  | .load _ =>
    if 0 < Jet.loadedRow ins.args e.resolved then env (Jet.loadedRow ins.args e.resolved)
    else algebraMap K A (e.constantTerm (e.given ins.row))
  | _ => 0

/-- Gives the row of an instruction its value. -/
noncomputable def assign (ins : Instr) : Nat → A :=
  if ins.op.resultCount = 0 then env else Function.update env ins.row (e.value env ins)

end Valuation

namespace Tape

variable [LinearOrder K] [ExactScalar K]

/-- The values of the rows, one instruction after another. -/
noncomputable def evaluate (t : Tape K) (e : Valuation K A) : Nat → A :=
  t.instrs.foldl e.assign 0

/-- The values satisfy every instruction that has a row, the phantom row apart. -/
def SatisfiedBy (t : Tape K) (e : Valuation K A) (env : Nat → A) : Prop :=
  ∀ i ins, t.instr i = .ok ins → ins.op ≠ .start → 0 < ins.op.resultCount →
    env ins.row = e.value env ins

end Tape

section Uniqueness

variable [LinearOrder K] [ExactScalar K] {e : Valuation K A} {env env' : Nat → A} {n p m : Nat}

omit [LinearOrder K] [ExactScalar K] in
theorem Valuation.operand_congr (h : ∀ v, 0 < v → v < n → env v = env' v) {s : Source} {i : Nat}
    (hs : s.Valid n p i) : e.operand env s i = e.operand env' s i := by
  cases s with
  | var => exact h i hs.1 hs.2
  | par => rfl

omit [LinearOrder K] [ExactScalar K] in
/-- The operands of a recorded conditional. -/
theorem Valuation.side_choose (e : Valuation K A) (env : Nat → A) (code : Nat)
    (left right ifTrue ifFalse : Operand) :
    let args := [code, chooseFlags left right ifTrue ifFalse, left.index, right.index,
      ifTrue.index, ifFalse.index]
    e.side env args 0 = e.operand env left.source left.index ∧
      e.side env args 1 = e.operand env right.source right.index ∧
      e.side env args 2 = e.operand env ifTrue.source ifTrue.index ∧
      e.side env args 3 = e.operand env ifFalse.source ifFalse.index := by
  obtain ⟨h0, h1, h2, h3⟩ := testBit_chooseFlags left right ifTrue ifFalse
  have source (a : Operand) : (if a.source = .var then Source.var else Source.par) = a.source := by
    cases a <;> rfl
  simp only [side, List.getD_cons_zero, List.getD_cons_succ, h0, h1, h2, h3, source, and_self]

/-- The value of an instruction depends on earlier rows only. -/
theorem Valuation.value_congr {ins : Instr} (h : ∀ v, 0 < v → v < n → env v = env' v)
    (hins : Instr.Valid n p m ins.op ins.args) (hargs : ins.args.length < Index.argBound)
    (hload : ∀ s, ins.op = .load s → Jet.loadedRow ins.args e.resolved < n) :
    e.value env ins = e.value env' ins := by
  obtain ⟨op, args, row⟩ := ins
  simp only at hins hargs hload
  cases hins with
  | arithmetic f hf ha hb =>
    simp only [value, argument, hf, List.getD_cons_zero, List.getD_cons_succ]
    rw [operand_congr h ha, operand_congr h hb]
  | @choose r left right ifTrue ifFalse hl hr ht hf =>
    obtain ⟨h0, h1, h2, h3⟩ := e.side_choose env r.code left right ifTrue ifFalse
    obtain ⟨h0', h1', h2', h3'⟩ := e.side_choose env' r.code left right ifTrue ifFalse
    simp only [value, choice, h0, h1, h2, h3, h0', h1', h2', h3']
    rw [operand_congr h (Operand.valid_iff.mp hl), operand_congr h (Operand.valid_iff.mp hr),
      operand_congr h (Operand.valid_iff.mp ht), operand_congr h (Operand.valid_iff.mp hf)]
  | @sum i xs ys hi hx =>
    simp only [List.length_append, List.length_cons, List.length_nil] at hargs
    obtain ⟨hadded, hsubtracted⟩ := sum_rows (show xs.length + ys.length < _ by omega) i
    have hsame (l : List Nat) (hl : ∀ x ∈ l, x ∈ xs ++ ys) : l.map env = l.map env' := by
      apply List.map_congr_left
      intro x hmem
      exact operand_congr (e := e) h (hx x (hl x hmem))
    simp only [value, hadded, hsubtracted]
    rw [hsame xs fun x => List.mem_append_left ys, hsame ys fun x => List.mem_append_right xs]
    rfl
  | @load offset index slot hi hs =>
    have hlt := hload _ rfl
    simp only [value]
    by_cases hpos : 0 < Jet.loadedRow [offset, index.index, slot] e.resolved
    · rw [if_pos hpos, if_pos hpos, h _ hpos hlt]
    · rw [if_neg hpos, if_neg hpos]
  | _ => rfl

/-- Values that satisfy valid items are found by evaluating the items one after another. -/
theorem Valuation.foldl_assign {k : Nat} {items : List Item} {start : Nat → A}
    (hitems : ValidItems p m k n items)
    (hops : ∀ ins ∈ instrsOf items, ins.op.isRational = true)
    (hargs : ∀ ins ∈ instrsOf items, ins.args.length < Index.argBound)
    (hload : ∀ ins ∈ instrsOf items, ∀ s, ins.op = .load s →
      Jet.loadedRow ins.args e.resolved < ins.row)
    (hsat : ∀ ins ∈ instrsOf items, 0 < ins.op.resultCount → env ins.row = e.value env ins)
    (hstart : ∀ v, 0 < v → v < n → start v = env v) :
    ∀ v, 0 < v → v < n + rowCount (instrsOf items) →
      (instrsOf items).foldl e.assign start v = env v := by
  induction items generalizing n start with
  | nil => simpa using hstart
  | cons item rest ih =>
    obtain ⟨hitem, hrest⟩ := hitems
    cases item with
    | call b =>
      have hb : b.Valid n p k := hitem
      have hop := hops b.opening (by simp [Item.instrs, Block.instrs])
      rw [hb.opens] at hop
      cases hop
    | plain ins =>
      have hmem : ins ∈ instrsOf (.plain ins :: rest) := List.mem_cons_self
      have later {i : Instr} (hi : i ∈ instrsOf rest) : i ∈ instrsOf (.plain ins :: rest) :=
        List.mem_cons_of_mem ins hi
      have hrow : ins.row + 1 = n + ins.op.resultCount := hitem.2.1
      have hcount : rowCount (Item.plain ins).instrs = ins.op.resultCount := by simp [Item.instrs]
      rw [hcount] at hrest
      have hnext : ∀ v, 0 < v → v < n + ins.op.resultCount → e.assign start ins v = env v := by
        intro v hpos hv
        unfold assign
        by_cases hzero : ins.op.resultCount = 0
        · rw [if_pos hzero]
          exact hstart v hpos (by omega)
        · rw [if_neg hzero]
          have hone := Opcode.resultCount_le_one (hops ins hmem)
          by_cases hown : v = ins.row
          · subst hown
            rw [Function.update_self, hsat ins hmem (by omega)]
            apply value_congr hstart hitem.1 (hargs ins hmem)
            intro s hs
            have := hload ins hmem s hs
            omega
          · rw [Function.update_of_ne hown]
            exact hstart v hpos (by omega)
      have hall := ih hrest (fun i hi => hops i (later hi)) (fun i hi => hargs i (later hi))
        (fun i hi => hload i (later hi)) (fun i hi => hsat i (later hi)) hnext
      intro v hpos hv
      apply hall v hpos
      rw [instrsOf_cons, rowCount_append, hcount] at hv
      omega

/-- The independents have their given values. -/
theorem Valuation.foldl_assign_head (count : Nat) (start : Nat → A) :
    ∀ v, 0 < v → v < 1 + count → (headInstrs count).foldl e.assign start v = e.given v := by
  induction count with
  | zero =>
    intro v hpos hv
    omega
  | succ count ih =>
    intro v hpos hv
    rw [headInstrs_succ, List.foldl_append, List.foldl_cons, List.foldl_nil, assign,
      if_neg (by simp [Opcode.resultCount])]
    by_cases hlast : v = count + 1
    · subst hlast
      rw [Function.update_self]
      rfl
    · rw [Function.update_of_ne hlast]
      exact ih v hpos (by omega)

end Uniqueness

end JetTape
