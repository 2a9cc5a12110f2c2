import JetTape.Proofs.Recurrence.Lanes
import JetTape.Proofs.Tape.Numbering

/-!
Recurrences on numbered operands. An arena that holds the operands of an instruction under their
numbers need not have a phantom row, and its rows need not come from different variables. On it a
recurrence with one result computes from the numbered arguments what it computes on the tape from
the arguments themselves.
-/
namespace JetTape

open Arena (Along)

variable {F : Type} [Scalar F]

/-- The jet `g` holds under their numbers what `j` holds on the listed rows, up to order `q`. -/
def Jet.Numbers (q : Nat) (rows : List Nat) (g j : Jet F) : Prop :=
  ∀ c x, rows[c]? = some x → Series.EqUpTo q (g c) (j x)

section Below

variable {rows : List Nat} {n p m : Nat}

omit [Scalar F] in
/-- A number is below the number of rows. -/
theorem Source.below_of_picks {s : Source} {i i' : Nat} (h : s.role.Picks rows i' i)
    (hi : s.Valid n p i) (hle : rows.length ≤ m) : s.Below m p i' := by
  cases s with
  | var => exact Nat.lt_of_lt_of_le (List.getElem?_eq_some_iff.mp h).1 hle
  | par => exact h ▸ hi

/-- A numbered operand of a conditional. -/
theorem Operand.exists_of_picks {a : Operand} {i : Nat} (h : a.source.role.Picks rows i a.index)
    (ha : a.Valid n p) (hle : rows.length ≤ m) :
    ∃ a' : Operand, i = a'.index ∧ a'.source = a.source ∧ a'.source.Below m p a'.index := by
  have hbelow := Source.below_of_picks h (Operand.valid_iff.mp ha) hle
  cases a with
  | var x => exact ⟨.var i, rfl, rfl, hbelow⟩
  | par k => exact ⟨.par i, rfl, rfl, hbelow⟩

end Below

namespace Recurrence

variable {rows : List Nat} {n n' m q z : Nat} {params : Array F} {op : Opcode}
variable {args args' : List Nat} {rule : Recurrence F}

/-- On numbered arguments a recurrence with one result does to each jet what the instruction would
do if its variables had these numbers. -/
theorem along_numbered (hrule : ofOpcode? op = some rule) (hone : op.resultCount = 1)
    (hvalid : Instr.Valid n' params.size m op args) (hargs : args.length < Index.argBound)
    (hpicks : Picks rows (op.roles args) args' args) (hz : rows.length ≤ z) (hn : z < n)
    (resolved : Array Nat) :
    Along n q (rule q z args' params) fun _ => Jet.advance q params resolved ⟨op, args', z⟩ := by
  have hle : rows.length ≤ n := by omega
  cases hvalid with
  | constant hi =>
    cases hrule
    exact Arena.along_zeroOrder hn
  | discrete f hx =>
    cases hrule
    exact Arena.along_zeroOrder hn
  | arithmetic f hf ha hb =>
    cases hrule
    rw [Opcode.roles, hf] at hpicks
    obtain ⟨a', _, rfl, ha', b', _, rfl, hb', rfl⟩ := hpicks
    exact along_arithmetic f hf (Source.below_of_picks ha' ha hle)
      (Source.below_of_picks hb' hb hle) hn
  | elementary f hx =>
    cases hrule
    obtain ⟨c, _, rfl, hc, rfl⟩ := hpicks
    have hlt : c < rows.length := (List.getElem?_eq_some_iff.mp hc).1
    have hcount : f.resultCount = 1 := hone
    exact along_elementary f (by omega) hn (by omega)
  | choose r hl hr ht hf =>
    cases hrule
    obtain ⟨a, b, c, d, rfl, ha, hb, hc, hd⟩ := picks_choose hpicks
    obtain ⟨left', rfl, hl', hleft⟩ := Operand.exists_of_picks ha hl hle
    obtain ⟨right', rfl, hr', hright⟩ := Operand.exists_of_picks hb hr hle
    obtain ⟨ifTrue', rfl, ht', htrue⟩ := Operand.exists_of_picks hc ht hle
    obtain ⟨ifFalse', rfl, hf', hfalse⟩ := Operand.exists_of_picks hd hf hle
    refine along_choose r ?_ hleft hright htrue hfalse hn
    simp only [chooseFlags, Operand.flag_of_source hl', Operand.flag_of_source hr',
      Operand.flag_of_source ht', Operand.flag_of_source hf']
  | sum hi hx =>
    cases hrule
    simp only [List.length_append, List.length_cons, List.length_nil] at hargs
    obtain ⟨cs, ds, rfl, hcs, hds⟩ := picks_sum (by omega) hpicks
    refine along_sum params (fun c hc => ?_) hn ?_
    · rcases List.mem_append.mp hc with hc | hc
      · exact Nat.lt_of_lt_of_le (lt_of_picks_rows hcs c hc) hle
      · exact Nat.lt_of_lt_of_le (lt_of_picks_rows hds c hc) hle
    · rw [hcs.length_eq, hds.length_eq]
      omega
  | power | erf => cases hone
  | load | skip | store | compare | print => cases hrule

end Recurrence

namespace Jet

variable {rows : List Nat} {n p m q z z' : Nat} {params : Array F} {g j : Jet F}

section Coefficients

variable {s t : Source} {a a' b b' : Nat}

omit [Scalar F] in
theorem Numbers.source (h : Numbers q rows g j) (ha : s.role.Picks rows a' a) (hs : s = .var) :
    Series.EqUpTo q (g a') (j a) := by
  subst hs
  exact h a' a ha

theorem arithmeticCoeff_numbered (f : Arithmetic) (h : Numbers q rows g j)
    (hown : Series.EqBelow q (g z') (j z)) (hf : f.sources = [s, t])
    (ha : s.role.Picks rows a' a) (hb : t.role.Picks rows b' b) :
    g.arithmeticCoeff f q z' [a', b'] params = j.arithmeticCoeff f q z [a, b] params := by
  have first := h.source ha
  have second := h.source hb
  have par {s : Source} {a a' : Nat} (ha : s.role.Picks rows a' a) (hs : s = .par) : a' = a := by
    subst hs
    exact ha
  cases f <;> cases hf <;>
    simp only [arithmeticCoeff, List.getD_cons_zero, List.getD_cons_succ]
  case addVV | subVV => rw [(first rfl).last, (second rfl).last]
  case addPV | subPV => rw [(second rfl).last]
  case subVP => rw [(first rfl).last]
  case mulVV | zmulVV => exact Series.convolution_congr _ (first rfl) (second rfl)
  case divVV => exact Series.quotient_congr (first rfl) (second rfl) hown
  case divPV => exact Series.reciprocalOf_congr (second rfl) hown
  case mulPV | zmulPV => rw [(second rfl).last, par ha rfl]
  case divVP | zmulVP => rw [(first rfl).last, par hb rfl]

/-- A function of one variable without auxiliary rows. -/
theorem elementary_numbered (f : Elementary) (h0 : 0 < q) (h : Series.EqUpTo q (g a') (j a))
    (hown : Series.EqBelow q (g z') (j z)) (hone : f.resultCount = 1) :
    g.elementary f q z' a' z' q = j.elementary f q z a z q := by
  cases f <;> cases hone <;> simp only [elementary, set_self]
  case exp => exact Series.integral_congr h hown
  case expm1 => exact Series.expm1_congr h hown
  case log | log1p => exact Series.logShifted_congr _ h hown
  case sqrt => exact Series.sqrt_congr h0 h hown
  case abs => rw [h.first, h.last]

theorem conditionValue_numbered {a : Operand} {flags bit i : Nat} (h : Numbers q rows g j)
    (hbit : flags.testBit bit = (a.source = .var)) (ha : a.source.role.Picks rows i a.index) :
    g.conditionValue flags bit i params = j.conditionValue flags bit a.index params := by
  cases a with
  | var x =>
    simp only [conditionValue, hbit, Operand.source, if_true]
    exact (h i x ha).first
  | par k =>
    simp only [conditionValue, hbit, Operand.source]
    exact congrArg (fun i => params.getD i 0) ha

/-- The selected branch of a conditional. -/
theorem branch_numbered {a : Operand} {flags bit i : Nat} (h : Numbers q rows g j)
    (hbit : flags.testBit bit = (a.source = .var)) (ha : a.source.role.Picks rows i a.index) :
    (if flags.testBit bit then g i q else 0) = if flags.testBit bit then j a.index q else 0 := by
  simp only [hbit]
  split
  · exact (h.source ha ‹_›).last
  · rfl

theorem chooseCoeff_numbered (r : Relation) {left right ifTrue ifFalse : Operand}
    {a b c d : Nat} (h : Numbers q rows g j) (ha : left.source.role.Picks rows a left.index)
    (hb : right.source.role.Picks rows b right.index)
    (hc : ifTrue.source.role.Picks rows c ifTrue.index)
    (hd : ifFalse.source.role.Picks rows d ifFalse.index) :
    let flags := chooseFlags left right ifTrue ifFalse
    g.chooseCoeff q [r.code, flags, a, b, c, d] params =
      j.chooseCoeff q [r.code, flags, left.index, right.index, ifTrue.index, ifFalse.index]
        params := by
  intro flags
  obtain ⟨h0, h1, h2, h3⟩ := testBit_chooseFlags left right ifTrue ifFalse
  simp only [chooseCoeff, condition, List.getD_cons_zero, List.getD_cons_succ, flags,
    conditionValue_numbered h h0 ha, conditionValue_numbered h h1 hb, branch_numbered h h2 hc,
    branch_numbered h h3 hd]

omit [Scalar F] in
theorem foldl_numbered {cs xs : List Nat} (h : Numbers q rows g j)
    (hcs : List.Forall₂ (Role.row.Picks rows) cs xs) (op : F → F → F) (s : F) :
    cs.foldl (fun sum c => op sum (g c q)) s = xs.foldl (fun sum x => op sum (j x q)) s := by
  induction hcs generalizing s with
  | nil => rfl
  | @cons c x cs xs hc _ ih => rw [List.foldl_cons, List.foldl_cons, (h c x hc).last, ih]

theorem sumCoeff_numbered {i : Nat} {cs ds xs ys : List Nat} (h : Numbers q rows g j)
    (hcount : xs.length + ys.length < Index.argBound)
    (hcs : List.Forall₂ (Role.row.Picks rows) cs xs)
    (hds : List.Forall₂ (Role.row.Picks rows) ds ys) :
    g.sumCoeff q ([Index.toArg cs.length, Index.toArg ds.length, i] ++ cs ++ ds ++
        [Index.toArg (cs.length + ds.length)]) =
      j.sumCoeff q ([Index.toArg xs.length, Index.toArg ys.length, i] ++ xs ++ ys ++
        [Index.toArg (xs.length + ys.length)]) := by
  have hcount' : cs.length + ds.length < Index.argBound := by
    rwa [hcs.length_eq, hds.length_eq]
  obtain ⟨hadded, hsubtracted⟩ := sum_rows hcount i
  obtain ⟨hadded', hsubtracted'⟩ := sum_rows hcount' i
  simp only [sumCoeff]
  rw [hadded, hsubtracted, hadded', hsubtracted', foldl_numbered h hcs (· + ·),
    foldl_numbered h hds (· - ·)]

end Coefficients

section Advance

variable {op : Opcode} {args args' : List Nat} {rule : Recurrence F} {resolved resolved' : Array Nat}

/-- A recurrence with one result computes from the numbered operands what it computes on the tape. -/
theorem advance_numbered (h0 : 0 < q) (hrule : Recurrence.ofOpcode? op = some rule)
    (hone : op.resultCount = 1) (hvalid : Instr.Valid n p m op args)
    (hargs : args.length < Index.argBound) (hpicks : Picks rows (op.roles args) args' args)
    (h : Numbers q rows g j) (hown : Series.EqBelow q (g z') (j z)) :
    g.advance q params resolved' ⟨op, args', z'⟩ z' q =
      j.advance q params resolved ⟨op, args, z⟩ z q := by
  cases hvalid with
  | constant hi | discrete f hx => simp only [advance, set_self]
  | arithmetic f hf ha hb =>
    rw [Opcode.roles, hf] at hpicks
    obtain ⟨a', _, rfl, ha', b', _, rfl, hb', rfl⟩ := hpicks
    simp only [advance, set_self]
    exact arithmeticCoeff_numbered f h hown hf ha' hb'
  | elementary f hx =>
    obtain ⟨c, _, rfl, hc, rfl⟩ := hpicks
    exact elementary_numbered f h0 (h c _ hc) hown hone
  | choose r hl hr ht hf =>
    obtain ⟨a, b, c, d, rfl, ha, hb, hc, hd⟩ := picks_choose hpicks
    simp only [advance, set_self]
    exact chooseCoeff_numbered r h ha hb hc hd
  | sum hi hx =>
    simp only [List.length_append, List.length_cons, List.length_nil] at hargs
    obtain ⟨cs, ds, rfl, hcs, hds⟩ := picks_sum (by omega) hpicks
    simp only [advance, set_self]
    exact sumCoeff_numbered h (by omega) hcs hds
  | power | erf => cases hone
  | load | skip | store | compare | print => cases hrule

/-- An instruction with one result changes its row at the order of the sweep. -/
theorem advance_eq_set (hrule : Recurrence.ofOpcode? op = some rule)
    (hone : op.resultCount = 1) :
    j.advance q params resolved ⟨op, args, z⟩ =
      j.set z q (j.advance q params resolved ⟨op, args, z⟩ z q) := by
  have set (x : F) : j.set z q x = j.set z q (j.set z q x z q) := by rw [set_self]
  cases op with
  | elementary f => cases f <;> first | exact set _ | cases hone
  | arithmetic | discrete | constant | choose | sum => exact set _
  | power | erf => cases hone
  | _ => cases hrule

end Advance

end Jet

end JetTape
