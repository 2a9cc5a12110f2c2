import JetTape.Proofs.Recurrence.Operands
import JetTape.Proofs.Tape.Relocation

/-!
Recurrences under relocation. On the jet of the tape that it has been moved into an instruction does
to the rows of its own tape what it did there: also the rows that a recurrence finds by counting
back from its result are moved along with it.
-/
namespace JetTape

variable {F : Type} [Scalar F]

namespace Relocation

/-- The rows of a tape as the jet holds them where they have gone. -/
def pull (r : Relocation) (j : Jet F) : Jet F := fun v k =>
  if 0 < v ∧ v < r.rows then j (r.row v) k else 0

variable {r : Relocation} {j : Jet F} {n p q v z : Nat} {params params' : Array F}

theorem pull_row (hpos : 0 < v) (hv : v < r.rows) : r.pull j v = j (r.row v) :=
  funext fun _ => if_pos ⟨hpos, hv⟩

theorem pull_of_not (h : ¬(0 < v ∧ v < r.rows)) (k : Nat) : r.pull j v k = 0 := if_neg h

theorem pull_own (h : r.renamed < z) (hz : z < r.rows) : r.pull j z = j (r.shift z) := by
  rw [pull_row (by omega) hz, row_of_lt h]

theorem pull_refl {rows : Nat} (hpos : 0 < v) (hv : v < rows) : (refl rows).pull j v = j v := by
  rw [pull_row hpos hv, row_refl]

/-- What is written to a row that is not renamed is written to no other row of the tape. -/
theorem pull_set (h : r.renamed < z) (hz : z < r.rows) (q : Nat) (x : F) :
    r.pull (j.set (r.shift z) q x) = (r.pull j).set z q x := by
  funext v k
  by_cases hvk : v = z ∧ k = q
  · obtain ⟨rfl, rfl⟩ := hvk
    rw [pull_own h hz, Jet.set_self, Jet.set_self]
  · have hother : ¬(r.row v = r.shift z ∧ k = q) := fun heq => hvk ⟨eq_of_row_eq h heq.1, heq.2⟩
    simp only [pull, Jet.set, hvk, hother, if_false]

/-- The parameter table has the parameters of the tape where they have gone. -/
def Keeps (r : Relocation) (params params' : Array F) : Prop :=
  ∀ i < params.size, params'.getD (i + r.params) 0 = params.getD i 0

section Operands

variable {s t : Source} {a b : Nat}

theorem pull_source (ha : s.Valid n p a) (hn : n ≤ r.rows) (hs : s = .var) :
    r.pull j a = j (r.arg s.role a) := by
  subst hs
  exact pull_row ha.1 (Nat.lt_of_lt_of_le ha.2 hn)

theorem Keeps.source (h : r.Keeps params params') (ha : s.Valid n params.size a) (hs : s = .par) :
    params'.getD (r.arg s.role a) 0 = params.getD a 0 := by
  subst hs
  exact h a ha

theorem arithmeticCoeff_pull (f : Arithmetic) (hf : f.sources = [s, t])
    (ha : s.Valid n params.size a) (hb : t.Valid n params.size b) (hn : n ≤ r.rows)
    (h : r.Keeps params params') (hown : r.renamed < z) (hz : z < r.rows) :
    j.arithmeticCoeff f q (r.shift z) [r.arg s.role a, r.arg t.role b] params' =
      (r.pull j).arithmeticCoeff f q z [a, b] params := by
  have hresult := pull_own (j := j) hown hz
  have var {s : Source} {a : Nat} (ha : s.Valid n params.size a) (hs : s = .var) :=
    pull_source (j := j) ha hn hs
  cases f <;> cases hf <;>
    simp only [Jet.arithmeticCoeff, List.getD_cons_zero, List.getD_cons_succ]
  case addVV | subVV | mulVV | zmulVV => rw [var ha rfl, var hb rfl]
  case divVV => rw [var ha rfl, var hb rfl, hresult]
  case addPV | subPV => rw [var hb rfl]
  case subVP => rw [var ha rfl]
  case mulPV | zmulPV => rw [var hb rfl, h.source ha rfl]
  case divPV => rw [var hb rfl, hresult]
  case divVP | zmulVP => rw [var ha rfl, h.source hb rfl]

theorem pull_power (f : Power) (hf : f.sources = [s, t])
    (ha : s.Valid n params.size a) (hb : t.Valid n params.size b) (hn : n ≤ r.rows)
    (h : r.Keeps params params') (hown : r.renamed + 2 < z) (hz : z < r.rows) :
    r.pull (j.power f q (r.shift z) [r.arg s.role a, r.arg t.role b] params') =
      (r.pull j).power f q z [a, b] params := by
  have h0 : r.renamed < z := by omega
  have h1 : r.renamed < z - 1 := by omega
  have h2 : r.renamed < z - 2 := by omega
  have hz1 : z - 1 < r.rows := by omega
  have hz2 : z - 2 < r.rows := by omega
  have var {s : Source} {a : Nat} {j : Jet F} (ha : s.Valid n params.size a) (hs : s = .var) :=
    pull_source (j := j) ha hn hs
  cases f <;> cases hf <;>
    simp only [Jet.power, List.getD_cons_zero, List.getD_cons_succ, shift_sub hown,
      shift_sub (show r.renamed + 1 < z by omega), ← pull_set h0 hz, ← pull_set h1 hz1,
      ← pull_set h2 hz2, pull_own h0 hz, pull_own h1 hz1, pull_own h2 hz2]
  case vv => rw [var ha rfl, var hb rfl]
  case pv => rw [var hb rfl]
  case vp => rw [var ha rfl, h.source hb rfl]

end Operands

theorem pull_elementary (f : Elementary) {x : Nat} (hx : Source.var.Valid n p x) (hn : n ≤ r.rows)
    (hown : r.renamed + f.resultCount ≤ z) (hz : z < r.rows) :
    r.pull (j.elementary f q (r.shift z) (r.row x)) = (r.pull j).elementary f q z x := by
  have h0 : r.renamed < z := by
    have := f.resultCount_pos
    omega
  have var {j : Jet F} := pull_source (j := j) hx hn rfl
  have own {j : Jet F} := pull_own (j := j) h0 hz
  have set {j : Jet F} := pull_set (j := j) h0 hz
  rw [show Source.var.role = Role.row from rfl, arg_row] at var
  by_cases hcount : f.resultCount = 1
  · cases f <;> cases hcount <;> simp only [Jet.elementary, ← set, var, own]
  · have h1 : r.renamed < z - 1 := by
      have : f.resultCount = 1 ∨ f.resultCount = 2 := by cases f <;> decide
      omega
    have hz1 : z - 1 < r.rows := by omega
    have set' {j : Jet F} := pull_set (j := j) h1 hz1
    have own' {j : Jet F} := pull_own (j := j) h1 hz1
    have hback := shift_sub (r := r) (show r.renamed + 1 < z by omega)
    cases f <;> first
      | exact absurd rfl hcount
      | simp only [Jet.elementary, Jet.sineCosine, Jet.tangent, Jet.inverse, hback, ← set, ← set',
          var, own, own']

theorem pull_erf {x i c : Nat} (hx : Source.var.Valid n p x) (hc : c < params.size)
    (hn : n ≤ r.rows) (h : r.Keeps params params') (hown : r.renamed + 5 ≤ z) (hz : z < r.rows) :
    r.pull (j.erf q (r.shift z) [r.row x, i + r.params, c + r.params] params') =
      (r.pull j).erf q z [x, i, c] params := by
  have var {j : Jet F} := pull_source (j := j) hx hn rfl
  rw [show Source.var.role = Role.row from rfl, arg_row] at var
  have own (d : Nat) (hd : d < 5) (j : Jet F) : r.pull j (z - d) = j (r.shift (z - d)) :=
    pull_own (by omega) (by omega)
  have set (d : Nat) (hd : d < 5) (j : Jet F) (x : F) :
      (r.pull j).set (z - d) q x = r.pull (j.set (r.shift (z - d)) q x) :=
    (pull_set (by omega) (by omega) q x).symm
  have back (d : Nat) (hd : d < 5) : r.shift z - d = r.shift (z - d) := shift_sub (by omega)
  have set0 := set 0 (by omega)
  rw [Nat.sub_zero] at set0
  simp only [Jet.erf, List.getD_cons_zero, List.getD_cons_succ, back 4, back 3, back 2, back 1,
    Nat.reduceLT, set 4, set 3, set 2, set 1, set0, var, own 4, own 3, own 2, own 1, h c hc]

section Choice

variable {left right ifTrue ifFalse : Operand}

theorem first_pull {a : Operand} (ha : a.Valid n params.size) (hn : n ≤ r.rows)
    (h : r.Keeps params params') : (r.operand a).first params' j = a.first params (r.pull j) := by
  cases a with
  | var x => exact (congrFun (pull_row ha.1 (Nat.lt_of_lt_of_le ha.2 hn)) 0).symm
  | par i => exact h i ha

theorem higher_pull {a : Operand} (ha : a.Valid n p) (hn : n ≤ r.rows) :
    (r.operand a).higher q j = a.higher q (r.pull j) := by
  cases a with
  | var x => exact (congrFun (pull_row ha.1 (Nat.lt_of_lt_of_le ha.2 hn)) q).symm
  | par i => rfl

theorem chooseCoeff_pull (rel : Relation) (hl : left.Valid n params.size)
    (hr : right.Valid n params.size) (ht : ifTrue.Valid n params.size)
    (hf : ifFalse.Valid n params.size) (hn : n ≤ r.rows) (h : r.Keeps params params') :
    let flags := chooseFlags left right ifTrue ifFalse
    j.chooseCoeff q [rel.code, flags, (r.operand left).index, (r.operand right).index,
        (r.operand ifTrue).index, (r.operand ifFalse).index] params' =
      (r.pull j).chooseCoeff q [rel.code, flags, left.index, right.index, ifTrue.index,
        ifFalse.index] params := by
  intro flags
  have hflags : flags = chooseFlags (r.operand left) (r.operand right) (r.operand ifTrue)
      (r.operand ifFalse) := (chooseFlags_operand ..).symm
  conv_lhs => rw [hflags, Jet.chooseCoeff_operands]
  rw [Jet.chooseCoeff_operands, first_pull hl hn h, first_pull hr hn h, higher_pull ht hn,
    higher_pull hf hn]

end Choice

theorem foldl_row {l : List Nat} (hl : ∀ x ∈ l, Source.var.Valid n p x) (hn : n ≤ r.rows)
    (op : F → F → F) (s : F) :
    (l.map r.row).foldl (fun sum x => op sum (j x q)) s =
      l.foldl (fun sum x => op sum (r.pull j x q)) s := by
  rw [List.foldl_map]
  apply List.foldl_ext
  intro sum x hx
  obtain ⟨hpos, hlt⟩ := hl x hx
  rw [pull_row hpos (Nat.lt_of_lt_of_le hlt hn)]

theorem sumCoeff_pull {i : Nat} {xs ys : List Nat} (hcount : xs.length + ys.length < Index.argBound)
    (hx : ∀ x ∈ xs ++ ys, Source.var.Valid n p x) (hn : n ≤ r.rows) :
    j.sumCoeff q ([Index.toArg (xs.map r.row).length, Index.toArg (ys.map r.row).length,
        i + r.params] ++ xs.map r.row ++ ys.map r.row ++
          [Index.toArg ((xs.map r.row).length + (ys.map r.row).length)]) =
      (r.pull j).sumCoeff q ([Index.toArg xs.length, Index.toArg ys.length, i] ++ xs ++ ys ++
        [Index.toArg (xs.length + ys.length)]) := by
  obtain ⟨hadded, hsubtracted⟩ := sum_rows hcount i
  have hcount' : (xs.map r.row).length + (ys.map r.row).length < Index.argBound := by
    simpa using hcount
  obtain ⟨hadded', hsubtracted'⟩ := sum_rows hcount' (i + r.params)
  simp only [Jet.sumCoeff]
  rw [hadded, hsubtracted, hadded', hsubtracted',
    foldl_row (fun x h => hx x (List.mem_append_left ys h)) hn (· + ·),
    foldl_row (fun x h => hx x (List.mem_append_right xs h)) hn (· - ·)]

/-- The loads of the tape stand for the rows where those that they stood for have gone. -/
def Resolves (r : Relocation) (resolved resolved' : Array Nat) : Prop :=
  ∀ s < resolved.size, resolved'.getD (s + r.slots) 0 = r.row (resolved.getD s 0)

theorem loadCoeff_pull {resolved resolved' : Array Nat} {offset index index' s : Nat}
    (h : r.Resolves resolved resolved') (hs : s < resolved.size)
    (hlt : resolved.getD s 0 < r.rows) :
    j.loadCoeff q [offset, index', s + r.slots] resolved' =
      (r.pull j).loadCoeff q [offset, index, s] resolved := by
  have hmoved : Jet.loadedRow [offset, index', s + r.slots] resolved' = r.row (resolved.getD s 0) :=
    h s hs
  have hloaded : Jet.loadedRow [offset, index, s] resolved = resolved.getD s 0 := rfl
  rw [Jet.loadCoeff, Jet.loadCoeff, hmoved, hloaded]
  by_cases hpos : 0 < resolved.getD s 0
  · rw [if_pos hpos, if_pos (row_pos_iff.mpr hpos), pull_row hpos hlt]
  · rw [if_neg hpos, if_neg (mt row_pos_iff.mp hpos)]

/-- An instruction does where it has been moved what it does on its own tape. -/
theorem pull_advance {resolved resolved' : Array Nat} {ins : Instr}
    (hvalid : Instr.Valid n params.size resolved.size ins.op ins.args)
    (hargs : ins.args.length < Index.argBound) (hload : ∀ s, ins.op = .load s →
      Jet.loadedRow ins.args resolved < ins.row)
    (hrow : ins.row + 1 = n + ins.op.resultCount) (hn : r.renamed < n) (hrows : ins.row < r.rows)
    (hparams : r.Keeps params params') (hresolved : r.Resolves resolved resolved') :
    r.pull (j.advance q params' resolved' (r.instr ins)) =
      (r.pull j).advance q params resolved ins := by
  obtain ⟨op, args, z⟩ := ins
  simp only at hvalid hargs hload hrow hrows
  have hle : n ≤ r.rows := by omega
  have one {x y : F} (hop : op.resultCount = 1) (hxy : x = y) :
      r.pull (j.set (r.shift z) q x) = (r.pull j).set z q y := by
    rw [hxy]
    exact pull_set (by omega) hrows q y
  cases hvalid with
  | constant hi => exact one rfl rfl
  | arithmetic f hf ha hb =>
    simp only [Opcode.resultCount] at hrow
    simp only [Jet.advance, Relocation.instr, Opcode.roles, along_pair hf]
    exact one rfl (arithmeticCoeff_pull f hf ha hb hle hparams (by omega) hrows)
  | power f hf ha hb =>
    simp only [Opcode.resultCount] at hrow
    simp only [Jet.advance, Relocation.instr, Opcode.roles, along_pair hf]
    exact pull_power f hf ha hb hle hparams (by omega) hrows
  | elementary f hx =>
    simp only [Opcode.resultCount] at hrow
    exact pull_elementary (z := z) f hx hle (by omega) hrows
  | erf hx hi hk =>
    simp only [Opcode.resultCount] at hrow
    exact pull_erf (z := z) hx hk hle hparams (by omega) hrows
  | discrete f hx => exact one rfl rfl
  | choose rel hl hr ht hf =>
    simp only [Jet.advance, Relocation.instr, along_choose]
    exact one rfl (chooseCoeff_pull rel hl hr ht hf hle hparams)
  | sum hi hx =>
    simp only [List.length_append, List.length_cons, List.length_nil] at hargs
    simp only [Jet.advance, Relocation.instr]
    rw [along_sum _ (by omega)]
    exact one rfl (sumCoeff_pull (by omega) hx hle)
  | load offset hi hs =>
    exact one rfl (loadCoeff_pull hresolved hs (Nat.lt_trans (hload _ rfl) hrows))
  | skip | store | compare | print => rfl

end Relocation

end JetTape
