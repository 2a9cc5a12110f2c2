import JetTape.Proofs.Recurrence.Operands

/-!
What an instruction of a tape reads and writes. It depends on earlier rows only. `Agree q D j j'`
says that two jets agree below order `q` and, on the rows in `D`, at order `q`. A valid instruction
after rows in `D` keeps the agreement and adds its own rows to it; it writes nothing but order `q`
of these rows.
-/
namespace JetTape.Jet

variable {F : Type}

/-- The jets agree below order `q` on every row, and at order `q` on the rows in `D`. -/
def Agree (q : Nat) (D : Nat → Prop) (j j' : Jet F) : Prop :=
  ∀ v k, k < q ∨ k = q ∧ D v → j v k = j' v k

variable {q : Nat} {D : Nat → Prop} {j j' : Jet F}

theorem Agree.mono {D' : Nat → Prop} (h : Agree q D j j') (hD : ∀ v, D' v → D v) :
    Agree q D' j j' := by
  intro v k hk
  apply h v k
  rcases hk with hk | ⟨hk, hv⟩
  · exact Or.inl hk
  · exact Or.inr ⟨hk, hD v hv⟩

/-- Agreement on `c` rows and on the `d` rows after them. -/
theorem Agree.append {n c d : Nat}
    (h : Agree q (fun v => (n + c ≤ v ∧ v < n + c + d) ∨ ((n ≤ v ∧ v < n + c) ∨ D v)) j j') :
    Agree q (fun v => (n ≤ v ∧ v < n + (c + d)) ∨ D v) j j' := by
  apply h.mono
  rintro v (⟨hn, hlt⟩ | hv)
  · by_cases hown : v < n + c
    · exact Or.inr (Or.inl ⟨hn, hown⟩)
    · exact Or.inl (by omega)
  · exact Or.inr (Or.inr hv)

theorem Agree.below (h : Agree q D j j') (v : Nat) : Series.EqBelow q (j v) (j' v) :=
  fun k hk => h v k (Or.inl hk)

theorem Agree.upTo {v : Nat} (h : Agree q D j j') (hv : D v) : Series.EqUpTo q (j v) (j' v) := by
  intro k hk
  rcases Nat.lt_or_eq_of_le hk with hk | hk
  · exact h v k (Or.inl hk)
  · exact h v k (Or.inr ⟨hk, hv⟩)

theorem Agree.set {v : Nat} {x x' : F} (h : Agree q D j j') (hx : x = x') :
    Agree q (fun w => w = v ∨ D w) (j.set v q x) (j'.set v q x') := by
  intro w k hk
  by_cases hwk : w = v ∧ k = q
  · simp [Jet.set, hwk, hx]
  · simp only [Jet.set, hwk, if_false]
    apply h w k
    rcases hk with hk | ⟨hk, hv | hv⟩
    · exact Or.inl hk
    · exact absurd ⟨hv, hk⟩ hwk
    · exact Or.inr ⟨hk, hv⟩

theorem Agree.agreeOn (h0 : 0 < q) (h : Agree q D j j') : AgreeOn q (fun _ => True) D j j' where
  values v := h v 0 (Or.inl h0)
  below v _ := h.below v
  upTo _ hv := h.upTo hv

theorem AgreeOn.agree (h : AgreeOn q (fun _ => True) D j j') : Agree q D j j' := by
  rintro v k (hk | ⟨rfl, hv⟩)
  · exact h.below v trivial k hk
  · exact h.upTo v hv k (Nat.le_refl k)

variable [Scalar F] {params : Array F}

omit [Scalar F] in
theorem variablesOf_valid {s t : Source} {n p a b : Nat} (ha : s.Valid n p a)
    (hb : t.Valid n p b) : ∀ v ∈ variablesOf [s, t] [a, b], 0 < v ∧ v < n := by
  intro v hv
  simp only [variablesOf, List.zipIdx_cons, List.zipIdx_nil, List.mem_filterMap, List.mem_cons,
    List.not_mem_nil, or_false] at hv
  obtain ⟨source, rfl | rfl, hsome⟩ := hv
  · cases s <;> cases hsome
    exact ha
  · cases t <;> cases hsome
    exact hb

/-- A valid instruction depends on earlier rows only. -/
theorem operands_valid {resolved : Array Nat} {ins : Instr} {n p m : Nat}
    (hvalid : Instr.Valid n p m ins.op ins.args) (hargs : ins.args.length < Index.argBound)
    (hload : ∀ s, ins.op = .load s → loadedRow ins.args resolved < n) (j : Jet F) :
    ∀ v ∈ j.operands params resolved ins, 0 < v ∧ v < n := by
  obtain ⟨op, args, z⟩ := ins
  simp only at hvalid hargs hload
  intro v hv
  have single {x : Nat} (hx : Source.var.Valid n p x) (hv : v ∈ [x]) : 0 < v ∧ v < n :=
    List.mem_singleton.mp hv ▸ hx
  cases hvalid with
  | arithmetic f hf ha hb | power f hf ha hb =>
    simp only [operands, hf] at hv
    exact variablesOf_valid ha hb v hv
  | elementary f hx | erf hx | discrete f hx => exact single hx hv
  | choose r hl hr ht hf =>
    rename_i left right ifTrue ifFalse
    obtain ⟨-, -, h2, h3⟩ := testBit_chooseFlags left right ifTrue ifFalse
    have branch {a : Operand} (ha : a.Valid n p) (hvar : a.source = .var) (hv : v ∈ [a.index]) :
        0 < v ∧ v < n := by
      cases a with
      | var x => exact single ha hv
      | par i => cases hvar
    simp only [operands] at hv
    split_ifs at hv with hcondition hflag hflag
    · exact branch ht (h2.mp hflag) hv
    · cases hv
    · exact branch hf (h3.mp hflag) hv
    · cases hv
  | sum hi hx =>
    rename_i i xs ys
    simp only [List.length_append, List.length_cons, List.length_nil] at hargs
    obtain ⟨hadded, hsubtracted⟩ := sum_rows (show xs.length + ys.length < _ by omega) i
    simp only [operands] at hv
    rw [hadded, hsubtracted] at hv
    exact hx v hv
  | load offset hi hs =>
    simp only [operands] at hv
    split_ifs at hv with hpos
    · rw [List.mem_singleton.mp hv]
      exact ⟨hpos, hload _ rfl⟩
    · cases hv
  | constant | skip | store | compare | print => cases hv

/-- A valid instruction after agreed rows adds its own rows to the agreement. -/
theorem Agree.advance {resolved : Array Nat} {ins : Instr} {n p m : Nat} (h0 : 0 < q)
    (h : Agree q D j j') (hD : ∀ v, 0 < v → v < n → D v)
    (hvalid : Instr.Valid n p m ins.op ins.args)
    (hargs : ins.args.length < Index.argBound)
    (hload : ∀ s, ins.op = .load s → loadedRow ins.args resolved < n) :
    Agree q (fun v => (ins.row < v + ins.op.resultCount ∧ v ≤ ins.row) ∨ D v)
      (j.advance q params resolved ins) (j'.advance q params resolved ins) := by
  have hreads : ∀ v ∈ j.operands params resolved ins, D v := by
    intro v hv
    obtain ⟨hpos, hlt⟩ := operands_valid hvalid hargs hload j v hv
    exact hD v hpos hlt
  exact ((h.agreeOn h0).advance h0 hvalid.isPlain hreads fun _ _ => trivial).agree

/-- An instruction writes order `q` of its own rows only. -/
theorem advance_of_ne {resolved : Array Nat} {ins : Instr} {n p m v k : Nat}
    (hvalid : Instr.Valid n p m ins.op ins.args) (hrow : ins.row + 1 = n + ins.op.resultCount)
    (hvk : k ≠ q ∨ v < n ∨ ins.row < v) : j.advance q params resolved ins v k = j v k := by
  obtain ⟨op, args, z⟩ := ins
  simp only at hvalid hrow hvk
  have skip {g : Jet F} {w : Nat} {x : F} (hw : n ≤ w ∧ w ≤ z) : g.set w q x v k = g v k := by
    simp only [Jet.set]
    rw [if_neg (by omega)]
  cases hvalid with
  | constant hi | arithmetic f hf ha hb | discrete f hx | choose r hl hr ht hf | sum hi hx
  | load offset hi hs =>
    simp only [Opcode.resultCount] at hrow
    exact skip (w := z) (by omega)
  | power f hf ha hb =>
    simp only [Opcode.resultCount] at hrow
    cases f <;> simp only [Jet.advance, Jet.power] <;>
      rw [skip (by omega), skip (by omega), skip (by omega)]
  | elementary f hx =>
    simp only [Opcode.resultCount] at hrow
    cases f <;> simp only [Elementary.resultCount] at hrow <;>
      simp only [Jet.advance, Jet.elementary, Jet.sineCosine, Jet.tangent, Jet.inverse] <;>
      rw [skip (by omega)]
    all_goals rw [skip (by omega)]
  | erf hx hi hk =>
    simp only [Opcode.resultCount] at hrow
    simp only [Jet.advance, Jet.erf]
    rw [skip (by omega), skip (by omega), skip (by omega), skip (by omega), skip (by omega)]
  | skip r s t hl hr | store offset hi hv | compare f hl hr | print before after hp hv => rfl

end JetTape.Jet
