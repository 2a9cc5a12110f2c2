import JetTape.Replay.Cursor

/-!
The ways of the cursor. It passes marked instructions one by one and the blocks of marked call
markers as a whole, until it stands at an unmarked instruction or faults. Nothing is asked of the
program: a marker may count what it likes, and any instruction may fail to be read. Every turn of
the loop takes the cursor forward, so the mask bounds the number of turns.
-/
namespace JetTape.Cursor

variable {F : Type} {p : Program F} {mask : Array Bool} {i n : Nat}

/-- Instruction `i` is a marker of the given call. -/
def Opens (p : Program F) (i : Nat) (site : CallSite F) : Prop :=
  ∃ ins, p.instr i = .ok ins ∧ ins.op = .callMarker ∧ p.callSite ins.args = .ok site

/-- Where a block that opens at `i` has to close: behind as many instructions as its marker counts
arguments and results. -/
def closing (i : Nat) (site : CallSite F) : Nat := i + (site.argCount + site.resultCount + 1)

/-- From `i` to `j` there is a single instruction that is no marker, or a span from one marker to
another with as many instructions between them as the first one counts. -/
inductive Advances (p : Program F) (mask : Array Bool) (i : Nat) : Nat → Prop where
  | single {ins : Instr} (hins : p.instr i = .ok ins) (hop : ins.op ≠ .callMarker) :
      Advances p mask i (i + 1)
  | block {site : CallSite F} {ins : Instr} (hopens : Opens p i site)
      (hbound : closing i site < Index.bound) (hsize : closing i site < mask.size)
      (hins : p.instr (closing i site) = .ok ins) (hop : ins.op = .callMarker) :
      Advances p mask i (closing i site + 1)

/-- What keeps the cursor from passing instruction `i`. -/
inductive Stalls (p : Program F) (mask : Array Bool) (i : Nat) : Fault → Prop where
  | unread {f : Fault} (hins : p.instr i = .error f) : Stalls p mask i f
  | uncounted {ins : Instr} {f : Fault} (hins : p.instr i = .ok ins) (hop : ins.op = .callMarker)
      (hsite : p.callSite ins.args = .error f) : Stalls p mask i f
  | overflow {site : CallSite F} (hopens : Opens p i site) (hbound : Index.bound ≤ closing i site) :
      Stalls p mask i .addOverflow
  | pastMask {site : CallSite F} (hopens : Opens p i site) (hbound : closing i site < Index.bound)
      (hsize : mask.size ≤ closing i site) :
      Stalls p mask i (.skippedCallNotClosed site.operator.name (closing i site))
  | unreadClosing {site : CallSite F} {f : Fault} (hopens : Opens p i site)
      (hbound : closing i site < Index.bound) (hsize : closing i site < mask.size)
      (hins : p.instr (closing i site) = .error f) : Stalls p mask i f
  | unclosed {site : CallSite F} {ins : Instr} (hopens : Opens p i site)
      (hbound : closing i site < Index.bound) (hsize : closing i site < mask.size)
      (hins : p.instr (closing i site) = .ok ins) (hop : ins.op ≠ .callMarker) :
      Stalls p mask i (.skippedCallNotClosed site.operator.name (closing i site))

/-- The positions from `i` up to `j` split into marked instructions that are no markers and spans
whose opening marker is marked. -/
inductive Passes (p : Program F) (mask : Array Bool) : Nat → Nat → Prop where
  | refl (i : Nat) : Passes p mask i i
  | cons {i k j : Nat} (hmark : mask[i]? = some true) (hstep : Advances p mask i k)
      (hrest : Passes p mask k j) : Passes p mask i j

/-- The cursor faults at position `k`: the mask ends there, or the instruction is marked and cannot
be passed. -/
def Fails (p : Program F) (mask : Array Bool) (k : Nat) (f : Fault) : Prop :=
  (mask.size ≤ k ∧ f = .skippedPastEnd k) ∨ (mask[k]? = some true ∧ Stalls p mask k f)

theorem ok_bind {α β : Type} (x : α) (k : α → Except Fault β) : Except.ok x >>= k = k x := rfl

theorem add_bind {α : Type} (a b : Nat) (k : Nat → Except Fault α) :
    Index.add a b >>= k = if a + b < Index.bound then k (a + b) else .error .addOverflow := by
  unfold Index.add
  split <;> rfl

/-- The closing position of a block can be computed unless it is out of range itself. -/
theorem closing_bind {α : Type} (i : Nat) (site : CallSite F) (k : Nat → Except Fault α) :
    (do
      let span ← Index.add (← Index.add site.argCount site.resultCount) 1
      let last ← Index.add i span
      k last) =
      if closing i site < Index.bound then k (closing i site) else .error .addOverflow := by
  simp only [add_bind, closing]
  -- The partial sums are smaller, so only the last addition decides.
  by_cases hbound : i + (site.argCount + site.resultCount + 1) < Index.bound
  · have hspan : site.argCount + site.resultCount + 1 < Index.bound := by omega
    have hcounts : site.argCount + site.resultCount < Index.bound := by omega
    simp only [hcounts, hspan, hbound, if_true]
  · simp only [hbound, if_false, ite_self]

variable (p mask i) in
/-- A turn of the cursor at an instruction passes it or stalls. -/
theorem turn : match pass p mask i with
    | .ok j => Advances p mask i j
    | .error f => Stalls p mask i f := by
  unfold pass
  cases hins : p.instr i with
  | error f => exact .unread hins
  | ok ins =>
    by_cases hop : ins.op = .callMarker
    · cases hsite : p.callSite ins.args with
      | error f =>
        simp only [bind, Except.bind, hop, if_true, hsite]
        exact .uncounted hins hop hsite
      | ok site =>
        have hopens : Opens p i site := ⟨ins, hins, hop, hsite⟩
        simp only [ok_bind, hop, if_true, hsite, closing_bind]
        by_cases hbound : closing i site < Index.bound
        · rw [if_pos hbound]
          by_cases hsize : closing i site < mask.size
          · cases hlast : p.instr (closing i site) with
            | error f =>
              simp only [require, hsize, if_true, ok_bind]
              exact .unreadClosing hopens hbound hsize hlast
            | ok last =>
              by_cases hop' : last.op = .callMarker
              · simp only [require, hsize, hop', if_true, ok_bind]
                exact .block hopens hbound hsize hlast hop'
              · simp only [require, hsize, hop', if_true, if_false, ok_bind]
                exact .unclosed hopens hbound hsize hlast hop'
          · simp only [require, hsize, if_false]
            exact .pastMask hopens hbound (Nat.le_of_not_lt hsize)
        · rw [if_neg hbound]
          exact .overflow hopens (Nat.le_of_not_lt hbound)
    · simp only [ok_bind, hop, if_false]
      exact .single hins hop

variable (p mask) in
/-- The ways of the cursor: it has passed marked instructions and blocks where it comes to stand or
faults. -/
theorem ways (i : Nat) : match next p mask i with
    | .ok j => Passes p mask i j ∧ mask[j]? = some false
    | .error f => ∃ k, Passes p mask i k ∧ Fails p mask k f := by
  -- The induction is on the turns of the cursor, and each turn adds itself in front.
  induction i using next.induct p mask with
  | case1 i hi hm k hp ih =>
    have hmark : mask[i]? = some true := by simp [hi, hm]
    have hturn := turn p mask i
    rw [hp] at hturn
    rw [next_of_marked hmark hp]
    cases hnext : next p mask k with
    | ok j =>
      rw [hnext] at ih
      exact ⟨.cons hmark hturn ih.1, ih.2⟩
    | error f =>
      rw [hnext] at ih
      obtain ⟨l, hpasses, hfails⟩ := ih
      exact ⟨l, .cons hmark hturn hpasses, hfails⟩
  | case2 i hi hm f hp =>
    have hmark : mask[i]? = some true := by simp [hi, hm]
    have hturn := turn p mask i
    rw [hp] at hturn
    have hnext : next p mask i = .error f := by rw [next, dif_pos hi, if_pos hm, hp]
    rw [hnext]
    exact ⟨i, .refl i, .inr ⟨hmark, hturn⟩⟩
  | case3 i hi hm =>
    have hmark : mask[i]? = some false := by simpa [hi] using hm
    rw [next_of_unmarked hmark]
    exact ⟨.refl i, hmark⟩
  | case4 i hi =>
    have hnext : next p mask i = .error (.skippedPastEnd i) := by rw [next, dif_neg hi]
    rw [hnext]
    exact ⟨i, .refl i, .inl ⟨Nat.le_of_not_lt hi, rfl⟩⟩

/-- The loop of the cursor, given up after `n` turns. -/
def nextWithin (p : Program F) (mask : Array Bool) : Nat → Nat → Option (Except Fault Nat)
  | 0, _ => none
  | n + 1, i =>
    match mask[i]? with
    | none => some (.error (.skippedPastEnd i))
    | some false => some (.ok i)
    | some true =>
      match pass p mask i with
      | .ok j => nextWithin p mask n j
      | .error f => some (.error f)

/-- The loop ends within one turn for each position that the mask has left, and one more. -/
theorem nextWithin_eq (h : mask.size - i < n) : nextWithin p mask n i = some (next p mask i) := by
  induction n generalizing i with
  | zero => omega
  | succ n ih =>
    unfold nextWithin
    split
    · next hmark =>
      have hi : ¬ i < mask.size := by simpa using hmark
      rw [next, dif_neg hi]
    · next hmark => rw [next_of_unmarked hmark]
    · next hmark =>
      obtain ⟨hi, hm⟩ := Array.getElem?_eq_some_iff.mp hmark
      split
      · next j hpass =>
        have hlt := lt_of_pass hpass
        rw [ih (by omega), next_of_marked hmark hpass]
      · next f hpass => rw [next, dif_pos hi, if_pos hm, hpass]

end JetTape.Cursor
